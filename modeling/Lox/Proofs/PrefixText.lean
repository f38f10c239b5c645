/-
  Lox.Proofs.PrefixText
  ────────────────────────────────
  **THE PREFIX FORM OF AN EXPRESSION IS UNAMBIGUOUS.**

  The prefix form has one shape for all that has operands: a parenthesis, a mark, the
  operands with a space before each, and a parenthesis.  All else is an atom.

    • An atom ends before the next space or parenthesis, or at its own quote, and its
      text tells it (`eq_of_atom_text`): a number by `Number.text_injective`.
    • A mark ends before the first operand.  The mark and the operands tell the
      expression (`ofMark?_operands`): a minus has one operand or two, and no operator
      is written `call` or `group`.

  So the text of an expression can be told from whatever follows it
  (`Told.selfDelimiting`), and two expressions of any programs have the same text only
  if they are the same but for their lines.
-/
import Lox.Proofs.Grammar.Origins
import Lox.Proofs.Number.Text
import Lox.Proofs.Renumber
import Lox.Tree.Text

namespace Lox

/-! ## §1. Marks and operands. -/

/-- Whether an expression is a function. -/
def Expr.isFunction : Expr → Bool
  | .function _ _ _ => true
  | _ => false

/-- The same expression with all of it on one line. -/
def Expr.unlined (e : Expr) : Expr := e.renumber fun _ => 0

/-- What the prefix form writes before the operands. -/
def Expr.mark? : Expr → Option String
  | .unary operator _ | .binary _ operator _ | .logical _ operator _ | .pipe _ operator _ =>
    some operator.lexeme
  | .call _ _ _ => some "call"
  | .assign _ _ => some "="
  | .group _ => some "group"
  | .literal _ | .name _ | .function _ _ _ => none

/-- What the prefix form writes behind the mark. The target of an assignment is written
as a name is. -/
def Expr.operands : Expr → List Expr
  | .unary _ inner | .group inner => [inner]
  | .binary left _ right | .logical left _ right | .pipe left _ right => [left, right]
  | .call callee _ arguments => callee :: arguments
  | .assign target value => [.name target, value]
  | .literal _ | .name _ | .function _ _ _ => []

variable {e f : Expr} {mark : String}

theorem Expr.toList_of_mark (h : e.mark? = some mark) :
    e.prefixText.toList =
      '(' :: (mark.toList ++ ((Expr.prefixTexts e.operands).toList ++ [')'])) := by
  cases e <;> cases h <;> simp [Expr.prefixText, Expr.prefixTexts, Expr.operands]

theorem Expr.toList_prefixTexts_cons (x : Expr) (xs : List Expr) :
    (Expr.prefixTexts (x :: xs)).toList =
      ' ' :: (x.prefixText.toList ++ (Expr.prefixTexts xs).toList) := by
  simp [Expr.prefixTexts]

theorem Expr.exists_operand (h : e.mark? = some mark) : ∃ x xs, e.operands = x :: xs := by
  cases e <;> cases h <;> exact ⟨_, _, rfl⟩

theorem Expr.length_le_prefixTexts {x : Expr} {xs : List Expr} (h : x ∈ xs) :
    x.prefixText.toList.length ≤ (Expr.prefixTexts xs).toList.length := by
  induction xs with
  | nil => cases h
  | cons y ys ih =>
    rw [Expr.toList_prefixTexts_cons, List.length_cons, List.length_append]
    rcases List.mem_cons.1 h with rfl | h
    · omega
    · have := ih h
      omega

/-- The text of an operand is shorter than the whole. -/
theorem Expr.length_operand_lt {x : Expr} (h : e.mark? = some mark) (hx : x ∈ e.operands) :
    x.prefixText.toList.length < e.prefixText.toList.length := by
  have hle := Expr.length_le_prefixTexts hx
  rw [Expr.toList_of_mark h]
  simp only [List.length_cons, List.length_append]
  omega

/-! ## §2. Expressions that are told by their texts. -/

/-- An expression without a function in it, whose numbers are finite. -/
structure Expr.Printable (e : Expr) : Prop where
  noFunction : ∀ x ∈ e.nodes, x.isFunction = false
  finite : ∀ v, Expr.literal (.number v) ∈ e.nodes → v.isFinite = true

/-- Such an expression, built of spelled tokens. -/
structure Expr.Told (e : Expr) : Prop extends e.Printable where
  genuine : AllGenuine e.nodes

theorem Expr.self_mem_nodes (e : Expr) : e ∈ e.nodes := by
  cases e <;> exact .head _

theorem Expr.Told.of_mem {x : Expr} (h : e.Told) (hx : x ∈ e.nodes) : x.Told where
  noFunction y hy := h.noFunction y (Expr.mem_nodes_trans hy e hx)
  finite v hv := h.finite v (Expr.mem_nodes_trans hv e hx)
  genuine y hy := h.genuine y (Expr.mem_nodes_trans hy e hx)

theorem Expr.mem_nodesAll_of_mem {x : Expr} {xs : List Expr} (h : x ∈ xs) :
    x ∈ Expr.nodesAll xs := by
  induction xs with
  | nil => cases h
  | cons y ys ih =>
    rcases List.mem_cons.1 h with rfl | h
    · exact List.mem_append_left _ x.self_mem_nodes
    · exact List.mem_append_right _ (ih h)

theorem Expr.Told.operands (h : e.Told) : ∀ x ∈ e.operands, x.Told := by
  intro x hx
  cases e with
  | literal | name | function => cases hx
  | unary operator inner | group inner =>
    obtain rfl := List.mem_singleton.1 hx
    exact h.of_mem (.tail _ x.self_mem_nodes)
  | binary left operator right | logical left operator right | pipe left operator right =>
    refine h.of_mem (.tail _ (List.mem_append.2 ?_))
    rcases List.mem_cons.1 hx with rfl | hx
    · exact .inl x.self_mem_nodes
    · exact .inr (List.mem_singleton.1 hx ▸ right.self_mem_nodes)
  | call callee paren arguments =>
    refine h.of_mem (.tail _ (List.mem_append.2 ?_))
    rcases List.mem_cons.1 hx with rfl | hx
    · exact .inl x.self_mem_nodes
    · exact .inr (Expr.mem_nodesAll_of_mem hx)
  | assign target value =>
    rcases List.mem_cons.1 hx with rfl | hx
    · -- The target is spelled as a name, though it is no expression of its own.
      obtain ⟨hspelled, hname⟩ := h.genuine _ (.head _)
      exact ⟨⟨by simp [Expr.nodes, Expr.isFunction], by simp [Expr.nodes]⟩,
        allGenuine_cons.2 ⟨⟨hspelled, .inl hname⟩, allGenuine_nil⟩⟩
    · obtain rfl := List.mem_singleton.1 hx
      exact h.of_mem (.tail _ x.self_mem_nodes)

/-! ## §3. Tokens without their lines. -/

section Tokens

variable {t : Token}

theorem Token.renumber_zero (t : Token) : t.renumber (fun _ => 0) = ⟨t.kind, t.lexeme, 0⟩ := rfl

theorem Token.IsSpelled.lexeme {kind : TokenKind} (ht : t.IsSpelled) (hk : t.kind = kind)
    (hstring : ∀ v, kind ≠ .string v) : Lexeme kind t.lexeme.toList := by
  unfold IsSpelled at ht
  rw [hk] at ht
  generalize t.lexeme.toList = text at ht ⊢
  cases ht with
  | lexeme h => exact h
  | string _ => exact absurd rfl (hstring _)

theorem Token.lexeme_of_symbol {s : Symbol} (ht : t.IsSpelled) (hk : t.kind = .symbol s) :
    t.lexeme = s.text := by
  have hlexeme := ht.lexeme hk nofun
  generalize htext : t.lexeme.toList = text at hlexeme
  cases hlexeme with
  | symbol s => exact String.toList_inj.1 htext

theorem Token.lexeme_of_keyword {k : Keyword} (ht : t.IsSpelled) (hk : t.kind = .keyword k) :
    t.lexeme = k.text := by
  have hlexeme := ht.lexeme hk nofun
  generalize htext : t.lexeme.toList = text at hlexeme
  cases hlexeme with
  | keyword k => exact String.toList_inj.1 htext

theorem Token.lexeme_of_isIdentifier (ht : t.IsSpelled) (h : t.isIdentifier = true) :
    Lexeme .identifier t.lexeme.toList :=
  ht.lexeme (kind_of_isIdentifier h) nofun

end Tokens

/-! ## §4. Atoms. -/

/-- The characters that can stand in an atom that is no string. -/
def inAtom (c : Char) : Bool := !(c = ' ' || c = '(' || c = ')' || c = '"')

/-- The atom with a text, if it is no number. -/
def readAtom? : List Char → Option Expr
  | [] => none
  | c :: cs =>
    -- What goes on behind the value of a string is its other quote.
    if c = '"' then some (.literal (.string (String.ofList cs.dropLast)))
    else if c = '$' then some (.name ⟨.symbol .dollar, "$", 0⟩)
    else if c.isDigit then none
    else
      match Keyword.ofText? (String.ofList (c :: cs)) with
      | some .nilWord => some (.literal .nil)
      | some .trueWord => some (.literal (.bool true))
      | some .falseWord => some (.literal (.bool false))
      | _ => some (.name ⟨.identifier, String.ofList (c :: cs), 0⟩)

theorem inAtom_of_isWordChar {c : Char} (h : isWordChar c = true) : inAtom c = true := by
  by_contra hout
  simp only [inAtom, Bool.not_eq_true', Bool.not_eq_false, Bool.or_eq_true,
    decide_eq_true_eq] at hout
  rcases hout with ((rfl | rfl) | rfl) | rfl <;> exact absurd h (by decide)

theorem readAtom?_identifier {text : List Char} (h : Lexeme .identifier text) :
    readAtom? text = some (.name ⟨.identifier, String.ofList text, 0⟩) := by
  cases h with
  | @identifier c cs hc hcs hname =>
    have hword : Keyword.ofText? (String.ofList (c :: cs)) = none := by
      by_contra hsome
      obtain ⟨k, hk⟩ := Option.ne_none_iff_exists'.1 hsome
      apply hname k
      rw [Keyword.text_eq_of_ofText? hk, String.toList_ofList]
    have hquote : c ≠ '"' := fun hquote => absurd (hquote ▸ hc) (by decide)
    have hdollar : c ≠ '$' := fun hdollar => absurd (hdollar ▸ hc) (by decide)
    simp only [readAtom?, hquote, hdollar, isDigit_of_wordStart hc, hword, if_false]
    rfl

theorem Expr.Told.toBits_lt {v : Float} (h : (Expr.literal (.number v)).Told) :
    v.toBits.toNat < Number.infinityBits := by
  obtain ⟨ds, fs, rfl⟩ := h.genuine _ (.head _)
  exact Number.toBits_ofDecimal_lt (h.finite _ (.head _))

/-- The text of a number begins with a digit and goes on with digits and a point. -/
theorem Number.Denotes.text {text : List Char} {x : ℚ} (h : Number.Denotes text x) :
    (∃ c cs, text = c :: cs ∧ c.isDigit = true) ∧ ∀ c ∈ text, inAtom c = true := by
  have hdigits {ds : List Char} (hds : Digits ds) : ∀ c ∈ ds, inAtom c = true :=
    fun c hc => inAtom_of_isWordChar (isWordChar_of_isDigit (hds.2 c hc))
  cases h with
  | whole hds => exact ⟨hds.cons, hdigits hds⟩
  | decimal hds hfs =>
    obtain ⟨c, cs, rfl, hc⟩ := hds.cons
    refine ⟨⟨c, _, List.cons_append, hc⟩, List.forall_mem_append.2 ⟨hdigits hds, ?_⟩⟩
    exact List.forall_mem_cons.2 ⟨rfl, hdigits hfs⟩

theorem readAtom?_number {v : Float} (h : (Expr.literal (.number v)).Told) :
    readAtom? (Expr.literal (.number v)).prefixText.toList = none := by
  obtain ⟨x, hx, -⟩ := Number.text_denotes h.toBits_lt
  obtain ⟨⟨c, cs, htext, hc⟩, -⟩ := hx.text
  have hquote : c ≠ '"' := fun hquote => absurd (hquote ▸ hc) (by decide)
  have hdollar : c ≠ '$' := fun hdollar => absurd (hdollar ▸ hc) (by decide)
  show readAtom? (Number.text v).toList = none
  rw [htext]
  simp only [readAtom?, hquote, hdollar, hc, if_true, if_false]

/-- Every atom but a number is read from its text. -/
theorem readAtom?_prefixText (h : e.Told) (hmark : e.mark? = none) :
    readAtom? e.prefixText.toList = some e.unlined ∨
      readAtom? e.prefixText.toList = none ∧ ∃ v, e = .literal (.number v) := by
  have htop := h.genuine e e.self_mem_nodes
  cases e with
  | literal value =>
    cases value with
    | nil => exact .inl rfl
    | bool b => cases b <;> exact .inl rfl
    | number v => exact .inr ⟨readAtom?_number h, v, rfl⟩
    | string value =>
      left
      simp [Expr.prefixText, Literal.text, readAtom?, Expr.unlined, Expr.renumber]
  | name t =>
    left
    show readAtom? t.lexeme.toList = some (.name ⟨t.kind, t.lexeme, 0⟩)
    obtain ⟨hspelled, hname | hdollar⟩ := htop
    · rw [kind_of_isIdentifier hname,
        readAtom?_identifier (Token.lexeme_of_isIdentifier hspelled hname), String.ofList_toList]
    · have hk := kind_of_isSymbol hdollar
      rw [hk, Token.lexeme_of_symbol hspelled hk]
      rfl
  | function => exact Bool.noConfusion (h.noFunction _ (Expr.self_mem_nodes _))
  | _ => cases hmark

/-- **An atom is told by its text.** -/
theorem eq_of_atom_text (he : e.Told) (hf : f.Told) (hmark : e.mark? = none)
    (hmark' : f.mark? = none) (htext : e.prefixText = f.prefixText) : e.unlined = f.unlined := by
  have hread' := readAtom?_prefixText hf hmark'
  rw [← htext] at hread'
  rcases readAtom?_prefixText he hmark with hread | ⟨hread, v, rfl⟩
  · rcases hread' with hread' | ⟨hread', -⟩
    · exact Option.some.inj (hread.symm.trans hread')
    · cases hread.symm.trans hread'
  · rcases hread' with hread' | ⟨-, w, rfl⟩
    · cases hread.symm.trans hread'
    · rw [Number.text_injective he.toBits_lt hf.toBits_lt htext]

/-- An atom is a string, or it has no space, parenthesis or quote in it. -/
theorem atom_cases (h : e.Told) (hmark : e.mark? = none) :
    (∃ value : String, e = .literal (.string value) ∧ '"' ∉ value.toList) ∨
      (e.prefixText.toList ≠ [] ∧ ∀ c ∈ e.prefixText.toList, inAtom c = true) := by
  have htop := h.genuine e e.self_mem_nodes
  cases e with
  | literal value =>
    cases value with
    | nil => exact .inr ⟨by decide, List.all_eq_true.1 (by decide)⟩
    | bool b => cases b <;> exact .inr ⟨by decide, List.all_eq_true.1 (by decide)⟩
    | number v =>
      obtain ⟨x, hx, -⟩ := Number.text_denotes h.toBits_lt
      obtain ⟨⟨c, cs, htext, -⟩, hall⟩ := hx.text
      exact .inr ⟨htext ▸ nofun, hall⟩
    | string value => exact .inl ⟨value, rfl, htop⟩
  | name t =>
    right
    show t.lexeme.toList ≠ [] ∧ ∀ c ∈ t.lexeme.toList, inAtom c = true
    obtain ⟨hspelled, hname | hdollar⟩ := htop
    · have hlexeme := Token.lexeme_of_isIdentifier hspelled hname
      refine ⟨hlexeme.ne_nil, ?_⟩
      generalize t.lexeme.toList = text at hlexeme
      cases hlexeme with
      | identifier hc hcs _ =>
        exact List.forall_mem_cons.2 ⟨inAtom_of_isWordChar (isWordChar_of_isWordStart hc),
          fun d hd => inAtom_of_isWordChar (hcs d hd)⟩
    · rw [Token.lexeme_of_symbol hspelled (kind_of_isSymbol hdollar)]
      exact ⟨by decide, List.all_eq_true.1 (by decide)⟩
  | function => exact Bool.noConfusion (h.noFunction _ (Expr.self_mem_nodes _))
  | _ => cases hmark

theorem toList_string (value : String) :
    (Expr.literal (.string value)).prefixText.toList = '"' :: (value.toList ++ ['"']) := by
  simp [Expr.prefixText, Literal.text]

theorem append_ne_cons {c : Char} {text rest after : List Char} (hne : text ≠ [])
    (hall : ∀ d ∈ text, inAtom d = true) (hc : inAtom c = false) :
    text ++ rest ≠ c :: after := by
  obtain ⟨d, ds, rfl⟩ := List.exists_cons_of_ne_nil hne
  intro h
  obtain rfl := (List.cons.inj h).1
  exact Bool.noConfusion (hc.symm.trans (hall d (.head _)))

/-- **An atom is told from what follows it.** -/
theorem atom_append_inj {rest after : List Char} (he : e.Told) (hf : f.Told)
    (hmark : e.mark? = none) (hmark' : f.mark? = none) (hrest : Stops inAtom rest)
    (hafter : Stops inAtom after)
    (h : e.prefixText.toList ++ rest = f.prefixText.toList ++ after) :
    e.unlined = f.unlined ∧ rest = after := by
  rcases atom_cases he hmark with ⟨v, rfl, hv⟩ | ⟨hne, hall⟩
  · rcases atom_cases hf hmark' with ⟨w, rfl, hw⟩ | ⟨hne', hall'⟩
    · rw [toList_string, toList_string, List.cons_append, List.cons_append, List.append_assoc,
        List.append_assoc] at h
      obtain ⟨hvalue, hbehind⟩ := append_inj_of_stops (ne_of_not_mem hv) (ne_of_not_mem hw)
        (stops_cons (by decide) _) (stops_cons (by decide) _) (List.cons.inj h).2
      rw [String.toList_inj.1 hvalue]
      exact ⟨rfl, (List.cons.inj hbehind).2⟩
    · rw [toList_string] at h
      exact absurd h.symm (append_ne_cons hne' hall' rfl)
  · rcases atom_cases hf hmark' with ⟨w, rfl, hw⟩ | ⟨hne', hall'⟩
    · rw [toList_string] at h
      exact absurd h (append_ne_cons hne hall rfl)
    · obtain ⟨htext, hbehind⟩ := append_inj_of_stops hall hall' hrest hafter h
      exact ⟨eq_of_atom_text he hf hmark hmark' (String.toList_inj.1 htext), hbehind⟩

/-! ## §5. Marks. -/

/-- The expression with a mark and operands, if there is one. -/
def Expr.ofMark? (mark : String) : List Expr → Option Expr
  | [] => none
  | x :: xs =>
    if mark = "call" then some (.call x ⟨.symbol .rightParen, ")", 0⟩ xs)
    else if mark = "group" then some (.group x)
    else
      -- A symbol with one operand is a sign or a negation, whatever else it can be.
      match Keyword.ofText? mark, Symbol.all.find? (·.text = mark), x, xs with
      | some k, _, x, [y] => some (.logical x ⟨.keyword k, mark, 0⟩ y)
      | none, some .equal, .name t, [y] => some (.assign t y)
      | none, some .pipe, x, [y] => some (.pipe x ⟨.symbol .pipe, mark, 0⟩ y)
      | none, some s, x, [] => some (.unary ⟨.symbol s, mark, 0⟩ x)
      | none, some s, x, [y] => some (.binary x ⟨.symbol s, mark, 0⟩ y)
      | _, _, _, _ => none

section Operators

variable {t : Token}

theorem ofMark?_unary (ht : t.IsSpelled) (h : t.isPrefixOperator = true) (x : Expr) :
    Expr.ofMark? t.lexeme [x] = some (.unary (t.renumber fun _ => 0) x) := by
  rcases Bool.or_eq_true_iff.1 h with h | h
  all_goals
    have hk := kind_of_isSymbol h
    rw [Token.renumber_zero, hk, Token.lexeme_of_symbol ht hk]
    rfl

theorem ofMark?_binary (ht : t.IsSpelled) (h : t.isBinaryOperator = true) (x y : Expr) :
    Expr.ofMark? t.lexeme [x, y] = some (.binary x (t.renumber fun _ => 0) y) := by
  unfold Token.isBinaryOperator at h
  split at h
  case h_11 => cases h
  all_goals
    next hk =>
      rw [Token.renumber_zero, hk, Token.lexeme_of_symbol ht hk]
      rfl

theorem ofMark?_logical (ht : t.IsSpelled) (h : t.isLogicalOperator = true) (x y : Expr) :
    Expr.ofMark? t.lexeme [x, y] = some (.logical x (t.renumber fun _ => 0) y) := by
  rcases Bool.or_eq_true_iff.1 h with h | h
  all_goals
    have hk := kind_of_isKeyword h
    rw [Token.renumber_zero, hk, Token.lexeme_of_keyword ht hk]
    rfl

theorem ofMark?_pipe (ht : t.IsSpelled) (h : t.isSymbol .pipe = true) (x y : Expr) :
    Expr.ofMark? t.lexeme [x, y] = some (.pipe x (t.renumber fun _ => 0) y) := by
  have hk := kind_of_isSymbol h
  rw [Token.renumber_zero, hk, Token.lexeme_of_symbol ht hk]
  rfl

end Operators

/-- **An expression is told by its mark and its operands.** -/
theorem ofMark?_operands (h : e.Told) (hmark : e.mark? = some mark) :
    Expr.ofMark? mark (e.operands.map Expr.unlined) = some e.unlined := by
  have htop := h.genuine e e.self_mem_nodes
  cases e with
  | literal | name | function => cases hmark
  | call callee paren arguments =>
    obtain rfl := Option.some.inj hmark
    have hk := kind_of_isSymbol htop.2
    show _ = some (Expr.call _ (paren.renumber _) (Expr.renumberAll (fun _ => 0) arguments))
    rw [Token.renumber_zero, hk, Token.lexeme_of_symbol htop.1 hk, Expr.renumberAll_eq_map]
    rfl
  | group inner =>
    obtain rfl := Option.some.inj hmark
    rfl
  | assign target value =>
    obtain rfl := Option.some.inj hmark
    rfl
  | unary operator inner =>
    obtain rfl := Option.some.inj hmark
    exact ofMark?_unary htop.1 htop.2 _
  | binary left operator right =>
    obtain rfl := Option.some.inj hmark
    exact ofMark?_binary htop.1 htop.2 _ _
  | logical left operator right =>
    obtain rfl := Option.some.inj hmark
    exact ofMark?_logical htop.1 htop.2 _ _
  | pipe left operator right =>
    obtain rfl := Option.some.inj hmark
    exact ofMark?_pipe htop.1 htop.2 _ _

/-- A mark ends where the first operand begins. -/
theorem isSpace_of_mem_mark (h : e.Told) (hmark : e.mark? = some mark) :
    ∀ c ∈ mark.toList, (!isSpace c) = true := by
  have hlexeme {t : Token} (ht : t.IsSpelled) (hstring : ∀ v, t.kind ≠ .string v) :
      ∀ c ∈ t.lexeme.toList, (!isSpace c) = true := by
    intro c hc
    rw [(ht.lexeme rfl hstring).isSpace_of_mem c hc]
    rfl
  have htop := h.genuine e e.self_mem_nodes
  cases e with
  | literal | name | function => cases hmark
  | call | group | assign =>
    obtain rfl := Option.some.inj hmark
    exact List.all_eq_true.1 (by decide)
  | unary operator inner =>
    obtain rfl := Option.some.inj hmark
    refine hlexeme htop.1 fun v hk => absurd htop.2 ?_
    simp [Token.isPrefixOperator, Token.isSymbol, hk]
  | binary left operator right =>
    obtain rfl := Option.some.inj hmark
    refine hlexeme htop.1 fun v hk => absurd htop.2 ?_
    simp [Token.isBinaryOperator, hk]
  | logical left operator right =>
    obtain rfl := Option.some.inj hmark
    refine hlexeme htop.1 fun v hk => absurd htop.2 ?_
    simp [Token.isLogicalOperator, Token.isKeyword, hk]
  | pipe left operator right =>
    obtain rfl := Option.some.inj hmark
    refine hlexeme htop.1 fun v hk => absurd htop.2 ?_
    simp [Token.isSymbol, hk]

/-! ## §6. Unique reading. -/

/-- An expression whose text is told from what follows it, and tells the expression. -/
def Expr.SelfDelimiting (e : Expr) : Prop :=
  ∀ {f : Expr} {rest after : List Char}, f.Told → Stops inAtom rest → Stops inAtom after →
    e.prefixText.toList ++ rest = f.prefixText.toList ++ after →
    e.unlined = f.unlined ∧ rest = after

section UniqueReading

variable {rest after : List Char}

theorem stops_prefixTexts (xs : List Expr) (rest : List Char) :
    Stops inAtom ((Expr.prefixTexts xs).toList ++ ')' :: rest) := by
  cases xs with
  | nil => exact stops_cons rfl _
  | cons x xs =>
    rw [Expr.toList_prefixTexts_cons]
    exact stops_cons rfl _

/-- Operands are told from the parenthesis behind them, if each of them is told. -/
theorem prefixTexts_append_inj {xs ys : List Expr} (hxs : ∀ x ∈ xs, x.SelfDelimiting)
    (hys : ∀ y ∈ ys, y.Told)
    (h : (Expr.prefixTexts xs).toList ++ ')' :: rest =
      (Expr.prefixTexts ys).toList ++ ')' :: after) :
    xs.map Expr.unlined = ys.map Expr.unlined ∧ rest = after := by
  induction xs generalizing ys with
  | nil =>
    cases ys with
    | nil => exact ⟨rfl, (List.cons.inj h).2⟩
    | cons y ys =>
      rw [Expr.toList_prefixTexts_cons] at h
      exact absurd (List.cons.inj h).1 (by decide)
  | cons x xs ih =>
    rw [Expr.toList_prefixTexts_cons] at h
    cases ys with
    | nil => exact absurd (List.cons.inj h).1 (by decide)
    | cons y ys =>
      rw [Expr.toList_prefixTexts_cons, List.cons_append, List.cons_append, List.append_assoc,
        List.append_assoc] at h
      obtain ⟨hfirst, hbehind⟩ := hxs x (.head _) (hys y (.head _)) (stops_prefixTexts _ _)
        (stops_prefixTexts _ _) (List.cons.inj h).2
      obtain ⟨hothers, hrest⟩ := ih (fun z hz => hxs z (.tail _ hz))
        (fun z hz => hys z (.tail _ hz)) hbehind
      exact ⟨congrArg₂ List.cons hfirst hothers, hrest⟩

/-- An atom does not begin as what has operands. -/
theorem atom_ne_paren (h : e.Told) (hmark : e.mark? = none) :
    e.prefixText.toList ++ rest ≠ '(' :: after := by
  rcases atom_cases h hmark with ⟨v, rfl, -⟩ | ⟨hne, hall⟩
  · rw [toList_string]
    exact fun hparen => absurd (List.cons.inj hparen).1 (by decide)
  · exact append_ne_cons hne hall rfl

theorem toList_append_of_mark (hmark : e.mark? = some mark) (rest : List Char) :
    e.prefixText.toList ++ rest =
      '(' :: (mark.toList ++ ((Expr.prefixTexts e.operands).toList ++ ')' :: rest)) := by
  rw [Expr.toList_of_mark hmark, List.cons_append, List.append_assoc, List.append_assoc]
  rfl

theorem stops_operands (hmark : e.mark? = some mark) (rest : List Char) :
    Stops (!isSpace ·) ((Expr.prefixTexts e.operands).toList ++ rest) := by
  obtain ⟨x, xs, hoperands⟩ := Expr.exists_operand hmark
  rw [hoperands, Expr.toList_prefixTexts_cons]
  exact stops_cons rfl _

/-- What has operands is told from what follows it, if its operands are. -/
theorem marked_append_inj {mark' : String} (he : e.Told) (hf : f.Told)
    (hmark : e.mark? = some mark) (hmark' : f.mark? = some mark')
    (hoperands : ∀ x ∈ e.operands, x.SelfDelimiting)
    (h : e.prefixText.toList ++ rest = f.prefixText.toList ++ after) :
    e.unlined = f.unlined ∧ rest = after := by
  rw [toList_append_of_mark hmark, toList_append_of_mark hmark'] at h
  obtain ⟨hmarks, hbehind⟩ := append_inj_of_stops (isSpace_of_mem_mark he hmark)
    (isSpace_of_mem_mark hf hmark') (stops_operands hmark _) (stops_operands hmark' _)
    (List.cons.inj h).2
  obtain rfl := String.toList_inj.1 hmarks
  obtain ⟨hsame, hrest⟩ := prefixTexts_append_inj hoperands hf.operands hbehind
  have htold := ofMark?_operands he hmark
  rw [hsame, ofMark?_operands hf hmark'] at htold
  exact ⟨(Option.some.inj htold).symm, hrest⟩

/-- **The text of an expression is told from what follows it,** and it tells the
expression. -/
theorem Expr.Told.selfDelimiting (he : e.Told) : e.SelfDelimiting := by
  intro f rest after hf hrest hafter h
  -- By the length of the text, as the target of an assignment is no part of the tree.
  induction hlength : e.prefixText.toList.length using Nat.strong_induction_on
    generalizing e f rest after with
  | _ n ih =>
    cases hmark : e.mark? with
    | none =>
      cases hmark' : f.mark? with
      | none => exact atom_append_inj he hf hmark hmark' hrest hafter h
      | some mark' =>
        rw [toList_append_of_mark hmark'] at h
        exact absurd h (atom_ne_paren he hmark)
    | some mark =>
      cases hmark' : f.mark? with
      | none =>
        rw [toList_append_of_mark hmark] at h
        exact absurd h.symm (atom_ne_paren hf hmark')
      | some mark' =>
        refine marked_append_inj he hf hmark hmark' ?_ h
        intro x hx g rest after hg hrest hafter h
        have hshorter := Expr.length_operand_lt hmark hx
        exact ih _ (hlength ▸ hshorter) (he.operands x hx) hg hrest hafter h rfl

end UniqueReading

/-! ## §7. Expressions of programs. -/

/-- An expression that occurs in the tree of a text that is scanned and read without a
fault. -/
def OccursIn (source : String) (e : Expr) : Prop :=
  ∃ tokens, scan source = .ok tokens ∧ (parse tokens).faults = [] ∧
    e ∈ Stmt.nodesAll (parse tokens).statements

theorem OccursIn.told {source : String} (h : OccursIn source e) (hprintable : e.Printable) :
    e.Told := by
  obtain ⟨tokens, hscan, hparse, he⟩ := h
  exact ⟨hprintable, genuine_of_parse hscan hparse he⟩

mutual

/-- The prefix form does not show lines. -/
theorem Expr.prefixText_renumber (g : Nat → Nat) : (e : Expr) →
    (e.renumber g).prefixText = e.prefixText
  | .literal _ | .name _ => by simp only [Expr.renumber, Expr.prefixText, Token.renumber]
  | .unary _ inner | .assign _ inner | .group inner => by
    simp only [Expr.renumber, Expr.prefixText, Token.renumber, Expr.prefixText_renumber g inner]
  | .binary left _ right | .logical left _ right | .pipe left _ right => by
    simp only [Expr.renumber, Expr.prefixText, Token.renumber, Expr.prefixText_renumber g left,
      Expr.prefixText_renumber g right]
  | .call callee _ arguments => by
    simp only [Expr.renumber, Expr.prefixText, Expr.prefixText_renumber g callee,
      Expr.prefixTexts_renumberAll g arguments]
  | .function own parameters _ => by
    have hlexemes :
        Token.lexemes (parameters.map (Token.renumber g)) = Token.lexemes parameters := by
      simp only [Token.lexemes, List.map_map]
      rfl
    cases own <;>
      simp only [Expr.renumber, Expr.prefixText, Option.map_none, Option.map_some, hlexemes,
        Token.renumber]

theorem Expr.prefixTexts_renumberAll (g : Nat → Nat) : (es : List Expr) →
    Expr.prefixTexts (Expr.renumberAll g es) = Expr.prefixTexts es
  | [] => rfl
  | e :: es => by
    simp only [Expr.renumberAll, Expr.prefixTexts, Expr.prefixText_renumber g e,
      Expr.prefixTexts_renumberAll g es]

end

/-- **The prefix form is unambiguous.** Two expressions, each of a program that was
scanned and read without a fault, have no function in them and only finite numbers.
Then they have the same text exactly if they are the same but for their lines. -/
theorem prefixText_is_unambiguous {source source' : String} (he : OccursIn source e)
    (hf : OccursIn source' f) (hprintable : e.Printable) (hprintable' : f.Printable) :
    e.prefixText = f.prefixText ↔ e.unlined = f.unlined := by
  constructor
  · intro htext
    have hend : Stops inAtom [] := nofun
    exact ((he.told hprintable).selfDelimiting (hf.told hprintable') hend hend
      (congrArg (·.toList ++ []) htext)).1
  · intro hsame
    rw [← Expr.prefixText_renumber (fun _ => 0) e, ← Expr.prefixText_renumber (fun _ => 0) f]
    exact congrArg Expr.prefixText hsame

/-- The difference of a number and a string with a space and a parenthesis in it, with a
sign that is alone on the first line. -/
def signedDifference (line : Nat) : Expr :=
  .unary ⟨.symbol .minus, "-", 1⟩ (.group (.binary
    (.literal (.number (Number.ofDecimal ['1'] ['5']))) ⟨.symbol .minus, "-", line⟩
    (.literal (.string "a )"))))

theorem prefixText_is_unambiguous_signed_difference :
    OccursIn "-(1.50-\"a )\");" (signedDifference 1) ∧
      OccursIn "-\n(1.5 - \"a )\");" (signedDifference 2) ∧
      (signedDifference 1).Printable ∧ (signedDifference 2).Printable ∧
      (signedDifference 1).prefixText = "(- (group (- 1.5 \"a )\")))" ∧
      (signedDifference 1).unlined = (signedDifference 2).unlined := by
  have hfirst : OccursIn "-(1.50-\"a )\");" (signedDifference 1) :=
    ⟨(scan "-(1.50-\"a )\");").toOption.getD [], by with_unfolding_all rfl,
      by with_unfolding_all rfl, by with_unfolding_all exact List.mem_of_mem_head? rfl⟩
  have hsecond : OccursIn "-\n(1.5 - \"a )\");" (signedDifference 2) :=
    ⟨(scan "-\n(1.5 - \"a )\");").toOption.getD [], by with_unfolding_all rfl,
      by with_unfolding_all rfl, by with_unfolding_all exact List.mem_of_mem_head? rfl⟩
  have hprintable (line : Nat) : (signedDifference line).Printable := by
    constructor
    · simp [signedDifference, Expr.nodes, Expr.isFunction]
    · have hfinite : (Number.ofDecimal ['1'] ['5']).isFinite = true := by decide +kernel
      simpa [signedDifference, Expr.nodes] using hfinite
  have htext (line : Nat) : (signedDifference line).prefixText = "(- (group (- 1.5 \"a )\")))" := by
    with_unfolding_all rfl
  refine ⟨hfirst, hsecond, hprintable 1, hprintable 2, htext 1, ?_⟩
  exact (prefixText_is_unambiguous hfirst hsecond (hprintable 1) (hprintable 2)).1
    ((htext 1).trans (htext 2).symm)

end Lox
