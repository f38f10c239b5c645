/-
  Lox.Proofs.Lines
  ────────────────────────────────
  **WHERE LINE NUMBERS COME FROM.**

  A line number is made in one place only: the scanner gives every piece of a
  text the line on which it ends.  From there on lines are copied, with the
  tokens they belong to, into trees and faults.  Fix a property `L` of lines:

    • the tokens and the faults of a scan are on lines of the text (§2);
    • a reader that finds tokens on lines with `L` builds trees whose tokens are
      on such lines and notes faults on such lines, also behind a fault (§3);
    • so does the expansion of pipes, which moves subtrees around and puts
      copies of them elsewhere (§4).

  Hence every fault found in a source is on a line of the source, and so is
  every token of its program (§5).
-/
import Lox.Proofs.Token.Lexemes

namespace Lox

variable {L : Nat → Prop}

/-! ## §1. Trees on lines. -/

mutual

/-- All tokens of an expression are on lines with a property. -/
def Expr.On (L : Nat → Prop) : Expr → Prop
  | .literal _ => True
  | .name token => L token.line
  | .unary operator operand => L operator.line ∧ Expr.On L operand
  | .binary left operator right => L operator.line ∧ Expr.On L left ∧ Expr.On L right
  | .logical left operator right => L operator.line ∧ Expr.On L left ∧ Expr.On L right
  | .pipe left operator right => L operator.line ∧ Expr.On L left ∧ Expr.On L right
  | .call callee paren arguments => L paren.line ∧ Expr.On L callee ∧ Expr.AllOn L arguments
  | .assign target value => L target.line ∧ Expr.On L value
  | .group inner => Expr.On L inner
  | .function own parameters body =>
    (∀ t ∈ own, L t.line) ∧ (∀ t ∈ parameters, L t.line) ∧ Stmt.AllOn L body
termination_by structural tree => tree

/-- All tokens of some expressions are on lines with a property. -/
def Expr.AllOn (L : Nat → Prop) : List Expr → Prop
  | [] => True
  | e :: es => Expr.On L e ∧ Expr.AllOn L es
termination_by structural trees => trees

/-- All tokens of an optional expression are on lines with a property. -/
def Expr.OptionOn (L : Nat → Prop) : Option Expr → Prop
  | none => True
  | some e => Expr.On L e
termination_by structural tree => tree

/-- All tokens of a statement are on lines with a property. -/
def Stmt.On (L : Nat → Prop) : Stmt → Prop
  | .expr value | .print value => Expr.On L value
  | .var name initial => L name.line ∧ Expr.OptionOn L initial
  | .block body => Stmt.AllOn L body
  | .branch condition yes no => Expr.On L condition ∧ Stmt.On L yes ∧ Stmt.OptionOn L no
  | .loop condition body _ => Expr.On L condition ∧ Stmt.On L body
  | .function name parameters body =>
    L name.line ∧ (∀ t ∈ parameters, L t.line) ∧ Stmt.AllOn L body
  | .give keyword value => L keyword.line ∧ Expr.OptionOn L value
  | .leave keyword | .next keyword => L keyword.line
termination_by structural tree => tree

/-- All tokens of some statements are on lines with a property. -/
def Stmt.AllOn (L : Nat → Prop) : List Stmt → Prop
  | [] => True
  | s :: ss => Stmt.On L s ∧ Stmt.AllOn L ss
termination_by structural trees => trees

/-- All tokens of an optional statement are on lines with a property. -/
def Stmt.OptionOn (L : Nat → Prop) : Option Stmt → Prop
  | none => True
  | some s => Stmt.On L s
termination_by structural tree => tree

end

/-- All faults are on lines with a property. -/
def SyntaxFault.AllOn (L : Nat → Prop) (fs : List SyntaxFault) : Prop := ∀ f ∈ fs, L f.line

theorem SyntaxFault.AllOn.append {fs gs : List SyntaxFault} (hf : AllOn L fs) (hg : AllOn L gs) :
    AllOn L (fs ++ gs) := List.forall_mem_append.2 ⟨hf, hg⟩

theorem SyntaxFault.allOn_singleton {f : SyntaxFault} (h : L f.line) : AllOn L [f] := by
  intro g hg
  rw [List.mem_singleton.1 hg]
  exact h

theorem Expr.on_of_mem {es : List Expr} (h : Expr.AllOn L es) : ∀ e ∈ es, e.On L := by
  induction es with
  | nil => exact nofun
  | cons e es ih => exact List.forall_mem_cons.2 ⟨h.1, ih h.2⟩

theorem Expr.allOn_of_forall {es : List Expr} (h : ∀ e ∈ es, e.On L) : Expr.AllOn L es := by
  induction es with
  | nil => trivial
  | cons e es ih => exact ⟨h e (.head _), ih fun e he => h e (.tail _ he)⟩

theorem Stmt.on_of_mem {ss : List Stmt} (h : Stmt.AllOn L ss) : ∀ s ∈ ss, s.On L := by
  induction ss with
  | nil => exact nofun
  | cons s ss ih => exact List.forall_mem_cons.2 ⟨h.1, ih h.2⟩

theorem Expr.optionOn_of_forall {o : Option Expr} (h : ∀ e ∈ o, e.On L) : Expr.OptionOn L o := by
  cases o with
  | none => trivial
  | some e => exact h e rfl

theorem Expr.on_of_option {o : Option Expr} (h : Expr.OptionOn L o) : ∀ e ∈ o, e.On L := by
  intro e he
  cases he
  exact h

/-! ## §2. Scanned lines. -/

/-- A line of a text: the first one is 1, and each line end begins another one. -/
def LineOf (source : String) (line : Nat) : Prop :=
  1 ≤ line ∧ line ≤ 1 + lineEnds source.toList

/-- The pieces of a text are on its lines, counted from the one it begins on. -/
theorem line_of_mem_piecesFrom {line : Nat} {cs : List Char} :
    ∀ p ∈ piecesFrom line cs, line ≤ p.line ∧ p.line ≤ line + lineEnds cs := by
  fun_induction piecesFrom line cs with
  | case1 =>
    intro p hp
    cases hp
  | case2 line c cs last ih =>
    -- The line ends of the piece and those of the rest are the line ends of the text.
    have htext : lineEnds (cut c cs).text + lineEnds (cut c cs).rest = lineEnds (c :: cs) := by
      rw [← lineEnds_append, text_append_rest]
    intro p hp
    rcases List.mem_cons.1 hp with rfl | hp
    · show line ≤ last ∧ last ≤ line + lineEnds (c :: cs)
      omega
    · have hrest := ih p hp
      omega

/-- **The tokens of a scan are on lines of the text.** -/
theorem line_of_scan {source : String} {tokens : List Token} (h : scan source = .ok tokens) :
    ∀ t ∈ tokens, LineOf source t.line := by
  rw [(scan_eq_ok_iff.1 h).2]
  intro t ht
  rcases List.mem_append.1 ht with ht | ht
  · obtain ⟨p, hp, htoken⟩ := List.mem_filterMap.1 ht
    rw [(Piece.token?_eq_some_iff.1 htoken).2.2.2]
    exact line_of_mem_piecesFrom p hp
  · rw [List.mem_singleton.1 ht]
    exact ⟨Nat.le_add_right _ _, Nat.le_refl _⟩

/-- A scan that fails gives the faults of all pieces, and there are some. -/
theorem eq_of_scan_error {source : String} {faults : List ScanFault}
    (h : scan source = .error faults) :
    faults = (pieces source).filterMap Piece.fault? ∧ faults ≠ [] := by
  have hsome : (pieces source).filterMap Piece.fault? ≠ [] := by
    intro hnone
    rw [scan_eq_ok_iff.2 ⟨hnone, rfl⟩] at h
    cases h
  rw [scan_eq_error hsome] at h
  cases h
  exact ⟨rfl, hsome⟩

/-- **The faults of a scan are on lines of the text.** -/
theorem line_of_scan_error {source : String} {faults : List ScanFault}
    (h : scan source = .error faults) : ∀ f ∈ faults, LineOf source f.line := by
  rw [(eq_of_scan_error h).1]
  intro f hf
  obtain ⟨p, hp, hfault⟩ := List.mem_filterMap.1 hf
  rw [(Piece.fault?_eq_some_iff.1 hfault).2]
  exact line_of_mem_piecesFrom p hp

/-! ## §3. Readers. -/

/-- What a cursor has ahead and what has been noted are on lines with a
property. -/
structure Cursor.On (L : Nat → Prop) (c : Cursor) : Prop where
  rest : ∀ t ∈ c.rest, L t.line
  finish : L c.finish.line
  faults : SyntaxFault.AllOn L c.faults

/-- Some of the tokens are ahead no longer. -/
theorem Cursor.On.skip {c : Cursor} (h : c.On L) {rest : List Token} (hsub : rest ⊆ c.rest) :
    Cursor.On L { c with rest := rest } :=
  ⟨fun t ht => h.rest t (hsub ht), h.finish, h.faults⟩

/-- One fault more has been noted. -/
theorem Cursor.On.note {c : Cursor} (h : c.On L) {f : SyntaxFault} (hf : L f.line) :
    Cursor.On L { c with faults := c.faults ++ [f] } :=
  ⟨h.rest, h.finish, h.faults.append (SyntaxFault.allOn_singleton hf)⟩

theorem Cursor.On.peek {c : Cursor} (h : c.On L) : L c.peek.line := by
  unfold Cursor.peek
  cases hr : c.rest with
  | nil => exact h.finish
  | cons t rest => exact h.rest t (hr ▸ List.mem_cons_self)

namespace Parse

variable {α β : Type} {Q : α → Prop} {R : β → Prop}

/-- **A reader copies lines:** with tokens on lines with a property ahead, its
value is as it should be, and so are the faults that it notes or gets stuck at. -/
def Copies (p : Parse α) (L : Nat → Prop) (Q : α → Prop) : Prop :=
  ∀ c : Cursor, c.On L → match p c with
    | .ok a c' => c'.On L ∧ Q a
    | .stuck fault c' => c'.On L ∧ L fault.line
    | .broken _ c' => c'.On L
    | .exhausted => True

namespace Copies

theorem pure {a : α} (h : Q a) : (Pure.pure a : Parse α).Copies L Q := fun _ hc => ⟨hc, h⟩

theorem exhausted : (Parse.exhausted : Parse α).Copies L Q := fun _ _ => trivial

/-- **One reader after the other.** -/
theorem bind {p : Parse α} {k : α → Parse β} (hp : p.Copies L Q)
    (hk : ∀ a, Q a → (k a).Copies L R) : (p >>= k).Copies L R := by
  intro c hc
  have hfirst := hp c hc
  have hbind : (p >>= k) c = Parse.bind p k c := rfl
  rw [hbind]
  unfold Parse.bind
  cases h : p c with
  | ok a c' =>
    rw [h] at hfirst
    exact hk a hfirst.2 c' hfirst.1
  | stuck fault c' =>
    rw [h] at hfirst
    exact hfirst
  | broken text c' =>
    rw [h] at hfirst
    exact hfirst
  | exhausted => trivial

theorem mono {p : Parse α} {S : α → Prop} (hp : p.Copies L Q) (hqs : ∀ a, Q a → S a) :
    p.Copies L S := by
  intro c hc
  have hend := hp c hc
  cases h : p c with
  | ok a c' =>
    rw [h] at hend
    exact ⟨hend.1, hqs a hend.2⟩
  | stuck fault c' =>
    rw [h] at hend
    exact hend
  | broken text c' =>
    rw [h] at hend
    exact hend
  | exhausted => trivial

theorem map {p : Parse α} {f : α → β} (hp : p.Copies L fun a => R (f a)) :
    (f <$> p).Copies L R :=
  hp.bind fun _ ha => pure ha

/-- A value that is there. -/
theorem some {p : Parse α} (hp : p.Copies L Q) :
    (Option.some <$> p).Copies L fun o => ∀ a ∈ o, Q a := by
  refine map (hp.mono fun a ha => ?_)
  rintro _ ⟨⟩
  exact ha

theorem ite {b : Prop} [Decidable b] {p q : Parse α} (hp : p.Copies L Q) (hq : q.Copies L Q) :
    (if b then p else q).Copies L Q := by
  by_cases h : b
  · rw [if_pos h]
    exact hp
  · rw [if_neg h]
    exact hq

end Copies

theorem peek_copies : peek.Copies L fun t => L t.line := fun _ hc => ⟨hc, hc.peek⟩

theorem advance_copies : advance.Copies L fun t => L t.line :=
  fun c hc => ⟨hc.skip (List.tail_sublist c.rest).subset, hc.peek⟩

theorem check_copies (wanted : Token → Bool) : (check wanted).Copies L fun _ => True :=
  fun _ hc => ⟨hc, trivial⟩

theorem fail_copies {t : Token} (ht : L t.line) (cause : SyntaxCause) :
    (fail t cause : Parse α).Copies L Q := fun _ hc => ⟨hc, ht⟩

theorem report_copies {t : Token} (ht : L t.line) (cause : SyntaxCause) :
    (report t cause).Copies L fun _ => True := fun _ hc => ⟨hc.note ht, trivial⟩

theorem abort_copies (text : String) : (abort text : Parse α).Copies L Q := fun _ hc => hc

theorem require_copies (holds : Bool) {t : Token} (ht : L t.line) (cause : SyntaxCause) :
    (require holds t cause).Copies L fun _ => True :=
  .ite (.pure trivial) (fail_copies ht cause)

theorem accept_copies (wanted : Token → Bool) : (accept wanted).Copies L fun _ => True :=
  (check_copies wanted).bind fun _ _ =>
    .ite (advance_copies.bind fun _ _ => .pure trivial) (.pure trivial)

theorem expect_copies (wanted : Token → Bool) (complaint : String) :
    (expect wanted complaint).Copies L fun t => L t.line :=
  (check_copies wanted).bind fun _ _ =>
    .ite advance_copies (peek_copies.bind fun _ ht => fail_copies ht _)

theorem unlessAt_copies (absent : Token → Bool) {p : Parse α} (hp : p.Copies L Q) :
    (unlessAt absent p).Copies L fun o => ∀ a ∈ o, Q a :=
  (check_copies absent).bind fun _ _ =>
    .ite (.pure nofun) hp.some

theorem afterMark_copies (mark : Token → Bool) {p : Parse α} (hp : p.Copies L Q) :
    (afterMark mark p).Copies L fun o => ∀ a ∈ o, Q a :=
  (accept_copies mark).bind fun _ _ =>
    .ite hp.some (.pure nofun)

theorem listUnlessAt_copies (absent : Token → Bool) {p : Parse (List α)}
    (hp : p.Copies L fun as => ∀ a ∈ as, Q a) :
    (listUnlessAt absent p).Copies L fun as => ∀ a ∈ as, Q a :=
  (check_copies absent).bind fun _ _ => .ite (.pure nofun) hp

/-- A recovery notes the fault that it gets over. -/
theorem recovering_copies {p : Parse α} (hp : p.Copies L Q) :
    (recovering p).Copies L fun o => ∀ a ∈ o, Q a := by
  intro c hc
  have hend := hp c hc
  unfold recovering
  cases h : p c with
  | ok a c' =>
    rw [h] at hend
    exact ⟨hend.1, fun b hb => Option.some.inj hb ▸ hend.2⟩
  | stuck fault c' =>
    rw [h] at hend
    obtain ⟨us, hus, -⟩ := skipToStatement_eq_append c'.rest
    have hsub : skipToStatement c'.rest ⊆ c'.rest := by
      conv => rhs; rw [hus]
      exact List.subset_append_right _ _
    exact ⟨(hend.1.skip hsub).note hend.2, nofun⟩
  | broken text c' =>
    rw [h] at hend
    exact hend
  | exhausted => trivial

/-! ### Chains, lists and functions. -/

theorem join_on (l : Level) {left right : Expr} {operator : Token} (ho : L operator.line)
    (hl : left.On L) (hr : right.On L) : (l.join left operator right).On L := by
  cases l <;> exact ⟨ho, hl, hr⟩

theorem chain_copies (l : Level) {operand : Parse Expr} (h : operand.Copies L (Expr.On L))
    (n : Nat) {left : Expr} (hl : left.On L) : (chain l operand n left).Copies L (Expr.On L) := by
  induction n generalizing left with
  | zero => exact .exhausted
  | succ n ih =>
    refine peek_copies.bind fun t _ => .ite ?_ (.pure hl)
    refine advance_copies.bind fun operator ho => h.bind fun right hr => ?_
    exact ih (join_on l ho hl hr)

theorem ladder_copies {operand : Parse Expr} (h : operand.Copies L (Expr.On L)) (n : Nat)
    (ls : List Level) : (ladder operand n ls).Copies L (Expr.On L) := by
  induction ls with
  | nil => exact h
  | cons l ls ih => exact ih.bind fun left hl => chain_copies l ih n hl

theorem noteExcess_copies (count : Nat) (cause : SyntaxCause) :
    (noteExcess count cause).Copies L fun _ => True :=
  .ite (peek_copies.bind fun _ ht => report_copies ht cause) (.pure trivial)

theorem separated_copies {item : Parse α} (h : item.Copies L Q) (excess : SyntaxCause)
    (n count : Nat) : (separated item excess n count).Copies L fun as => ∀ a ∈ as, Q a := by
  induction n generalizing count with
  | zero => exact .exhausted
  | succ n ih =>
    refine (noteExcess_copies count excess).bind fun _ _ => h.bind fun first hf => ?_
    refine (accept_copies _).bind fun _ _ => .ite ?_ (.pure (List.forall_mem_singleton.2 hf))
    exact (ih (count + 1)).bind fun others ho => .pure (List.forall_mem_cons.2 ⟨hf, ho⟩)

theorem calls_copies {expression : Parse Expr} (h : expression.Copies L (Expr.On L)) (n : Nat)
    {callee : Expr} (hc : callee.On L) : (calls expression n callee).Copies L (Expr.On L) := by
  induction n generalizing callee with
  | zero => exact .exhausted
  | succ n ih =>
    have hgiven := listUnlessAt_copies (·.isSymbol .rightParen)
      (separated_copies h (.tooManyArguments maxArity) n 0)
    refine (accept_copies _).bind fun _ _ => .ite ?_ (.pure hc)
    refine hgiven.bind fun given hg => (expect_copies _ _).bind fun paren hp => ?_
    exact ih ⟨hp, hc, Expr.allOn_of_forall hg⟩

theorem parameters_copies (n : Nat) : (parameters n).Copies L fun names => ∀ t ∈ names, L t.line :=
  listUnlessAt_copies _ (separated_copies (expect_copies _ _) _ n 0)

/-- A declaration with a fault in it is left out. -/
theorem declarations_copies {declaration : Parse (Option Stmt)}
    (h : declaration.Copies L fun o => ∀ s ∈ o, s.On L) (stop : Token → Bool) (n : Nat) :
    (declarations declaration stop n).Copies L (Stmt.AllOn L) := by
  induction n with
  | zero => exact .exhausted
  | succ n ih =>
    refine (check_copies _).bind fun _ _ => .ite ?_ (.pure trivial)
    refine h.bind fun first hf => ih.bind fun others ho => .pure ?_
    cases first with
    | none => exact ho
    | some s => exact ⟨hf s rfl, ho⟩

theorem block_copies {declaration : Parse (Option Stmt)}
    (h : declaration.Copies L fun o => ∀ s ∈ o, s.On L) (n : Nat) :
    (block declaration n).Copies L (Stmt.AllOn L) :=
  (declarations_copies h _ n).bind fun _ hb => (expect_copies _ _).bind fun _ _ => .pure hb

theorem function_copies {declaration : Parse (Option Stmt)}
    (h : declaration.Copies L fun o => ∀ s ∈ o, s.On L) (n : Nat) (after : String) :
    (function declaration n after).Copies L fun r =>
      (∀ t ∈ r.1, L t.line) ∧ Stmt.AllOn L r.2 := by
  refine (expect_copies _ _).bind fun _ _ => (parameters_copies n).bind fun names hn => ?_
  refine (expect_copies _ _).bind fun _ _ => (expect_copies _ _).bind fun _ _ => ?_
  exact (block_copies h n).bind fun body hb => .pure ⟨hn, hb⟩

/-! ### Statements. -/

section Statements

variable {expression : Parse Expr} {statement : Parse Stmt}

theorem varDeclaration_copies (h : expression.Copies L (Expr.On L)) :
    (varDeclaration expression).Copies L (Stmt.On L) := by
  refine (expect_copies _ _).bind fun name hn => (afterMark_copies _ h).bind fun initial hi => ?_
  exact (expect_copies _ _).bind fun _ _ => .pure ⟨hn, Expr.optionOn_of_forall hi⟩

theorem expressionStatement_copies (h : expression.Copies L (Expr.On L)) :
    (expressionStatement expression).Copies L (Stmt.On L) :=
  h.bind fun _ hv => (expect_copies _ _).bind fun _ _ => .pure hv

theorem printStatement_copies (h : expression.Copies L (Expr.On L)) :
    (printStatement expression).Copies L (Stmt.On L) :=
  h.bind fun _ hv => (expect_copies _ _).bind fun _ _ => .pure hv

theorem jumpStatement_copies (inLoop : Bool) : (jumpStatement inLoop).Copies L (Stmt.On L) := by
  refine advance_copies.bind fun keyword hk => (require_copies inLoop hk _).bind fun _ _ => ?_
  refine (expect_copies _ _).bind fun _ _ => .pure ?_
  split
  · exact hk
  · exact hk

theorem returnStatement_copies (inFunction : Bool) (h : expression.Copies L (Expr.On L)) :
    (returnStatement inFunction expression).Copies L (Stmt.On L) := by
  refine advance_copies.bind fun keyword hk => (require_copies inFunction hk _).bind fun _ _ => ?_
  refine (unlessAt_copies _ h).bind fun value hv => (expect_copies _ _).bind fun _ _ => .pure ?_
  exact ⟨hk, Expr.optionOn_of_forall hv⟩

theorem branchStatement_copies (h : expression.Copies L (Expr.On L))
    (hs : statement.Copies L (Stmt.On L)) :
    (branchStatement expression statement).Copies L (Stmt.On L) := by
  refine (expect_copies _ _).bind fun _ _ => h.bind fun condition hc => ?_
  refine (expect_copies _ _).bind fun _ _ => hs.bind fun yes hy => ?_
  refine (afterMark_copies _ hs).bind fun no hn => .pure ⟨hc, hy, ?_⟩
  cases no with
  | none => trivial
  | some other => exact hn other rfl

theorem whileStatement_copies (h : expression.Copies L (Expr.On L))
    (hs : statement.Copies L (Stmt.On L)) :
    (whileStatement expression statement).Copies L (Stmt.On L) := by
  refine (expect_copies _ _).bind fun _ _ => h.bind fun condition hc => ?_
  exact (expect_copies _ _).bind fun _ _ => hs.bind fun body hb => .pure ⟨hc, hb⟩

theorem firstClause_copies (h : expression.Copies L (Expr.On L)) :
    (firstClause expression).Copies L fun o => ∀ s ∈ o, s.On L := by
  refine (accept_copies _).bind fun _ _ => .ite (.pure nofun) ?_
  refine (accept_copies _).bind fun _ _ => .ite (varDeclaration_copies h).some ?_
  exact (expressionStatement_copies h).some

/-- The tree of a `for` loop has the tokens of its parts. -/
theorem lowerFor_on {first : Option Stmt} {condition step : Option Expr} {body : Stmt}
    (hf : ∀ s ∈ first, s.On L) (hc : ∀ e ∈ condition, e.On L) (hs : ∀ e ∈ step, e.On L)
    (hb : body.On L) : (lowerFor first condition step body).On L := by
  have hcond : (condition.getD (.literal (.bool true))).On L := by
    cases condition with
    | none => trivial
    | some e => exact hc e rfl
  have hloop : (lowerFor none condition step body).On L := by
    cases step with
    | none => exact ⟨hcond, hb⟩
    | some e => exact ⟨hcond, hb, hs e rfl, trivial⟩
  cases first with
  | none => exact hloop
  | some s => exact ⟨hf s rfl, hloop, trivial⟩

theorem forStatement_copies (h : expression.Copies L (Expr.On L))
    (hs : statement.Copies L (Stmt.On L)) :
    (forStatement expression statement).Copies L (Stmt.On L) := by
  refine (expect_copies _ _).bind fun _ _ => (firstClause_copies h).bind fun first hf => ?_
  refine (unlessAt_copies _ h).bind fun condition hc => (expect_copies _ _).bind fun _ _ => ?_
  refine (unlessAt_copies _ h).bind fun step ht => (expect_copies _ _).bind fun _ _ => ?_
  exact hs.bind fun body hb => .pure (lowerFor_on hf hc ht hb)

end Statements

/-! ### The readers that refer to themselves. -/

theorem atFunctionDeclaration_copies : atFunctionDeclaration.Copies L fun _ => True :=
  fun _ hc => ⟨hc, trivial⟩

theorem ownName_copies : ownName.Copies L fun o => ∀ t ∈ o, L t.line :=
  (check_copies _).bind fun _ _ =>
    .ite advance_copies.some (.pure nofun)

theorem atom_copies {t : Token} (ht : L t.line) : (atom t).Copies L (Expr.On L) := by
  unfold atom
  cases h : Expr.ofToken? t with
  | none => exact abort_copies _
  | some e =>
    refine .pure ?_
    cases atom_iff.2 h with
    | name _ => exact ht
    | placeholder _ => exact ht
    | _ => trivial

/-- All readers that refer to each other copy lines, at one bound. -/
structure CopiesAt (L : Nat → Prop) (n : Nat) : Prop where
  expression : (expression n).Copies L (Expr.On L)
  unary : (unary n).Copies L (Expr.On L)
  primary : (primary n).Copies L (Expr.On L)
  statement : ∀ ctx, (statement n ctx).Copies L (Stmt.On L)
  declaration : ∀ ctx, (declaration n ctx).Copies L fun o => ∀ s ∈ o, s.On L

namespace CopiesAt

variable {n : Nat}

theorem expression_succ (ih : CopiesAt L n) : (Parse.expression (n + 1)).Copies L (Expr.On L) := by
  rw [Parse.expression]
  refine (ladder_copies ih.unary n _).bind fun left hl => peek_copies.bind fun t _ => ?_
  refine .ite ?_ (.pure hl)
  refine advance_copies.bind fun equals hq => ih.expression.bind fun value hv => ?_
  cases htarget : left.target? with
  | none => exact (report_copies hq _).bind fun _ _ => .pure hl
  | some target =>
    rw [(target?_eq_some htarget).1] at hl
    exact .pure ⟨hl, hv⟩

theorem unary_succ (ih : CopiesAt L n) : (Parse.unary (n + 1)).Copies L (Expr.On L) := by
  rw [Parse.unary]
  refine peek_copies.bind fun t _ => .ite ?_ ?_
  · exact advance_copies.bind fun operator ho => ih.unary.bind fun operand h => .pure ⟨ho, h⟩
  · exact ih.primary.bind fun callee hc => calls_copies ih.expression n hc

theorem primary_succ (ih : CopiesAt L n) : (Parse.primary (n + 1)).Copies L (Expr.On L) := by
  rw [Parse.primary]
  refine peek_copies.bind fun t ht => .ite ?_ (.ite ?_ (.ite ?_ (fail_copies ht _)))
  · exact advance_copies.bind fun _ hatom => atom_copies hatom
  · refine advance_copies.bind fun _ _ => ih.expression.bind fun inner hi => ?_
    exact (expect_copies _ _).bind fun _ _ => .pure hi
  · refine advance_copies.bind fun _ _ => ownName_copies.bind fun own ho => ?_
    refine (function_copies (ih.declaration .ofFunction) n _).bind fun r hr => ?_
    exact .pure ⟨ho, hr.1, hr.2⟩

theorem statement_succ (ih : CopiesAt L n) (ctx : Context) :
    (Parse.statement (n + 1) ctx).Copies L (Stmt.On L) := by
  rw [Parse.statement.eq_def]
  refine peek_copies.bind fun t _ => ?_
  split
  · exact jumpStatement_copies _
  · exact jumpStatement_copies _
  · exact advance_copies.bind fun _ _ => forStatement_copies ih.expression (ih.statement _)
  · exact advance_copies.bind fun _ _ => branchStatement_copies ih.expression (ih.statement _)
  · exact advance_copies.bind fun _ _ => whileStatement_copies ih.expression (ih.statement _)
  · exact advance_copies.bind fun _ _ => printStatement_copies ih.expression
  · exact returnStatement_copies _ ih.expression
  · exact advance_copies.bind fun _ _ => .map (block_copies (ih.declaration ctx) n)
  · exact expressionStatement_copies ih.expression

theorem declaration_succ (ih : CopiesAt L n) (ctx : Context) :
    (Parse.declaration (n + 1) ctx).Copies L fun o => ∀ s ∈ o, s.On L := by
  rw [Parse.declaration]
  refine recovering_copies (atFunctionDeclaration_copies.bind fun _ _ => .ite ?_ ?_)
  · refine advance_copies.bind fun _ _ => (expect_copies _ _).bind fun name hn => ?_
    refine (function_copies (ih.declaration .ofFunction) n _).bind fun r hr => ?_
    exact .pure ⟨hn, hr.1, hr.2⟩
  · refine (accept_copies _).bind fun _ _ => .ite (varDeclaration_copies ih.expression) ?_
    exact ih.statement ctx

end CopiesAt

/-- **Every reader copies lines,** at every bound. -/
theorem copiesAt (L : Nat → Prop) (n : Nat) : CopiesAt L n := by
  induction n with
  | zero =>
    refine ⟨?_, ?_, ?_, fun ctx => ?_, fun ctx => ?_⟩
    · rw [Parse.expression]
      exact .exhausted
    · rw [Parse.unary]
      exact .exhausted
    · rw [Parse.primary]
      exact .exhausted
    · rw [Parse.statement]
      exact .exhausted
    · rw [Parse.declaration]
      exact .exhausted
  | succ n ih =>
    exact ⟨ih.expression_succ, ih.unary_succ, ih.primary_succ, ih.statement_succ,
      ih.declaration_succ⟩

end Parse

/-- Statements and faults on lines with a property. -/
structure Draft.On (L : Nat → Prop) (draft : Draft) : Prop where
  statements : Stmt.AllOn L draft.statements
  faults : SyntaxFault.AllOn L draft.faults

/-- **Reading copies lines:** the trees and the faults of a program, faulty or
not, are on lines of its tokens. -/
theorem parse_on {tokens : List Token} (h : ∀ t ∈ tokens, L t.line) (hone : L 1) :
    (parse tokens).On L := by
  have hstart : (Cursor.start tokens).On L := by
    refine ⟨fun t ht => h t (List.takeWhile_subset _ ht), ?_, nofun⟩
    unfold Cursor.start
    dsimp only
    cases hend : tokens.find? Token.isEnd with
    | some t => exact h t (List.mem_of_find?_eq_some hend)
    | none =>
      -- Without an end there is one behind the last token, or on the first line.
      cases hlast : tokens.getLast? with
      | none => exact hone
      | some t => exact h t (List.mem_of_getLast? hlast)
  have hread := Parse.declarations_copies
    ((Parse.copiesAt L (readingBound tokens)).declaration .top) (fun _ => false)
    (readingBound tokens) _ hstart
  show (Step.draft (Parse.declarations _ _ _ _)).On L
  cases hp : Parse.declarations (Parse.declaration (readingBound tokens) .top) (fun _ => false)
      (readingBound tokens) (Cursor.start tokens) with
  | ok ss c =>
    rw [hp] at hread
    exact ⟨hread.2, hread.1.faults⟩
  | stuck fault c =>
    rw [hp] at hread
    exact ⟨trivial, hread.1.faults.append (SyntaxFault.allOn_singleton hread.2)⟩
  | broken text c =>
    rw [hp] at hread
    exact ⟨trivial, hread.faults⟩
  | exhausted => exact ⟨trivial, nofun⟩

/-! ## §4. Pipes. -/

mutual

/-- A filled placeholder brings its own lines along. -/
theorem Expr.fill_on {v : Expr} (hv : v.On L) : (e : Expr) → e.On L → (Expr.fill v e).On L
  | .literal _, h => h
  | .name token, h => by
    unfold Expr.fill
    by_cases hd : token.isSymbol .dollar = true
    · rw [if_pos hd]
      exact hv
    · rw [if_neg hd]
      exact h
  | .unary _ operand, h => ⟨h.1, Expr.fill_on hv operand h.2⟩
  | .binary left _ right, h => ⟨h.1, Expr.fill_on hv left h.2.1, Expr.fill_on hv right h.2.2⟩
  | .logical left _ right, h => ⟨h.1, Expr.fill_on hv left h.2.1, Expr.fill_on hv right h.2.2⟩
  | .pipe left _ _, h => ⟨h.1, Expr.fill_on hv left h.2.1, h.2.2⟩
  | .call callee _ arguments, h =>
    ⟨h.1, Expr.fill_on hv callee h.2.1, Expr.fillAll_on hv arguments h.2.2⟩
  | .assign _ value, h => ⟨h.1, Expr.fill_on hv value h.2⟩
  | .group inner, h => Expr.fill_on hv inner h
  | .function _ _ _, h => h

theorem Expr.fillAll_on {v : Expr} (hv : v.On L) :
    (es : List Expr) → Expr.AllOn L es → Expr.AllOn L (Expr.fillAll v es)
  | [], _ => trivial
  | e :: es, h => ⟨Expr.fill_on hv e h.1, Expr.fillAll_on hv es h.2⟩

end

mutual

-- The recursion is that of the expansion, so the induction is by weight.
theorem Expr.expanded_on (e : Expr) (h : e.On L) :
    e.expanded.tree.On L ∧ SyntaxFault.AllOn L e.expanded.faults := by
  match e, h with
  | .literal value, _ =>
    rw [Expr.expanded]
    exact ⟨trivial, nofun⟩
  | .name token, h =>
    rw [Expr.expanded]
    exact ⟨h, nofun⟩
  | .unary operator operand, h =>
    rw [Expr.expanded]
    have hoperand := Expr.expanded_on operand h.2
    exact ⟨⟨h.1, hoperand.1⟩, hoperand.2⟩
  | .binary left operator right, h =>
    rw [Expr.expanded]
    have hl := Expr.expanded_on left h.2.1
    have hr := Expr.expanded_on right h.2.2
    exact ⟨⟨h.1, hl.1, hr.1⟩, hl.2.append hr.2⟩
  | .logical left operator right, h =>
    rw [Expr.expanded]
    have hl := Expr.expanded_on left h.2.1
    have hr := Expr.expanded_on right h.2.2
    exact ⟨⟨h.1, hl.1, hr.1⟩, hl.2.append hr.2⟩
  | .pipe left operator right, h =>
    have hl := Expr.expanded_on left h.2.1
    rw [Expr.expanded]
    by_cases own : right.hasOwn = true
    · rw [dif_pos own]
      -- The filled right side is no part of the pipe, but it is lighter.
      have := Expr.weight_fill_lt operator right 1 (left.expanded.light 1)
      have hr := Expr.expanded_on (Expr.fill left.expanded.tree right)
        (Expr.fill_on hl.1 right h.2.2)
      exact ⟨hr.1, hl.2.append hr.2⟩
    · rw [dif_neg own]
      exact ⟨h.2.2, hl.2.append (SyntaxFault.allOn_singleton h.1)⟩
  | .call callee paren arguments, h =>
    rw [Expr.expanded]
    have hc := Expr.expanded_on callee h.2.1
    have ha := Expr.expandedAll_on arguments h.2.2
    exact ⟨⟨h.1, hc.1, ha.1⟩, hc.2.append ha.2⟩
  | .assign target value, h =>
    rw [Expr.expanded]
    have hv := Expr.expanded_on value h.2
    exact ⟨⟨h.1, hv.1⟩, hv.2⟩
  | .group inner, h =>
    rw [Expr.expanded]
    exact Expr.expanded_on inner h
  | .function own parameters body, h =>
    rw [Expr.expanded]
    have hb := Stmt.expandedAll_on body h.2.2
    exact ⟨⟨h.1, h.2.1, hb.1⟩, hb.2⟩
termination_by Expr.weight 1 e
decreasing_by all_goals simp only [Expr.weight] at *; omega

theorem Expr.expandedAll_on (es : List Expr) (h : Expr.AllOn L es) :
    Expr.AllOn L (Expr.expandedAll es).trees ∧
      SyntaxFault.AllOn L (Expr.expandedAll es).faults := by
  match es, h with
  | [], _ =>
    rw [Expr.expandedAll]
    exact ⟨trivial, nofun⟩
  | e :: es, h =>
    rw [Expr.expandedAll]
    have hfirst := Expr.expanded_on e h.1
    have hothers := Expr.expandedAll_on es h.2
    exact ⟨⟨hfirst.1, hothers.1⟩, hfirst.2.append hothers.2⟩
termination_by Expr.weightAll 1 es
decreasing_by all_goals simp only [Expr.weightAll]; omega

theorem Stmt.expanded_on (s : Stmt) (h : s.On L) :
    s.expanded.tree.On L ∧ SyntaxFault.AllOn L s.expanded.faults := by
  match s, h with
  | .expr value, h =>
    rw [Stmt.expanded]
    exact Expr.expanded_on value h
  | .print value, h =>
    rw [Stmt.expanded]
    exact Expr.expanded_on value h
  | .var name none, h =>
    rw [Stmt.expanded]
    exact ⟨h, nofun⟩
  | .var name (some initial), h =>
    rw [Stmt.expanded]
    have hi := Expr.expanded_on initial h.2
    exact ⟨⟨h.1, hi.1⟩, hi.2⟩
  | .block body, h =>
    rw [Stmt.expanded]
    exact Stmt.expandedAll_on body h
  | .branch condition yes none, h =>
    rw [Stmt.expanded]
    have hc := Expr.expanded_on condition h.1
    have hy := Stmt.expanded_on yes h.2.1
    exact ⟨⟨hc.1, hy.1, trivial⟩, hc.2.append hy.2⟩
  | .branch condition yes (some no), h =>
    rw [Stmt.expanded]
    have hc := Expr.expanded_on condition h.1
    have hy := Stmt.expanded_on yes h.2.1
    have hn := Stmt.expanded_on no h.2.2
    exact ⟨⟨hc.1, hy.1, hn.1⟩, (hc.2.append hy.2).append hn.2⟩
  | .loop condition body increment, h =>
    rw [Stmt.expanded]
    have hc := Expr.expanded_on condition h.1
    have hb := Stmt.expanded_on body h.2
    exact ⟨⟨hc.1, hb.1⟩, hc.2.append hb.2⟩
  | .function name parameters body, h =>
    rw [Stmt.expanded]
    have hb := Stmt.expandedAll_on body h.2.2
    exact ⟨⟨h.1, h.2.1, hb.1⟩, hb.2⟩
  | .give keyword none, h =>
    rw [Stmt.expanded]
    exact ⟨h, nofun⟩
  | .give keyword (some value), h =>
    rw [Stmt.expanded]
    have hv := Expr.expanded_on value h.2
    exact ⟨⟨h.1, hv.1⟩, hv.2⟩
  | .leave keyword, h =>
    rw [Stmt.expanded]
    exact ⟨h, nofun⟩
  | .next keyword, h =>
    rw [Stmt.expanded]
    exact ⟨h, nofun⟩
termination_by Stmt.weight s
decreasing_by all_goals simp only [Stmt.weight, Expr.weightOption, Stmt.weightOption]; omega

/-- **Expansion copies lines,** into the trees and into the faults. -/
theorem Stmt.expandedAll_on (ss : List Stmt) (h : Stmt.AllOn L ss) :
    Stmt.AllOn L (Stmt.expandedAll ss).trees ∧
      SyntaxFault.AllOn L (Stmt.expandedAll ss).faults := by
  match ss, h with
  | [], _ =>
    rw [Stmt.expandedAll]
    exact ⟨trivial, nofun⟩
  | s :: ss, h =>
    rw [Stmt.expandedAll]
    have hfirst := Stmt.expanded_on s h.1
    have hothers := Stmt.expandedAll_on ss h.2
    exact ⟨⟨hfirst.1, hothers.1⟩, hfirst.2.append hothers.2⟩
termination_by Stmt.weightAll ss
decreasing_by all_goals simp only [Stmt.weightAll]; omega

end

/-! ## §5. Sources. -/

theorem Draft.On.prepare {draft : Draft} (h : draft.On L) : (prepare draft).On L := by
  have hexpanded := Stmt.expandedAll_on draft.statements h.statements
  exact ⟨hexpanded.1, h.faults.append hexpanded.2⟩

/-- A source that is scanned without faults, and what is read from it. -/
theorem parse_on_source {source : String} {tokens : List Token} (h : scan source = .ok tokens) :
    (parse tokens).On (LineOf source) :=
  parse_on (line_of_scan h) ⟨Nat.le_refl _, Nat.le_add_right _ _⟩

/-- What compiling a source comes to, once it has been scanned. -/
theorem compile_of_scan {source : String} {tokens : List Token} (h : scan source = .ok tokens) :
    (compile source).journal = (prepare (parse tokens)).journal ∧
      (compile source).program = if (prepare (parse tokens)).journal.flagged then
        .error (.grammar (prepare (parse tokens)).journal.staticCount)
      else .ok (prepare (parse tokens)).statements := by
  obtain ⟨ss, c, hread⟩ := readProgram_ok tokens
  have hparse : parse tokens = ⟨ss, c.faults⟩ := by
    unfold parse
    rw [hread]
    rfl
  rw [compile_eq, h, hparse]
  show (Compiled.ofReading (readProgram tokens)).journal = _ ∧
    (Compiled.ofReading (readProgram tokens)).program = _
  rw [hread]
  exact ⟨rfl, rfl⟩

/-- **Every fault found in a source is on a line of the source.** -/
theorem line_of_compile (source : String) :
    ∀ d ∈ (compile source).journal.entries, LineOf source d.line := by
  cases hscan : scan source with
  | error faults =>
    rw [compile_eq, hscan]
    rw [Journal.entries_reportAll]
    intro d hd
    obtain ⟨f, hf, rfl⟩ := List.mem_map.1 hd
    exact line_of_scan_error hscan f hf
  | ok tokens =>
    rw [(compile_of_scan hscan).1]
    unfold Draft.journal
    rw [Journal.entries_reportAll]
    intro d hd
    obtain ⟨f, hf, rfl⟩ := List.mem_map.1 hd
    exact (parse_on_source hscan).prepare.faults f hf

end Lox
