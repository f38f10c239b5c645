/-
  Lox.Proofs.Grammar.Resumption
  ────────────────────────────────
  **A MISSING SEMICOLON.**

  A statement whose semicolon is missing is noticed at the first token behind it.
  If a program follows that begins with a word for a statement, reading could go
  on right there.  But skipping passes one token before it looks for such a word,
  and so it passes the word itself: what is read next is what is left of the
  program without its first words (§4).

  That the program cannot come out as it was follows from a count.  Every word
  that begins a statement leaves a mark in the tree, so a tree tells how many of
  them it was read from (§2), and one of them is gone.
-/
import Lox.Proofs.Grammar.Positions
import Lox.Proofs.Grammar.Recovery

namespace Lox

open Parse (Context)

/-! ## §1. The words of a tree. -/

mutual

/-- How many words that begin a statement an expression has been read from. -/
@[simp] def Expr.words : Expr → Nat
  | .literal _ | .name _ => 0
  | .unary _ inner | .assign _ inner | .group inner => inner.words
  | .binary left _ right | .logical left _ right | .pipe left _ right => left.words + right.words
  | .call callee _ arguments => callee.words + Expr.wordsAll arguments
  | .function _ _ body => Stmt.wordsAll body + 1

/-- The words of some expressions. -/
@[simp] def Expr.wordsAll : List Expr → Nat
  | [] => 0
  | e :: es => e.words + Expr.wordsAll es

/-- The words of an optional expression. -/
@[simp] def Expr.wordsOption : Option Expr → Nat
  | none => 0
  | some e => e.words

/-- How many words that begin a statement a statement has been read from. -/
@[simp] def Stmt.words : Stmt → Nat
  | .expr value => value.words
  | .print value => value.words + 1
  | .var _ value | .give _ value => Expr.wordsOption value + 1
  | .block body => Stmt.wordsAll body
  | .branch condition yes no => condition.words + yes.words + Stmt.wordsOption no + 1
  | .loop condition body _ => condition.words + body.words + 1
  | .function _ _ body => Stmt.wordsAll body + 1
  | .leave _ | .next _ => 0

/-- The words of some statements. -/
@[simp] def Stmt.wordsAll : List Stmt → Nat
  | [] => 0
  | s :: ss => s.words + Stmt.wordsAll ss

/-- The words of an optional statement. -/
@[simp] def Stmt.wordsOption : Option Stmt → Nat
  | none => 0
  | some s => s.words

end

/-- The words of a phrase. The `var` of a variable declaration has been read
before its phrase begins. -/
@[simp] def Phrase.words : Phrase → Nat
  | .primary e | .call e | .unary e | .ladder _ e | .expression e => e.words
  | .arguments es | .given es => Expr.wordsAll es
  | .clause e => Expr.wordsOption e
  | .function _ body | .block _ body => Stmt.wordsAll body
  | .binding s => s.words - 1
  | .first s => Stmt.wordsOption s
  | .statement _ _ s | .declaration _ s => s.words
  | .declarations _ ss => Stmt.wordsAll ss

theorem Level.words_join (l : Level) (left : Expr) (t : Token) (right : Expr) :
    (l.join left t right).words = left.words + right.words := by
  cases l <;> rfl

/-- The tree of a `for` loop has the words of its parts and its own. -/
theorem Lowered.words {first : Option Stmt} {condition step : Option Expr} {body s : Stmt}
    (h : Lowered first condition step body s) :
    s.words = Stmt.wordsOption first + Expr.wordsOption condition + Expr.wordsOption step +
      body.words + 1 := by
  have hcondition : ∀ o : Option Expr,
      (o.getD (.literal (.bool true))).words = Expr.wordsOption o := by
    intro o
    cases o <;> rfl
  induction h with
  | plain =>
    simp only [Stmt.words, Stmt.wordsOption, Expr.wordsOption, hcondition]
    omega
  | stepped =>
    simp only [Stmt.words, Stmt.wordsAll, Stmt.wordsOption, Expr.wordsOption, hcondition]
    omega
  | started h ih =>
    simp only [Stmt.words, Stmt.wordsAll, Stmt.wordsOption] at ih ⊢
    omega

/-! ## §2. Every phrase keeps its words. -/

section Counting

variable {t : Token}

theorem startsStatement_of_isSymbol {s : Symbol} (h : t.isSymbol s = true) :
    t.startsStatement = false := by
  simp [Token.startsStatement, kind_of_isSymbol h]

theorem startsStatement_of_isKeyword {k : Keyword} (h : t.isKeyword k = true) :
    t.startsStatement = k.startsStatement := by
  simp [Token.startsStatement, kind_of_isKeyword h]

theorem startsStatement_of_isIdentifier (h : t.isIdentifier = true) :
    t.startsStatement = false := by
  simp [Token.startsStatement, kind_of_isIdentifier h]

theorem startsStatement_of_accepts {l : Level} (h : l.accepts t = true) :
    t.startsStatement = false := by
  unfold Level.accepts at h
  split at h
  all_goals first
    | exact Bool.noConfusion h
    | next hk => simp [Token.startsStatement, hk, Keyword.startsStatement]

theorem Atom.startsStatement {e : Expr} (h : Atom t e) : t.startsStatement = false := by
  cases h <;> next hk => simp [Token.startsStatement, hk, Keyword.startsStatement]

theorem Atom.words {e : Expr} (h : Atom t e) : e.words = 0 := by
  cases h <;> rfl

theorem startsStatement_of_isPrefixOperator (h : t.isPrefixOperator = true) :
    t.startsStatement = false := by
  rcases Bool.or_eq_true_iff.1 h with h | h
  · exact startsStatement_of_isSymbol h
  · exact startsStatement_of_isSymbol h

theorem Parameters.countP {names ts : List Token} (h : Parameters names ts) :
    ts.countP Token.startsStatement = 0 := by
  have hnames : ∀ {names ts : List Token}, Names names ts →
      ts.countP Token.startsStatement = 0 := by
    intro names ts h
    induction h with
    | one hn => simp [startsStatement_of_isIdentifier hn]
    | more hn hc hs ih =>
      simp [startsStatement_of_isIdentifier hn, startsStatement_of_isSymbol hc, ih]
  cases h with
  | none => rfl
  | some hs hm => exact hnames hs

end Counting

/-- A variable declaration counts its `var`. -/
theorem Derives.words_pos_of_binding {s : Stmt} {ts : List Token} (h : Derives (.binding s) ts) :
    0 < s.words := by
  cases h with
  | uninitialized hn hs => exact Nat.succ_pos _
  | initialized hn hq he hs => exact Nat.succ_pos _

/-- **A tree tells how many words it was read from.** -/
theorem Derives.countP_words {φ : Phrase} {ts : List Token} (h : Derives φ ts) :
    ts.countP Token.startsStatement = φ.words := by
  -- One case per production: symbols and names count nothing, a keyword counts itself.
  induction h with
  | atom h => simp [h.startsStatement, h.words]
  | group hl _ hr ih =>
    simp [startsStatement_of_isSymbol hl, startsStatement_of_isSymbol hr, ih]
  | unnamed hk _ ih => simp [startsStatement_of_isKeyword hk, Keyword.startsStatement, ih]
  | named hk hn _ ih | declareFunction hk hn _ ih =>
    simp [startsStatement_of_isKeyword hk, startsStatement_of_isIdentifier hn,
      Keyword.startsStatement, ih]
  | callee _ ih | operand _ ih | tightest _ ih | tighter _ ih | ladder _ ih => exact ih
  | call _ hl _ hr ihf ihs =>
    simp [startsStatement_of_isSymbol hl, startsStatement_of_isSymbol hr, ihf, ihs]
  | signed ht _ ih => simp [startsStatement_of_isPrefixOperator ht, ih]
  | chained _ ht _ ihl ihr => simp [startsStatement_of_accepts ht, ihl, ihr, Level.words_join]
  | assign hn hq _ ih =>
    simp [startsStatement_of_isIdentifier hn, startsStatement_of_isSymbol hq, ih]
  | lastArgument _ ih => simpa using ih
  | argument _ hc _ ihe ihs => simp [startsStatement_of_isSymbol hc, ihe, ihs]
  | given _ _ ih | clause _ ih | scope _ ih | plain _ _ ih => exact ih
  | notGiven | noClause | nil => rfl
  | function hl hp hr _ ih =>
    simp [startsStatement_of_isSymbol hl, startsStatement_of_isSymbol hr, hp.countP, ih]
  | block hl _ hr ih =>
    simp [startsStatement_of_isSymbol hl, startsStatement_of_isSymbol hr, ih]
  | uninitialized hn hs =>
    simp [startsStatement_of_isIdentifier hn, startsStatement_of_isSymbol hs]
  | initialized hn hq _ hs ih =>
    simp [startsStatement_of_isIdentifier hn, startsStatement_of_isSymbol hq,
      startsStatement_of_isSymbol hs, ih]
  | noFirst hs => simp [startsStatement_of_isSymbol hs]
  | firstVariable hk hs ih | declareVariable hk hs ih =>
    have hpos := hs.words_pos_of_binding
    simp only [List.countP_cons, startsStatement_of_isKeyword hk, Keyword.startsStatement, ih,
      Phrase.words, Stmt.wordsOption, if_true]
    omega
  | firstExpression _ hs ih | expr _ hs ih => simp [startsStatement_of_isSymbol hs, ih]
  | forLoop hk hl _ _ hs _ hr _ hlow ihf ihc iht ihb =>
    simp only [List.countP_cons, List.countP_append, startsStatement_of_isKeyword hk,
      Keyword.startsStatement, startsStatement_of_isSymbol hl, startsStatement_of_isSymbol hs,
      startsStatement_of_isSymbol hr, ihf, ihc, iht, ihb, Phrase.words, hlow.words, if_true,
      Bool.false_eq_true, if_false]
    omega
  | leave hk _ hs | next hk _ hs =>
    simp [startsStatement_of_isKeyword hk, Keyword.startsStatement, startsStatement_of_isSymbol hs]
  | branch hk hl _ hr _ ihe ihy =>
    simp [startsStatement_of_isKeyword hk, Keyword.startsStatement, startsStatement_of_isSymbol hl,
      startsStatement_of_isSymbol hr, ihe, ihy]
  | branchElse hk hl _ hr _ ho _ ihe ihy ihn =>
    simp only [List.countP_cons, List.countP_append, startsStatement_of_isKeyword hk,
      startsStatement_of_isKeyword ho, Keyword.startsStatement, startsStatement_of_isSymbol hl,
      startsStatement_of_isSymbol hr, ihe, ihy, ihn, Phrase.words, Stmt.words, Stmt.wordsOption,
      if_true, Bool.false_eq_true, if_false]
    omega
  | whileLoop hk hl _ hr _ ihe ihb =>
    simp [startsStatement_of_isKeyword hk, Keyword.startsStatement, startsStatement_of_isSymbol hl,
      startsStatement_of_isSymbol hr, ihe, ihb]
  | print hk _ hs ih | give hk _ _ hs ih =>
    simp [startsStatement_of_isKeyword hk, Keyword.startsStatement, startsStatement_of_isSymbol hs,
      ih]
  | cons _ _ ihs ihss => simp [ihs, ihss]

/-! ## §3. Getting stuck. -/

namespace Parse

variable {α β : Type} {c c' : Cursor} {t fin : Token} {cause : SyntaxCause} {rest : List Token}
  {fs : List SyntaxFault}

/-- What gets stuck is the last one. -/
theorem Resumes.bind_fail {p : Parse α} {f : α → Parse β} (h : p.Resumes c (fail t cause) c') :
    (p >>= f).Resumes c (fail t cause) c' := by
  show Parse.bind p f c = _ ∨ Parse.bind p f c = .exhausted
  unfold Parse.bind
  rcases h with h | h
  · left
    rw [h]
    rfl
  · right
    rw [h]

theorem expect_fails {wanted : Token → Bool} (complaint : String) (h : wanted t = false) :
    (expect wanted complaint).Resumes ⟨t :: rest, fin, fs⟩ (fail t (.expected complaint))
      ⟨t :: rest, fin, fs⟩ := by
  left
  show (if wanted t = true then advance else _) _ = _
  rw [if_neg (by rw [h]; exact Bool.false_ne_true)]
  rfl

/-- A reader that gets stuck is picked up behind the tokens that are skipped. -/
theorem Resumes.recovering_fail {p : Parse α}
    (h : p.Resumes c (fail t cause) ⟨rest, fin, fs⟩) :
    (recovering p).Finds c none ⟨skipToStatement rest, fin, fs ++ [.at t cause]⟩ := by
  rcases h with h | h
  · left
    unfold recovering
    rw [h]
    rfl
  · right
    unfold recovering
    rw [h]

/-- A token that begins an expression begins an expression statement. -/
theorem statement_resumes_expression (h : t.opensExpression = true) (n : Nat) (ctx : Context) :
    (statement (n + 1) ctx).Resumes ⟨t :: rest, fin, fs⟩ (expressionStatement (expression n))
      ⟨t :: rest, fin, fs⟩ := by
  have hno := Token.opensStatement_of_opensExpression h
  rw [statement]
  apply Resumes.peek
  unfold Token.opensStatement at hno
  split
  case h_9 => exact .inl rfl
  all_goals
    next hkind =>
      rw [hkind] at hno
      exact Bool.noConfusion hno

end Parse

/-! ## §4. A statement without its semicolon. -/

/-- The complaint about a missing semicolon behind a statement, for the statements
that end with one and may stand outside of loops and functions. -/
def Stmt.complaint? : Stmt → Option String
  | .print _ => some "Expect ';' after value."
  | .var _ _ => some "Expect ';' after variable declaration."
  | .expr _ => some "Expect ';' after expression."
  | _ => none

/-- **Tokens that lack a semicolon,** and the complaint about it. -/
inductive Unended : List Token → String → Prop where
  | print {k : Token} {ts : List Token} {e : Expr} (hk : k.isKeyword .printWord = true)
      (he : Derives (.expression e) ts) : Unended (k :: ts) "Expect ';' after value."
  | uninitialized {k name : Token} (hk : k.isKeyword .varWord = true)
      (hn : name.isIdentifier = true) :
      Unended [k, name] "Expect ';' after variable declaration."
  | initialized {k name equals : Token} {ts : List Token} {e : Expr}
      (hk : k.isKeyword .varWord = true) (hn : name.isIdentifier = true)
      (hq : equals.isSymbol .equal = true) (he : Derives (.expression e) ts) :
      Unended (k :: name :: equals :: ts) "Expect ';' after variable declaration."
  | expr {ts : List Token} {e : Expr} (he : Derives (.expression e) ts)
      (hf : ∀ u rest, u.isIdentifier = false → startsFunction (ts ++ u :: rest) = false) :
      Unended ts "Expect ';' after expression."

/-- Only a name behind its `fun` would make a function declaration of an expression. -/
theorem startsFunction_append_cons {ts rest : List Token} {t u : Token} (hne : ts ≠ [])
    (h : startsFunction (ts ++ [t]) = false) (hu : u.isIdentifier = false) :
    startsFunction (ts ++ u :: rest) = false := by
  match ts, hne with
  | [s], _ => simp [startsFunction, hu]
  | s :: s' :: ts, _ => exact h

/-- A statement that has its semicolon lacks it without its last token. -/
theorem Derives.unended {ctx : Context} {s : Stmt} {ts : List Token} {semi : Token}
    {complaint : String} (h : Derives (.declaration ctx s) (ts ++ [semi]))
    (hs : s.complaint? = some complaint) : Unended ts complaint := by
  generalize hall : ts ++ [semi] = all at h
  cases h with
  | declareFunction hk hn hf => cases hs
  | @declareVariable _ k us _ hk hb =>
    cases hb with
    | @uninitialized name semi' hn hsemi =>
      cases hs
      have hts : ts = [k, name] := List.append_inj_left' hall rfl
      rw [hts]
      exact .uninitialized hk hn
    | @initialized name equals semi' us e hn hq he hsemi =>
      cases hs
      have hts : ts = k :: name :: equals :: us := List.append_inj_left' hall rfl
      rw [hts]
      exact .initialized hk hn hq he
  | plain hst hf =>
    cases hst with
    | @print _ k semi' us e hk he hsemi =>
      cases hs
      have hts : ts = k :: us := List.append_inj_left' hall rfl
      rw [hts]
      exact .print hk he
    | @expr _ semi' us e he hsemi =>
      cases hs
      have hts : ts = us := List.append_inj_left' hall rfl
      rw [hts]
      refine .expr he fun u rest hu => startsFunction_append_cons ?_ hf hu
      rintro rfl
      exact Bool.noConfusion (he.opens _ rfl)
    | forLoop hk hl hf hc hsemi ht hr hb hlow => cases hlow <;> cases hs
    | _ => cases hs

/-- No expression goes on with a word that begins a statement. -/
theorem Token.ends_of_startsStatement {t : Token} (h : t.startsStatement = true) : t.Ends := by
  unfold Token.startsStatement at h
  split at h
  · next k hk =>
    refine ⟨⟨by simp [Token.isSymbol, hk], fun l _ => ?_⟩, by simp [Token.isSymbol, hk]⟩
    cases k <;> first | exact Bool.noConfusion h | (cases l <;> simp [Level.accepts, hk])
  · exact Bool.noConfusion h

theorem Token.isSymbol_of_startsStatement {t : Token} (h : t.startsStatement = true) (s : Symbol) :
    t.isSymbol s = false := by
  cases hs : t.isSymbol s with
  | false => rfl
  | true =>
    rw [startsStatement_of_isSymbol hs] at h
    exact Bool.noConfusion h

theorem Token.isIdentifier_of_startsStatement {t : Token} (h : t.startsStatement = true) :
    t.isIdentifier = false := by
  cases hi : t.isIdentifier with
  | false => rfl
  | true =>
    rw [startsStatement_of_isIdentifier hi] at h
    exact Bool.noConfusion h

/-- Only `fun` begins the declaration of a function. -/
theorem startsFunction_of_isKeyword {k : Token} {w : Keyword} (hk : k.isKeyword w = true)
    (hw : w ≠ .funWord) (ts : List Token) : startsFunction (k :: ts) = false := by
  cases ts with
  | nil => rfl
  | cons t ts => simp [startsFunction, Token.isKeyword, kind_of_isKeyword hk, hw]

namespace Parse

section Unended

variable {first fin : Token} {ts rest : List Token} {fs : List SyntaxFault} {complaint : String}
  {e : Expr}

/-- A semicolon is looked for at a word that begins a statement. -/
theorem semicolon_fails (hfirst : first.startsStatement = true) (complaint : String) :
    (expect (·.isSymbol .semicolon) complaint).Resumes ⟨first :: rest, fin, fs⟩
      (fail first (.expected complaint)) ⟨first :: rest, fin, fs⟩ :=
  expect_fails complaint (Token.isSymbol_of_startsStatement hfirst _)

/-- An expression is read up to a word that begins a statement. -/
theorem expression_before_word (he : Derives (.expression e) ts)
    (hfirst : first.startsStatement = true) (n : Nat) :
    (expression n).Finds ⟨ts ++ first :: rest, fin, fs⟩ e ⟨first :: rest, fin, fs⟩ :=
  he.found n first rest fin fs (Token.ends_of_startsStatement hfirst)

/-- **A missing semicolon is noticed at the next token,** and this one is skipped. -/
theorem declaration_unended (h : Unended ts complaint) (hfirst : first.startsStatement = true)
    (n : Nat) (ctx : Context) :
    (declaration n ctx).Finds ⟨ts ++ first :: rest, fin, fs⟩ none
      ⟨skipToStatement (first :: rest), fin, fs ++ [.at first (.expected complaint)]⟩ := by
  cases n with
  | zero => exact .of_exhausted rfl
  | succ n =>
    rw [declaration]
    apply Resumes.recovering_fail
    apply (Phrase.Found.atFunctionDeclaration_finds _ fin fs).then
    cases h with
    | @print k ts e hk he =>
      rw [List.cons_append, startsFunction_of_isKeyword hk (by decide), if_neg Bool.false_ne_true]
      apply (accept_finds_not (by simp [Token.isKeyword, kind_of_isKeyword hk])).then
      cases n with
      | zero => exact .of_exhausted rfl
      | succ n =>
        rw [if_neg Bool.false_ne_true, statement]
        apply Resumes.peek
        rw [kind_of_isKeyword hk]
        apply advance_finds.then
        exact (expression_before_word he hfirst n).then (semicolon_fails hfirst _).bind_fail
    | @uninitialized k name hk hn =>
      rw [List.cons_append, startsFunction_of_isKeyword hk (by decide), if_neg Bool.false_ne_true]
      apply (accept_finds hk).then
      apply (expect_finds _ hn).then
      refine (afterMark_finds_none ?_).then (semicolon_fails hfirst _).bind_fail
      exact Token.isSymbol_of_startsStatement hfirst _
    | @initialized k name equals ts e hk hn hq he =>
      rw [List.cons_append, startsFunction_of_isKeyword hk (by decide), if_neg Bool.false_ne_true]
      apply (accept_finds hk).then
      apply (expect_finds _ hn).then
      refine (afterMark_finds hq (expression_before_word he hfirst n)).then ?_
      exact (semicolon_fails hfirst _).bind_fail
    | expr he hf =>
      -- A function expression is told from a declaration by the token behind its `fun`.
      rw [hf first rest (Token.isIdentifier_of_startsStatement hfirst), if_neg Bool.false_ne_true]
      obtain ⟨t, us, rfl, hopen⟩ := eq_cons_of_head?_any (he.opens _ rfl)
      have hvar : t.isKeyword .varWord = false :=
        Token.isKeyword_of_opensExpression hopen (by decide)
      refine (accept_finds_not ?_).then ?_
      · exact hvar
      rw [if_neg Bool.false_ne_true]
      cases n with
      | zero => exact .of_exhausted (by rw [statement]; rfl)
      | succ n =>
        apply (statement_resumes_expression hopen n ctx).trans
        exact (expression_before_word he hfirst n).then (semicolon_fails hfirst _).bind_fail

/-- The declarations behind a fault are read as a program of their own. -/
theorem declarations_behind_fault (hends : ∀ t ∈ rest, t.isEnd = false)
    (hfin : rest ≠ [] → fin = (Cursor.start rest).finish) (n m : Nat) :
    (declarations (declaration n .top) (fun _ => false) m).Finds ⟨rest, fin, fs⟩
      (parse rest).statements ⟨[], fin, fs ++ (parse rest).faults⟩ := by
  by_cases hne : rest = []
  -- With nothing left to read, the line of the end does not matter.
  · subst hne
    have hparse : parse [] = ⟨[], []⟩ := rfl
    rw [hparse, List.append_nil]
    exact declarations_nil_finds n .top fin fs m
  · obtain ⟨ss, c, hread⟩ := readProgram_ok rest
    have hparse : parse rest = ⟨ss, c.faults⟩ := congrArg Step.draft hread
    have hsettle := declarations_settle n m fs hread
    obtain ⟨hrest, hfinish⟩ := readProgram_reaches_end hread
    have hstart : (Cursor.start rest).rest = rest := by rw [Cursor.start_of_no_end hends]
    rw [hrest, hfinish, hstart, ← hfin hne] at hsettle
    rw [hparse]
    exact hsettle

end Unended

end Parse

/-! ## §5. Programs. -/

/-- A program without a fault derives its statements. -/
theorem derives_of_parse {ts : List Token} {ss : List Stmt} (hends : ∀ t ∈ ts, t.isEnd = false)
    (h : parse ts = ⟨ss, []⟩) : Derives (.declarations .top ss) ts := by
  obtain ⟨ss', c, hread⟩ := readProgram_ok ts
  have hparse : parse ts = ⟨ss', c.faults⟩ := congrArg Step.draft hread
  obtain ⟨rfl, hfaults⟩ := Draft.mk.inj (hparse.symm.trans h)
  have hderives := derives_of_readProgram hread hfaults
  have hall : ts.takeWhile (!·.isEnd) = ts :=
    List.takeWhile_eq_self_iff.2 fun t ht => by rw [hends t ht]; rfl
  rw [hall] at hderives
  exact hderives

/-- A program of one statement derives it. -/
theorem Derives.of_singleton {ctx : Context} {s : Stmt} {ts : List Token}
    (h : Derives (.declarations ctx [s]) ts) : Derives (.declaration ctx s) ts := by
  cases h with
  | cons hs hss =>
    cases hss with
    | nil =>
      rw [List.append_nil]
      exact hs

/-- The end behind some tokens is on the line of the last of them. -/
theorem Cursor.start_finish_append {ts us : List Token} (hends : ∀ t ∈ ts ++ us, t.isEnd = false)
    (hne : us ≠ []) : (start (ts ++ us)).finish = (start us).finish := by
  have hus : ∀ t ∈ us, t.isEnd = false := fun t ht => hends t (List.mem_append_right ts ht)
  have hlast : (ts ++ us).getLast? = us.getLast? := by
    rw [List.getLast?_append, List.getLast?_eq_some_getLast hne, Option.some_or]
  rw [start_of_no_end hends, start_of_no_end hus, hlast]

/-- A fault in the first statement is followed by what is read behind it. -/
theorem parse_behind_fault {ts us : List Token} {fault : SyntaxFault}
    (hends : ∀ t ∈ ts ++ us, t.isEnd = false) (hne : ts ≠ [])
    (h : ∀ n fin, (Parse.declaration n .top).Finds ⟨ts ++ us, fin, []⟩ none ⟨us, fin, [fault]⟩) :
    parse (ts ++ us) = ⟨(parse us).statements, fault :: (parse us).faults⟩ := by
  have hus : ∀ t ∈ us, t.isEnd = false := fun t ht => hends t (List.mem_append_right ts ht)
  have hcursor : Cursor.start (ts ++ us) = ⟨ts ++ us, (Cursor.start (ts ++ us)).finish, []⟩ := by
    rw [Cursor.start_of_no_end hends]
  have hfinds := Parse.declarations_cons_finds (fun hnil => hne (List.append_eq_nil_iff.1 hnil).1)
    (h (readingBound (ts ++ us)) (Cursor.start (ts ++ us)).finish)
    (Parse.declarations_behind_fault hus (Cursor.start_finish_append hends) _)
    (readingBound (ts ++ us))
  rw [← hcursor] at hfinds
  exact congrArg Step.draft (Parse.readProgram_of_finds hfinds)

/-- **Words that are gone do not come back.** -/
theorem parse_ne_of_word_skipped {ts us : List Token} (hends : ∀ t ∈ ts ++ us, t.isEnd = false)
    (hword : 0 < ts.countP Token.startsStatement) (hall : (parse (ts ++ us)).faults = []) :
    parse us ≠ ⟨(parse (ts ++ us)).statements, []⟩ := by
  intro hparse
  have hparse_all : parse (ts ++ us) = ⟨(parse (ts ++ us)).statements, []⟩ := by rw [← hall]
  have hus : ∀ t ∈ us, t.isEnd = false := fun t ht => hends t (List.mem_append_right ts ht)
  -- Both are read from as many words as their common tree tells.
  have hcount := (derives_of_parse hus hparse).countP_words
  have hcount_all := (derives_of_parse hends hparse_all).countP_words
  rw [List.countP_append, hcount] at hcount_all
  omega

/-- **Behind a missing semicolon, the next word is lost.** A statement lacks its
semicolon, and a program without faults follows that begins with a word for a
statement.  Then the fault is found at this word, and what is read behind it is
what is left when the word is skipped.  The statements of the program never come
out with this fault alone. -/
theorem missing_semicolon_loses_next_word {before after : List Token} {first semi : Token}
    {s : Stmt} {complaint : String} (hends : ∀ t ∈ before ++ first :: after, t.isEnd = false)
    (hsemi : semi.isSymbol .semicolon = true) (hbefore : parse (before ++ [semi]) = ⟨[s], []⟩)
    (hs : s.complaint? = some complaint) (hfirst : first.startsStatement = true)
    (hafter : (parse (first :: after)).faults = []) :
    parse (before ++ first :: after) =
        ⟨(parse (Parse.skipToStatement (first :: after))).statements,
          .at first (.expected complaint) ::
            (parse (Parse.skipToStatement (first :: after))).faults⟩ ∧
      parse (before ++ first :: after) ≠
        ⟨(parse (first :: after)).statements, [.at first (.expected complaint)]⟩ := by
  have hclosed : ∀ t ∈ before ++ [semi], t.isEnd = false := by
    intro t ht
    rcases List.mem_append.1 ht with ht | ht
    · exact hends t (List.mem_append_left _ ht)
    · rw [List.mem_singleton.1 ht]
      exact Parse.isEnd_of_isSymbol hsemi
  have hunended := (derives_of_parse hclosed hbefore).of_singleton.unended hs
  have hfinds : ∀ n fin, (Parse.declaration n .top).Finds ⟨before ++ first :: after, fin, []⟩ none
      ⟨Parse.skipToStatement (first :: after), fin, [.at first (.expected complaint)]⟩ :=
    fun n fin => Parse.declaration_unended hunended hfirst n .top
  obtain ⟨skipped, hskip, hpass⟩ := Parse.skipToStatement_eq_append (first :: after)
  generalize Parse.skipToStatement (first :: after) = rest at hskip hfinds ⊢
  -- The word at which the fault is found is the first that is skipped.
  have hword : 0 < skipped.countP Token.startsStatement := by
    obtain ⟨t, us, rfl⟩ := List.exists_cons_of_ne_nil (hpass (List.cons_ne_nil first after))
    have hfirst_eq : first = t := (List.cons.inj hskip).1
    exact List.countP_pos_iff.2 ⟨t, List.mem_cons_self, hfirst_eq ▸ hfirst⟩
  rw [hskip] at hends hafter hfinds ⊢
  have hresult : parse (before ++ (skipped ++ rest)) =
      ⟨(parse rest).statements, .at first (.expected complaint) :: (parse rest).faults⟩ := by
    rw [← List.append_assoc] at hends hfinds ⊢
    refine parse_behind_fault hends ?_ hfinds
    intro hnil
    rw [(List.append_eq_nil_iff.1 hnil).2] at hword
    exact Nat.lt_irrefl 0 hword
  refine ⟨hresult, fun hclaim => ?_⟩
  obtain ⟨hstatements, hfaults⟩ := Draft.mk.inj (hresult.symm.trans hclaim)
  refine parse_ne_of_word_skipped (fun t ht => hends t (List.mem_append_right before ht)) hword
    hafter ?_
  rw [← hstatements, ← (List.cons.inj hfaults).2]

/-- `print nil`, without its semicolon. -/
def unendedPrint : List Token :=
  [⟨.keyword .printWord, "print", 1⟩, ⟨.keyword .nilWord, "nil", 1⟩]

/-- `print true ;` -/
def nextPrint : List Token :=
  [⟨.keyword .printWord, "print", 1⟩, ⟨.keyword .trueWord, "true", 1⟩, ⟨.symbol .semicolon, ";", 1⟩]

theorem missing_semicolon_loses_next_word_print :
    parse (unendedPrint ++ [⟨.symbol .semicolon, ";", 1⟩]) = ⟨[.print (.literal .nil)], []⟩ ∧
      parse nextPrint = ⟨[.print (.literal (.bool true))], []⟩ ∧
      parse (unendedPrint ++ nextPrint) =
        ⟨[], [⟨1, .atToken "print", .expected "Expect ';' after value."⟩]⟩ := by
  have hbefore : parse (unendedPrint ++ [⟨.symbol .semicolon, ";", 1⟩]) =
      ⟨[.print (.literal .nil)], []⟩ := by rfl
  have hnext : parse nextPrint = ⟨[.print (.literal (.bool true))], []⟩ := by rfl
  have hfaults : (parse nextPrint).faults = [] := by rw [hnext]
  refine ⟨hbefore, hnext, ?_⟩
  exact (missing_semicolon_loses_next_word (by decide) (by decide) hbefore rfl (by decide)
    hfaults).1

/-- The next statement is not kept. -/
theorem not_next_statement_kept_behind_missing_semicolon :
    ¬ ∀ (before after : List Token) (first semi : Token) (s : Stmt) (complaint : String),
      (∀ t ∈ before ++ first :: after, t.isEnd = false) → semi.isSymbol .semicolon = true →
      parse (before ++ [semi]) = ⟨[s], []⟩ → s.complaint? = some complaint →
      first.startsStatement = true → (parse (first :: after)).faults = [] →
      parse (before ++ first :: after) =
        ⟨(parse (first :: after)).statements, [.at first (.expected complaint)]⟩ := by
  intro hkept
  have h := hkept unendedPrint nextPrint.tail ⟨.keyword .printWord, "print", 1⟩
    ⟨.symbol .semicolon, ";", 1⟩ _ _ (by decide) (by decide) rfl rfl (by decide) (by decide +kernel)
  have hlength : (parse (unendedPrint ++ nextPrint)).statements.length =
      (parse nextPrint).statements.length := congrArg (·.statements.length) h
  exact absurd hlength (by decide +kernel)

end Lox
