/-
  Lox.Proofs.Grammar.Recovery
  ────────────────────────────────
  **A FAULT STAYS IN ITS STATEMENT.**

  After a fault, reading skips to where a statement may begin.  For tokens that
  end in their only semicolon, with no brace and no second word that begins a
  statement, this is behind the semicolon, wherever in them the fault was found:
  what follows is read as if nothing had happened, and what they themselves come
  to does not depend on it.

  `p.Mirrors q u Q` compares a run of `p` on the tokens `u` with a run of `q` on
  the same tokens before another rest, with another end and after other faults:
  both give the same value, or get stuck at the same fault, leave the same tokens
  of `u` and note the same faults, unless `p` runs into its bound.  With the same
  reader at a bound and at a larger one for `p` and `q`, a rule for each reader
  gives this for declarations (§5), and the declarations of a program come one
  after the other (§6).
-/
import Lox.Proofs.Grammar.Acceptance
import Mathlib.Data.List.TakeWhile
import Mathlib.Tactic.MkIffOfInductiveProp

namespace Lox

/-! ## §1. What is left of a statement. -/

/-- **Tokens up to the end of a statement:** the last one is their only semicolon,
no block and no `for` begins in them, and no statement behind their first one. -/
inductive Unfinished : List Token → Prop where
  | last {t : Token} (ht : t.isSymbol .semicolon = true) : Unfinished [t]
  | cons {t u : Token} {ts : List Token} (ht : t.isSymbol .semicolon = false)
      (hbrace : t.isSymbol .leftBrace = false) (hfor : t.isKeyword .forWord = false)
      (hu : u.startsStatement = false) (h : Unfinished (u :: ts)) : Unfinished (t :: u :: ts)

namespace Unfinished

variable {t : Token} {u : List Token}

theorem exists_cons (h : Unfinished u) : ∃ t ts, u = t :: ts := by
  cases h with
  | last ht => exact ⟨_, [], rfl⟩
  | cons ht hbrace hfor hu h => exact ⟨_, _, rfl⟩

/-- The statement is not at its end before its semicolon. -/
theorem tail (h : Unfinished (t :: u)) (ht : t.isSymbol .semicolon = false) : Unfinished u := by
  cases h with
  | last hlast =>
    rw [ht] at hlast
    cases hlast
  | cons ht hbrace hfor hu h => exact h

/-- The semicolon is at the end. -/
theorem eq_nil (h : Unfinished (t :: u)) (ht : t.isSymbol .semicolon = true) : u = [] := by
  cases h with
  | last hlast => rfl
  | cons hno hbrace hfor hu h =>
    rw [ht] at hno
    cases hno

theorem leftBrace (h : Unfinished (t :: u)) : t.isSymbol .leftBrace = false := by
  cases h with
  | last ht => simp [Token.isSymbol, kind_of_isSymbol ht]
  | cons ht hbrace hfor hu h => exact hbrace

theorem forWord (h : Unfinished (t :: u)) : t.isKeyword .forWord = false := by
  cases h with
  | last ht => simp [Token.isKeyword, kind_of_isSymbol ht]
  | cons ht hbrace hfor hu h => exact hfor

/-- **Recovery ends behind the semicolon,** wherever it begins. -/
theorem skipToStatement_append (h : Unfinished u) (rest : List Token) :
    Parse.skipToStatement (u ++ rest) = rest := by
  induction h with
  | @last t ht =>
    show Parse.skipAfter t rest = rest
    cases rest with
    | nil => rfl
    | cons next rest => rw [Parse.skipAfter, ht, Bool.true_or, if_pos rfl]
  | @cons t u ts ht hbrace hfor hu h ih =>
    show Parse.skipAfter t (u :: ts ++ rest) = rest
    rw [List.cons_append, Parse.skipAfter, ht, hu, Bool.false_or, if_neg Bool.false_ne_true]
    exact ih

end Unfinished

/-- What is wanted is no semicolon. -/
def Inner (wanted : Token → Bool) : Prop := ∀ t, wanted t = true → t.isSymbol .semicolon = false

theorem Inner.symbol {s : Symbol} (h : s ≠ .semicolon) : Inner (·.isSymbol s) := by
  intro t ht
  simp [Token.isSymbol, kind_of_isSymbol ht, h]

theorem Inner.keyword (k : Keyword) : Inner (·.isKeyword k) := by
  intro t ht
  simp [Token.isSymbol, kind_of_isKeyword ht]

theorem Inner.identifier : Inner Token.isIdentifier := by
  intro t ht
  unfold Token.isIdentifier at ht
  split at ht
  · next hkind => simp [Token.isSymbol, hkind]
  · cases ht

theorem Inner.accepts (l : Level) : Inner l.accepts := by
  intro t ht
  cases hs : t.isSymbol .semicolon with
  | false => rfl
  | true =>
    unfold Level.accepts at ht
    rw [kind_of_isSymbol hs] at ht
    cases l <;> cases ht

theorem Inner.atom : Inner Token.isAtom := by
  intro t ht
  cases hs : t.isSymbol .semicolon with
  | false => rfl
  | true =>
    unfold Token.isAtom at ht
    rw [kind_of_isSymbol hs] at ht
    cases ht

/-! ## §2. Two runs side by side. -/

namespace Cursor

/-- The cursor with more tokens ahead. -/
def before (c : Cursor) (u : List Token) : Cursor := { c with rest := u ++ c.rest }

/-- The cursor with more faults found. -/
def noting (c : Cursor) (g : List SyntaxFault) : Cursor := { c with faults := c.faults ++ g }

theorem noting_nil (c : Cursor) : c.noting [] = c := by
  unfold noting
  rw [List.append_nil]

theorem noting_noting (c : Cursor) (g h : List SyntaxFault) :
    (c.noting g).noting h = c.noting (g ++ h) := by
  unfold noting
  rw [List.append_assoc]

/-- No `else` is ahead. -/
def NoElse (c : Cursor) : Prop := c.rest.head?.any (·.isKeyword .elseWord) = false

end Cursor

variable {α β : Type}

/-- **Two runs come to the same,** before the cursors `c` and `d`: the same value or
the same fault, with the same tokens left and the same faults noted, unless the
first is broken off. -/
inductive Step.Alike (c d : Cursor) (Q : α → List Token → Prop) : Step α → Step α → Prop where
  | ok {a : α} {v : List Token} {g : List SyntaxFault} (h : Q a v) :
      Alike c d Q (.ok a ((c.noting g).before v)) (.ok a ((d.noting g).before v))
  | stuck {fault : SyntaxFault} {v : List Token} {g : List SyntaxFault} (h : Unfinished v) :
      Alike c d Q (.stuck fault ((c.noting g).before v)) (.stuck fault ((d.noting g).before v))
  | broken (text : String) (c' : Cursor) (s : Step α) : Alike c d Q (.broken text c') s
  | exhausted (s : Step α) : Alike c d Q .exhausted s

/-- Faults that have been noted on both sides count. -/
theorem Step.Alike.of_noting {c d : Cursor} {Q : α → List Token → Prop} {s t : Step α}
    {g : List SyntaxFault} (h : Alike (c.noting g) (d.noting g) Q s t) : Alike c d Q s t := by
  cases h with
  | ok h =>
    rw [Cursor.noting_noting, Cursor.noting_noting]
    exact .ok h
  | stuck h =>
    rw [Cursor.noting_noting, Cursor.noting_noting]
    exact .stuck h
  | broken text c' => exact .broken text c' _
  | exhausted => exact .exhausted _

/-- Where reading goes on after a fault in a statement. -/
theorem Unfinished.recovered {v : List Token} (hv : Unfinished v) (c : Cursor)
    (g : List SyntaxFault) (fault : SyntaxFault) :
    ({ (c.noting g).before v with
      rest := Parse.skipToStatement ((c.noting g).before v).rest
      faults := ((c.noting g).before v).faults ++ [fault] } : Cursor) =
      (c.noting (g ++ [fault])).before [] := by
  show Cursor.mk (Parse.skipToStatement (v ++ c.rest)) c.finish (c.faults ++ g ++ [fault]) = _
  rw [hv.skipToStatement_append, List.append_assoc]
  rfl

namespace Parse

/-- **Two readers do the same with some tokens,** whatever follows these that is not
an `else`. -/
def Mirrors (p q : Parse α) (u : List Token) (Q : α → List Token → Prop) : Prop :=
  ∀ c d : Cursor, c.NoElse → d.NoElse → Step.Alike c d Q (p (c.before u)) (q (d.before u))

section Rules

variable {p q : Parse α} {u : List Token} {P Q : α → List Token → Prop} {t : Token}

theorem Mirrors.pure {a : α} (h : Q a u) : (Pure.pure a : Parse α).Mirrors (Pure.pure a) u Q := by
  intro c d _ _
  have hok := Step.Alike.ok (c := c) (d := d) (g := []) h
  rw [Cursor.noting_nil, Cursor.noting_nil] at hok
  exact hok

theorem Mirrors.exhausted (q : Parse α) : (Parse.exhausted : Parse α).Mirrors q u Q :=
  fun _ _ _ _ => .exhausted _

theorem Mirrors.abort (text : String) (q : Parse α) : (Parse.abort text : Parse α).Mirrors q u Q :=
  fun _ _ _ _ => .broken _ _ _

theorem Mirrors.fail (hu : Unfinished u) (t : Token) (cause : SyntaxCause) :
    (Parse.fail t cause : Parse α).Mirrors (Parse.fail t cause) u Q := by
  intro c d _ _
  have hstuck : Step.Alike c d Q (.stuck (.at t cause) ((c.noting []).before u))
      (.stuck (.at t cause) ((d.noting []).before u)) := .stuck hu
  rw [Cursor.noting_nil, Cursor.noting_nil] at hstuck
  exact hstuck

theorem Mirrors.mono (h : p.Mirrors q u P) (hpq : ∀ a v, P a v → Q a v) : p.Mirrors q u Q := by
  intro c d hc hd
  have hsame := h c d hc hd
  generalize p (c.before u) = s at hsame ⊢
  generalize q (d.before u) = s' at hsame ⊢
  cases hsame with
  | ok h => exact .ok (hpq _ _ h)
  | stuck h => exact .stuck h
  | broken text c' => exact .broken text c' _
  | exhausted => exact .exhausted _

/-- **One reader after the other.** -/
theorem Mirrors.bind {k l : α → Parse β} {R : β → List Token → Prop} (hp : p.Mirrors q u P)
    (hk : ∀ a v, P a v → (k a).Mirrors (l a) v R) : (p >>= k).Mirrors (q >>= l) u R := by
  intro c d hc hd
  show Step.Alike c d R (Parse.bind p k _) (Parse.bind q l _)
  have hsame := hp c d hc hd
  unfold Parse.bind
  generalize p (c.before u) = s at hsame ⊢
  generalize q (d.before u) = s' at hsame ⊢
  cases hsame with
  | @ok a v g h => exact (hk a v h (c.noting g) (d.noting g) hc hd).of_noting
  | stuck h => exact .stuck h
  | broken text c' => exact .broken text c' _
  | exhausted => exact .exhausted _

theorem Mirrors.map {R : β → List Token → Prop} (hp : p.Mirrors q u P) (f : α → β)
    (hf : ∀ a v, P a v → R (f a) v) : (f <$> p).Mirrors (f <$> q) u R :=
  hp.bind fun a v h => .pure (hf a v h)

/-- Looking at the token at the cursor. -/
theorem Mirrors.peek {k l : Token → Parse α} (h : (k t).Mirrors (l t) (t :: u) Q) :
    (Parse.peek >>= k).Mirrors (Parse.peek >>= l) (t :: u) Q := h

/-- Looking whether the token at the cursor is as wanted. -/
theorem Mirrors.check {k l : Bool → Parse α} {wanted : Token → Bool}
    (h : (k (wanted t)).Mirrors (l (wanted t)) (t :: u) Q) :
    (Parse.check wanted >>= k).Mirrors (Parse.check wanted >>= l) (t :: u) Q := h

/-! ## §3. Readers of single tokens. -/

theorem advance_mirrors (t : Token) (u : List Token) :
    advance.Mirrors advance (t :: u) fun a v => a = t ∧ v = u := by
  intro c d _ _
  have hok := Step.Alike.ok (Q := fun a v => a = t ∧ v = u) (c := c) (d := d) (g := []) ⟨rfl, rfl⟩
  rw [Cursor.noting_nil, Cursor.noting_nil] at hok
  exact hok

theorem report_mirrors (hu : Unfinished u) (t : Token) (cause : SyntaxCause) :
    (report t cause).Mirrors (report t cause) u fun _ v => Unfinished v :=
  fun c d _ _ => Step.Alike.ok (c := c) (d := d) (g := [.at t cause]) hu

/-- A token inside of the statement is read if it is as wanted. -/
theorem accept_mirrors {wanted : Token → Bool} (hu : Unfinished u) (hw : Inner wanted) :
    (accept wanted).Mirrors (accept wanted) u fun _ v => Unfinished v := by
  obtain ⟨t, ts, rfl⟩ := hu.exists_cons
  apply Mirrors.check
  cases ht : wanted t with
  | false => exact .pure hu
  | true =>
    refine (advance_mirrors t ts).bind ?_
    rintro t v ⟨rfl, rfl⟩
    exact .pure (hu.tail (hw t ht))

/-- A token inside of the statement is read, or is missing. -/
theorem expect_mirrors {wanted : Token → Bool} (hu : Unfinished u) (hw : Inner wanted)
    (complaint : String) :
    (expect wanted complaint).Mirrors (expect wanted complaint) u fun a v =>
      Unfinished v ∧ u = a :: v ∧ wanted a = true := by
  obtain ⟨t, ts, rfl⟩ := hu.exists_cons
  apply Mirrors.check
  cases ht : wanted t with
  | false => exact Mirrors.peek (.fail hu _ _)
  | true =>
    refine (advance_mirrors t ts).mono ?_
    rintro t v ⟨rfl, rfl⟩
    exact ⟨hu.tail (hw t ht), rfl, ht⟩

/-- The semicolon ends the statement, or is missing. -/
theorem expect_semicolon_mirrors (hu : Unfinished u) (complaint : String) :
    (expect (·.isSymbol .semicolon) complaint).Mirrors (expect (·.isSymbol .semicolon) complaint) u
      fun _ v => v = [] := by
  obtain ⟨t, ts, rfl⟩ := hu.exists_cons
  apply Mirrors.check
  cases ht : t.isSymbol .semicolon with
  | false => exact Mirrors.peek (.fail hu _ _)
  | true =>
    refine (advance_mirrors t ts).mono ?_
    rintro t v ⟨rfl, rfl⟩
    exact hu.eq_nil ht

end Rules

/-! ## §4. Inside of a statement. -/

/-- Two readers do the same inside of a statement, and stay inside of it. -/
def SameInside (p q : Parse α) : Prop :=
  ∀ u, Unfinished u → p.Mirrors q u fun _ v => Unfinished v

/-- Two readers do the same with the rest of a statement, and read it to its end. -/
def SameToEnd (p q : Parse α) : Prop := ∀ u, Unfinished u → p.Mirrors q u fun _ v => v = []

section Inside

variable {e e' : Parse Expr} {n n' : Nat}

/-- A token that has been looked at is read. -/
theorem advance_inside {t : Token} {u : List Token} (hu : Unfinished (t :: u))
    (ht : t.isSymbol .semicolon = false) :
    advance.Mirrors advance (t :: u) fun a v => a = t ∧ Unfinished v := by
  refine (advance_mirrors t u).mono ?_
  rintro a v ⟨rfl, rfl⟩
  exact ⟨rfl, hu.tail ht⟩

theorem chain_inside (l : Level) (ho : e.SameInside e') (hn : n ≤ n') (left : Expr) :
    (chain l e n left).SameInside (chain l e' n' left) := by
  induction n generalizing n' left with
  | zero => exact fun u _ => .exhausted _
  | succ n ih =>
    obtain ⟨k, rfl⟩ : ∃ k, n' = k + 1 := ⟨n' - 1, by omega⟩
    intro u hu
    obtain ⟨t, ts, rfl⟩ := hu.exists_cons
    rw [chain, chain]
    apply Mirrors.peek
    by_cases ht : l.accepts t = true
    · rw [if_pos ht, if_pos ht]
      refine (advance_inside hu (Inner.accepts l t ht)).bind fun operator v hv => ?_
      refine (ho v hv.2).bind fun right w hw => ?_
      exact ih (by omega) _ w hw
    · rw [if_neg ht, if_neg ht]
      exact .pure hu

theorem ladder_inside (ho : e.SameInside e') (hn : n ≤ n') (ls : List Level) :
    (ladder e n ls).SameInside (ladder e' n' ls) := by
  induction ls with
  | nil => exact ho
  | cons l ls ih =>
    intro u hu
    rw [ladder, ladder]
    exact (ih u hu).bind fun left v hv => chain_inside l ih hn left v hv

theorem noteExcess_inside (count : Nat) (cause : SyntaxCause) :
    (noteExcess count cause).SameInside (noteExcess count cause) := by
  intro u hu
  obtain ⟨t, ts, rfl⟩ := hu.exists_cons
  unfold noteExcess
  by_cases h : maxArity ≤ count
  · rw [if_pos h]
    exact Mirrors.peek (report_mirrors hu t cause)
  · rw [if_neg h]
    exact .pure hu

theorem separated_inside {item item' : Parse α} (hi : item.SameInside item')
    (excess : SyntaxCause) (hn : n ≤ n') (count : Nat) :
    (separated item excess n count).SameInside (separated item' excess n' count) := by
  induction n generalizing n' count with
  | zero => exact fun u _ => .exhausted _
  | succ n ih =>
    obtain ⟨k, rfl⟩ : ∃ k, n' = k + 1 := ⟨n' - 1, by omega⟩
    intro u hu
    rw [separated, separated]
    refine (noteExcess_inside count excess u hu).bind fun _ v hv => ?_
    refine (hi v hv).bind fun first w hw => ?_
    refine (accept_mirrors hw (Inner.symbol (by decide))).bind fun more x hx => ?_
    cases more with
    | true => exact (ih (by omega) (count + 1) x hx).bind fun others y hy => .pure hy
    | false => exact .pure hx

theorem listUnlessAt_inside {item item' : Parse (List α)} (hi : item.SameInside item')
    (absent : Token → Bool) :
    (listUnlessAt absent item).SameInside (listUnlessAt absent item') := by
  intro u hu
  obtain ⟨t, ts, rfl⟩ := hu.exists_cons
  apply Mirrors.check
  cases absent t with
  | true => exact .pure hu
  | false => exact hi _ hu

theorem calls_inside (he : e.SameInside e') (hn : n ≤ n') (callee : Expr) :
    (calls e n callee).SameInside (calls e' n' callee) := by
  induction n generalizing n' callee with
  | zero => exact fun u _ => .exhausted _
  | succ n ih =>
    obtain ⟨k, rfl⟩ : ∃ k, n' = k + 1 := ⟨n' - 1, by omega⟩
    have hgiven : (arguments e n).SameInside (arguments e' k) :=
      listUnlessAt_inside (separated_inside he _ (by omega) 0) _
    intro u hu
    rw [calls, calls]
    refine (accept_mirrors hu (Inner.symbol (by decide))).bind fun more v hv => ?_
    cases more with
    | true =>
      refine (hgiven v hv).bind fun given w hw => ?_
      refine (expect_mirrors hw (Inner.symbol (by decide)) _).bind fun paren x hx => ?_
      exact ih (by omega) _ x hx.1
    | false => exact .pure hv

theorem parameters_inside (hn : n ≤ n') : (parameters n).SameInside (parameters n') := by
  have hname : (expect Token.isIdentifier "Expect parameter name.").SameInside
      (expect Token.isIdentifier "Expect parameter name.") := fun u hu =>
    (expect_mirrors hu Inner.identifier _).mono fun a v h => h.1
  exact listUnlessAt_inside (separated_inside hname _ hn 0) _

theorem ownName_inside : ownName.SameInside ownName := by
  intro u hu
  obtain ⟨t, ts, rfl⟩ := hu.exists_cons
  apply Mirrors.check
  cases ht : t.isIdentifier with
  | false => exact .pure hu
  | true =>
    exact (advance_inside hu (Inner.identifier t ht)).map some fun a v h => h.2

/-- A function has no body here, so reading it gets stuck. -/
theorem function_inside {d d' : Parse (Option Stmt)} (hn : n ≤ n') (after : String)
    {u : List Token} (hu : Unfinished u) (Q : List Token × List Stmt → List Token → Prop) :
    (function d n after).Mirrors (function d' n' after) u Q := by
  unfold function
  refine (expect_mirrors hu (Inner.symbol (by decide)) _).bind fun l v hv => ?_
  refine (parameters_inside hn v hv.1).bind fun names w hw => ?_
  refine (expect_mirrors hw (Inner.symbol (by decide)) _).bind fun r x hx => ?_
  refine (expect_mirrors hx.1 (Inner.symbol (by decide)) _).bind fun brace y hy => ?_
  obtain ⟨-, rfl, hbrace⟩ := hy
  rw [hx.1.leftBrace] at hbrace
  cases hbrace

/-- At a bound, the readers of expressions do the same as at a larger one. -/
structure InsideAt (n : Nat) : Prop where
  expression : ∀ n', n ≤ n' → (expression n).SameInside (expression n')
  unary : ∀ n', n ≤ n' → (unary n).SameInside (unary n')
  primary : ∀ n', n ≤ n' → (primary n).SameInside (primary n')

theorem InsideAt.expression_succ (ih : InsideAt n) (hn : n ≤ n') :
    (Parse.expression (n + 1)).SameInside (Parse.expression (n' + 1)) := by
  intro u hu
  rw [Parse.expression, Parse.expression]
  refine (ladder_inside (ih.unary n' hn) hn _ u hu).bind fun left v hv => ?_
  obtain ⟨t, ts, rfl⟩ := hv.exists_cons
  apply Mirrors.peek
  by_cases ht : t.isSymbol .equal = true
  · rw [if_pos ht, if_pos ht]
    have hinner : t.isSymbol .semicolon = false := Inner.symbol (by decide) t ht
    refine (advance_inside hv hinner).bind fun equals w hw => ?_
    refine (ih.expression n' hn w hw.2).bind fun value x hx => ?_
    cases left.target? with
    | some target => exact .pure hx
    | none => exact (report_mirrors hx equals _).bind fun _ y hy => .pure hy
  · rw [if_neg ht, if_neg ht]
    exact .pure hv

theorem InsideAt.unary_succ (ih : InsideAt n) (hn : n ≤ n') :
    (Parse.unary (n + 1)).SameInside (Parse.unary (n' + 1)) := by
  intro u hu
  obtain ⟨t, ts, rfl⟩ := hu.exists_cons
  rw [Parse.unary, Parse.unary]
  apply Mirrors.peek
  by_cases ht : (t.isSymbol .bang || t.isSymbol .minus) = true
  · rw [if_pos ht, if_pos ht]
    have hinner : t.isSymbol .semicolon = false := by
      rcases Bool.or_eq_true_iff.1 ht with ht | ht
      · exact Inner.symbol (by decide) t ht
      · exact Inner.symbol (by decide) t ht
    refine (advance_inside hu hinner).bind fun operator v hv => ?_
    exact (ih.unary n' hn v hv.2).bind fun operand w hw => .pure hw
  · rw [if_neg ht, if_neg ht]
    refine (ih.primary n' hn _ hu).bind fun callee v hv => ?_
    exact calls_inside (ih.expression n' hn) hn callee v hv

theorem InsideAt.primary_succ (ih : InsideAt n) (hn : n ≤ n') :
    (Parse.primary (n + 1)).SameInside (Parse.primary (n' + 1)) := by
  intro u hu
  obtain ⟨t, ts, rfl⟩ := hu.exists_cons
  rw [Parse.primary, Parse.primary]
  apply Mirrors.peek
  by_cases hatom : t.isAtom = true
  · rw [if_pos hatom, if_pos hatom]
    refine (advance_inside hu (Inner.atom t hatom)).bind fun a v hv => ?_
    unfold atom
    cases Expr.ofToken? a with
    | some value => exact .pure hv.2
    | none => exact .abort _ _
  rw [if_neg hatom, if_neg hatom]
  by_cases hparen : t.isSymbol .leftParen = true
  · rw [if_pos hparen, if_pos hparen]
    have hinner : t.isSymbol .semicolon = false := Inner.symbol (by decide) t hparen
    refine (advance_inside hu hinner).bind fun l v hv => ?_
    refine (ih.expression n' hn v hv.2).bind fun inner w hw => ?_
    exact (expect_mirrors hw (Inner.symbol (by decide)) _).bind fun r x hx => .pure hx.1
  rw [if_neg hparen, if_neg hparen]
  by_cases hfun : t.isKeyword .funWord = true
  · rw [if_pos hfun, if_pos hfun]
    refine (advance_inside hu (Inner.keyword _ t hfun)).bind fun k v hv => ?_
    refine (ownName_inside v hv.2).bind fun name w hw => ?_
    exact (function_inside hn _ hw fun _ _ => False).bind fun _ _ h => h.elim
  · rw [if_neg hfun, if_neg hfun]
    exact .fail hu _ _

theorem insideAt (n : Nat) : InsideAt n := by
  induction n with
  | zero =>
    refine ⟨fun n' _ u _ => ?_, fun n' _ u _ => ?_, fun n' _ u _ => ?_⟩
    · rw [Parse.expression]
      exact .exhausted _
    · rw [Parse.unary]
      exact .exhausted _
    · rw [Parse.primary]
      exact .exhausted _
  | succ n ih =>
    refine ⟨fun n' hn => ?_, fun n' hn => ?_, fun n' hn => ?_⟩
    all_goals obtain ⟨k, rfl⟩ : ∃ k, n' = k + 1 := ⟨n' - 1, by omega⟩
    · exact ih.expression_succ (by omega)
    · exact ih.unary_succ (by omega)
    · exact ih.primary_succ (by omega)

end Inside

/-! ## §5. Statements and declarations. -/

section ToEnd

variable {e e' : Parse Expr} {body body' : Parse Stmt} {n n' : Nat} {t : Token} {u : List Token}

theorem require_inside (holds : Bool) (t : Token) (cause : SyntaxCause) :
    (require holds t cause).SameInside (require holds t cause) := by
  intro u hu
  unfold require
  cases holds with
  | true => exact .pure hu
  | false => exact .fail hu _ _

theorem unlessAt_inside {p q : Parse α} (h : p.SameInside q) (absent : Token → Bool) :
    (unlessAt absent p).SameInside (unlessAt absent q) := by
  intro u hu
  obtain ⟨t, ts, rfl⟩ := hu.exists_cons
  apply Mirrors.check
  cases absent t with
  | true => exact .pure hu
  | false => exact (h _ hu).map some fun _ _ hv => hv

theorem afterMark_inside {p q : Parse α} {mark : Token → Bool} (h : p.SameInside q)
    (hm : Inner mark) : (afterMark mark p).SameInside (afterMark mark q) := by
  intro u hu
  refine (accept_mirrors hu hm).bind fun marked v hv => ?_
  cases marked with
  | true => exact (h v hv).map some fun _ _ hw => hw
  | false => exact .pure hv

/-- Behind the semicolon an `else` is looked for, and there is none. -/
theorem afterMark_else {p q : Parse α} :
    (afterMark (·.isKeyword .elseWord) p).Mirrors (afterMark (·.isKeyword .elseWord) q) []
      fun _ v => v = [] := by
  have hnone : ∀ (p : Parse α) (c : Cursor), c.NoElse →
      afterMark (·.isKeyword .elseWord) p (c.before []) = .ok none ((c.noting []).before []) := by
    intro p c hc
    have haccept : accept (·.isKeyword .elseWord) (c.before []) = .ok false (c.before []) := by
      show (if c.rest.head?.any (·.isKeyword .elseWord) then _ else _ : Parse Bool) _ = _
      rw [if_neg (by rw [hc]; exact nofun)]
      rfl
    show Parse.bind (accept _) _ _ = _
    unfold Parse.bind
    rw [haccept, Cursor.noting_nil]
    rfl
  intro c d hc hd
  rw [hnone p c hc, hnone q d hd]
  exact .ok rfl

theorem varDeclaration_toEnd (he : e.SameInside e') :
    (varDeclaration e).SameToEnd (varDeclaration e') := by
  intro u hu
  refine (expect_mirrors hu Inner.identifier _).bind fun name v hv => ?_
  refine (afterMark_inside he (Inner.symbol (by decide)) v hv.1).bind fun initial w hw => ?_
  exact (expect_semicolon_mirrors hw _).bind fun _ x hx => .pure hx

theorem expressionStatement_toEnd (he : e.SameInside e') :
    (expressionStatement e).SameToEnd (expressionStatement e') := by
  intro u hu
  refine (he u hu).bind fun value v hv => ?_
  exact (expect_semicolon_mirrors hv _).bind fun _ w hw => .pure hw

theorem printStatement_toEnd (he : e.SameInside e') :
    (printStatement e).SameToEnd (printStatement e') := by
  intro u hu
  refine (he u hu).bind fun value v hv => ?_
  exact (expect_semicolon_mirrors hv _).bind fun _ w hw => .pure hw

theorem jumpStatement_mirrors (hu : Unfinished (t :: u)) (ht : t.isSymbol .semicolon = false)
    (inLoop : Bool) :
    (jumpStatement inLoop).Mirrors (jumpStatement inLoop) (t :: u) fun _ v => v = [] := by
  refine (advance_inside hu ht).bind fun keyword v hv => ?_
  refine (require_inside inLoop keyword _ v hv.2).bind fun _ w hw => ?_
  exact (expect_semicolon_mirrors hw _).bind fun _ x hx => .pure hx

theorem returnStatement_mirrors (he : e.SameInside e') (hu : Unfinished (t :: u))
    (ht : t.isSymbol .semicolon = false) (inFunction : Bool) :
    (returnStatement inFunction e).Mirrors (returnStatement inFunction e') (t :: u)
      fun _ v => v = [] := by
  refine (advance_inside hu ht).bind fun keyword v hv => ?_
  refine (require_inside inFunction keyword _ v hv.2).bind fun _ w hw => ?_
  refine (unlessAt_inside he _ w hw).bind fun value x hx => ?_
  exact (expect_semicolon_mirrors hx _).bind fun _ y hy => .pure hy

theorem branchStatement_toEnd (he : e.SameInside e') (hb : body.SameToEnd body') :
    (branchStatement e body).SameToEnd (branchStatement e' body') := by
  intro u hu
  refine (expect_mirrors hu (Inner.symbol (by decide)) _).bind fun l v hv => ?_
  refine (he v hv.1).bind fun condition w hw => ?_
  refine (expect_mirrors hw (Inner.symbol (by decide)) _).bind fun r x hx => ?_
  refine (hb x hx.1).bind fun yes y hy => ?_
  subst hy
  exact afterMark_else.bind fun no z hz => .pure hz

theorem whileStatement_toEnd (he : e.SameInside e') (hb : body.SameToEnd body') :
    (whileStatement e body).SameToEnd (whileStatement e' body') := by
  intro u hu
  refine (expect_mirrors hu (Inner.symbol (by decide)) _).bind fun l v hv => ?_
  refine (he v hv.1).bind fun condition w hw => ?_
  refine (expect_mirrors hw (Inner.symbol (by decide)) _).bind fun r x hx => ?_
  exact (hb x hx.1).bind fun round y hy => .pure hy

/-- One level of a statement. -/
theorem statement_succ (hn : n ≤ n')
    (ih : ∀ ctx, (statement n ctx).SameToEnd (statement n' ctx)) (ctx : Context) :
    (statement (n + 1) ctx).SameToEnd (statement (n' + 1) ctx) := by
  intro u hu
  obtain ⟨t, ts, rfl⟩ := hu.exists_cons
  have he := (insideAt n).expression n' hn
  rw [statement, statement]
  apply Mirrors.peek
  have hinner : ∀ k, t.kind = .keyword k → t.isSymbol .semicolon = false := by
    intro k hk
    simp [Token.isSymbol, hk]
  split
  · next hk => exact jumpStatement_mirrors hu (hinner _ hk) _
  · next hk => exact jumpStatement_mirrors hu (hinner _ hk) _
  · next hk =>
    have hfor := hu.forWord
    simp [Token.isKeyword, hk] at hfor
  · next hk =>
    refine (advance_inside hu (hinner _ hk)).bind fun k v hv => ?_
    exact branchStatement_toEnd he (ih ctx) v hv.2
  · next hk =>
    refine (advance_inside hu (hinner _ hk)).bind fun k v hv => ?_
    exact whileStatement_toEnd he (ih ctx.ofLoop) v hv.2
  · next hk =>
    refine (advance_inside hu (hinner _ hk)).bind fun k v hv => ?_
    exact printStatement_toEnd he v hv.2
  · next hk => exact returnStatement_mirrors he hu (hinner _ hk) _
  · next hk =>
    have hbrace := hu.leftBrace
    simp [Token.isSymbol, hk] at hbrace
  · exact expressionStatement_toEnd he _ hu

theorem statement_toEnd (hn : n ≤ n') (ctx : Context) :
    (statement n ctx).SameToEnd (statement n' ctx) := by
  induction n generalizing n' ctx with
  | zero =>
    intro u _
    rw [statement]
    exact .exhausted _
  | succ n ih =>
    obtain ⟨k, rfl⟩ : ∃ k, n' = k + 1 := ⟨n' - 1, by omega⟩
    exact statement_succ (by omega) (fun ctx => ih (by omega) ctx) ctx

/-- **Getting over a fault ends where getting over none ends.** -/
theorem recovering_toEnd {p q : Parse α} (h : p.SameToEnd q) :
    (recovering p).SameToEnd (recovering q) := by
  intro u hu c d hc hd
  have hsame := h u hu c d hc hd
  unfold recovering
  generalize p (c.before u) = s at hsame ⊢
  generalize q (d.before u) = s' at hsame ⊢
  cases hsame with
  | ok h => exact .ok h
  | @stuck fault v g hv =>
    dsimp only
    rw [hv.recovered c g fault, hv.recovered d g fault]
    exact .ok rfl
  | broken text c' => exact .broken text c' _
  | exhausted => exact .exhausted _

/-- What follows the statement does not make it the declaration of a function. -/
theorem atFunctionDeclaration_mirrors (hu : Unfinished u) :
    atFunctionDeclaration.Mirrors atFunctionDeclaration u fun b v =>
      v = u ∧ (b = true → ∃ t ts, u = t :: ts ∧ t.isKeyword .funWord = true) := by
  intro c d hc hd
  cases hu with
  | @last t ht =>
    -- A semicolon is no `fun`, so the token behind it does not count.
    have hno : ∀ c : Cursor, atFunctionDeclaration (c.before [t]) = .ok false (c.before [t]) := by
      intro c
      have hfun : t.isKeyword .funWord = false := by simp [Token.isKeyword, kind_of_isSymbol ht]
      have hrest : (c.before [t]).rest = t :: c.rest := rfl
      unfold atFunctionDeclaration
      rw [hrest]
      cases c.rest with
      | nil => rfl
      | cons next rest =>
        show Step.ok (t.isKeyword .funWord && next.isIdentifier) _ = _
        rw [hfun, Bool.false_and]
    rw [hno c, hno d]
    exact Mirrors.pure (a := false) ⟨rfl, fun h => absurd h Bool.false_ne_true⟩ c d hc hd
  | @cons t u ts =>
    refine Mirrors.pure (a := t.isKeyword .funWord && u.isIdentifier) ⟨rfl, fun h => ?_⟩ c d hc hd
    exact ⟨t, u :: ts, rfl, (Bool.and_eq_true_iff.1 h).1⟩

/-- **A declaration comes to the same whatever follows its end.** -/
theorem declaration_toEnd (hn : n ≤ n') (ctx : Context) :
    (declaration n ctx).SameToEnd (declaration n' ctx) := by
  cases n with
  | zero =>
    intro u _
    rw [declaration]
    exact .exhausted _
  | succ n =>
    obtain ⟨k, rfl⟩ : ∃ k, n' = k + 1 := ⟨n' - 1, by omega⟩
    have hk : n ≤ k := by omega
    rw [declaration, declaration]
    refine recovering_toEnd fun u hu => ?_
    refine (atFunctionDeclaration_mirrors hu).bind fun named v hv => ?_
    obtain ⟨rfl, hfun⟩ := hv
    cases named with
    | true =>
      obtain ⟨t, ts, rfl, ht⟩ := hfun rfl
      refine (advance_inside hu (Inner.keyword _ t ht)).bind fun _ w hw => ?_
      refine (expect_mirrors hw.2 Inner.identifier _).bind fun name x hx => ?_
      exact (function_inside hk _ hx.1 fun _ _ => False).bind fun _ _ h => h.elim
    | false =>
      refine (accept_mirrors hu (Inner.keyword _)).bind fun marked w hw => ?_
      cases marked with
      | true => exact varDeclaration_toEnd ((insideAt n).expression k hk) w hw
      | false => exact statement_toEnd hk ctx w hw

end ToEnd

/-! ## §6. Declarations one after the other. -/

section Declarations

variable {n : Nat} {ctx : Context} {c c' c'' : Cursor}

theorem declarations_cons_finds {d : Parse (Option Stmt)} {o : Option Stmt} {others : List Stmt}
    (hne : c.rest ≠ []) (hfirst : d.Finds c o c')
    (hrest : ∀ m, (declarations d (fun _ => false) m).Finds c' others c'') (m : Nat) :
    (declarations d (fun _ => false) m).Finds c (o.toList ++ others) c'' := by
  cases m with
  | zero => exact .of_exhausted rfl
  | succ m =>
    have hgo : c.rest.head?.any (fun _ => !false) = true := by
      obtain ⟨t, rest, hcons⟩ := List.exists_cons_of_ne_nil hne
      rw [hcons]
      rfl
    rw [declarations]
    show Resumes (if c.rest.head?.any (fun _ => !false) = true then _ else _) _ _ _
    rw [if_pos hgo]
    exact hfirst.then ((hrest m).then Finds.pure)

/-- Tokens that derive declarations are read as these, and what follows them as if
it stood alone. -/
theorem declarations_derived_finds {ss others : List Stmt} {ts : List Token}
    (h : Derives (.declarations ctx ss) ts) (hc : c.NoElse)
    (hrest : ∀ m, (declarations (declaration n ctx) (fun _ => false) m).Finds c others c'')
    (m : Nat) :
    (declarations (declaration n ctx) (fun _ => false) m).Finds (c.before ts) (ss ++ others)
      c'' := by
  induction ss generalizing ts m with
  | nil =>
    cases h with
    | nil => exact hrest m
  | cons s ss ih =>
    cases h with
    | @cons _ ts us _ _ hs hss =>
      have hnext : (us ++ c.rest).head?.any (·.isKeyword .elseWord) = false := by
        rcases hss.declarations_open with rfl | hopen
        · exact hc
        · obtain ⟨u, us, rfl, hu⟩ := eq_cons_of_head?_any hopen
          exact Token.isKeyword_of_opensDeclaration hu
      have hfirst := hs.found n (us ++ c.rest) c.finish c.faults hnext
      have hne : ts ++ (us ++ c.rest) ≠ [] := by
        obtain ⟨t, ts, rfl, -⟩ := eq_cons_of_head?_any (hs.opens _ rfl)
        exact nofun
      have hall : c.before (ts ++ us) = ⟨ts ++ (us ++ c.rest), c.finish, c.faults⟩ := by
        unfold Cursor.before
        rw [List.append_assoc]
      rw [hall]
      exact declarations_cons_finds hne hfirst (ih hss) m

/-- What is found in a program is what reading it gives. -/
theorem readProgram_of_finds {tokens : List Token} {ss : List Stmt}
    (h : (program (readingBound tokens)).Finds (Cursor.start tokens) ss c) :
    readProgram tokens = .ok ss c := by
  rcases h with h | h
  · exact h
  · obtain ⟨ss', c', hok⟩ := readProgram_ok tokens
    rw [show readProgram tokens = .exhausted from h] at hok
    cases hok

theorem declarations_nil_finds (n : Nat) (ctx : Context) (fin : Token) (fs : List SyntaxFault)
    (m : Nat) :
    (declarations (declaration n ctx) (fun _ => false) m).Finds ⟨[], fin, fs⟩ [] ⟨[], fin, fs⟩ :=
  Phrase.Found.nil n m _ [] fin fs rfl rfl fun _ _ => rfl

/-- **A faulty statement is read as if it stood alone.** -/
theorem declaration_alone {ts : List Token} (hu : Unfinished ts)
    (hend : ∀ t ∈ ts, t.isEnd = false) (hn : readingBound ts ≤ n) (hc : c.NoElse) :
    ∃ o : Option Stmt, o.toList = (parse ts).statements ∧
      declaration n .top (c.before ts) = .ok o (c.noting (parse ts).faults) := by
  let alone : Cursor := ⟨[], (Cursor.start ts).finish, []⟩
  have hstart : Cursor.start ts = alone.before ts := by
    show Cursor.mk (ts.takeWhile (!·.isEnd)) _ _ = Cursor.mk (ts ++ []) _ _
    rw [List.takeWhile_eq_self_iff.2 fun t ht => by simp [hend t ht], List.append_nil]
    rfl
  have hne : (alone.before ts).rest ≠ [] := by
    obtain ⟨t, rest, rfl⟩ := hu.exists_cons
    exact nofun
  have hreads : (declaration (readingBound ts) .top).Reads (alone.before ts)
      (YieldsDeclaration .top) := by
    refine (readers _).declaration ts.length .top (by unfold readingBound; omega) _ ?_ hne
    exact hstart ▸ start_ready ts
  have hsame := declaration_toEnd hn .top ts hu alone c rfl hc
  unfold Reads at hreads
  generalize hp : declaration (readingBound ts) .top (alone.before ts) = s at hsame hreads
  generalize declaration n .top (c.before ts) = s' at hsame ⊢
  cases hsame with
  | @ok o v g hv =>
    subst hv
    have hfinds := declarations_cons_finds hne (.inl hp)
      (declarations_nil_finds (readingBound ts) .top alone.finish ([] ++ g)) (readingBound ts)
    have hread := readProgram_of_finds (hstart ▸ hfinds)
    have hparse : parse ts = ⟨o.toList, g⟩ := by
      unfold parse
      rw [hread, List.append_nil]
      rfl
    rw [hparse]
    exact ⟨o, rfl, rfl⟩
  | stuck h => exact absurd hp (declaration_neverStuck _ _ _ _ _)
  | broken text c' => exact hreads.elim
  | exhausted => exact hreads.elim

end Declarations

end Parse

/-! ## §7. Segments. -/

/-- **Tokens with any faults in them:** they end in their only semicolon, and have
no brace, no `for` and no word that begins a statement behind their first token. -/
@[mk_iff]
structure Loose (ts : List Token) : Prop where
  last : ts.getLast?.any (·.isSymbol .semicolon) = true
  inner : ∀ t ∈ ts.dropLast, t.isSymbol .semicolon = false
  plain : ∀ t ∈ ts, t.isSymbol .leftBrace = false ∧ t.isSymbol .rightBrace = false ∧
    t.isKeyword .forWord = false
  single : ∀ t ∈ ts.tail, t.startsStatement = false

/-- **A segment of a program:** a program of its own without a fault, or one
statement with any faults in it. -/
@[mk_iff]
structure Segment (ts : List Token) : Prop where
  ne_nil : ts ≠ []
  no_end : ∀ t ∈ ts, t.isEnd = false
  no_else : ts.head?.any (·.isKeyword .elseWord) = false
  content : (parse ts).faults = [] ∨ Loose ts

instance : DecidablePred Loose := fun ts => decidable_of_iff' _ (loose_iff ts)

instance : DecidablePred Segment := fun ts => decidable_of_iff' _ (segment_iff ts)

theorem Loose.unfinished {ts : List Token} (h : Loose ts) : Unfinished ts := by
  induction ts with
  | nil => exact Bool.noConfusion h.last
  | cons t ts ih =>
    cases ts with
    | nil => exact .last h.last
    | cons u us =>
      have hrest : Loose (u :: us) :=
        ⟨h.last, fun v hv => h.inner v (.tail _ hv), fun v hv => h.plain v (.tail _ hv),
          fun v hv => h.single v (.tail _ hv)⟩
      obtain ⟨hbrace, -, hfor⟩ := h.plain t (.head _)
      exact .cons (h.inner t (.head _)) hbrace hfor (h.single u (.head _)) (ih hrest)

/-- No segment begins with an `else`, so none is ahead between two of them. -/
theorem flatten_noElse {segments : List (List Token)} (h : ∀ ts ∈ segments, Segment ts) :
    segments.flatten.head?.any (·.isKeyword .elseWord) = false := by
  cases segments with
  | nil => rfl
  | cons ts segments =>
    have hts := h ts (.head _)
    obtain ⟨t, rest, rfl⟩ := List.exists_cons_of_ne_nil hts.ne_nil
    exact hts.no_else

/-- **Segments are read one after the other,** each as if it stood alone. -/
theorem segments_finds {n : Nat} {segments : List (List Token)}
    (h : ∀ ts ∈ segments, Segment ts) (hn : ∀ ts ∈ segments, readingBound ts ≤ n) (fin : Token)
    (fs : List SyntaxFault) (m : Nat) :
    (Parse.declarations (Parse.declaration n .top) (fun _ => false) m).Finds
      ⟨segments.flatten, fin, fs⟩ (segments.flatMap fun ts => (parse ts).statements)
      ⟨[], fin, fs ++ segments.flatMap fun ts => (parse ts).faults⟩ := by
  induction segments generalizing fs m with
  | nil =>
    rw [List.flatMap_nil, List.flatMap_nil, List.append_nil]
    exact Parse.declarations_nil_finds n .top fin fs m
  | cons ts segments ih =>
    have hts := h ts (.head _)
    have hothers : ∀ us ∈ segments, Segment us := fun us hus => h us (.tail _ hus)
    have hlater := ih hothers fun us hus => hn us (.tail _ hus)
    let rest : Cursor := ⟨segments.flatten, fin, fs⟩
    have hnext : rest.NoElse := flatten_noElse hothers
    rw [List.flatten_cons, List.flatMap_cons, List.flatMap_cons, ← List.append_assoc]
    rcases hts.content with hclean | hloose
    · obtain ⟨ss, c, hread⟩ := readProgram_ok ts
      have hparse : parse ts = ⟨ss, c.faults⟩ := congrArg Step.draft hread
      rw [hparse] at hclean ⊢
      have hderives := derives_of_readProgram hread hclean
      rw [List.takeWhile_eq_self_iff.2 fun t ht => by simp [hts.no_end t ht]] at hderives
      rw [hclean, List.append_nil]
      exact Parse.declarations_derived_finds hderives hnext (hlater fs) m
    · obtain ⟨o, ho, hdecl⟩ := Parse.declaration_alone hloose.unfinished hts.no_end
        (hn ts (.head _)) hnext
      rw [← ho]
      refine Parse.declarations_cons_finds ?_ (.inl hdecl) (hlater _) m
      obtain ⟨t, us, rfl⟩ := List.exists_cons_of_ne_nil hts.ne_nil
      exact nofun

/-- The tokens before the end are those that are read. -/
theorem takeWhile_append_ending {ts ending : List Token} (hts : ∀ t ∈ ts, t.isEnd = false)
    (hending : ending.head?.all Token.isEnd = true) :
    (ts ++ ending).takeWhile (!·.isEnd) = ts := by
  rw [List.takeWhile_append_of_pos fun t ht => by rw [hts t ht]; rfl]
  cases ending with
  | nil => exact List.append_nil ts
  | cons e es =>
    have he : e.isEnd = true := hending
    simp [he]

/-- **Faults stay in their statement.** Reading segments one after the other, up to
an end of the tokens if there is one, gives the statements that each of them gives
when it is read alone, and finds the faults that are found in each of them, in
order. -/
theorem faults_stay_in_their_segment {segments : List (List Token)}
    (h : ∀ ts ∈ segments, Segment ts) {ending : List Token}
    (hending : ending.head?.all Token.isEnd = true) :
    ∃ c, readProgram (segments.flatten ++ ending) =
        .ok (segments.flatMap fun ts => (parse ts).statements) c ∧
      c.faults = segments.flatMap fun ts => (parse ts).faults := by
  have hinner : ∀ t ∈ segments.flatten, t.isEnd = false := by
    intro t ht
    obtain ⟨ts, hts, ht⟩ := List.mem_flatten.1 ht
    exact (h ts hts).no_end t ht
  have hbound : ∀ ts ∈ segments, readingBound ts ≤ readingBound (segments.flatten ++ ending) := by
    intro ts hts
    have hlength := (List.sublist_flatten_of_mem hts).length_le
    unfold readingBound
    rw [List.length_append]
    omega
  have hfinds := segments_finds h hbound (Cursor.start (segments.flatten ++ ending)).finish []
    (readingBound (segments.flatten ++ ending))
  have hstart : Cursor.start (segments.flatten ++ ending) =
      ⟨segments.flatten, (Cursor.start (segments.flatten ++ ending)).finish, []⟩ := by
    show Cursor.mk ((segments.flatten ++ ending).takeWhile (!·.isEnd)) _ _ = _
    rw [takeWhile_append_ending hinner hending]
    rfl
  rw [← hstart] at hfinds
  exact ⟨_, Parse.readProgram_of_finds hfinds, rfl⟩

/-- `if x ) = ;`, `( x ) = nil ;`, `x ( ) ;` and `{ print x ; }`: a statement that
is dropped for a fault, one that is kept with a fault, and two programs. -/
def faultySegments : List (List Token) :=
  let x : Token := ⟨.identifier, "x", 1⟩
  let symbol (s : Symbol) : Token := ⟨.symbol s, s.text, 1⟩
  let word (k : Keyword) : Token := ⟨.keyword k, k.text, 1⟩
  [[word .ifWord, x, symbol .rightParen, symbol .equal, symbol .semicolon],
    [symbol .leftParen, x, symbol .rightParen, symbol .equal, word .nilWord, symbol .semicolon],
    [x, symbol .leftParen, symbol .rightParen, symbol .semicolon],
    [symbol .leftBrace, word .printWord, x, symbol .semicolon, symbol .rightBrace]]

theorem faults_stay_in_their_segment_if_unopened :
    (∀ ts ∈ faultySegments, Segment ts) ∧
      ∃ ss c, readProgram (faultySegments.flatten ++ []) = .ok ss c ∧ ss.length = 3 ∧
        c.faults.map (·.cause) =
          [.expected "Expect '(' after 'if'.", .invalidAssignmentTarget] := by
  have hsegments : ∀ ts ∈ faultySegments, Segment ts := by decide +kernel
  obtain ⟨c, hread, hfaults⟩ := faults_stay_in_their_segment hsegments
    (rfl : ([] : List Token).head?.all Token.isEnd = true)
  refine ⟨hsegments, _, c, hread, by decide +kernel, ?_⟩
  rw [hfaults]
  decide +kernel

end Lox
