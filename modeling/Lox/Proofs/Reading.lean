/-
  Lox.Proofs.Reading
  ────────────────────────────────
  **WHAT A READER DOES TO ITS CURSOR.**

  `c.Moves ts fs c'` says that the tokens `ts` lie between two cursors and that
  the faults `fs` were noted on the way.  `p.Reads c Q` is the specification of
  one run of a reader: it does not run into its bound, it only moves forward,
  and if it gives a value then `Q` holds of the tokens passed, the faults noted,
  the value and the cursor reached.

  Specifications compose along `bind` (`Reads.bind`): passed tokens and noted
  faults are appended.  Each reader that is not made of other readers of the
  grammar has its rule here, so that nothing after this module looks into one.
-/
import Lox.Tree.Parse

namespace Lox

variable {α β : Type}

/-! ## §1. Moving forward. -/

/-- The cursor `c'` is behind the tokens `ts` that `c` begins with, and the
faults `fs` have been noted since. -/
structure Cursor.Moves (c : Cursor) (ts : List Token) (fs : List SyntaxFault) (c' : Cursor) :
    Prop where
  rest : c.rest = ts ++ c'.rest
  finish : c'.finish = c.finish
  faults : c'.faults = c.faults ++ fs

/-- A cursor that ends with a token for the end, at most `k` tokens before it. -/
structure Cursor.Ready (k : Nat) (c : Cursor) : Prop where
  finish : c.finish.isEnd = true
  length : c.rest.length ≤ k

namespace Cursor

theorem Moves.refl (c : Cursor) : c.Moves [] [] c :=
  ⟨rfl, rfl, (List.append_nil _).symm⟩

theorem Moves.trans {a b c : Cursor} {ts us : List Token} {fs gs : List SyntaxFault}
    (h : a.Moves ts fs b) (g : b.Moves us gs c) : a.Moves (ts ++ us) (fs ++ gs) c where
  rest := by rw [h.rest, g.rest, List.append_assoc]
  finish := by rw [g.finish, h.finish]
  faults := by rw [g.faults, h.faults, List.append_assoc]

/-- The tokens passed are no longer ahead. -/
theorem Moves.ready {c c' : Cursor} {ts : List Token} {fs : List SyntaxFault} {k : Nat}
    (h : c.Moves ts fs c') (hc : c.Ready k) : c'.Ready (k - ts.length) ∧ ts.length ≤ k := by
  have hlen : ts.length + c'.rest.length ≤ k := by
    rw [← List.length_append, ← h.rest]
    exact hc.length
  exact ⟨⟨by rw [h.finish]; exact hc.finish, by omega⟩, by omega⟩

theorem Ready.mono {k m : Nat} {c : Cursor} (h : c.Ready k) (hkm : k ≤ m) : c.Ready m :=
  ⟨h.finish, Nat.le_trans h.length hkm⟩

/-- A cursor that has moved on is no farther from the end. -/
theorem Moves.stays_ready {c c' : Cursor} {ts : List Token} {fs : List SyntaxFault} {k : Nat}
    (h : c.Moves ts fs c') (hc : c.Ready k) : c'.Ready k :=
  (h.ready hc).1.mono (Nat.sub_le _ _)

theorem Ready.pos {k : Nat} {c : Cursor} {t : Token} {rest : List Token} (h : c.Ready k)
    (hr : c.rest = t :: rest) : 0 < k := by
  have hlen := h.length
  rw [hr, List.length_cons] at hlen
  omega

/-- The token at a cursor stands in the tokens ahead, unless it is the end. -/
theorem Ready.rest_of_peek {k : Nat} {c : Cursor} (h : c.Ready k) (hp : c.peek.isEnd = false) :
    ∃ rest, c.rest = c.peek :: rest := by
  unfold peek at hp ⊢
  cases hr : c.rest with
  | nil =>
    rw [hr] at hp
    have hf : c.finish.isEnd = false := hp
    rw [h.finish] at hf
    exact Bool.noConfusion hf
  | cons t rest => exact ⟨rest, rfl⟩

end Cursor

/-! ## §2. Specifications. -/

namespace Parse

/-- **One run of a reader:** it ends within its bound, moves forward and does not
break off, and the value it gives, if it gives one, is as it should be. -/
def Reads (p : Parse α) (c : Cursor)
    (Q : List Token → List SyntaxFault → α → Cursor → Prop) : Prop :=
  match p c with
  | .ok a c' => ∃ ts fs, c.Moves ts fs c' ∧ Q ts fs a c'
  | .stuck _ c' => ∃ ts fs, c.Moves ts fs c'
  | .broken _ _ => False
  | .exhausted => False

variable {c : Cursor} {P Q : List Token → List SyntaxFault → α → Cursor → Prop}
  {R : List Token → List SyntaxFault → β → Cursor → Prop}

theorem Reads.mono {p : Parse α} (h : p.Reads c P)
    (hpq : ∀ ts fs a c', c.Moves ts fs c' → P ts fs a c' → Q ts fs a c') : p.Reads c Q := by
  unfold Reads at h ⊢
  cases hp : p c with
  | ok a c' =>
    rw [hp] at h
    obtain ⟨ts, fs, hm, hP⟩ := h
    exact ⟨ts, fs, hm, hpq ts fs a c' hm hP⟩
  | stuck fault c' =>
    rw [hp] at h
    exact h
  | broken text c' =>
    rw [hp] at h
    exact h
  | exhausted =>
    rw [hp] at h
    exact h

theorem Reads.pure {a : α} (h : Q [] [] a c) : Reads (Pure.pure a : Parse α) c Q :=
  ⟨[], [], .refl c, h⟩

/-- **One reader after the other:** tokens and faults are appended. -/
theorem Reads.bind {p : Parse α} {f : α → Parse β} (hp : p.Reads c P)
    (hf : ∀ ts fs a c', c.Moves ts fs c' → P ts fs a c' →
      (f a).Reads c' fun us gs b c'' => R (ts ++ us) (fs ++ gs) b c'') :
    (p >>= f).Reads c R := by
  have hbind : (p >>= f) c = Parse.bind p f c := rfl
  unfold Reads
  rw [hbind]
  unfold Reads at hp
  unfold Parse.bind
  cases h : p c with
  | ok a c' =>
    rw [h] at hp
    obtain ⟨ts, fs, hm, hP⟩ := hp
    have hrest := hf ts fs a c' hm hP
    unfold Reads at hrest
    dsimp only
    cases hf : f a c' with
    | ok b c'' =>
      rw [hf] at hrest
      obtain ⟨us, gs, hn, hR⟩ := hrest
      exact ⟨_, _, hm.trans hn, hR⟩
    | stuck fault c'' =>
      rw [hf] at hrest
      obtain ⟨us, gs, hn⟩ := hrest
      exact ⟨_, _, hm.trans hn⟩
    | broken text c'' =>
      rw [hf] at hrest
      exact hrest
    | exhausted =>
      rw [hf] at hrest
      exact hrest
  | stuck fault c' =>
    rw [h] at hp
    exact hp
  | broken text c' =>
    rw [h] at hp
    exact hp
  | exhausted =>
    rw [h] at hp
    exact hp

theorem Reads.map {p : Parse α} {f : α → β} (h : p.Reads c fun ts fs a c' => R ts fs (f a) c') :
    (f <$> p).Reads c R :=
  Reads.bind h fun ts fs a c' _ hR => Reads.pure (by simpa using hR)

/-- Looking at the token at the cursor. -/
theorem Reads.peek {f : Token → Parse α} (h : (f c.peek).Reads c Q) :
    (Parse.peek >>= f).Reads c Q := h

/-- Looking whether the token at the cursor is as wanted. -/
theorem Reads.check {wanted : Token → Bool} {f : Bool → Parse α}
    (h : (f (c.rest.head?.any wanted)).Reads c Q) : (Parse.check wanted >>= f).Reads c Q := h

/-! ## §3. Readers of single tokens. -/

theorem fail_reads (t : Token) (cause : SyntaxCause) : (fail t cause : Parse α).Reads c Q :=
  ⟨[], [], .refl c⟩

theorem report_reads (t : Token) (cause : SyntaxCause) :
    (report t cause).Reads c fun ts fs _ _ => ts = [] ∧ fs ≠ [] :=
  ⟨[], [.at t cause], ⟨rfl, rfl, rfl⟩, rfl, by simp⟩

theorem require_reads (holds : Bool) (t : Token) (cause : SyntaxCause) :
    (require holds t cause).Reads c fun ts fs _ _ => ts = [] ∧ fs = [] ∧ holds = true := by
  unfold require
  cases holds with
  | false => exact fail_reads t cause
  | true => exact Reads.pure ⟨rfl, rfl, rfl⟩

/-- Reading a token that is ahead. -/
theorem advance_reads {t : Token} {rest : List Token} (h : c.rest = t :: rest) :
    advance.Reads c fun ts fs a _ => ts = [t] ∧ fs = [] ∧ a = t := by
  refine ⟨[t], [], ⟨?_, rfl, (List.append_nil _).symm⟩, rfl, rfl, ?_⟩
  · show c.rest = [t] ++ c.rest.tail
    rw [h]
    rfl
  · show c.rest.head?.getD c.finish = t
    rw [h]
    rfl

/-- A token that is as wanted is ahead. -/
theorem eq_cons_of_head?_any {wanted : Token → Bool} {ts : List Token}
    (h : ts.head?.any wanted = true) : ∃ t rest, ts = t :: rest ∧ wanted t = true := by
  cases ts with
  | nil => exact Bool.noConfusion h
  | cons t rest => exact ⟨t, rest, rfl, h⟩

theorem expect_reads (wanted : Token → Bool) (complaint : String) :
    (expect wanted complaint).Reads c fun ts fs t _ => ts = [t] ∧ fs = [] ∧ wanted t = true := by
  apply Reads.check
  cases hw : c.rest.head?.any wanted with
  | false => exact Reads.peek (fail_reads _ _)
  | true =>
    obtain ⟨t, rest, hr, ht⟩ := eq_cons_of_head?_any hw
    apply (advance_reads hr).mono
    intro ts fs a c' _ hres
    obtain ⟨hts, hfs, rfl⟩ := hres
    exact ⟨hts, hfs, ht⟩

/-- A token is read if it is as wanted, and else nothing is. -/
theorem accept_reads (wanted : Token → Bool) :
    (accept wanted).Reads c fun ts fs b c' => fs = [] ∧
      ((b = true ∧ ∃ t, ts = [t] ∧ wanted t = true) ∨
        (b = false ∧ ts = [] ∧ c'.rest.head?.any wanted = false)) := by
  apply Reads.check
  cases hw : c.rest.head?.any wanted with
  | false => exact Reads.pure ⟨rfl, .inr ⟨rfl, rfl, hw⟩⟩
  | true =>
    obtain ⟨t, rest, hr, ht⟩ := eq_cons_of_head?_any hw
    apply Reads.bind (advance_reads hr)
    intro ts fs a c' _ hres
    obtain ⟨rfl, rfl, -⟩ := hres
    exact Reads.pure ⟨rfl, .inl ⟨rfl, t, rfl, ht⟩⟩

/-! ## §4. Optional parts. -/

theorem unlessAt_reads (absent : Token → Bool) {p : Parse α} (h : p.Reads c P) :
    (unlessAt absent p).Reads c fun ts fs o c' =>
      (o = none ∧ ts = [] ∧ fs = []) ∨ ∃ a, o = some a ∧ P ts fs a c' := by
  apply Reads.check
  cases c.rest.head?.any absent with
  | true => exact Reads.pure (.inl ⟨rfl, rfl, rfl⟩)
  | false => exact Reads.map (h.mono fun ts fs a c' _ hP => .inr ⟨a, rfl, hP⟩)

theorem listUnlessAt_reads (absent : Token → Bool) {p : Parse (List α)}
    {P : List Token → List SyntaxFault → List α → Cursor → Prop} (h : p.Reads c P) :
    (listUnlessAt absent p).Reads c fun ts fs as c' =>
      (as = [] ∧ ts = [] ∧ fs = []) ∨ P ts fs as c' := by
  apply Reads.check
  cases c.rest.head?.any absent with
  | true => exact Reads.pure (.inl ⟨rfl, rfl, rfl⟩)
  | false => exact h.mono fun ts fs as c' _ hP => .inr hP

theorem afterMark_reads (mark : Token → Bool) {p : Parse α}
    (h : ∀ t c', c.Moves [t] [] c' → p.Reads c' P) :
    (afterMark mark p).Reads c fun ts fs o c' =>
      (o = none ∧ ts = [] ∧ fs = [] ∧ c'.rest.head?.any mark = false) ∨
        ∃ t us a, ts = t :: us ∧ mark t = true ∧ o = some a ∧ P us fs a c' := by
  apply Reads.bind (accept_reads mark)
  intro ts fs b c' hm hres
  obtain ⟨rfl, ⟨rfl, t, rfl, ht⟩ | ⟨rfl, rfl, hn⟩⟩ := hres
  · exact Reads.map ((h t c' hm).mono fun us gs a c'' _ hP => .inr ⟨t, us, a, rfl, ht, rfl, hP⟩)
  · exact Reads.pure (.inl ⟨rfl, rfl, rfl, hn⟩)

theorem ownName_reads :
    ownName.Reads c fun ts fs o _ => fs = [] ∧
      ((o = none ∧ ts = []) ∨ ∃ name, o = some name ∧ ts = [name] ∧ name.isIdentifier = true) := by
  apply Reads.check
  cases hw : c.rest.head?.any Token.isIdentifier with
  | false => exact Reads.pure ⟨rfl, .inl ⟨rfl, rfl⟩⟩
  | true =>
    obtain ⟨t, rest, hr, ht⟩ := eq_cons_of_head?_any hw
    refine Reads.map ((advance_reads hr).mono ?_)
    intro ts fs a c' _ hres
    obtain ⟨rfl, rfl, rfl⟩ := hres
    exact ⟨rfl, .inr ⟨a, rfl, rfl, ht⟩⟩

/-- Nothing is noted only as long as there is room for one more. -/
theorem noteExcess_reads (count : Nat) (cause : SyntaxCause) :
    (noteExcess count cause).Reads c fun ts fs _ _ =>
      ts = [] ∧ (fs = [] → count + 1 ≤ maxArity) := by
  unfold noteExcess
  by_cases h : maxArity ≤ count
  · rw [if_pos h]
    refine Reads.peek ((report_reads _ _).mono ?_)
    intro ts fs a c' _ hres
    obtain ⟨rfl, hfs⟩ := hres
    exact ⟨rfl, fun h => absurd h hfs⟩
  · rw [if_neg h]
    exact Reads.pure ⟨rfl, fun _ => by omega⟩

/-! ## §5. Recovery. -/

/-- Skipping leaves an end of the tokens, and passes one if there is one. -/
theorem skipToStatement_eq_append (ts : List Token) :
    ∃ us, ts = us ++ skipToStatement ts ∧ (ts ≠ [] → us ≠ []) := by
  have after : ∀ (rest : List Token) (last : Token),
      ∃ us, rest = us ++ skipAfter last rest := by
    intro rest
    induction rest with
    | nil => exact fun _ => ⟨[], rfl⟩
    | cons t rest ih =>
      intro last
      rw [skipAfter]
      split
      · exact ⟨[], rfl⟩
      · obtain ⟨us, hus⟩ := ih t
        exact ⟨t :: us, congrArg (t :: ·) hus⟩
  cases ts with
  | nil => exact ⟨[], rfl, fun h => h⟩
  | cons t rest =>
    obtain ⟨us, hus⟩ := after rest t
    exact ⟨t :: us, congrArg (t :: ·) hus, fun _ => List.cons_ne_nil t us⟩

/-- A recovery passes a token and notes a fault. -/
theorem recovering_reads {p : Parse α} (h : p.Reads c P) (hne : c.rest ≠ []) :
    (recovering p).Reads c fun ts fs o c' =>
      (∃ a, o = some a ∧ P ts fs a c') ∨ (o = none ∧ ts ≠ [] ∧ fs ≠ []) := by
  unfold Reads recovering
  unfold Reads at h
  cases hp : p c with
  | ok a c' =>
    rw [hp] at h
    obtain ⟨ts, fs, hm, hP⟩ := h
    exact ⟨ts, fs, hm, .inl ⟨a, rfl, hP⟩⟩
  | stuck fault c' =>
    rw [hp] at h
    obtain ⟨ts, fs, hm⟩ := h
    obtain ⟨us, hus, hpass⟩ := skipToStatement_eq_append c'.rest
    refine ⟨ts ++ us, fs ++ [fault], hm.trans ⟨hus, rfl, rfl⟩, .inr ⟨rfl, ?_, by simp⟩⟩
    intro hnil
    obtain ⟨rfl, rfl⟩ := List.append_eq_nil_iff.1 hnil
    -- Nothing was passed before the fault, so there is something to skip.
    exact hpass (fun h => hne (by rw [hm.rest, h]; rfl)) rfl
  | broken text c' =>
    rw [hp] at h
    exact h
  | exhausted =>
    rw [hp] at h
    exact h

end Parse

end Lox
