/-
  Lox.Proofs.Signals
  ────────────────────────────────
  **WHERE SIGNALS CAN COME FROM.**

  A statement ends with a signal, and what takes it is not asked whether it was
  meant for it: a call gives nil for whatever is no `return`, and a program goes
  on behind anything.  Nothing is lost by that, because a signal never gets out of
  the place it belongs to.  Where a well-formed statement stands says which signals
  it can end with (`Signal.FitsIn`), whatever machine it is executed on:

    • `break` and `continue` only in the body of a loop,
    • a `return` only in the body of a function.

  Neither what is evaluated on the way nor the functions that are called matter
  for this, so it is a matter of the shape of the tree alone (`execute_fits`).
-/
import Lox.Proofs.Keeps
import Lox.Proofs.Shape

namespace Lox

open Parse (Context)

/-! ## §1. Signals and their places. -/

/-- A signal that a statement may end with where it stands. -/
def Signal.FitsIn (ctx : Context) : Signal → Prop
  | .next => True
  | .give _ => ctx.inFunction = true
  | .leave | .skip => ctx.inLoop = true

/-- Whether the next statement is done after a signal. -/
def Signal.isNext : Signal → Bool
  | .next => true
  | .give _ | .leave | .skip => false

/-- Whether a function body or a loop may end with a signal. -/
def Signal.endsBody : Signal → Bool
  | .next | .give _ => true
  | .leave | .skip => false

theorem Signal.FitsIn.isNext {signal : Signal} (h : signal.FitsIn .top) :
    signal.isNext = true := by
  cases signal with
  | next => rfl
  | give value => exact Bool.noConfusion h
  | leave => exact Bool.noConfusion h
  | skip => exact Bool.noConfusion h

theorem Signal.FitsIn.endsBody {signal : Signal} (h : signal.FitsIn .ofFunction) :
    signal.endsBody = true := by
  cases signal with
  | next => rfl
  | give value => rfl
  | leave => exact Bool.noConfusion h
  | skip => exact Bool.noConfusion h

theorem Signal.eq_of_isNext {signal : Signal} (h : signal.isNext = true) : signal = .next := by
  cases signal with
  | next => rfl
  | _ => exact Bool.noConfusion h

theorem Signal.eq_of_endsBody {signal : Signal} (h : signal.endsBody = true) :
    signal = .next ∨ ∃ value, signal = .give value := by
  cases signal with
  | next => exact .inl rfl
  | give value => exact .inr ⟨value, rfl⟩
  | leave => exact Bool.noConfusion h
  | skip => exact Bool.noConfusion h

theorem Stmt.wellFormed_of_mem {ctx : Context} {ss : List Stmt} (h : Stmt.AllWellFormed ctx ss) :
    ∀ s ∈ ss, s.WellFormed ctx := by
  induction ss with
  | nil => exact nofun
  | cons s ss ih =>
    intro s' hs'
    cases hs' with
    | head => exact h.1
    | tail _ hs' => exact ih h.2 s' hs'

namespace Eval

variable {α β : Type}

/-! ## §2. What a computation gives. -/

/-- **Whatever a computation gives has a property,** on every machine. -/
def Gives (p : Eval α) (Q : α → Prop) : Prop := ∀ m a m', p m = .done a m' → Q a

namespace Gives

variable {Q : α → Prop} {R : β → Prop}

theorem pure {a : α} (h : Q a) : (Pure.pure a : Eval α).Gives Q := by
  intro m b m' hend
  cases hend
  exact h

theorem exhausted : (Eval.exhausted : Eval α).Gives Q := by
  intro m a m' hend
  cases hend

theorem bind {p : Eval α} {k : α → Eval β} (hp : p.Gives Q) (hk : ∀ a, Q a → (k a).Gives R) :
    (p >>= k).Gives R := by
  intro m b m' hend
  have hbind : Eval.bind p k m = .done b m' := hend
  unfold Eval.bind at hbind
  cases h : p m with
  | done a m'' =>
    rw [h] at hbind
    exact hk a (hp m a m'' h) m'' b m' hbind
  | failed failure m'' =>
    rw [h] at hbind
    cases hbind
  | exhausted =>
    rw [h] at hbind
    cases hbind

/-- What comes last is given, whatever comes before. -/
theorem after (p : Eval α) {k : α → Eval β} (hk : ∀ a, (k a).Gives R) : (p >>= k).Gives R :=
  bind (Q := fun _ => True) (fun _ _ _ _ => trivial) fun a _ => hk a

theorem inFrame {p : Eval α} (hp : p.Gives Q) (frame : FrameId) :
    (Eval.inFrame frame p).Gives Q := by
  intro m a m' hend
  unfold Eval.inFrame at hend
  cases h : p { m with current := frame } with
  | done b m'' =>
    rw [h] at hend
    cases hend
    exact hp _ a m'' h
  | failed failure m'' =>
    rw [h] at hend
    cases hend
  | exhausted =>
    rw [h] at hend
    cases hend

end Gives

/-! ## §3. Lists and loops. -/

variable {ctx : Context}

theorem sequence_fits {ex : Stmt → Eval Signal} {ss : List Stmt}
    (h : ∀ s ∈ ss, (ex s).Gives (Signal.FitsIn ctx)) :
    (sequence ex ss).Gives (Signal.FitsIn ctx) := by
  induction ss with
  | nil => exact .pure trivial
  | cons s ss ih =>
    refine (h s (.head _)).bind fun signal hsignal => ?_
    cases signal with
    | next => exact ih fun s hs => h s (.tail _ hs)
    | give value => exact .pure hsignal
    | leave => exact .pure hsignal
    | skip => exact .pure hsignal

/-- **A loop takes `break` and `continue`,** whatever its body is. -/
theorem rounds_endsBody (condition : Eval Value) (body : Eval Signal) (step : Eval Unit)
    (n : Nat) : (rounds condition body step n).Gives (Signal.endsBody · = true) := by
  induction n with
  | zero => exact .exhausted
  | succ n ih =>
    refine .after condition fun v => ?_
    by_cases hv : v.isTruthy = true
    · rw [if_pos hv]
      refine .after body fun signal => ?_
      cases signal with
      | next => exact ih
      | give value => exact .pure rfl
      | leave => exact .pure rfl
      | skip => exact .after step fun _ => ih
    · rw [if_neg hv]
      exact .pure rfl

/-- A `return` in a loop belongs to the function around it. -/
theorem rounds_fits (condition : Eval Value) {body : Eval Signal} (step : Eval Unit)
    (hb : body.Gives (Signal.FitsIn ctx.ofLoop)) (n : Nat) :
    (rounds condition body step n).Gives (Signal.FitsIn ctx) := by
  induction n with
  | zero => exact .exhausted
  | succ n ih =>
    refine .after condition fun v => ?_
    by_cases hv : v.isTruthy = true
    · rw [if_pos hv]
      refine hb.bind fun signal hsignal => ?_
      cases signal with
      | next => exact ih
      | give value => exact .pure hsignal
      | leave => exact .pure trivial
      | skip => exact .after step fun _ => ih
    · rw [if_neg hv]
      exact .pure trivial

/-! ## §4. Statements. -/

/-- **A well-formed statement ends with a signal that fits where it stands.** -/
theorem execute_fits (host : Host) (n : Nat) (ctx : Context) (s : Stmt) (hs : s.WellFormed ctx) :
    (execute host n s).Gives (Signal.FitsIn ctx) := by
  induction n generalizing ctx s with
  | zero =>
    rw [execute]
    exact .exhausted
  | succ n ih =>
    cases s with
    | block body =>
      rw [execute]
      refine .after current fun outer => .after (newFrame outer []) fun frame => ?_
      refine (sequence_fits fun s hmem => ?_).inFrame frame
      exact ih ctx s (Stmt.wellFormed_of_mem hs s hmem)
    | branch condition yes no =>
      obtain ⟨-, ⟨-, hy⟩, hn⟩ := hs
      rw [execute.eq_def]
      refine .after (evaluate host n condition) fun v => ?_
      by_cases hv : v.isTruthy = true
      · rw [if_pos hv]
        exact ih ctx yes hy
      · rw [if_neg hv]
        cases no with
        | none => exact .pure trivial
        | some other => exact ih ctx other hn.2
    | loop condition body increment =>
      obtain ⟨-, ⟨-, hb⟩, -⟩ := hs
      rw [execute]
      exact rounds_fits _ _ (ih ctx.ofLoop body hb) n
    | give keyword value =>
      rw [execute]
      exact .after _ fun v => .pure hs.1
    | leave keyword =>
      rw [execute]
      exact .pure hs
    | next keyword =>
      rw [execute]
      exact .pure hs
    | expr value =>
      rw [execute]
      exact .after _ fun _ => .pure trivial
    | print value =>
      rw [execute]
      exact .after _ fun v => .after (print v) fun _ => .pure trivial
    | var name initial =>
      rw [execute]
      exact .after _ fun v => .after (define name.lexeme v) fun _ => .pure trivial
    | function name parameters body =>
      rw [execute]
      refine .after current fun frame => .after (newClosure _ parameters body frame) fun v => ?_
      exact .after (define name.lexeme v) fun _ => .pure trivial

/-- The body of a function ends with a `return` or at its end. -/
theorem sequence_endsBody (host : Host) (n : Nat) {body : List Stmt}
    (h : Stmt.AllWellFormed .ofFunction body) :
    (sequence (execute host n) body).Gives (Signal.endsBody · = true) := by
  intro m signal m' hend
  have hfits := sequence_fits fun s hs =>
    execute_fits host n .ofFunction s (Stmt.wellFormed_of_mem h s hs)
  exact (hfits m signal m' hend).endsBody

end Eval

end Lox
