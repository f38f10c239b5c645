/-
  Lox.Proofs.Bound
  ────────────────────────────────
  **WHAT A BOUND DOES NOT DECIDE.**

  The evaluator has a bound, and a computation may run into it.  One that does
  not run into it comes to the same with any larger bound: `p.Within q` says
  that the computation `q` does whatever `p` does unless `p` is cut off.

  This relation goes through `bind` and through every combinator of the
  evaluator (§2), so it holds between an expression or a statement at a bound
  and itself at a larger one (§3).  Hence a program that ends has one outcome.
-/
import Lox.Eval

namespace Lox

/-- Whether a computation has been cut off can be seen. -/
instance Outcome.decidableEqExhausted {α : Type} : (o : Outcome α) → Decidable (o = .exhausted)
  | .done _ _ => isFalse nofun
  | .failed _ _ => isFalse nofun
  | .exhausted => isTrue rfl

namespace Eval

variable {α β : Type} {host : Host}

/-! ## §1. Computations. -/

/-- **One computation is a part of another:** where it is not cut off, both come
to the same. -/
def Within (p q : Eval α) : Prop := ∀ m, p m ≠ .exhausted → p m = q m

namespace Within

theorem refl (p : Eval α) : p.Within p := fun _ _ => rfl

theorem trans {p q r : Eval α} (h : p.Within q) (h' : q.Within r) : p.Within r := by
  intro m hend
  have hq := h m hend
  rw [hq] at hend ⊢
  exact h' m hend

theorem exhausted (q : Eval α) : (Eval.exhausted : Eval α).Within q :=
  fun _ h => absurd rfl h

theorem bind {p q : Eval α} {k l : α → Eval β} (hp : p.Within q)
    (hk : ∀ a, (k a).Within (l a)) : (p >>= k).Within (q >>= l) := by
  intro m hend
  have hbind : (p >>= k) m = Eval.bind p k m := rfl
  have hbind' : (q >>= l) m = Eval.bind q l m := rfl
  rw [hbind] at hend ⊢
  rw [hbind']
  unfold Eval.bind at hend ⊢
  cases h : p m with
  | done a m' =>
    have hq : q m = .done a m' := by rw [← hp m (by simp [h]), h]
    rw [h] at hend
    rw [hq]
    exact hk a m' hend
  | failed failure m' =>
    have hq : q m = .failed failure m' := by rw [← hp m (by simp [h]), h]
    rw [hq]
  | exhausted =>
    -- What is cut off at its first part is cut off.
    rw [h] at hend
    exact absurd rfl hend

theorem relocating {p q : Eval α} (h : p.Within q) (line : Nat) :
    (Eval.relocating line p).Within (Eval.relocating line q) := by
  intro m hend
  have hp : p m ≠ .exhausted := by
    intro hp
    apply hend
    unfold Eval.relocating
    rw [hp]
  unfold Eval.relocating
  rw [h m hp]

theorem attempt {p q : Eval α} (h : p.Within q) : p.attempt.Within q.attempt := by
  intro m hend
  have hp : p m ≠ .exhausted := by
    intro hp
    apply hend
    unfold Eval.attempt
    rw [hp]
  unfold Eval.attempt
  rw [h m hp]

theorem inFrame {p q : Eval α} (h : p.Within q) (frame : FrameId) :
    (Eval.inFrame frame p).Within (Eval.inFrame frame q) := by
  intro m hend
  have hp : p { m with current := frame } ≠ .exhausted := by
    intro hp
    apply hend
    unfold Eval.inFrame
    rw [hp]
  unfold Eval.inFrame
  rw [h _ hp]

end Within

/-! ## §2. Combinators. -/

section Combinators

variable {ev ev' : Expr → Eval Value} {ex ex' : Stmt → Eval Signal}

theorem values_within (he : ∀ e, (ev e).Within (ev' e)) (es : List Expr) :
    (values ev es).Within (values ev' es) := by
  induction es with
  | nil => exact .refl _
  | cons e es ih => exact (he e).bind fun _ => ih.bind fun _ => .refl _

theorem valueOrNil_within (he : ∀ e, (ev e).Within (ev' e)) (o : Option Expr) :
    (valueOrNil ev o).Within (valueOrNil ev' o) := by
  cases o with
  | none => exact .refl _
  | some e => exact he e

theorem sequence_within (hs : ∀ s, (ex s).Within (ex' s)) (ss : List Stmt) :
    (sequence ex ss).Within (sequence ex' ss) := by
  induction ss with
  | nil => exact .refl _
  | cons s ss ih =>
    refine (hs s).bind fun signal => ?_
    cases signal with
    | next => exact ih
    | _ => exact .refl _

theorem doAll_within (hs : ∀ s, (ex s).Within (ex' s)) (ss : List Stmt) :
    (doAll ex ss).Within (doAll ex' ss) := by
  induction ss with
  | nil => exact .refl _
  | cons s ss ih => exact (hs s).bind fun _ => ih

/-- A loop that may take more rounds. -/
theorem rounds_within {condition condition' : Eval Value} {body body' : Eval Signal}
    {step step' : Eval Unit} (hc : condition.Within condition') (hb : body.Within body')
    (ht : step.Within step') {n n' : Nat} (hn : n ≤ n') :
    (rounds condition body step n).Within (rounds condition' body' step' n') := by
  induction n generalizing n' with
  | zero => exact .exhausted _
  | succ n ih =>
    obtain ⟨k, rfl⟩ : ∃ k, n' = k + 1 := ⟨n' - 1, by omega⟩
    have hrest : (rounds condition body step n).Within (rounds condition' body' step' k) :=
      ih (by omega)
    refine hc.bind fun v => ?_
    by_cases hv : v.isTruthy = true
    · rw [if_pos hv, if_pos hv]
      refine hb.bind fun signal => ?_
      cases signal with
      | next => exact hrest
      | skip => exact ht.bind fun _ => hrest
      | _ => exact .refl _
    · rw [if_neg hv, if_neg hv]
      exact .refl _

theorem loopStep_within (he : ∀ e, (ev e).Within (ev' e)) (increment : Bool) (body : Stmt) :
    (loopStep ev increment body).Within (loopStep ev' increment body) := by
  unfold loopStep
  cases increment with
  | false => exact .refl _
  | true =>
    cases body with
    | block statements =>
      simp only [if_true]
      cases statements.getLast? with
      | none => exact .refl _
      | some last =>
        cases last with
        | expr value => exact (he value).bind fun _ => .refl _
        | _ => exact .refl _
    | _ => exact .refl _

theorem enter_within (hs : ∀ s, (ex s).Within (ex' s)) (c : Closure) (vs : List Value) :
    (enter ex c vs).Within (enter ex' c vs) := by
  unfold enter
  refine (Within.refl _).bind fun frame => ?_
  exact ((sequence_within hs c.body).inFrame frame).bind fun _ => .refl _

theorem perform_within (hs : ∀ s, (ex s).Within (ex' s)) (a : Action) :
    (perform host (enter ex) a).Within (perform host (enter ex') a) := by
  induction a with
  | give value => exact .refl _
  | raise fault => exact .refl _
  | abort text => exact .refl _
  | readClock next ih => exact (Within.refl _).bind ih
  | call closure arguments next ih => exact (enter_within hs closure arguments).attempt.bind ih

theorem call_within (hs : ∀ s, (ex s).Within (ex' s)) (callee : Value) (paren : Token)
    (vs : List Value) :
    (call host ex callee paren vs).Within (call host ex' callee paren vs) := by
  unfold call
  cases callee with
  | function c =>
    by_cases hn : vs.length = c.parameters.length
    · simp only [hn, if_true]
      exact enter_within hs c vs
    · simp only [hn, if_false]
      exact .refl _
  | native n =>
    by_cases hn : vs.length = n.arity
    · simp only [hn, if_true]
      exact (perform_within hs _).relocating paren.line
    · simp only [hn, if_false]
      exact .refl _
  | _ => exact .refl _

end Combinators

/-! ## §3. Expressions, statements and programs. -/

/-- All expressions and statements at one bound are within those at another. -/
structure WithinAt (host : Host) (n n' : Nat) : Prop where
  evaluate : ∀ e, (evaluate host n e).Within (evaluate host n' e)
  execute : ∀ s, (execute host n s).Within (execute host n' s)

variable {n n' : Nat}

theorem WithinAt.evaluate_succ (ih : WithinAt host n n') (e : Expr) :
    (Eval.evaluate host (n + 1) e).Within (Eval.evaluate host (n' + 1) e) := by
  cases e with
  | group inner =>
    rw [Eval.evaluate, Eval.evaluate]
    exact ih.evaluate inner
  | assign target value =>
    rw [Eval.evaluate, Eval.evaluate]
    exact (ih.evaluate value).bind fun _ => .refl _
  | unary operator operand =>
    rw [Eval.evaluate, Eval.evaluate]
    exact (ih.evaluate operand).bind fun _ => .refl _
  | binary left operator right =>
    rw [Eval.evaluate, Eval.evaluate]
    exact (ih.evaluate left).bind fun _ => (ih.evaluate right).bind fun _ => .refl _
  | logical left operator right =>
    rw [Eval.evaluate, Eval.evaluate]
    refine (ih.evaluate left).bind fun l => (Within.refl _).bind fun decided => ?_
    cases decided with
    | true => exact .refl _
    | false => exact ih.evaluate right
  | call callee paren arguments =>
    rw [Eval.evaluate, Eval.evaluate]
    refine (ih.evaluate callee).bind fun f => ?_
    exact (values_within ih.evaluate arguments).bind fun vs => call_within ih.execute f paren vs
  | _ =>
    -- No parts are evaluated, so the bound is not looked at.
    rw [Eval.evaluate, Eval.evaluate]
    exact .refl _

theorem WithinAt.execute_succ (ih : WithinAt host n n') (hn : n ≤ n') (s : Stmt) :
    (Eval.execute host (n + 1) s).Within (Eval.execute host (n' + 1) s) := by
  cases s with
  | expr value =>
    rw [Eval.execute, Eval.execute]
    exact (ih.evaluate value).bind fun _ => .refl _
  | print value =>
    rw [Eval.execute, Eval.execute]
    exact (ih.evaluate value).bind fun _ => .refl _
  | var name initial =>
    rw [Eval.execute, Eval.execute]
    exact (valueOrNil_within ih.evaluate initial).bind fun _ => .refl _
  | block body =>
    rw [Eval.execute, Eval.execute]
    refine (Within.refl _).bind fun outer => (Within.refl _).bind fun frame => ?_
    exact (sequence_within ih.execute body).inFrame frame
  | branch condition yes no =>
    rw [Eval.execute.eq_def, Eval.execute.eq_def]
    refine (ih.evaluate condition).bind fun v => ?_
    by_cases hv : v.isTruthy = true
    · rw [if_pos hv, if_pos hv]
      exact ih.execute yes
    · rw [if_neg hv, if_neg hv]
      cases no with
      | none => exact .refl _
      | some other => exact ih.execute other
  | loop condition body increment =>
    rw [Eval.execute, Eval.execute]
    exact rounds_within (ih.evaluate condition) (ih.execute body)
      (loopStep_within ih.evaluate increment body) hn
  | give keyword value =>
    rw [Eval.execute, Eval.execute]
    exact (valueOrNil_within ih.evaluate value).bind fun _ => .refl _
  | _ =>
    rw [Eval.execute, Eval.execute]
    exact .refl _

/-- **A larger bound changes nothing** about what is not cut off. -/
theorem withinAt (host : Host) (hn : n ≤ n') : WithinAt host n n' := by
  induction n generalizing n' with
  | zero =>
    constructor
    · intro e
      rw [Eval.evaluate]
      exact .exhausted _
    · intro s
      rw [Eval.execute]
      exact .exhausted _
  | succ n ih =>
    obtain ⟨k, rfl⟩ : ∃ k, n' = k + 1 := ⟨n' - 1, by omega⟩
    have hk : n ≤ k := by omega
    exact ⟨(ih hk).evaluate_succ, (ih hk).execute_succ hk⟩

theorem runProgram_within (hn : n ≤ n') (program : List Stmt) :
    (runProgram host n program).Within (runProgram host n' program) := by
  unfold runProgram
  exact (doAll_within (withinAt host hn).execute program).bind fun _ => .refl _

/-- **A program that ends has one outcome,** whatever the bound was. -/
theorem runProgram_unique {program : List Stmt} {m : Machine}
    (h : runProgram host n program m ≠ .exhausted)
    (h' : runProgram host n' program m ≠ .exhausted) :
    runProgram host n program m = runProgram host n' program m := by
  rcases Nat.le_total n n' with hn | hn
  · exact runProgram_within hn program m h
  · exact (runProgram_within hn program m h').symm

end Eval

end Lox
