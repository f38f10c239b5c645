/-
  Lox.Proofs.Signals.Log
  ────────────────────────────────
  **WHAT HAPPENS IN ONE BODY.**

  `Logged.execute` does what `Eval.execute` does and keeps a log beside it: which
  statements of the body are begun, and which value a `return` of the body gives.
  What a function does that is called from the body is not in the log of the
  body, so expressions are evaluated as they are.  The log is kept whatever the
  outcome is, a failure and the bound included.

  §3 shows that the log is only kept beside: the outcome is the one of
  `Eval.execute` (`Does`).  §4 shows where a `return` can stand in it (`Once`):
  nothing is begun behind one, and the body ends with its value.
-/
import Lox.Proofs.Signals

namespace Lox

/-! ## §1. Logs. -/

/-- Something that happens while the statements of a body are done. -/
inductive Event where
  /-- A statement is begun. -/
  | begun (s : Stmt)
  /-- A `return` has its value. -/
  | gave (value : Value)

/-- No `return` has given a value. -/
def NothingGiven (log : List Event) : Prop := ∀ value, .gave value ∉ log

/-- A computation with a log of what happens. -/
def Logged (α : Type) : Type := Machine → List Event × Outcome α

namespace Logged

variable {α β : Type}

protected def pure (a : α) : Logged α := fun m => ([], .done a m)

/-- One computation after the other; one that fails is the last one, and its log
is kept. -/
protected def bind (p : Logged α) (k : α → Logged β) : Logged β := fun m =>
  match p m with
  | (log, .done a m') => (log ++ (k a m').1, (k a m').2)
  | (log, .failed failure m') => (log, .failed failure m')
  | (log, .exhausted) => (log, .exhausted)

instance : Monad Logged where
  pure := Logged.pure
  bind := Logged.bind

/-- A computation in which nothing is logged. -/
instance : MonadLift Eval Logged where
  monadLift p := fun m => ([], p m)

/-- Log that something happens. -/
def note (e : Event) : Logged Unit := fun m => ([e], .done () m)

/-- Compute in a frame, and come back to the frame before. -/
def inFrame (frame : FrameId) (p : Logged α) : Logged α := fun m =>
  let (log, outcome) := p { m with current := frame }
  (log, Eval.inFrame frame (fun _ => outcome) m)

/-! ## §2. Bodies. -/

def sequence (execute : Stmt → Logged Signal) : List Stmt → Logged Signal
  | [] => pure .next
  | s :: ss => do
    match ← execute s with
    | .next => sequence execute ss
    | signal => return signal

def rounds (condition : Eval Value) (body : Logged Signal) (step : Eval Unit) :
    (bound : Nat) → Logged Signal
  | 0 => Eval.exhausted
  | n + 1 => do
    if (← condition).isTruthy then
      match ← body with
      | .next => rounds condition body step n
      | .leave => return .next
      | .skip =>
        step
        rounds condition body step n
      | .give value => return .give value
    else return .next

/-- Do a statement of a body. -/
def execute (host : Host) : (bound : Nat) → Stmt → Logged Signal
  | 0, _ => Eval.exhausted
  | n + 1, s => do
    note (.begun s)
    match s with
    | .block body => do
      let frame ← Eval.newFrame (← Eval.current) []
      inFrame frame (sequence (execute host n) body)
    | .branch condition yes no => do
      if (← Eval.evaluate host n condition).isTruthy then execute host n yes
      else match no with
        | some other => execute host n other
        | none => return .next
    | .loop condition body increment =>
      rounds (Eval.evaluate host n condition) (execute host n body)
        (Eval.loopStep (Eval.evaluate host n) increment body) n
    | .give _ value => do
      let v ← Eval.valueOrNil (Eval.evaluate host n) value
      note (.gave v)
      return .give v
    -- In all other statements there is no statement of the body.
    | other => Eval.execute host (n + 1) other

/-- Call a function of the program. -/
def enter (host : Host) (bound : Nat) (closure : Closure) (arguments : List Value) :
    Logged Value := do
  let frame ← Eval.newFrame closure.frame (Bindings.ofLists closure.parameters arguments)
  match ← inFrame frame (sequence (execute host bound) closure.body) with
  | .give value => return value
  | .next | .leave | .skip => return .nil

/-! ## §3. The log is kept beside. -/

/-- A computation with a log does what one without does. -/
def Does (p : Logged α) (q : Eval α) : Prop := ∀ m, (p m).2 = q m

theorem pure_does (a : α) : (pure a : Logged α).Does (pure a) := fun _ => rfl

theorem lift_does (p : Eval α) : (liftM p : Logged α).Does p := fun _ => rfl

theorem Does.bind {p : Logged α} {q : Eval α} {k : α → Logged β} {l : α → Eval β}
    (hp : p.Does q) (hk : ∀ a, (k a).Does (l a)) : (p >>= k).Does (q >>= l) := by
  intro m
  show (Logged.bind p k m).2 = Eval.bind q l m
  unfold Logged.bind Eval.bind
  rw [← hp m]
  rcases p m with ⟨log, outcome⟩
  cases outcome with
  | done a m' => exact hk a m'
  | failed failure m' => rfl
  | exhausted => rfl

/-- A note does nothing. -/
theorem note_does (e : Event) {p : Logged α} {q : Eval α} (hp : p.Does q) :
    (note e >>= fun _ => p).Does q := hp

theorem inFrame_does {p : Logged α} {q : Eval α} (hp : p.Does q) (frame : FrameId) :
    (inFrame frame p).Does (Eval.inFrame frame q) := by
  intro m
  show Eval.inFrame frame (fun _ => (p { m with current := frame }).2) m = _
  rw [hp]
  rfl

theorem sequence_does {ex : Stmt → Logged Signal} {ex' : Stmt → Eval Signal}
    (h : ∀ s, (ex s).Does (ex' s)) (ss : List Stmt) :
    (sequence ex ss).Does (Eval.sequence ex' ss) := by
  induction ss with
  | nil => exact pure_does _
  | cons s ss ih =>
    refine (h s).bind fun signal => ?_
    cases signal with
    | next => exact ih
    | _ => exact pure_does _

theorem rounds_does (condition : Eval Value) {body : Logged Signal} {body' : Eval Signal}
    (step : Eval Unit) (hb : body.Does body') (n : Nat) :
    (rounds condition body step n).Does (Eval.rounds condition body' step n) := by
  induction n with
  | zero => exact lift_does _
  | succ n ih =>
    refine (lift_does condition).bind fun v => ?_
    by_cases hv : v.isTruthy = true
    · rw [if_pos hv, if_pos hv]
      refine hb.bind fun signal => ?_
      cases signal with
      | next => exact ih
      | skip => exact (lift_does step).bind fun _ => ih
      | _ => exact pure_does _
    · rw [if_neg hv, if_neg hv]
      exact pure_does _

/-- **The outcome of a statement is not touched by its log.** -/
theorem execute_does (host : Host) (n : Nat) (s : Stmt) :
    (execute host n s).Does (Eval.execute host n s) := by
  induction n generalizing s with
  | zero =>
    rw [execute, Eval.execute]
    exact lift_does _
  | succ n ih =>
    rw [execute.eq_def]
    apply note_does
    cases s with
    | block body =>
      rw [Eval.execute]
      refine (lift_does Eval.current).bind fun outer => ?_
      refine (lift_does (Eval.newFrame outer [])).bind fun frame => ?_
      exact inFrame_does (sequence_does ih body) frame
    | branch condition yes no =>
      rw [Eval.execute.eq_def]
      refine (lift_does (Eval.evaluate host n condition)).bind fun v => ?_
      by_cases hv : v.isTruthy = true
      · rw [if_pos hv, if_pos hv]
        exact ih yes
      · rw [if_neg hv, if_neg hv]
        cases no with
        | none => exact pure_does _
        | some other => exact ih other
    | loop condition body increment =>
      rw [Eval.execute]
      exact rounds_does _ _ (ih body) n
    | give keyword value =>
      rw [Eval.execute]
      refine (lift_does (Eval.valueOrNil (Eval.evaluate host n) value)).bind fun v => ?_
      exact note_does _ (pure_does _)
    | _ => exact lift_does _

theorem enter_does (host : Host) (n : Nat) (c : Closure) (vs : List Value) :
    (enter host n c vs).Does (Eval.enter (Eval.execute host n) c vs) := by
  unfold enter Eval.enter
  refine (lift_does (Eval.newFrame c.frame _)).bind fun frame => ?_
  refine (inFrame_does (sequence_does (execute_does host n) c.body) frame).bind fun signal => ?_
  cases signal <;> exact pure_does _

/-! ## §4. A `return` is the last thing that happens. -/

/-- The log of a body, or of some statements of it: if it ends with the value of
a `return`, this is the first one that gave a value, and nothing has happened
since; in all other cases none has given a value. -/
def Once : List Event × Outcome Signal → Prop
  | (log, .done (.give value) _) => ∃ before, log = before ++ [.gave value] ∧ NothingGiven before
  | (log, .done .next _) | (log, .done .leave _) | (log, .done .skip _) => NothingGiven log
  | (log, .failed _ _) | (log, .exhausted) => NothingGiven log

/-- The log of a call: it ends with the value of the first `return`, or there is
none and the value is nil. -/
def OnceCalled : List Event × Outcome Value → Prop
  | (log, .done value _) =>
    (∃ before, log = before ++ [.gave value] ∧ NothingGiven before) ∨
      (value = .nil ∧ NothingGiven log)
  | (log, .failed _ _) | (log, .exhausted) => NothingGiven log

theorem nothingGiven_nil : NothingGiven [] := fun _ => List.not_mem_nil

theorem NothingGiven.append {log more : List Event} (h : NothingGiven log)
    (hmore : NothingGiven more) : NothingGiven (log ++ more) := by
  intro value hmem
  rcases List.mem_append.1 hmem with hmem | hmem
  · exact h value hmem
  · exact hmore value hmem

/-- What comes behind a log without values can be looked at alone. -/
theorem Once.after {log : List Event} (h : NothingGiven log)
    {r : List Event × Outcome Signal} (hr : Once r) : Once (log ++ r.1, r.2) := by
  rcases r with ⟨more, outcome⟩
  cases outcome with
  | done signal m =>
    cases signal with
    | give value =>
      obtain ⟨before, hlog, hbefore⟩ := hr
      have hmore : more = before ++ [.gave value] := hlog
      exact ⟨log ++ before, by rw [hmore, List.append_assoc], NothingGiven.append h hbefore⟩
    | next => exact NothingGiven.append h hr
    | leave => exact NothingGiven.append h hr
    | skip => exact NothingGiven.append h hr
  | failed failure m => exact NothingGiven.append h hr
  | exhausted => exact NothingGiven.append h hr

/-- Behind a computation in which nothing is logged. -/
theorem once_lift_bind {p : Eval α} {k : α → Logged Signal} (hk : ∀ a m, Once (k a m))
    (m : Machine) : Once (((liftM p : Logged α) >>= k) m) := by
  show Once (Logged.bind (fun m => ([], p m)) k m)
  unfold Logged.bind
  cases hp : p m with
  | done a m' =>
    simp only [hp]
    exact hk a m'
  | failed failure m' =>
    simp only [hp]
    exact nothingGiven_nil
  | exhausted =>
    simp only [hp]
    exact nothingGiven_nil

/-- Behind other statements of the body: a value that has been given is handed
on, and anything may come behind another signal. -/
theorem once_bind {p : Logged Signal} {k : Signal → Logged Signal} (hp : ∀ m, Once (p m))
    (hgive : ∀ value, k (.give value) = pure (.give value)) (hnext : ∀ m, Once (k .next m))
    (hleave : ∀ m, Once (k .leave m)) (hskip : ∀ m, Once (k .skip m)) (m : Machine) :
    Once ((p >>= k) m) := by
  have hfirst := hp m
  show Once (Logged.bind p k m)
  unfold Logged.bind
  rcases hpm : p m with ⟨log, outcome⟩
  rw [hpm] at hfirst
  cases outcome with
  | done signal m' =>
    cases signal with
    | give value =>
      dsimp only
      rw [hgive value]
      show Once (log ++ [], _)
      rw [List.append_nil]
      exact hfirst
    | next => exact Once.after hfirst (hnext m')
    | leave => exact Once.after hfirst (hleave m')
    | skip => exact Once.after hfirst (hskip m')
  | failed failure m' => exact hfirst
  | exhausted => exact hfirst

theorem once_inFrame {p : Logged Signal} (hp : ∀ m, Once (p m)) (frame : FrameId) (m : Machine) :
    Once (inFrame frame p m) := by
  have hend := hp { m with current := frame }
  unfold inFrame
  rcases hpm : p { m with current := frame } with ⟨log, outcome⟩
  rw [hpm] at hend
  cases outcome with
  | done signal m' => cases signal <;> exact hend
  | failed failure m' => exact hend
  | exhausted => exact hend

theorem sequence_once {ex : Stmt → Logged Signal} (h : ∀ s m, Once (ex s m)) (ss : List Stmt)
    (m : Machine) : Once (sequence ex ss m) := by
  induction ss generalizing m with
  | nil => exact nothingGiven_nil
  | cons s ss ih =>
    refine once_bind (h s) ?_ ?_ ?_ ?_ m
    · exact fun _ => rfl
    · exact ih
    · exact fun _ => nothingGiven_nil
    · exact fun _ => nothingGiven_nil

theorem rounds_once (condition : Eval Value) {body : Logged Signal} (step : Eval Unit)
    (hb : ∀ m, Once (body m)) (n : Nat) (m : Machine) :
    Once (rounds condition body step n m) := by
  induction n generalizing m with
  | zero => exact nothingGiven_nil
  | succ n ih =>
    refine once_lift_bind (fun v m' => ?_) m
    by_cases hv : v.isTruthy = true
    · rw [if_pos hv]
      refine once_bind hb ?_ ?_ ?_ ?_ m'
      · exact fun _ => rfl
      · exact ih
      · exact fun _ => nothingGiven_nil
      -- The step is an expression, in which nothing is logged.
      · exact once_lift_bind fun _ => ih
    · rw [if_neg hv]
      exact nothingGiven_nil

/-- A statement without a log of its own gives no value. -/
theorem once_lift {p : Eval Signal} (hp : p.Gives (Signal.All fun _ => False)) (m : Machine) :
    Once ((liftM p : Logged Signal) m) := by
  show Once ([], p m)
  cases h : p m with
  | done signal m' =>
    cases signal with
    | give value => exact (hp m _ m' h).elim
    | _ => exact nothingGiven_nil
  | failed failure m' => exact nothingGiven_nil
  | exhausted => exact nothingGiven_nil

/-- **The log of a statement:** a `return` is the last thing that happens. -/
theorem execute_once (host : Host) (n : Nat) (s : Stmt) (m : Machine) :
    Once (execute host n s m) := by
  induction n generalizing s m with
  | zero =>
    rw [execute]
    exact nothingGiven_nil
  | succ n ih =>
    have hbegun : NothingGiven [.begun s] := by
      intro value hmem
      cases List.mem_singleton.1 hmem
    rw [execute.eq_def]
    refine Once.after hbegun ?_
    cases s with
    | block body =>
      refine once_lift_bind (fun outer => once_lift_bind fun frame => ?_) m
      exact once_inFrame (sequence_once ih body) frame
    | branch condition yes no =>
      refine once_lift_bind (fun v m' => ?_) m
      by_cases hv : v.isTruthy = true
      · rw [if_pos hv]
        exact ih yes m'
      · rw [if_neg hv]
        cases no with
        | none => exact nothingGiven_nil
        | some other => exact ih other m'
    | loop condition body increment => exact rounds_once _ _ (ih body) n m
    | give keyword value =>
      -- This is the only place where a value is given.
      refine once_lift_bind (fun v m' => ?_) m
      exact ⟨[], rfl, nothingGiven_nil⟩
    | expr value =>
      refine once_lift ?_ m
      rw [Eval.execute]
      exact .after _ fun _ => .pure trivial
    | print value =>
      refine once_lift ?_ m
      rw [Eval.execute]
      exact .after _ fun v => .after (Eval.print v) fun _ => .pure trivial
    | var name initial =>
      refine once_lift ?_ m
      rw [Eval.execute]
      exact .after _ fun v => .after (Eval.define name.lexeme v) fun _ => .pure trivial
    | function name parameters body =>
      refine once_lift ?_ m
      rw [Eval.execute]
      refine .after Eval.current fun frame => ?_
      refine .after (Eval.newClosure _ parameters body frame) fun v => ?_
      exact .after (Eval.define name.lexeme v) fun _ => .pure trivial
    | leave keyword =>
      refine once_lift ?_ m
      rw [Eval.execute]
      exact .pure trivial
    | next keyword =>
      refine once_lift ?_ m
      rw [Eval.execute]
      exact .pure trivial

/-- The value of a call is read off the signal with which its body ends. -/
theorem onceCalled_bind {p : Logged Signal} {k : Signal → Logged Value} (hp : ∀ m, Once (p m))
    (hgive : ∀ value, k (.give value) = pure value) (hnext : k .next = pure .nil)
    (hleave : k .leave = pure .nil) (hskip : k .skip = pure .nil) (m : Machine) :
    OnceCalled ((p >>= k) m) := by
  have hbody := hp m
  show OnceCalled (Logged.bind p k m)
  unfold Logged.bind
  rcases hpm : p m with ⟨log, outcome⟩
  rw [hpm] at hbody
  cases outcome with
  | done signal m' =>
    dsimp only
    cases signal with
    | give value =>
      rw [hgive]
      show OnceCalled (log ++ [], .done value m')
      rw [List.append_nil]
      exact .inl hbody
    | next =>
      rw [hnext]
      exact .inr ⟨rfl, NothingGiven.append hbody nothingGiven_nil⟩
    | leave =>
      rw [hleave]
      exact .inr ⟨rfl, NothingGiven.append hbody nothingGiven_nil⟩
    | skip =>
      rw [hskip]
      exact .inr ⟨rfl, NothingGiven.append hbody nothingGiven_nil⟩
  | failed failure m' => exact hbody
  | exhausted => exact hbody

/-- **The log of a call:** its value is that of the first `return` in the body,
and nothing happens in the body behind this one; without a `return` it is nil. -/
theorem enter_once (host : Host) (n : Nat) (c : Closure) (vs : List Value) (m : Machine) :
    OnceCalled (enter host n c vs m) := by
  have hbody : ∀ frame m, Once (inFrame frame (sequence (execute host n) c.body) m) :=
    once_inFrame (sequence_once (execute_once host n) c.body)
  unfold enter
  -- Nothing is logged before the body is begun.
  refine onceCalled_bind (hbody m.scopes.next) ?_ ?_ ?_ ?_
    { m with scopes := m.scopes.push ⟨Bindings.ofLists c.parameters vs, some c.frame⟩ }
  · exact fun _ => rfl
  · rfl
  · rfl
  · rfl

end Logged

end Lox
