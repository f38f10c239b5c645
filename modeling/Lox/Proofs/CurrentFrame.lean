/-
  Lox.Proofs.CurrentFrame
  ────────────────────────────────
  **THE CURRENT FRAME COMES BACK.**

  Blocks and calls run in frames of their own.  Whatever way they are left, by
  a signal, a fault of the program, a broken channel or a complaint of a host
  function that called back, the frame that was current before is current
  again (`Eval.Restores`).  So between the runs of programs, failed ones
  included, the current frame is the one of the global names.

  `m.Idle host runs` are the machines between runs of programs of which `runs`
  holds.  The last theorem is about all programs.
-/
import Lox.Proofs.Locality
import Lox.Proofs.Names

namespace Lox

/-- **The machines between the runs of programs:** the first one, and whatever
is left behind when the host gives programs a function or when a program is
run, with any outcome. -/
inductive Machine.Idle (host : Host) (runs : List Stmt → Prop) : Machine → Prop where
  | start (output : Channel) : Idle host runs (.start host output)
  /-- The host has given programs another function. -/
  | given {m : Machine} (h : Idle host runs m) (native : Native) :
      Idle host runs { m with scopes := m.scopes.define 0 native.name (.native native) }
  /-- A program has been run. -/
  | ran {m m' : Machine} (h : Idle host runs m) (bound : Nat) {program : List Stmt}
      (hp : runs program) (hm' : (Eval.runProgram host bound program m).machine? = some m') :
      Idle host runs m'

/-- What is run may be less restricted. -/
theorem Machine.Idle.mono {host : Host} {runs runs' : List Stmt → Prop} {m : Machine}
    (h : m.Idle host runs) (hruns : ∀ program, runs program → runs' program) :
    m.Idle host runs' := by
  induction h with
  | start output => exact .start output
  | given _ native ih => exact .given ih native
  | ran _ bound hp hm' ih => exact .ran ih bound (hruns _ hp) hm'

namespace Eval

variable {α : Type} {host : Host}

/-! ## §1. Computations that come back. -/

/-- **A computation ends in the frame in which it began,** whatever its outcome
is. -/
def Restores (p : Eval α) : Prop := ∀ m, (p m).After fun m' => m'.current = m.current

/-- What is said about declared names includes the current frame. -/
theorem Declares.restores {p : Eval α} {new : List String} (h : p.Declares new) : p.Restores :=
  fun m => (h m).mono fun _ hend => hend.current

/-- Another frame is current only in between. -/
theorem inFrame_restores (frame : FrameId) (p : Eval α) : (inFrame frame p).Restores := by
  intro m
  apply after_inFrame
  cases p { m with current := frame } with
  | done a m' => rfl
  | failed failure m' => rfl
  | exhausted => trivial

/-! ## §2. Calls and programs. -/

/-- A call without a look at the number of arguments, as a host function makes
it. -/
theorem invoke_restores {ex : Stmt → Eval Signal} (hs : ∀ s, (ex s).Declares s.declares)
    {callee : Value} {arguments : List Value} {p : Eval Value}
    (h : invoke host ex callee arguments = some p) : p.Restores :=
  (invoke_declares hs h).restores

theorem runProgram_restores (host : Host) (bound : Nat) (program : List Stmt) :
    (runProgram host bound program).Restores :=
  (runProgram_declares host bound program).restores

end Eval

/-- Between runs, the current frame is the one of the global names. -/
theorem Machine.Idle.current_eq_zero {host : Host} {runs : List Stmt → Prop} {m : Machine}
    (h : m.Idle host runs) : m.current = 0 := by
  induction h with
  | start output => rfl
  | given _ native ih => exact ih
  | @ran m m' _ bound program _ hm' ih =>
    have hback : m'.current = m.current :=
      (Eval.runProgram_restores host bound program m).machine? hm'
    exact hback.trans ih

/-- **The current frame is restored on every way out.** On every machine and at
every bound, an expression, a statement, statements in another frame, a call, and
a call that a host function makes all end in the frame in which they began,
whatever their outcome is.  So does a whole program, and after any runs of
programs, failed or not, the current frame is the one of the global names. -/
theorem current_frame_is_restored (host : Host) (bound : Nat) :
    (∀ e, (Eval.evaluate host bound e).Restores) ∧
      (∀ s, (Eval.execute host bound s).Restores) ∧
      (∀ frame body,
        (Eval.inFrame frame (Eval.sequence (Eval.execute host bound) body)).Restores) ∧
      (∀ callee paren arguments,
        (Eval.call host (Eval.execute host bound) callee paren arguments).Restores) ∧
      (∀ callee arguments p,
        Eval.invoke host (Eval.execute host bound) callee arguments = some p → p.Restores) ∧
      (∀ program, (Eval.runProgram host bound program).Restores) ∧
      ∀ m : Machine, m.Idle host (fun _ => True) → m.current = 0 := by
  have hat := Eval.declaresAt host bound
  refine ⟨fun e => (hat.evaluate e).restores, fun s => (hat.execute s).restores, ?_, ?_, ?_, ?_, ?_⟩
  · intro frame body
    exact Eval.inFrame_restores frame _
  · intro callee paren arguments
    exact (Eval.call_declares hat.execute callee paren arguments).restores
  · intro callee arguments p hp
    exact Eval.invoke_restores hat.execute hp
  · intro program
    exact Eval.runProgram_restores host bound program
  · intro m hm
    exact hm.current_eq_zero

/-- `{ apply(fun (x) { { x(); } }, nil); }`: a host function calls back, and a
block in the function that it calls is left by a fault. -/
def failingCallback : List Stmt :=
  let x : Token := ⟨.identifier, "x", 1⟩
  let paren : Token := ⟨.symbol .rightParen, ")", 1⟩
  [.block [.expr (.call (.name ⟨.identifier, "apply", 1⟩) paren
    [.function none [x] [.block [.expr (.call (.name x) paren [])]], .literal .nil])]]

theorem current_frame_is_restored_failing_callback :
    let host := Host.toolbox fun _ => 0
    ∃ m : Machine, (Eval.runProgram host 16 failingCallback (.start host .unlimited)).machine? =
        some m ∧ m.scopes.next = 4 ∧ m.current = 0 := by
  intro host
  have hends : ((Eval.runProgram host 16 failingCallback (.start host .unlimited)).machine?.map
      fun m => m.scopes.next) = some 4 := by decide +kernel
  obtain ⟨m, hm, hframes⟩ := Option.map_eq_some_iff.1 hends
  have hidle : m.Idle host fun _ => True := .ran (.start .unlimited) 16 trivial hm
  obtain ⟨-, -, -, -, -, -, hback⟩ := current_frame_is_restored host 16
  exact ⟨m, hm, hframes, hback m hidle⟩

end Lox
