/-
  Lox.Proofs.Holding
  ────────────────────────────────
  **WHAT A MACHINE HOLDS, WHATEVER THE PROPERTY IS.**

  `m.Holds P` says that all values in the frames of a machine have the property
  `P`.  Every operation of the machine keeps this if the values that it puts into
  the frames have the property (§1), and what it looks up there has it, too.  A
  host function keeps it if it hands on only such values as it has been handed
  (`Action.Handles`, §2); nothing else is known about host functions.
-/
import Lox.Host.Toolbox
import Lox.Proofs.Keeps
import Lox.Proofs.Stored

namespace Lox

/-- All values in the frames of a machine have a property. -/
def Machine.Holds (P : Value → Prop) (m : Machine) : Prop := m.scopes.All P

variable {P : Value → Prop} {E : Failure → Prop} {host : Host} {v : Value}

/-! ## §1. The operations of a machine. -/

namespace Eval

variable {α : Type}

theorem get_holds (name : Token) (hE : E (.undefined name)) :
    (get name).Keeps (Machine.Holds P) E P := by
  intro m hm
  unfold get
  cases h : m.scopes.get? m.current name.lexeme with
  | none => exact ⟨hm, hE⟩
  | some v => exact ⟨hm, Scopes.All.get? hm h⟩

theorem assign_holds (name : Token) (hv : P v) (hE : E (.undefined name)) :
    (assign name v).Keeps (Machine.Holds P) E fun _ => True := by
  intro m hm
  have hvalues := Scopes.All.assign hm m.current name.lexeme hv
  unfold assign
  rcases hassign : m.scopes.assign m.current name.lexeme v with ⟨found, scopes⟩
  rw [hassign] at hvalues
  cases found with
  | true => exact ⟨hvalues, trivial⟩
  | false => exact ⟨hvalues, hE⟩

theorem define_holds (name : String) (hv : P v) :
    (define name v).Keeps (Machine.Holds P) E fun _ => True :=
  fun m hm => ⟨Scopes.All.define hm m.current name hv, trivial⟩

theorem current_holds : current.Keeps (Machine.Holds P) E fun _ => True :=
  fun _ hm => ⟨hm, trivial⟩

theorem newFrame_holds (enclosing : FrameId) {b : Bindings} (hb : b.All P) :
    (newFrame enclosing b).Keeps (Machine.Holds P) E fun _ => True :=
  fun _ hm => ⟨Scopes.All.push hm hb, trivial⟩

/-- A new function is a value, whatever frame and identity it gets. -/
theorem newClosure_holds {name : Option String} {parameters : List Token} {body : List Stmt}
    (h : ∀ identity frame,
      P (.function ⟨identity, name, parameters.map Token.lexeme, body, frame⟩))
    (frame : FrameId) :
    (newClosure name parameters body frame).Keeps (Machine.Holds P) E P :=
  fun m hm => ⟨hm, h m.made frame⟩

theorem functionValue_holds {name : Option Token} {parameters : List Token} {body : List Stmt}
    (h : ∀ identity own frame,
      P (.function ⟨identity, own, parameters.map Token.lexeme, body, frame⟩)) :
    (functionValue name parameters body).Keeps (Machine.Holds P) E P := by
  unfold functionValue
  cases name with
  | none =>
    exact current_holds.bind fun frame _ => newClosure_holds (fun i f => h i none f) frame
  | some own =>
    refine current_holds.bind fun outer _ => ?_
    refine (newFrame_holds outer Bindings.all_nil).bind fun frame _ => ?_
    refine (newClosure_holds (fun i f => h i (some own.lexeme) f) frame).bind fun v hv => ?_
    exact ((define_holds own.lexeme hv).inFrame frame fun _ _ hm => hm).bind fun _ _ =>
      Keeps.pure hv

theorem print_holds (v : Value) (hE : E (.host "Failed write program output")) :
    (print v).Keeps (Machine.Holds P) E fun _ => True := by
  intro m hm
  unfold print
  rcases m.output.writeLine v.chunks with ⟨taken, channel⟩
  cases taken with
  | true => exact ⟨hm, trivial⟩
  | false => exact ⟨hm, hE⟩

theorem flush_holds (hE : E (.host "Failed flush program output")) :
    flush.Keeps (Machine.Holds P) E fun _ => True := by
  intro m hm
  unfold flush
  by_cases hf : m.output.flushFails = true
  · rw [if_pos hf]
    exact ⟨hm, hE⟩
  · rw [if_neg hf]
    exact ⟨hm, trivial⟩

theorem readClock_holds : (readClock host).Keeps (Machine.Holds P) E fun _ => True :=
  fun _ hm => ⟨hm, trivial⟩

end Eval

/-! ## §2. Host functions. -/

/-- An action gives values with a property, and calls functions with the property
with such arguments, as long as it gets such values from them. -/
inductive Action.Handles (P : Value → Prop) : Action → Prop where
  | give {v : Value} (hv : P v) : Handles P (.give v)
  | raise (fault : RuntimeFault) : Handles P (.raise fault)
  | abort (text : String) : Handles P (.abort text)
  | readClock {next : Float → Action} (h : ∀ now, Handles P (next now)) :
      Handles P (.readClock next)
  | call {c : Closure} {vs : List Value} {next : Except Failure Value → Action}
      (hc : P (.function c)) (hvs : ∀ v ∈ vs, P v)
      (hgiven : ∀ v, P v → Handles P (next (.ok v)))
      (hfailed : ∀ failure, Handles P (next (.error failure))) : Handles P (.call c vs next)

theorem Action.handles_fail (failure : Failure) : (Action.fail failure).Handles P := by
  cases failure with
  | runtime fault => exact .raise fault
  | host text => exact .abort text

/-- A host function hands on only values with a property if it is handed such
values. -/
def HostFunction.Handles (P : Value → Prop) (fn : HostFunction) : Prop :=
  ∀ vs, (∀ v ∈ vs, P v) → (fn.act vs).Handles P

/-- A host all of whose functions do so. -/
def Host.Handles (P : Value → Prop) (host : Host) : Prop := ∀ fn ∈ host.functions, fn.Handles P

theorem Host.Handles.act (hh : host.Handles P) (n : Native) {vs : List Value}
    (hvs : ∀ v ∈ vs, P v) : (host.act n vs).Handles P := by
  unfold Host.act
  cases h : host.functions[n.identity]? with
  | none => exact .abort _
  | some fn => exact hh fn (Array.mem_of_getElem? h) vs hvs

/-- An action that depends on the first value only. -/
theorem Action.handles_of_head {vs : List Value} {first : Value → Action} {none : Action}
    (hsome : ∀ v, (first v).Handles P) (hnone : none.Handles P) :
    (match vs with | v :: _ => first v | [] => none).Handles P := by
  cases vs with
  | nil => exact hnone
  | cons v vs => exact hsome v

/-- **The functions of the toolbox make no functions of their own.** -/
theorem Host.toolbox_handles (hplain : ∀ v : Value, v.isCallable = false → P v)
    (clock : Nat → Float) : (Host.toolbox clock).Handles P := by
  intro fn hfn
  simp only [Host.toolbox, List.mem_toArray, List.mem_cons, List.not_mem_nil, or_false] at hfn
  rcases hfn with rfl | rfl | rfl | rfl | rfl | rfl | rfl | rfl
  · refine fun _ _ => .readClock fun now => ?_
    by_cases hbefore : now < 0
    · rw [if_pos hbefore]
      exact .abort _
    · rw [if_neg hbefore]
      exact .give (hplain _ rfl)
  · intro vs _
    unfold HostFunction.twice
    dsimp only
    split
    · exact .give (hplain _ rfl)
    · exact .raise _
  · exact fun _ _ => Action.handles_of_head (fun _ => .give (hplain _ rfl)) (.give (hplain _ rfl))
  · exact fun _ _ => Action.handles_of_head (fun _ => .give (hplain _ rfl)) (.give (hplain _ rfl))
  · exact fun _ _ => Action.handles_of_head (fun _ => .raise _) (.give (hplain _ rfl))
  · exact fun _ _ => .abort _
  · intro vs hvs
    unfold HostFunction.apply
    dsimp only
    split
    · next f x =>
      -- Both the function and its argument have been handed to it.
      refine .call (hvs _ (.head _)) (fun v hv => ?_) (fun v hv => .give hv) Action.handles_fail
      rw [List.mem_singleton.1 hv]
      exact hvs _ (.tail _ (.head _))
    · exact .raise _
  · refine fun _ _ => Action.handles_of_head (fun v => ?_) (.give (hplain _ rfl))
    cases v.arity? with
    | none => exact .give (hplain _ rfl)
    | some arity => exact .give (hplain _ rfl)

/-! ## §3. Operators. -/

namespace Value

/-- No operator gives anything callable. -/
theorem onNumbers_plain {operator : Token} {left right : Value} {result : Float → Float → Value}
    (hresult : ∀ x y, (result x y).isCallable = false)
    (h : onNumbers operator left right result = .ok v) : v.isCallable = false := by
  unfold onNumbers at h
  split at h
  · cases h
    exact hresult _ _
  · cases h

theorem binary_plain {operator : Token} {left right : Value}
    (h : left.binary operator right = .ok v) : v.isCallable = false := by
  unfold binary at h
  split at h
  case h_1 =>
    split at h
    · cases h
      rfl
    · cases h
      rfl
    · cases h
  case h_9 =>
    cases h
    rfl
  case h_10 =>
    cases h
    rfl
  case h_11 => cases h
  all_goals exact onNumbers_plain (fun _ _ => rfl) h

theorem unary_plain {operator : Token} {operand : Value} (h : operand.unary operator = .ok v) :
    v.isCallable = false := by
  unfold unary at h
  split at h
  · cases h
    rfl
  · split at h
    · cases h
      rfl
    · cases h
  · cases h

end Value

end Lox
