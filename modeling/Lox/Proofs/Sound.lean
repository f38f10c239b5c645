/-
  Lox.Proofs.Sound
  ────────────────────────────────
  **WHAT THE EVALUATOR CAN HANDLE.**

  The evaluator fails with the blame on the host where a tree is none that can
  come out of reading and expanding a program: at an operator that is none, at a
  pipe, at a loop whose body does not end with its step.  Here is what it takes
  for that not to happen:

    • values are sound: every function has a well-formed body without pipes, and
      every host function is one that the host has (§1);
    • what host functions do is sound, too (§1);
    • operators are such, so that they blame the program at most (§2);
    • trees are sound: they are well formed and have no pipes (§3).
-/
import Lox.Proofs.Grammar.Soundness
import Lox.Proofs.Keeps
import Lox.Proofs.Pipe.Shape

namespace Lox

open Parse (Context)

/-! ## §1. Sound values and hosts. -/

/-- A function has a well-formed body without pipes, and a host function is one
that the host has. -/
def Value.Sound (host : Host) : Value → Prop
  | .function closure =>
    Stmt.AllWellFormed .ofFunction closure.body ∧ Stmt.pipeFree closure.body = true
  | .native n => (host.functions[n.identity]?).isSome = true
  | _ => True

/-- A failure for which the program is to blame. -/
def Failure.OfProgram : Failure → Prop
  | .runtime _ => True
  | .host _ => False

/-- What a host function does is sound: it breaks off only at a time before the
epoch, or if a call does, and it calls functions that are sound with arguments that
are. -/
inductive Action.Sound (host : Host) : Action → Prop where
  | give {v : Value} (hv : v.Sound host) : Sound host (.give v)
  | raise (fault : RuntimeFault) : Sound host (.raise fault)
  | readClock {next : Float → Action}
      (hbefore : ∀ now, now < 0 → next now = .abort HostFunction.beforeEpoch)
      (hafter : ∀ now, ¬now < 0 → Sound host (next now)) : Sound host (.readClock next)
  | call {c : Closure} {vs : List Value} {next : Except Failure Value → Action}
      (hc : (Value.function c).Sound host) (hvs : ∀ v ∈ vs, v.Sound host)
      (hgiven : ∀ v, v.Sound host → Sound host (next (.ok v)))
      (hfailed : ∀ fault, Sound host (next (.error (.runtime fault))))
      (hbroken : ∀ text, next (.error (.host text)) = .abort text) : Sound host (.call c vs next)

/-- A host whose functions do what is sound. -/
def Host.Sound (host : Host) : Prop :=
  ∀ fn ∈ host.functions, ∀ vs, (∀ v ∈ vs, Value.Sound host v) → (fn.act vs).Sound host

theorem Host.standard_sound (clock : Nat → Float) : (Host.standard clock).Sound := by
  intro fn hfn vs _
  have hclock : fn = .clock := by simpa [Host.standard] using hfn
  rw [hclock]
  exact .readClock (fun now h => if_pos h) fun now h => (if_neg h).symm ▸ .give trivial

/-- Why the clock breaks a run off after so many readings, with the text of the
failure: the last one is a time before the epoch. -/
inductive Host.ClockFails (host : Host) : Nat → String → Prop where
  | beforeEpoch {n : Nat} (h : host.clock n < 0) :
      ClockFails host (n + 1) HostFunction.beforeEpoch

/-- The clock never reads a time before the epoch. -/
def Host.KeepsTime (host : Host) : Prop := ∀ n, ¬host.clock n < 0

theorem Host.KeepsTime.not_clockFails {host : Host} (hclock : host.KeepsTime) {readings : Nat}
    {text : String} : ¬host.ClockFails readings text := by
  intro h
  cases h with
  | beforeEpoch hbefore => exact hclock _ hbefore

theorem Host.Sound.act {host : Host} (hh : host.Sound) {n : Native}
    (hn : (Value.native n).Sound host) {vs : List Value} (hvs : ∀ v ∈ vs, v.Sound host) :
    (host.act n vs).Sound host := by
  unfold Host.act
  obtain ⟨fn, hfn⟩ := Option.isSome_iff_exists.1 hn
  rw [hfn]
  exact hh fn (Array.mem_of_getElem? hfn) vs hvs

/-! ## §2. Operators. -/

section Operators

variable {host : Host}

/-- A result that is no function, or a failure of the program. -/
def Harmless (r : Except Failure Value) : Prop :=
  match r with
  | .ok v => v.isCallable = false
  | .error failure => failure.OfProgram

theorem Value.sound_of_not_callable {v : Value} (h : v.isCallable = false) : v.Sound host := by
  cases v with
  | function c => exact Bool.noConfusion h
  | native n => exact Bool.noConfusion h
  | _ => trivial

theorem Harmless.keeps {I : Machine → Prop} {r : Except Failure Value} (h : Harmless r) :
    (Eval.ofExcept r).Keeps I Failure.OfProgram (Value.Sound host) := by
  apply Eval.Keeps.ofExcept
  · intro v hv
    rw [hv] at h
    exact Value.sound_of_not_callable h
  · intro failure hf
    rw [hf] at h
    exact h

theorem Value.onNumbers_harmless (operator : Token) (left right : Value)
    {result : Float → Float → Value} (h : ∀ x y, (result x y).isCallable = false) :
    Harmless (onNumbers operator left right result) := by
  unfold onNumbers
  split
  · exact h _ _
  · trivial

/-- An operator that is one blames the host for nothing. -/
theorem Value.binary_harmless (left : Value) {operator : Token} (right : Value)
    (h : operator.isBinaryOperator = true) : Harmless (left.binary operator right) := by
  unfold binary
  split
  case h_1 =>
    split
    · rfl
    · rfl
    · trivial
  case h_9 => rfl
  case h_10 => rfl
  -- The last case is that of no operator.
  case h_11 =>
    unfold Token.isBinaryOperator at h
    split at h <;> simp_all
  all_goals exact onNumbers_harmless operator left right fun _ _ => rfl

theorem Value.unary_harmless {operator : Token} (operand : Value)
    (h : operator.isPrefixOperator = true) : Harmless (operand.unary operator) := by
  unfold unary
  split
  case h_1 => rfl
  case h_2 =>
    split
    · rfl
    · trivial
  -- The last case is that of no sign.
  case h_3 hbang hminus =>
    rcases Bool.or_eq_true_iff.1 h with h | h
    · exact absurd (kind_of_isSymbol h) hbang
    · exact absurd (kind_of_isSymbol h) hminus

/-- So does `and` or `or`. -/
theorem Eval.decides_keeps {I : Machine → Prop} {operator : Token} (left : Value)
    (h : operator.isLogicalOperator = true) :
    (Eval.ofExcept (Eval.decides operator left)).Keeps I Failure.OfProgram fun _ => True := by
  apply Eval.Keeps.ofExcept
  · intro _ _
    trivial
  · intro failure hf
    unfold Eval.decides at hf
    rcases Bool.or_eq_true_iff.1 h with h | h
    · rw [kind_of_isKeyword h] at hf
      cases hf
    · rw [kind_of_isKeyword h] at hf
      cases hf

end Operators

/-! ## §3. Sound trees. -/

/-- An expression that the evaluator can handle. -/
def Expr.Sound (e : Expr) : Prop :=
  e.WellFormed ∧ Expr.everyPipe (fun _ => false) e = true

/-- A statement that the evaluator can handle. -/
def Stmt.Sound (ctx : Context) (s : Stmt) : Prop :=
  s.WellFormed ctx ∧ Stmt.everyPipe (fun _ => false) s = true

theorem Expr.sound_of_mem {es : List Expr} (hw : Expr.AllWellFormed es)
    (hp : Expr.everyPipeAll (fun _ => false) es = true) : ∀ e ∈ es, e.Sound := by
  induction es with
  | nil =>
    intro e he
    cases he
  | cons e es ih =>
    simp only [Expr.everyPipeAll, Bool.and_eq_true] at hp
    intro e' he'
    cases he' with
    | head => exact ⟨hw.1, hp.1⟩
    | tail _ he' => exact ih hw.2 hp.2 e' he'

theorem Stmt.sound_of_mem {ctx : Context} {ss : List Stmt} (hw : Stmt.AllWellFormed ctx ss)
    (hp : Stmt.everyPipeAll (fun _ => false) ss = true) : ∀ s ∈ ss, s.Sound ctx := by
  induction ss with
  | nil =>
    intro s hs
    cases hs
  | cons s ss ih =>
    simp only [Stmt.everyPipeAll, Bool.and_eq_true] at hp
    intro s' hs'
    cases hs' with
    | head => exact ⟨hw.1, hp.1⟩
    | tail _ hs' => exact ih hw.2 hp.2 s' hs'

theorem Expr.sound_of_option {o : Option Expr} (hw : Expr.OptionWellFormed o)
    (hp : Expr.everyPipeOption (fun _ => false) o = true) : ∀ e, o = some e → e.Sound := by
  intro e he
  subst he
  exact ⟨hw, hp⟩

end Lox
