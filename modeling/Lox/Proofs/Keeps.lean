/-
  Lox.Proofs.Keeps
  ────────────────────────────────
  **WHAT A COMPUTATION KEEPS.**

  `p.Ends I F Q` says how a computation ends that starts on a machine with the
  invariant `I`: with a value that has the property `Q`, on a machine with the
  invariant, or with a failure and a machine of which `F` holds.  Nothing is said
  about a computation that runs into its bound.

  Such statements compose along `bind` (§1), and each combinator of the evaluator
  ends as its parts do, whatever the invariant is (§2).  Mostly the invariant is
  to hold after a failure, too, and the failure has a property of its own:
  `p.Keeps I E Q` (§3).
-/
import Lox.Eval

namespace Lox

/-- The value of a signal has a property, if it has a value. -/
def Signal.All (P : Value → Prop) : Signal → Prop
  | .give value => P value
  | .next | .leave | .skip => True

/-- The machine that a computation leaves behind has a property, whatever the
outcome is. -/
def Outcome.After {α : Type} (P : Machine → Prop) : Outcome α → Prop
  | .done _ m => P m
  | .failed _ m => P m
  | .exhausted => True

theorem Outcome.After.mono {α : Type} {o : Outcome α} {P Q : Machine → Prop} (h : o.After P)
    (hpq : ∀ m, P m → Q m) : o.After Q := by
  cases o with
  | done a m => exact hpq m h
  | failed failure m => exact hpq m h
  | exhausted => trivial

namespace Eval

variable {α β : Type} {I : Machine → Prop} {E : Failure → Prop} {F : Failure → Machine → Prop}
  {P : Value → Prop}

/-! ## §1. Computations. -/

/-- **How a computation ends** on machines with an invariant. -/
def Ends (p : Eval α) (I : Machine → Prop) (F : Failure → Machine → Prop) (Q : α → Prop) : Prop :=
  ∀ m, I m → match p m with
    | .done a m' => I m' ∧ Q a
    | .failed failure m' => F failure m'
    | .exhausted => True

namespace Ends

variable {F' : Failure → Machine → Prop} {Q : α → Prop} {R : β → Prop}

theorem pure {a : α} (h : Q a) : (Pure.pure a : Eval α).Ends I F Q := fun _ hm => ⟨hm, h⟩

theorem exhausted : (Eval.exhausted : Eval α).Ends I F Q := fun _ _ => trivial

/-- **One computation after the other.** -/
theorem bind {p : Eval α} {k : α → Eval β} (hp : p.Ends I F Q)
    (hk : ∀ a, Q a → (k a).Ends I F R) : (p >>= k).Ends I F R := by
  intro m hm
  have hfirst := hp m hm
  have hbind : (p >>= k) m = Eval.bind p k m := rfl
  rw [hbind]
  unfold Eval.bind
  cases h : p m with
  | done a m' =>
    rw [h] at hfirst
    exact hk a hfirst.2 m' hfirst.1
  | failed failure m' =>
    rw [h] at hfirst
    exact hfirst
  | exhausted => trivial

theorem weaken {p : Eval α} (hp : p.Ends I F Q)
    (hF : ∀ failure m, F failure m → F' failure m) : p.Ends I F' Q := by
  intro m hm
  have hend := hp m hm
  cases h : p m with
  | done a m' =>
    rw [h] at hend
    exact hend
  | failed failure m' =>
    rw [h] at hend
    exact hF failure m' hend
  | exhausted => trivial

/-- Failures that are moved to another line. -/
theorem relocating {p : Eval α} (hp : p.Ends I F Q) (line : Nat)
    (hline : ∀ failure m, F failure m → F' (failure.relocate line) m) :
    (Eval.relocating line p).Ends I F' Q := by
  intro m hm
  have hend := hp m hm
  unfold Eval.relocating
  cases h : p m with
  | done a m' =>
    rw [h] at hend
    exact hend
  | failed failure m' =>
    rw [h] at hend
    exact hline failure m' hend
  | exhausted => trivial

/-- A computation whose failures are dealt with, or handed on as they are. -/
theorem handle {p : Eval α} {k : Except Failure α → Eval β} (hp : p.Ends I F Q)
    (hok : ∀ a, Q a → (k (.ok a)).Ends I F R)
    (herror : ∀ failure m, F failure m →
      k (.error failure) = Eval.fail failure ∨ I m ∧ (k (.error failure)).Ends I F R) :
    (p.attempt >>= k).Ends I F R := by
  intro m hm
  have hfirst := hp m hm
  have hbind : (p.attempt >>= k) m = Eval.bind p.attempt k m := rfl
  rw [hbind]
  unfold Eval.bind Eval.attempt
  cases h : p m with
  | done a m' =>
    rw [h] at hfirst
    exact hok a hfirst.2 m' hfirst.1
  | failed failure m' =>
    rw [h] at hfirst
    dsimp only
    rcases herror failure m' hfirst with hfail | ⟨hm', hends⟩
    · rw [hfail]
      exact hfirst
    · exact hends m' hm'
  | exhausted => trivial

/-- Properties that do not speak of the current frame, in another frame. -/
theorem inFrame {p : Eval α} (hp : p.Ends I F Q) (frame : FrameId)
    (hI : ∀ m f, I m → I { m with current := f })
    (hF : ∀ failure m f, F failure m → F failure { m with current := f }) :
    (Eval.inFrame frame p).Ends I F Q := by
  intro m hm
  have hend := hp { m with current := frame } (hI m frame hm)
  unfold Eval.inFrame
  cases h : p { m with current := frame } with
  | done a m' =>
    rw [h] at hend
    exact ⟨hI m' m.current hend.1, hend.2⟩
  | failed failure m' =>
    rw [h] at hend
    exact hF failure m' m.current hend
  | exhausted => trivial

end Ends

/-! ## §2. Combinators. -/

section Combinators

variable {ev : Expr → Eval Value} {ex : Stmt → Eval Signal}

theorem values_ends {es : List Expr} (h : ∀ e ∈ es, (ev e).Ends I F P) :
    (values ev es).Ends I F fun vs => ∀ v ∈ vs, P v := by
  induction es with
  | nil =>
    apply Ends.pure
    intro v hv
    cases hv
  | cons e es ih =>
    refine (h e (.head _)).bind fun v hv => ?_
    refine (ih fun e he => h e (.tail _ he)).bind fun vs hvs => Ends.pure ?_
    intro w hw
    cases hw with
    | head => exact hv
    | tail _ hw => exact hvs w hw

theorem valueOrNil_ends {o : Option Expr} (h : ∀ e, o = some e → (ev e).Ends I F P)
    (hnil : P .nil) : (valueOrNil ev o).Ends I F P := by
  cases o with
  | none => exact Ends.pure hnil
  | some e => exact h e rfl

theorem sequence_ends {ss : List Stmt} (h : ∀ s ∈ ss, (ex s).Ends I F (Signal.All P)) :
    (sequence ex ss).Ends I F (Signal.All P) := by
  induction ss with
  | nil => exact Ends.pure trivial
  | cons s ss ih =>
    refine (h s (.head _)).bind fun signal hsignal => ?_
    cases signal with
    | next => exact ih fun s hs => h s (.tail _ hs)
    | give v => exact Ends.pure hsignal
    | leave => exact Ends.pure trivial
    | skip => exact Ends.pure trivial

theorem doAll_ends {ss : List Stmt} (h : ∀ s ∈ ss, (ex s).Ends I F (Signal.All P)) :
    (doAll ex ss).Ends I F fun _ => True := by
  induction ss with
  | nil => exact Ends.pure trivial
  | cons s ss ih => exact (h s (.head _)).bind fun _ _ => ih fun s hs => h s (.tail _ hs)

/-- As the parts of a round end, so does the whole loop. -/
theorem rounds_ends {condition : Eval Value} {body : Eval Signal} {step : Eval Unit}
    (hc : condition.Ends I F P) (hb : body.Ends I F (Signal.All P))
    (hs : step.Ends I F fun _ => True) (n : Nat) :
    (rounds condition body step n).Ends I F (Signal.All P) := by
  induction n with
  | zero => exact Ends.exhausted
  | succ n ih =>
    refine hc.bind fun v _ => ?_
    by_cases hv : v.isTruthy = true
    · rw [if_pos hv]
      refine hb.bind fun signal hsignal => ?_
      cases signal with
      | next => exact ih
      | give v => exact Ends.pure hsignal
      | leave => exact Ends.pure trivial
      | skip => exact hs.bind fun _ _ => ih
    · rw [if_neg hv]
      exact Ends.pure trivial

end Combinators

/-! ## §3. Invariants that failures keep. -/

/-- **A computation keeps an invariant,** its value and its failures are as they
should be. -/
def Keeps (p : Eval α) (I : Machine → Prop) (E : Failure → Prop) (Q : α → Prop) : Prop :=
  ∀ m, I m → match p m with
    | .done a m' => I m' ∧ Q a
    | .failed failure m' => I m' ∧ E failure
    | .exhausted => True

/-- The invariant after a failure, with a property of the failure. -/
theorem keeps_iff_ends {p : Eval α} {Q : α → Prop} :
    p.Keeps I E Q ↔ p.Ends I (fun failure m => I m ∧ E failure) Q := Iff.rfl

namespace Keeps

variable {Q : α → Prop} {R : β → Prop}

theorem pure {a : α} (h : Q a) : (Pure.pure a : Eval α).Keeps I E Q := fun _ hm => ⟨hm, h⟩

theorem fail {failure : Failure} (h : E failure) : (Eval.fail failure : Eval α).Keeps I E Q :=
  fun _ hm => ⟨hm, h⟩

theorem exhausted : (Eval.exhausted : Eval α).Keeps I E Q := fun _ _ => trivial

theorem bind {p : Eval α} {k : α → Eval β} (hp : p.Keeps I E Q)
    (hk : ∀ a, Q a → (k a).Keeps I E R) : (p >>= k).Keeps I E R :=
  keeps_iff_ends.2 ((keeps_iff_ends.1 hp).bind fun a ha => keeps_iff_ends.1 (hk a ha))

theorem mono {p : Eval α} {S : α → Prop} (hp : p.Keeps I E Q) (hqs : ∀ a, Q a → S a) :
    p.Keeps I E S := by
  intro m hm
  have hend := hp m hm
  cases h : p m with
  | done a m' =>
    rw [h] at hend
    exact ⟨hend.1, hqs a hend.2⟩
  | failed failure m' =>
    rw [h] at hend
    exact hend
  | exhausted => trivial

/-- Whatever the outcome is, the invariant holds afterwards. -/
theorem after {p : Eval α} (hp : p.Keeps I E Q) {m : Machine} (hm : I m) : (p m).After I := by
  have hend := hp m hm
  cases h : p m with
  | done a m' =>
    rw [h] at hend
    exact hend.1
  | failed failure m' =>
    rw [h] at hend
    exact hend.1
  | exhausted => trivial

theorem ofExcept {r : Except Failure α} (hok : ∀ a, r = .ok a → Q a)
    (herror : ∀ failure, r = .error failure → E failure) : (Eval.ofExcept r).Keeps I E Q := by
  cases r with
  | ok a => exact pure (hok a rfl)
  | error failure => exact fail (herror failure rfl)

theorem weaken {p : Eval α} {E' : Failure → Prop} (hp : p.Keeps I E Q)
    (he : ∀ failure, E failure → E' failure) : p.Keeps I E' Q :=
  keeps_iff_ends.2 ((keeps_iff_ends.1 hp).weaken fun failure _ h => ⟨h.1, he failure h.2⟩)

/-- Failures that are moved to another line. -/
theorem relocating {p : Eval α} {E' : Failure → Prop} (hp : p.Keeps I E Q) (line : Nat)
    (hline : ∀ failure, E failure → E' (failure.relocate line)) :
    (Eval.relocating line p).Keeps I E' Q :=
  keeps_iff_ends.2 ((keeps_iff_ends.1 hp).relocating line fun failure _ h =>
    ⟨h.1, hline failure h.2⟩)

/-- The failure is what the computation gives then. -/
theorem attempt {p : Eval α} {E' : Failure → Prop} {S : Except Failure α → Prop}
    (hp : p.Keeps I E Q) (hok : ∀ a, Q a → S (.ok a))
    (herror : ∀ failure, E failure → S (.error failure)) : p.attempt.Keeps I E' S := by
  intro m hm
  have hend := hp m hm
  unfold Eval.attempt
  cases h : p m with
  | done a m' =>
    rw [h] at hend
    exact ⟨hend.1, hok a hend.2⟩
  | failed failure m' =>
    rw [h] at hend
    exact ⟨hend.1, herror failure hend.2⟩
  | exhausted => trivial

/-- An invariant that does not speak of the current frame is kept in another
frame. -/
theorem inFrame {p : Eval α} (hp : p.Keeps I E Q) (frame : FrameId)
    (hcurrent : ∀ m f, I m → I { m with current := f }) : (Eval.inFrame frame p).Keeps I E Q :=
  keeps_iff_ends.2 ((keeps_iff_ends.1 hp).inFrame frame hcurrent fun _ m f h =>
    ⟨hcurrent m f h.1, h.2⟩)

/-- What prints nothing keeps everything that holds of the output, too. -/
theorem withOutput {p : Eval α} {J : Channel → Prop} (hp : p.Keeps I E Q)
    (hquiet : ∀ m, (p m).After fun m' => m'.output = m.output) :
    p.Keeps (fun m => I m ∧ J m.output) E Q := by
  intro m hm
  have hend := hp m hm.1
  have houtput := hquiet m
  cases h : p m with
  | done a m' =>
    rw [h] at hend houtput
    exact ⟨⟨hend.1, Eq.mpr (congrArg J houtput) hm.2⟩, hend.2⟩
  | failed failure m' =>
    rw [h] at hend houtput
    exact ⟨⟨hend.1, Eq.mpr (congrArg J houtput) hm.2⟩, hend.2⟩
  | exhausted => trivial

end Keeps

section Combinators

variable {ev : Expr → Eval Value} {ex : Stmt → Eval Signal}

theorem values_keeps {es : List Expr} (h : ∀ e ∈ es, (ev e).Keeps I E P) :
    (values ev es).Keeps I E fun vs => ∀ v ∈ vs, P v :=
  keeps_iff_ends.2 (values_ends fun e he => keeps_iff_ends.1 (h e he))

theorem valueOrNil_keeps {o : Option Expr} (h : ∀ e, o = some e → (ev e).Keeps I E P)
    (hnil : P .nil) : (valueOrNil ev o).Keeps I E P :=
  keeps_iff_ends.2 (valueOrNil_ends (fun e he => keeps_iff_ends.1 (h e he)) hnil)

theorem sequence_keeps {ss : List Stmt} (h : ∀ s ∈ ss, (ex s).Keeps I E (Signal.All P)) :
    (sequence ex ss).Keeps I E (Signal.All P) :=
  keeps_iff_ends.2 (sequence_ends fun s hs => keeps_iff_ends.1 (h s hs))

theorem doAll_keeps {ss : List Stmt} (h : ∀ s ∈ ss, (ex s).Keeps I E (Signal.All P)) :
    (doAll ex ss).Keeps I E fun _ => True :=
  keeps_iff_ends.2 (doAll_ends fun s hs => keeps_iff_ends.1 (h s hs))

/-- What the parts of a round keep, the whole loop keeps. -/
theorem rounds_keeps {condition : Eval Value} {body : Eval Signal} {step : Eval Unit}
    (hc : condition.Keeps I E P) (hb : body.Keeps I E (Signal.All P))
    (hs : step.Keeps I E fun _ => True) (n : Nat) :
    (rounds condition body step n).Keeps I E (Signal.All P) :=
  keeps_iff_ends.2
    (rounds_ends (keeps_iff_ends.1 hc) (keeps_iff_ends.1 hb) (keeps_iff_ends.1 hs) n)

end Combinators

end Eval

end Lox
