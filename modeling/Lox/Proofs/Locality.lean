/-
  Lox.Proofs.Locality
  ────────────────────────────────
  **WHAT A RUN CAN REACH.**

  From a frame, code gets to the frame that encloses it, to the frames of the
  functions that it binds, and on from there.  `s.Reaches roots f` says that the
  frame `f` can be reached from the frames `roots`.  A run is local to what it
  can reach from where it starts (`Eval.Local`):

    • every other frame stays as it was,
    • the value or signal it gives refers to frames it can reach and to frames
      made on the way,
    • with anything else in the other frames, and with more of them or fewer, it
      prints the same and comes to the same, but for the numbers of the frames
      made on the way.

  An expression or a statement starts at the current frame, a call at the frame
  of the function and those of the arguments.  So two functions have in common
  only what both can reach.
-/
import Lox.Proofs.Likeness.Runs

namespace Lox

/-! ## §1. Reachable frames. -/

/-- **The frames that can be reached** from some frames: these, what encloses a
frame that can be reached, and the frames of the functions that it binds. -/
inductive Scopes.Reaches (s : Scopes) (roots : FrameId → Prop) : FrameId → Prop where
  | root {f : FrameId} (h : roots f) : Reaches s roots f
  | enclosing {f outer : FrameId} {frame : Frame} (h : Reaches s roots f)
      (hf : s.frames[f]? = some frame) (ho : frame.enclosing = some outer) :
      Reaches s roots outer
  | function {f : FrameId} {frame : Frame} {name : String} {c : Closure}
      (h : Reaches s roots f) (hf : s.frames[f]? = some frame)
      (hc : Bindings.get? name frame.bindings = some (.function c)) : Reaches s roots c.frame

/-- What can be reached in closed frames is there. -/
theorem Scopes.Closed.lt_of_reaches {s : Scopes} (hs : s.Closed) {roots : FrameId → Prop}
    (hroots : ∀ f, roots f → f < s.next) {f : FrameId} (h : s.Reaches roots f) : f < s.next := by
  induction h with
  | root h => exact hroots _ h
  | enclosing _ hf ho ih => exact Nat.lt_trans (hs.older hf _ ho) ih
  | function _ hf hc _ => exact hs.stored hf _ _ hc _ rfl

/-- **The global names can be reached from everywhere,** outwards from any frame. -/
theorem Scopes.Closed.reaches_global {s : Scopes} (hs : s.Closed) {roots : FrameId → Prop}
    {f : FrameId} (h : s.Reaches roots f) (hlt : f < s.next) : s.Reaches roots 0 := by
  induction f using Nat.strongRecOn with
  | ind f ih =>
    have hframe := Array.getElem?_eq_getElem hlt
    cases ho : (s.frames[f]).enclosing with
    | none => exact hs.outermost hframe ho ▸ h
    | some outer =>
      have holder := hs.older hframe outer ho
      exact ih outer holder (.enclosing h hframe ho) (Nat.lt_trans holder hlt)

/-- The frame that a value refers to. -/
def Value.frame? : Value → Option FrameId
  | .function c => some c.frame
  | _ => none

/-- The frame that a signal refers to. -/
def Signal.frame? : Signal → Option FrameId
  | .give value => value.frame?
  | .next | .leave | .skip => none

/-! ## §2. Machines that agree on what can be reached. -/

/-- Machines with the same in the frames that can be reached, and whatever else
in the others. -/
structure Machine.SameFrom (roots : FrameId → Prop) (m m' : Machine) : Prop where
  frames : ∀ f, m.scopes.Reaches roots f → m'.scopes.frames[f]? = m.scopes.frames[f]?
  current : m'.current = m.current
  made : m'.made = m.made
  readings : m'.readings = m.readings
  output : m'.output = m.output

theorem Machine.SameFrom.refl (roots : FrameId → Prop) (m : Machine) : m.SameFrom roots m :=
  ⟨fun _ _ => rfl, rfl, rfl, rfl, rfl⟩

/-- The frames of two machines of which the reachable ones are in both. -/
structure Scopes.Overlap (roots : FrameId → Prop) (s s' : Scopes) : Prop where
  global : s.Reaches roots 0
  left : ∀ f, s.Reaches roots f → f < s.next
  right : ∀ f, s.Reaches roots f → f < s'.next

/-- The likeness of machines that agree on what can be reached: a frame that can
be reached corresponds to itself, and so do the frames to come, in their order. -/
def Likeness.ofReach {roots : FrameId → Prop} {s s' : Scopes} (h : s.Overlap roots s') :
    Likeness where
  moves := (· = id)
  frames := fun f g => (g = f ∧ s.Reaches roots f) ∨ ∃ i, f = s.next + i ∧ g = s'.next + i
  unmoved := rfl
  order := by
    intro f g f' g' hfg hfg'
    rcases hfg with ⟨rfl, hf⟩ | ⟨i, rfl, rfl⟩
    · rcases hfg' with ⟨rfl, -⟩ | ⟨i', rfl, rfl⟩
      · exact Iff.rfl
      · exact iff_of_true (Nat.lt_add_right i' (h.left _ hf)) (Nat.lt_add_right i' (h.right _ hf))
    · rcases hfg' with ⟨rfl, hf'⟩ | ⟨i', rfl, rfl⟩
      · have hl := Nat.lt_add_right i (h.left _ hf')
        have hr := Nat.lt_add_right i (h.right _ hf')
        exact iff_of_false (Nat.lt_asymm hl) (Nat.lt_asymm hr)
      · exact Nat.add_lt_add_iff_left.trans Nat.add_lt_add_iff_left.symm
  global := .inl ⟨rfl, h.global⟩
  before := s

section Reach

variable {roots : FrameId → Prop} {s s' : Scopes} {m m' : Machine}

theorem Machine.SameFrom.overlap (h : m.SameFrom roots m') (hm : m.scopes.Closed)
    (hroots : ∀ f, roots f → f < m.scopes.next) (hcurrent : roots m.current) :
    m.scopes.Overlap roots m'.scopes where
  global := hm.reaches_global (.root hcurrent) (hroots _ hcurrent)
  left := fun f hf => hm.lt_of_reaches hroots hf
  right := by
    intro f hf
    have hframe := h.frames f hf
    rw [Array.getElem?_eq_getElem (hm.lt_of_reaches hroots hf)] at hframe
    exact (Array.getElem?_eq_some_iff.1 hframe).1

/-- A value whose frame can be reached is alike to itself. -/
theorem Value.alike_of_reaches (h : s.Overlap roots s') {v : Value}
    (hv : ∀ f, v.frame? = some f → s.Reaches roots f) : v.Alike (.ofReach h) s.next v := by
  cases v with
  | function c =>
    have hc := hv c.frame rfl
    exact .function ⟨rfl, rfl, rfl, ⟨id, rfl, (Stmt.renumberAll_id c.body).symm⟩,
      .inl ⟨rfl, hc⟩, h.left _ hc⟩
  | _ => exact .same nofun

/-- **Machines that agree on what can be reached correspond.** -/
theorem Machine.SameFrom.alike (h : m.SameFrom roots m') (hm : m.scopes.Closed)
    (hroots : ∀ f, roots f → f < m.scopes.next) (hcurrent : roots m.current) :
    m.Alike (.ofReach (h.overlap hm hroots hcurrent)) m' := by
  have hoverlap := h.overlap hm hroots hcurrent
  refine ⟨⟨?_, fun i => .inr ⟨i, rfl, rfl⟩, fun _ _ _ => rfl⟩, .inl ⟨h.current, .root hcurrent⟩,
    hroots _ hcurrent, h.made, h.readings, h.output⟩
  intro f g hfg hlt
  rcases hfg with ⟨rfl, hf⟩ | ⟨i, hi, -⟩
  · have hframe := Array.getElem?_eq_getElem hlt
    refine ⟨_, _, hframe, (h.frames _ hf).trans hframe, ?_, ?_, hm.older hframe,
      hm.outermost hframe⟩
    · intro name
      cases hv : Bindings.get? name (m.scopes.frames[g]).bindings with
      | none => exact .none
      | some v =>
        refine .some (Value.alike_of_reaches hoverlap fun o ho => ?_)
        cases v with
        | function c => exact Option.some.inj ho ▸ .function hf hframe hv
        | _ => cases ho
    · cases ho : (m.scopes.frames[g]).enclosing with
      | none => exact .none
      | some outer => exact .some (.inl ⟨rfl, .enclosing hf hframe ho⟩)
  · -- A frame to come is not there.
    exact absurd (hi ▸ hlt) (Nat.not_lt.2 (Nat.le_add_right _ _))

end Reach

/-! ## §3. Local runs. -/

/-- The number of a frame when the frames from `old` on are numbered from `new`
on. -/
def movedFrame (old new : Nat) (f : FrameId) : FrameId := if f < old then f else f - old + new

/-- A value whose frame is numbered anew. -/
def Value.moved (old new : Nat) : Value → Value
  | .function c => .function { c with frame := movedFrame old new c.frame }
  | v => v

/-- A signal whose frame is numbered anew. -/
def Signal.moved (old new : Nat) : Signal → Signal
  | .give value => .give (value.moved old new)
  | signal => signal

/-- Outcomes with the same output and the same failure, or values that a map
takes to each other. -/
inductive Outcome.SameUpTo {α : Type} (move : α → α) : Outcome α → Outcome α → Prop where
  | done {a : α} {m m' : Machine} (ho : m'.output = m.output) :
      SameUpTo move (.done a m) (.done (move a) m')
  | failed {failure : Failure} {m m' : Machine} (ho : m'.output = m.output) :
      SameUpTo move (.failed failure m) (.failed failure m')
  | exhausted : SameUpTo move .exhausted .exhausted

/-- **A run is local to what it can reach** from some frames: it leaves the other
frames alone, refers to what it can reach or has made, and does not depend on
what it cannot reach. -/
structure Eval.Local (p : Eval Signal) (m : Machine) (roots : FrameId → Prop) : Prop where
  untouched : (p m).After fun m' => ∀ f, f < m.scopes.next → ¬ m.scopes.Reaches roots f →
    m'.scopes.frames[f]? = m.scopes.frames[f]?
  confined : ∀ signal m', p m = .done signal m' → ∀ f, signal.frame? = some f →
    m.scopes.Reaches roots f ∨ (m.scopes.next ≤ f ∧ f < m'.scopes.next)
  blind : ∀ m', m.SameFrom roots m' →
    Outcome.SameUpTo (Signal.moved m.scopes.next m'.scopes.next) (p m) (p m')

section Local

variable {roots : FrameId → Prop} {s s' : Scopes} {m : Machine} {h : s.Overlap roots s'}
  {size : Nat}

/-- A frame that can be reached is not numbered anew, and one that is made is. -/
theorem movedFrame_of_frames {f g : FrameId} (hfg : (Likeness.ofReach h).frames f g) :
    g = movedFrame s.next s'.next f := by
  unfold movedFrame
  rcases hfg with ⟨rfl, hf⟩ | ⟨i, rfl, rfl⟩
  · exact (if_pos (h.left _ hf)).symm
  · rw [if_neg (Nat.not_lt.2 (Nat.le_add_right _ _)), Nat.add_sub_cancel_left, Nat.add_comm]

theorem Value.Alike.eq_moved {v w : Value} (hv : v.Alike (.ofReach h) size w) :
    w = v.moved s.next s'.next := by
  cases hv with
  | same hplain =>
    cases v with
    | function c => exact absurd rfl (hplain c)
    | _ => rfl
  | @function c d hcd =>
    obtain ⟨g, hg, hbody⟩ := hcd.body
    have hid : g = id := hg
    rw [hid, Stmt.renumberAll_id] at hbody
    have hframe := movedFrame_of_frames hcd.frame
    obtain ⟨identity, name, parameters, body, frame⟩ := c
    obtain ⟨identity', name', parameters', body', frame'⟩ := d
    cases hcd.identity
    cases hcd.name
    cases hcd.parameters
    cases hbody
    cases hframe
    rfl

theorem Signal.Alike.eq_moved {a b : Signal} (hab : a.Alike (.ofReach h) size b) :
    b = a.moved s.next s'.next := by
  cases hab with
  | give hv => exact congrArg Signal.give hv.eq_moved
  | next => rfl
  | leave => rfl
  | skip => rfl

theorem Signal.Alike.frame {k : Likeness} {a b : Signal} (hab : a.Alike k size b) {f : FrameId}
    (hf : a.frame? = some f) : (∃ g, k.frames f g) ∧ f < size := by
  cases hab with
  | @give v w hv =>
    cases hv with
    | same hplain =>
      cases v with
      | function c => exact absurd rfl (hplain c)
      | _ => cases hf
    | function hcd =>
      cases hf
      exact ⟨⟨_, hcd.frame⟩, hcd.exists_frame⟩
  | next => cases hf
  | leave => cases hf
  | skip => cases hf

/-- **A run that keeps the likeness of what it can reach is local.** -/
theorem Eval.local_of_alike {p : Eval Signal} (hm : m.scopes.Closed)
    (hroots : ∀ f, roots f → f < m.scopes.next) (hcurrent : roots m.current)
    (hp : ∀ {s' : Scopes} (h : m.scopes.Overlap roots s'),
      p.Alike (.ofReach h) m.scopes.next (Signal.Alike (.ofReach h)) p) :
    p.Local m roots := by
  have hrun : ∀ m' (hsame : m.SameFrom roots m'), Outcome.Alike
      (.ofReach (hsame.overlap hm hroots hcurrent)) m.scopes.next (Signal.Alike _) (p m) (p m') :=
    fun m' hsame => hp _ m m' (hsame.alike hm hroots hcurrent) (Nat.le_refl _)
  have hself := hrun m (.refl roots m)
  refine ⟨?_, ?_, ?_⟩
  · -- A frame that cannot be reached and is no frame to come corresponds to none.
    have hothers : ∀ {m' n' : Machine}, m'.Alike (.ofReach
        ((Machine.SameFrom.refl roots m).overlap hm hroots hcurrent)) n' → ∀ f, f < m.scopes.next →
        ¬ m.scopes.Reaches roots f → m'.scopes.frames[f]? = m.scopes.frames[f]? := by
      intro m' n' hm' f hf hnot
      refine hm'.scopes.others f hf fun g hfg => ?_
      rcases hfg with ⟨-, hreach⟩ | ⟨i, hi, -⟩
      · exact hnot hreach
      · exact absurd (hi ▸ hf) (Nat.not_lt.2 (Nat.le_add_right _ _))
    generalize p m = o at hself ⊢
    cases hself with
    | done hm' _ _ => exact hothers hm'
    | failed hm' _ _ => exact hothers hm'
    | exhausted => trivial
  · intro signal m' hdone f hf
    rw [hdone] at hself
    cases hself with
    | done _ _ hsignal =>
      obtain ⟨⟨g, hfg⟩, hlt⟩ := hsignal.frame hf
      rcases hfg with ⟨-, hreach⟩ | ⟨i, hi, -⟩
      · exact .inl hreach
      · exact .inr ⟨hi ▸ Nat.le_add_right _ _, hlt⟩
  · intro m' hsame
    have hboth := hrun m' hsame
    generalize p m = o at hboth ⊢
    generalize p m' = o' at hboth ⊢
    cases hboth with
    | done hm' _ hsignal =>
      rw [hsignal.eq_moved]
      exact .done hm'.output
    | failed hm' _ hfailure =>
      rw [hfailure.exact_of fun _ hg => hg]
      exact .failed hm'.output
    | exhausted => exact .exhausted

end Local

/-! ## §4. Code. -/

/-- A host that gets at frames only through the functions handed to it and the
global names: it respects every likeness that leaves lines alone.  It may look
at everything else. -/
def Host.Confined (host : Host) : Prop :=
  ∀ k : Likeness, (∀ g, k.moves g → g = id) → host.Respects k

/-- What can be run on a machine: an expression, a statement, or a function with
arguments. -/
inductive Code where
  | expr (e : Expr)
  | stmt (s : Stmt)
  | call (closure : Closure) (arguments : List Value)

namespace Code

/-- Run code. The value of an expression or of a call is a signal that gives it. -/
def run (host : Host) (bound : Nat) : Code → Eval Signal
  | expr e => do return .give (← Eval.evaluate host bound e)
  | stmt s => Eval.execute host bound s
  | call closure arguments => do
    return .give (← Eval.enter (Eval.execute host bound) closure arguments)

/-- The values handed to code. -/
def values : Code → List Value
  | expr _ | stmt _ => []
  | call closure arguments => .function closure :: arguments

/-- The frames at which code starts: the current one, or those of the values
handed to a call. -/
def roots (m : Machine) : Code → FrameId → Prop
  | expr _, f | stmt _, f => f = m.current
  | call closure arguments, f => ∃ v ∈ Value.function closure :: arguments, v.frame? = some f

/-- The values handed to code refer to frames that are there. -/
def Fits (m : Machine) (code : Code) : Prop := ∀ v ∈ code.values, v.Closed m.scopes.next

variable {host : Host} {bound : Nat} {m : Machine} {code : Code}

theorem Fits.lt_of_roots {c : Closure} {vs : List Value} (h : (call c vs).Fits m) (f : FrameId)
    (hf : (call c vs).roots m f) : f < m.scopes.next := by
  obtain ⟨v, hv, hframe⟩ := hf
  cases v with
  | function c => exact Option.some.inj hframe ▸ h _ hv c rfl
  | _ => cases hframe

/-- **Code keeps a likeness** under which the values handed to it are alike to
themselves. -/
theorem run_alike {k : Likeness} (hh : host.Respects k) {size : Nat}
    (hvalues : ∀ v ∈ code.values, v.Alike k size v) :
    (code.run host bound).Alike k size (Signal.Alike k) (code.run host bound) := by
  have hat := Eval.alikeAt hh bound
  have hgive : ∀ {p : Eval Value}, p.Alike k size (Value.Alike k) p →
      Eval.Alike k size (Signal.Alike k) (do return .give (← p)) (do return .give (← p)) :=
    fun hp => hp.bind fun _ _ _ _ hv => .pure fun _ hn => .give (hv.mono hn)
  cases code with
  | expr e =>
    have he := hat.evaluate id k.unmoved size e
    rw [Expr.renumber_id] at he
    exact hgive he
  | stmt st =>
    have hs := hat.execute id k.unmoved size st
    rw [Stmt.renumber_id] at hs
    exact hs
  | call closure arguments =>
    have harguments : List.Forall₂ (Value.Alike k size) arguments arguments :=
      List.forall₂_same.2 fun v hv => hvalues v (List.mem_cons_of_mem _ hv)
    cases hvalues _ List.mem_cons_self with
    | same hplain => exact absurd rfl (hplain closure)
    | function hc => exact hgive (Eval.enter_alike hat.execute hc harguments)

/-- Code leaves a closed machine closed. -/
theorem run_closed (hh : host.Confined) (hm : m.Closed) (hfits : code.Fits m) (bound : Nat) :
    (code.run host bound m).After Machine.Closed := by
  have hself := hh (.inPlace (· = id) rfl) fun _ hg => hg
  exact Eval.after_closed (run_alike hself (fun v hv => (hfits v hv).alike) m m hm.alike
    (Nat.le_refl _))

end Code

/-! ## §5. Where a call is made from. -/

/-- The same outcome with another frame as the current one. -/
def Outcome.at {α : Type} (f : FrameId) : Outcome α → Outcome α
  | .done a m => .done a { m with current := f }
  | .failed failure m => .failed failure { m with current := f }
  | .exhausted => .exhausted

theorem Outcome.after_at {α : Type} {o : Outcome α} {f : FrameId} {P : Machine → Prop} :
    (o.at f).After P ↔ o.After fun m => P { m with current := f } := by
  cases o <;> exact Iff.rfl

theorem Outcome.sameUpTo_at {α : Type} {move : α → α} {o o' : Outcome α} {f : FrameId}
    (h : Outcome.SameUpTo move (o.at f) (o'.at f)) : Outcome.SameUpTo move o o' := by
  cases o <;> cases o' <;> cases h
  · exact .done ‹_›
  · exact .failed ‹_›
  · exact .exhausted

/-- **A function does not see where it is called from.** -/
theorem Eval.enter_at (ex : Stmt → Eval Signal) (c : Closure) (vs : List Value) (m : Machine)
    (f : FrameId) : enter ex c vs { m with current := f } = (enter ex c vs m).at f := by
  unfold enter
  show Eval.bind _ _ _ = Outcome.at f (Eval.bind _ _ _)
  unfold Eval.bind newFrame
  dsimp only
  show Eval.bind _ _ _ = Outcome.at f (Eval.bind _ _ _)
  unfold Eval.bind inFrame
  dsimp only
  cases sequence ex c.body _ with
  | done signal m' => cases signal <;> rfl
  | failed failure m' => rfl
  | exhausted => rfl

namespace Eval.Local

/-- **What does not see the current frame is local** as soon as it is local with
some frame as the current one. -/
theorem elsewhere {p : Eval Signal} {m : Machine} {roots : FrameId → Prop} {f : FrameId}
    (hp : ∀ m : Machine, p { m with current := f } = (p m).at f)
    (h : p.Local { m with current := f } roots) : p.Local m roots where
  untouched := by
    have hthere := h.untouched
    rw [hp] at hthere
    exact Outcome.after_at.1 hthere
  confined := by
    intro signal m' hdone
    have hthere : p { m with current := f } = .done signal { m' with current := f } := by
      rw [hp, hdone]
      rfl
    exact h.confined signal { m' with current := f } hthere
  blind := by
    intro m' hsame
    have hthere := h.blind { m' with current := f }
      ⟨hsame.frames, rfl, hsame.made, hsame.readings, hsame.output⟩
    rw [hp, hp] at hthere
    exact Outcome.sameUpTo_at hthere

end Eval.Local

namespace Code

variable {host : Host} {bound : Nat} {m : Machine} {code : Code}

theorem call_at (c : Closure) (vs : List Value) (f : FrameId) (m : Machine) :
    (call c vs).run host bound { m with current := f } =
      ((call c vs).run host bound m).at f := by
  show Eval.bind _ _ _ = Outcome.at f (Eval.bind _ _ _)
  unfold Eval.bind
  rw [Eval.enter_at]
  cases Eval.enter (Eval.execute host bound) c vs m <;> rfl

/-- A call is local to what can be reached from the values handed to it. -/
theorem call_local (hh : host.Confined) (hs : m.scopes.Closed) {c : Closure} {vs : List Value}
    (hfits : (call c vs).Fits m) (bound : Nat) :
    ((call c vs).run host bound).Local m ((call c vs).roots m) := by
  -- A call starts at the frame of the function, so this may as well be the current one.
  refine Eval.Local.elsewhere (call_at c vs c.frame)
    (Eval.local_of_alike hs hfits.lt_of_roots ⟨_, List.mem_cons_self, rfl⟩ fun h => ?_)
  exact run_alike (hh (.ofReach h) fun _ hg => hg) fun v hv =>
    Value.alike_of_reaches h fun f hf => .root ⟨v, hv, hf⟩

/-- **Code is local to what it can reach** on a closed machine. -/
theorem run_local (hh : host.Confined) (hm : m.Closed) (hfits : code.Fits m) (bound : Nat) :
    (code.run host bound).Local m (code.roots m) := by
  have hcurrent : ∀ f, f = m.current → f < m.scopes.next := fun f hf => hf ▸ hm.current
  cases code with
  | expr e =>
    exact Eval.local_of_alike hm.scopes hcurrent rfl fun h =>
      run_alike (hh (.ofReach h) fun _ hg => hg) nofun
  | stmt st =>
    exact Eval.local_of_alike hm.scopes hcurrent rfl fun h =>
      run_alike (hh (.ofReach h) fun _ hg => hg) nofun
  | call c vs => exact call_local hh hm.scopes hfits bound

end Code

/-! ## §6. Machines that a run comes to. -/

/-- The machine that a computation leaves behind. -/
def Outcome.machine? {α : Type} : Outcome α → Option Machine
  | .done _ m | .failed _ m => some m
  | .exhausted => none

theorem Outcome.After.machine? {α : Type} {o : Outcome α} {P : Machine → Prop} (h : o.After P)
    {m : Machine} (hm : o.machine? = some m) : P m := by
  cases o with
  | done a m' => exact Option.some.inj hm ▸ h
  | failed failure m' => exact Option.some.inj hm ▸ h
  | exhausted => cases hm

/-- **The machines that code can come to run on:** the first one, and those
between the steps of a run, with any output and any readings of the clock. -/
inductive Machine.Reachable (host : Host) : Machine → Prop where
  | start (output : Channel) : Reachable host (.start host output)
  /-- Some code has been run, with any outcome. -/
  | ran {m m' : Machine} (h : Reachable host m) (bound : Nat) (code : Code) (hfits : code.Fits m)
      (hm' : (code.run host bound m).machine? = some m') : Reachable host m'
  /-- A block or a function has been entered. -/
  | entered {m : Machine} (h : Reachable host m) (outer : FrameId) (names : List String)
      (values : List Value) (ho : outer < m.scopes.next)
      (hv : ∀ v ∈ values, v.Closed m.scopes.next) :
      Reachable host { m with
        scopes := m.scopes.push ⟨Bindings.ofLists names values, some outer⟩
        current := m.scopes.next }
  /-- A block or a function has been left. -/
  | left {m : Machine} (h : Reachable host m) (f : FrameId) (hf : f < m.scopes.next) :
      Reachable host { m with current := f }
  /-- The host has given programs another function. -/
  | given {m : Machine} (h : Reachable host m) (native : Native) :
      Reachable host { m with scopes := m.scopes.define 0 native.name (.native native) }
  /-- Something else has happened in the world outside. -/
  | outside {m : Machine} (h : Reachable host m) (made readings : Nat) (output : Channel) :
      Reachable host { m with made := made, readings := readings, output := output }

/-- A function of the host has no frame, so any frame may bind it. -/
theorem Machine.Closed.given {m : Machine} (h : m.Closed) (native : Native) :
    Machine.Closed { m with scopes := m.scopes.define 0 native.name (.native native) } := by
  have hnative : Value.Alike .onLines m.scopes.next (.native native) (.native native) :=
    .same nofun
  have hdefine := h.alike.scopes.define native.name (f := 0) rfl hnative
  have hcurrent : m.current < (m.scopes.define 0 native.name (.native native)).next := by
    rw [Scopes.next_define]
    exact h.current
  have halike : Machine.Alike .onLines
      { m with scopes := m.scopes.define 0 native.name (.native native) }
      { m with scopes := m.scopes.define 0 native.name (.native native) } :=
    ⟨hdefine, rfl, hcurrent, rfl, rfl, rfl⟩
  exact halike.closed

/-- Every machine that code comes to run on is closed. -/
theorem Machine.Reachable.closed {host : Host} (hh : host.Confined) {m : Machine}
    (h : m.Reachable host) : m.Closed := by
  induction h with
  | start output => exact Machine.start_closed host output
  | ran _ bound code hfits hm' ih => exact (Code.run_closed hh ih hfits bound).machine? hm'
  | @entered m _ outer names values ho hv ih =>
    have hvalues : List.Forall₂ (Value.Alike .onLines m.scopes.next) values values :=
      List.forall₂_same.2 fun v hmem => (hv v hmem).alike
    have hnew := Eval.newFrame_alike (k := .onLines) ⟨rfl, ho⟩ (.ofLists names hvalues) m m
      ih.alike (Nat.le_refl _)
    have hclosed : Machine.Closed { m with
        scopes := m.scopes.push ⟨Bindings.ofLists names values, some outer⟩ } :=
      Eval.after_closed hnew
    refine ⟨hclosed.scopes, ?_⟩
    show m.scopes.next < (m.scopes.push _).next
    rw [Scopes.next_push]
    exact Nat.lt_succ_self _
  | left _ f hf ih => exact ⟨ih.scopes, hf⟩
  | given _ native ih => exact ih.given native
  | outside _ made readings output ih => exact ⟨ih.scopes, ih.current⟩

/-- **Runs are local,** if host functions get at frames only through their
arguments and the global names.  On every machine that code comes to run on, an
expression or a statement is local to what can be reached from the current frame,
and a call to what can be reached from the values handed to it.  So two functions
share nothing but the frames that both can reach: if a call of the first leaves
these as they were, a call of the second does the same after it as it does with
the frames from before it. -/
theorem runs_are_local {host : Host} (hh : host.Confined) {m : Machine}
    (hm : m.Reachable host) (bound : Nat) :
    (∀ code : Code, code.Fits m → (code.run host bound).Local m (code.roots m)) ∧
      ∀ c vs d ws, (Code.call c vs).Fits m → (Code.call d ws).Fits m →
        ((Code.call c vs).run host bound m).After fun m' =>
          (∀ f, m.scopes.Reaches ((Code.call c vs).roots m) f →
            m.scopes.Reaches ((Code.call d ws).roots m) f →
              m'.scopes.frames[f]? = m.scopes.frames[f]?) →
          ∀ bound', Outcome.SameUpTo (Signal.moved m.scopes.next m'.scopes.next)
            ((Code.call d ws).run host bound' { m' with scopes := m.scopes })
            ((Code.call d ws).run host bound' m') := by
  have hclosed := hm.closed hh
  refine ⟨fun code hfits => Code.run_local hh hclosed hfits bound, ?_⟩
  intro c vs d ws hc hd
  refine (Code.run_local hh hclosed hc bound).untouched.mono fun m' huntouched hshared bound' => ?_
  have hreached : ∀ f, m.scopes.Reaches ((Code.call d ws).roots m) f →
      m'.scopes.frames[f]? = m.scopes.frames[f]? := by
    intro f hf
    by_cases hboth : m.scopes.Reaches ((Code.call c vs).roots m) f
    · exact hshared f hboth hf
    · exact huntouched f (hclosed.scopes.lt_of_reaches hd.lt_of_roots hf) hboth
  have hlocal : ((Code.call d ws).run host bound').Local { m' with scopes := m.scopes }
      ((Code.call d ws).roots m) :=
    Code.call_local (m := { m' with scopes := m.scopes }) hh hclosed.scopes hd bound'
  exact hlocal.blind m' ⟨hreached, rfl, rfl, rfl, rfl⟩

/-- A function that puts up the flag of its frame. -/
def flagSetter (frame : FrameId) : Closure :=
  ⟨frame, some "set", [], [.expr (.assign ⟨.identifier, "flag", 1⟩ (.literal (.bool true)))], frame⟩

/-- A function that gives the flag of its frame. -/
def flagReader (frame : FrameId) : Closure :=
  ⟨frame, some "get", [], [.give ⟨.keyword .returnWord, "return", 1⟩
    (some (.name ⟨.identifier, "flag", 1⟩))], frame⟩

/-- A machine with two frames that bind a flag each. -/
def twoFlags (host : Host) : Machine :=
  let first := Machine.start host .unlimited
  let flag : Frame := ⟨Bindings.ofLists ["flag"] [.bool false], some 0⟩
  { first with scopes := (first.scopes.push flag).push flag }

theorem twoFlags_reachable (host : Host) : (twoFlags host).Reachable host := by
  have hstart : (Machine.start host .unlimited).Reachable host := .start .unlimited
  have hvalues : ∀ n, ∀ v ∈ [Value.bool false], v.Closed n := by
    intro n v hv c hc
    rw [List.mem_singleton.1 hv] at hc
    cases hc
  have hfirst := hstart.entered 0 ["flag"] _ (Nat.succ_pos _) (hvalues _)
  have hsecond := hfirst.entered 0 ["flag"] _ (Nat.succ_pos _) (hvalues _)
  exact hsecond.left 0 (Nat.succ_pos _)

/-- From one of the frames only this one and the global names can be reached. -/
theorem twoFlags_reaches (host : Host) {roots : FrameId → Prop} {r f : FrameId}
    (hroots : ∀ f, roots f → f = r) (h : (twoFlags host).scopes.Reaches roots f) :
    f = r ∨ f = 0 := by
  have hframe : ∀ {f : FrameId} {frame : Frame}, (twoFlags host).scopes.frames[f]? = some frame →
      (∀ outer, frame.enclosing = some outer → outer = 0) ∧
        frame.bindings.All fun v => ∀ c, v ≠ .function c := by
    intro f frame hf
    have hflag : (Bindings.ofLists ["flag"] [.bool false]).All fun v => ∀ c, v ≠ .function c :=
      Bindings.all_ofLists _ (by simp)
    rcases Array.mem_push.1 (Array.mem_of_getElem? hf) with hmem | rfl
    · rcases Array.mem_push.1 hmem with hmem | rfl
      · obtain ⟨i, hi⟩ := Array.getElem?_of_mem hmem
        obtain ⟨-, hnone, hplain⟩ := Machine.start_frame hi
        rw [hnone]
        exact ⟨nofun, hplain⟩
      · exact ⟨fun _ ho => (Option.some.inj ho).symm, hflag⟩
    · exact ⟨fun _ ho => (Option.some.inj ho).symm, hflag⟩
  induction h with
  | root h => exact .inl (hroots _ h)
  | enclosing _ hf ho _ => exact .inr ((hframe hf).1 _ ho)
  | function _ hf hc _ => exact absurd rfl ((hframe hf).2.get? hc _)

/-- One function puts up the flag in its frame, and the other one, in the other
frame, does not see it.  Functions of the host may call back and look at global
names. -/
theorem runs_are_local_two_flags :
    let tools := Host.toolbox fun _ => 0
    let host := { tools with functions := tools.functions.push (.global "flag") }
    let m := twoFlags host
    ∃ m' : Machine, (Code.call (flagSetter 1) []).run host 4 m = .done (.give .nil) m' ∧
      m'.scopes.get? 1 "flag" = some (.bool true) ∧
      ∀ bound', Outcome.SameUpTo (Signal.moved m.scopes.next m'.scopes.next)
        ((Code.call (flagReader 2) []).run host bound' { m' with scopes := m.scopes })
        ((Code.call (flagReader 2) []).run host bound' m') := by
  intro tools host m
  have hrun : (Code.call (flagSetter 1) []).run host 4 m = .done (.give .nil) { m with
      scopes := (m.scopes.push ⟨[], some 1⟩).define 1 "flag" (.bool true) } := by
    have howner : (m.scopes.push ⟨Bindings.ofLists [] [], some 1⟩).owner? m.scopes.next "flag" =
        some 1 := by decide +kernel
    unfold Code.run Eval.enter
    simp only [flagSetter, Eval.sequence, Eval.execute, Eval.evaluate, Eval.assign, Scopes.assign,
      bind, Eval.bind, pure, Eval.pure, Eval.newFrame, Eval.inFrame, Value.ofLiteral, howner]
    rfl
  have hflag : ((m.scopes.push ⟨[], some 1⟩).define 1 "flag" (.bool true)).get? 1 "flag" =
      some (.bool true) := by
    have howner : ((m.scopes.push ⟨[], some 1⟩).define 1 "flag" (.bool true)).owner? 1 "flag" =
        some 1 := by decide +kernel
    unfold Scopes.get?
    rw [howner]
    rfl
  have hparametric : host.Parametric := by
    apply Host.parametric_of_functions
    intro fn hfn
    rcases Array.mem_push.1 hfn with hfn | rfl
    · exact Host.toolbox_functions_parametric _ fn hfn
    · exact HostFunction.global_parametric _
  have hfits : ∀ c : Closure, c.frame < 3 → (Code.call c []).Fits m := by
    intro c hc v hv d hd
    rw [List.mem_singleton.1 hv] at hd
    cases hd
    exact hc
  have hroots : ∀ {c : Closure} {f}, (Code.call c []).roots m f → f = c.frame := by
    rintro c f ⟨v, hv, hf⟩
    rw [List.mem_singleton.1 hv] at hf
    exact (Option.some.inj hf).symm
  have hlocal := (runs_are_local (fun k _ => hparametric k) (twoFlags_reachable host) 4).2
    (flagSetter 1) [] (flagReader 2) [] (hfits _ (by decide)) (hfits _ (by decide))
  rw [hrun] at hlocal
  refine ⟨_, hrun, hflag, hlocal fun f hone htwo => ?_⟩
  -- Both can reach the global names and nothing else.
  have hglobal : f = 0 := by
    rcases twoFlags_reaches host (fun _ hf => hroots hf) hone with hf | hf
    · rcases twoFlags_reaches host (fun _ hf => hroots hf) htwo with hf' | hf'
      · exact absurd (hf.symm.trans hf') (by decide)
      · exact hf'
    · exact hf
  rw [hglobal]
  rfl

end Lox
