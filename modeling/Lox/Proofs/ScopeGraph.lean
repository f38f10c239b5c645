/-
  Lox.Proofs.ScopeGraph
  ────────────────────────────────
  **EVERY CHAIN OF FRAMES ENDS AT THE GLOBAL NAMES.**

  Frames and functions refer to each other in circles: a function is bound in
  the frame that it closes over, one with a name even in a frame of its own.  The
  links from a frame to the one that encloses it are in no circle.  What encloses
  a frame was there before the frame (`Scopes.Closed`), so

    • following the links from any frame comes to the frame of the global names,
      past frames that are all different (`Scopes.Closed.chain`);
    • a search that follows them, and still holds every frame it has passed,
      comes to an end and never asks for a frame it holds
      (`Scopes.Closed.search`).

  Machines stay closed because links are made only with a new frame and never
  changed (`Machine.SameLinks`).
-/
import Lox.Proofs.CurrentFrame

namespace Lox

/-! ## §1. Chains and searches. -/

namespace Scopes

/-- The frames from a frame outwards: the frame, the one that encloses it, and so
on to the frame of the global names, which nothing encloses. -/
inductive Chain (s : Scopes) : FrameId → List FrameId → Prop where
  | globals {frame : Frame} (h : s.frames[0]? = some frame) (ho : frame.enclosing = none) :
      Chain s 0 [0]
  | inner {f outer : FrameId} {frame : Frame} {fs : List FrameId} (h : s.frames[f]? = some frame)
      (ho : frame.enclosing = some outer) (hs : Chain s outer fs) : Chain s f (f :: fs)

/-- **The search for the frame that binds a name,** from a frame outwards.  It
holds on to the frames it has passed, `held`, and may not take hold of a frame
twice.  It goes wherever the links lead. -/
inductive Search (s : Scopes) (name : String) : List FrameId → FrameId → Option FrameId → Prop where
  | found {held : List FrameId} {f : FrameId} {frame : Frame} (h : s.frames[f]? = some frame)
      (hfree : f ∉ held) (hb : frame.binds name = true) : Search s name held f (some f)
  | missing {held : List FrameId} {f : FrameId} {frame : Frame} (h : s.frames[f]? = some frame)
      (hfree : f ∉ held) (hb : frame.binds name = false) (ho : frame.enclosing = none) :
      Search s name held f none
  | outwards {held : List FrameId} {f outer : FrameId} {frame : Frame} {owner : Option FrameId}
      (h : s.frames[f]? = some frame) (hfree : f ∉ held) (hb : frame.binds name = false)
      (ho : frame.enclosing = some outer) (hs : Search s name (f :: held) outer owner) :
      Search s name held f owner

variable {s : Scopes} {f : FrameId}

/-- A chain goes to older frames only. -/
theorem Chain.le (hs : s.Closed) {fs : List FrameId} (h : s.Chain f fs) : ∀ g ∈ fs, g ≤ f := by
  induction h with
  | globals =>
    intro g hg
    exact Nat.le_of_eq (List.mem_singleton.1 hg)
  | @inner f outer frame fs hf ho _ ih =>
    have holder := hs.older hf outer ho
    intro g hg
    rcases List.mem_cons.1 hg with rfl | hg
    · exact Nat.le_refl _
    · exact Nat.le_of_lt (Nat.lt_of_le_of_lt (ih g hg) holder)

theorem Chain.nodup (hs : s.Closed) {fs : List FrameId} (h : s.Chain f fs) : fs.Nodup := by
  induction h with
  | globals => exact List.nodup_cons.2 ⟨nofun, List.nodup_nil⟩
  | @inner f outer frame fs hf ho hchain ih =>
    have holder := hs.older hf outer ho
    refine List.nodup_cons.2 ⟨fun hmem => ?_, ih⟩
    exact Nat.not_lt_of_le (hchain.le hs f hmem) holder

theorem Chain.getLast? {fs : List FrameId} (h : s.Chain f fs) : fs.getLast? = some 0 := by
  induction h with
  | globals => rfl
  | inner _ _ _ ih => rw [List.getLast?_cons, ih]; rfl

/-- **Every frame has a chain.** -/
theorem Closed.chain (hs : s.Closed) (hf : f < s.next) : ∃ fs, s.Chain f fs := by
  induction f using Nat.strongRecOn with
  | ind f ih =>
    have hframe := Array.getElem?_eq_getElem hf
    cases ho : (s.frames[f]).enclosing with
    | none =>
      have hzero := hs.outermost hframe ho
      subst hzero
      exact ⟨[0], .globals hframe ho⟩
    | some outer =>
      have holder := hs.older hframe outer ho
      obtain ⟨fs, hchain⟩ := ih outer holder (Nat.lt_trans holder hf)
      exact ⟨f :: fs, .inner hframe ho hchain⟩

/-- **Every search comes to an end,** at the owner of the name. -/
theorem Closed.search (hs : s.Closed) (name : String) (hf : f < s.next) {held : List FrameId}
    (hheld : ∀ g ∈ held, f < g) : s.Search name held f (s.owner? f name) := by
  induction f using Nat.strongRecOn generalizing held with
  | ind f ih =>
    have hframe := Array.getElem?_eq_getElem hf
    -- The frames that are held are younger.
    have hfree : f ∉ held := fun hmem => Nat.lt_irrefl f (hheld f hmem)
    unfold Scopes.owner?
    rw [hframe]
    dsimp only
    by_cases hb : (s.frames[f]).binds name = true
    · rw [if_pos hb]
      exact .found hframe hfree hb
    · rw [if_neg hb]
      have hb' : (s.frames[f]).binds name = false := by simpa using hb
      cases ho : (s.frames[f]).enclosing with
      | none => exact .missing hframe hfree hb' ho
      | some outer =>
        have holder := hs.older hframe outer ho
        dsimp only
        rw [if_pos holder]
        refine .outwards hframe hfree hb' ho (ih outer holder (Nat.lt_trans holder hf) ?_)
        intro g hg
        rcases List.mem_cons.1 hg with rfl | hg
        · exact holder
        · exact Nat.lt_trans holder (hheld g hg)

end Scopes

/-! ## §2. Links that stay. -/

/-- Every frame of a machine has the same enclosing frame in another one. -/
def Machine.SameLinks (m m' : Machine) : Prop :=
  ∀ (f : FrameId) (before : Frame), m.scopes.frames[f]? = some before →
    ∃ after : Frame, m'.scopes.frames[f]? = some after ∧ after.enclosing = before.enclosing

theorem Machine.Declares.sameLinks {new : List String} {m m' : Machine} (h : m.Declares new m') :
    m.SameLinks m' := by
  intro f before hf
  obtain ⟨after, hafter, hgains⟩ := h.frame f before hf
  exact ⟨after, hafter, hgains.enclosing⟩

namespace Eval

variable {α : Type} {host : Host}

theorem Declares.sameLinks {p : Eval α} {new : List String} (h : p.Declares new) (m : Machine) :
    (p m).After m.SameLinks := (h m).mono fun _ hend => hend.sameLinks

end Eval

/-! ## §3. Machines. -/

/-- Between runs of any programs, machines are closed. -/
theorem Machine.Idle.closed {host : Host} (hh : host.Confined) {runs : List Stmt → Prop}
    {m : Machine} (h : m.Idle host runs) : m.Closed := by
  induction h with
  | start output => exact Machine.start_closed host output
  | given _ native ih => exact ih.given native
  | ran _ bound _ hm' ih =>
    have hself := hh (.inPlace (· = id) rfl) fun _ hg => hg
    exact (Eval.runProgram_closed hself ih bound _).machine? hm'

/-- **All frames are grounded:** from every frame, that of every stored function
included, a chain of different frames leads to the frame of the global names, and
the search for a name ends there at the latest without holding a frame twice. -/
structure Scopes.Grounded (s : Scopes) : Prop where
  frames : ∀ f < s.next, ∃ fs, s.Chain f fs ∧ fs.Nodup ∧ fs.getLast? = some 0
  functions : ∀ frame ∈ s.frames, ∀ name c,
    Bindings.get? name frame.bindings = some (.function c) →
    ∃ fs, s.Chain c.frame fs ∧ fs.Nodup ∧ fs.getLast? = some 0
  searches : ∀ f < s.next, ∀ name, s.Search name [] f (s.owner? f name)

theorem Scopes.Closed.grounded {s : Scopes} (hs : s.Closed) : s.Grounded := by
  have hchain : ∀ f < s.next, ∃ fs, s.Chain f fs ∧ fs.Nodup ∧ fs.getLast? = some 0 := by
    intro f hf
    obtain ⟨fs, hfs⟩ := hs.chain hf
    exact ⟨fs, hfs, hfs.nodup hs, hfs.getLast?⟩
  refine ⟨hchain, ?_, fun f hf name => hs.search name hf nofun⟩
  intro frame hframe name c hc
  obtain ⟨f, hf⟩ := Array.mem_iff_getElem?.1 hframe
  exact hchain c.frame (hs.stored hf name _ hc c rfl)

/-- **The graph of scopes is well founded.** Let host functions get at frames only
through their arguments and the global names.  Then on every machine between runs
of any programs, failed or not, with any functions given by the host, and also on
every machine in the midst of a run, all frames are grounded, as is the current
one.  And nothing that can be done changes what encloses a frame: no expression,
no statement, no call, no program and no function that the host gives. -/
theorem scope_graph_is_well_founded {host : Host} (hh : host.Confined) :
    (∀ m : Machine, m.Idle host (fun _ => True) → m.scopes.Grounded ∧ m.current < m.scopes.next) ∧
    (∀ m : Machine, m.Reachable host → m.scopes.Grounded ∧ m.current < m.scopes.next) ∧
    ∀ (m : Machine) (bound : Nat),
      (∀ e, (Eval.evaluate host bound e m).After m.SameLinks) ∧
      (∀ s, (Eval.execute host bound s m).After m.SameLinks) ∧
      (∀ callee paren arguments,
        (Eval.call host (Eval.execute host bound) callee paren arguments m).After m.SameLinks) ∧
      (∀ callee arguments p,
        Eval.invoke host (Eval.execute host bound) callee arguments = some p →
        (p m).After m.SameLinks) ∧
      (∀ program, (Eval.runProgram host bound program m).After m.SameLinks) ∧
      ∀ native : Native,
        m.SameLinks { m with scopes := m.scopes.define 0 native.name (.native native) } := by
  refine ⟨?_, ?_, fun m bound => ?_⟩
  · intro m hm
    have hclosed := hm.closed hh
    exact ⟨hclosed.scopes.grounded, hclosed.current⟩
  · intro m hm
    have hclosed := hm.closed hh
    exact ⟨hclosed.scopes.grounded, hclosed.current⟩
  · have hat := Eval.declaresAt host bound
    refine ⟨fun e => (hat.evaluate e).sameLinks m, fun s => (hat.execute s).sameLinks m, ?_, ?_, ?_,
      ?_⟩
    · intro callee paren arguments
      exact (Eval.call_declares hat.execute callee paren arguments).sameLinks m
    · intro callee arguments p hp
      exact (Eval.invoke_declares hat.execute hp).sameLinks m
    · intro program
      exact (Eval.runProgram_declares host bound program).sameLinks m
    · intro native f before hf
      obtain ⟨after, hafter, hgains⟩ := m.scopes.gains_define 0 native.name (.native native) hf
      exact ⟨after, hafter, hgains.enclosing⟩

/-- `var f = fun g() { return g; };`: the frame that binds `g` is the one that its
function closes over. -/
def selfReference : List Stmt :=
  let g : Token := ⟨.identifier, "g", 1⟩
  [.var ⟨.identifier, "f", 1⟩ (some (.function (some g) []
    [.give ⟨.keyword .returnWord, "return", 1⟩ (some (.name g))]))]

theorem scope_graph_is_well_founded_self_reference :
    let host := Host.standard fun _ => 0
    ∃ m : Machine, (Eval.runProgram host 8 selfReference (.start host .unlimited)).machine? =
        some m ∧
      (m.scopes.get? 1 "g").bind Value.frame? = some 1 ∧ m.scopes.Grounded := by
  intro host
  have hends : ((Eval.runProgram host 8 selfReference (.start host .unlimited)).machine?.map
      fun m => (m.scopes.get? 1 "g").bind Value.frame?) = some (some 1) := by decide +kernel
  obtain ⟨m, hm, hcircle⟩ := Option.map_eq_some_iff.1 hends
  have hidle : m.Idle host fun _ => True := .ran (.start .unlimited) 8 trivial hm
  have hconfined : host.Confined := fun k _ => Host.standard_parametric _ k
  exact ⟨m, hm, hcircle, ((scope_graph_is_well_founded hconfined).1 m hidle).1⟩

end Lox
