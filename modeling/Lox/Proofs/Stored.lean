/-
  Lox.Proofs.Stored
  ────────────────────────────────
  **WHAT THE FRAMES HOLD.**

  `s.All P` says that every value that a frame binds has the property `P`.  A
  property that holds of every value put into the frames holds of every value
  that comes out of them, so it is enough to look at the operations that put
  values in.
-/
import Lox.Scope

namespace Lox

variable {P : Value → Prop}

/-! ## §1. Bindings. -/

/-- Every bound value has a property. -/
def Bindings.All (P : Value → Prop) (b : Bindings) : Prop := ∀ p ∈ b, P p.2

namespace Bindings

theorem all_nil : All P [] := fun _ h => nomatch h

theorem All.bind {b : Bindings} (hb : b.All P) {name : String} {v : Value} (hv : P v) :
    (Bindings.bind name v b).All P := by
  induction b with
  | nil =>
    intro p hp
    rw [List.mem_singleton.1 hp]
    exact hv
  | cons q rest ih =>
    have hrest : Bindings.All P rest := fun p hp => hb p (.tail _ hp)
    unfold Bindings.bind
    split
    · intro p hp
      cases hp with
      | head => exact hv
      | tail _ hp => exact hrest p hp
    · intro p hp
      cases hp with
      | head => exact hb q (.head _)
      | tail _ hp => exact ih hrest p hp

theorem all_ofLists (names : List String) {vs : List Value} (hvs : ∀ v ∈ vs, P v) :
    (ofLists names vs).All P := by
  have fold : ∀ (ps : List (String × Value)) (b : Bindings), (∀ p ∈ ps, P p.2) → b.All P →
      (ps.foldl (fun b p => Bindings.bind p.1 p.2 b) b).All P := by
    intro ps
    induction ps with
    | nil =>
      intro b _ hb
      exact hb
    | cons p ps ih =>
      intro b hps hb
      exact ih _ (fun q hq => hps q (.tail _ hq)) (hb.bind (hps p (.head _)))
  apply fold
  · intro p hp
    exact hvs p.2 (List.of_mem_zip hp).2
  · exact all_nil

theorem All.get? {b : Bindings} (hb : b.All P) {name : String} {v : Value}
    (h : Bindings.get? name b = some v) : P v := by
  induction b with
  | nil => cases h
  | cons q rest ih =>
    unfold Bindings.get? at h
    split at h
    · cases h
      exact hb q (.head _)
    · exact ih (fun p hp => hb p (.tail _ hp)) h

end Bindings

/-! ## §2. Frames. -/

/-- Every value in a frame has a property. -/
def Scopes.All (P : Value → Prop) (s : Scopes) : Prop :=
  ∀ frame ∈ s.frames, Bindings.All P frame.bindings

namespace Scopes

/-- A frame that is there stays where it is when another one is added. -/
theorem getElem?_push_of_lt (s : Scopes) (frame : Frame) {f : FrameId} (h : f < s.next) :
    (s.push frame).frames[f]? = s.frames[f]? := by
  unfold push
  rw [Array.getElem?_push]
  exact if_neg (Nat.ne_of_lt h)

/-- The added frame is the last one. -/
theorem getElem?_push_next (s : Scopes) (frame : Frame) :
    (s.push frame).frames[s.next]? = some frame := by
  unfold push
  rw [Array.getElem?_push]
  exact if_pos rfl

theorem next_push (s : Scopes) (frame : Frame) : (s.push frame).next = s.next + 1 :=
  Array.size_push ..

theorem all_empty : empty.All P := by
  intro frame hframe
  simp [empty] at hframe

theorem All.push {s : Scopes} (hs : s.All P) {frame : Frame} (hf : frame.bindings.All P) :
    (s.push frame).All P := by
  intro other hother
  rcases Array.mem_push.1 hother with hother | hother
  · exact hs other hother
  · rw [hother]
    exact hf

theorem All.define {s : Scopes} (hs : s.All P) (f : FrameId) (name : String) {v : Value}
    (hv : P v) : (s.define f name v).All P := by
  intro frame hframe
  obtain ⟨i, hi⟩ := Array.mem_iff_getElem?.1 hframe
  unfold Scopes.define at hi
  rw [Array.getElem?_modify] at hi
  by_cases h : f = i
  · rw [if_pos h] at hi
    obtain ⟨old, hold, hnew⟩ := Option.map_eq_some_iff.1 hi
    rw [← hnew]
    exact (hs old (Array.mem_of_getElem? hold)).bind hv
  · rw [if_neg h] at hi
    exact hs frame (Array.mem_of_getElem? hi)

theorem All.assign {s : Scopes} (hs : s.All P) (f : FrameId) (name : String) {v : Value}
    (hv : P v) : (s.assign f name v).2.All P := by
  unfold Scopes.assign
  cases s.owner? f name with
  | none => exact hs
  | some owner => exact hs.define owner name hv

/-- What is looked up was put in. -/
theorem All.get? {s : Scopes} (hs : s.All P) {f : FrameId} {name : String} {v : Value}
    (h : s.get? f name = some v) : P v := by
  obtain ⟨owner, -, h⟩ := Option.bind_eq_some_iff.1 h
  obtain ⟨frame, hframe, h⟩ := Option.bind_eq_some_iff.1 h
  exact (hs frame (Array.mem_of_getElem? hframe)).get? h

end Scopes

end Lox
