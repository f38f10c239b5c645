/-
  Lox.Scope
  ────────────────────────────────
  **FRAMES AND THE NAMES THEY BIND.**

  A frame binds names to values and may have an enclosing frame.  Frames are
  shared: several frames may have the same enclosing one, and a function keeps
  the frame it was made in.  They live in one growing array, a frame is known by
  its place there, and its enclosing frame was always there before it.  A name
  is looked up in a frame first and then in the frames that enclose it.
-/
import Lox.Value

namespace Lox

/-! ## §1. Bindings. -/

/-- Names and their values. -/
abbrev Bindings := List (String × Value)

/-- Bind a name, in place of what it was bound to before. -/
def Bindings.bind (name : String) (value : Value) : Bindings → Bindings
  | [] => [(name, value)]
  | (other, old) :: rest =>
    if other = name then (name, value) :: rest else (other, old) :: Bindings.bind name value rest

/-- The value that a name is bound to. -/
def Bindings.get? (name : String) : Bindings → Option Value
  | [] => none
  | (other, value) :: rest => if other = name then some value else Bindings.get? name rest

/-- A name has the value it was last bound to. -/
theorem Bindings.get?_bind_self (name : String) (value : Value) (b : Bindings) :
    Bindings.get? name (Bindings.bind name value b) = some value := by
  induction b with
  | nil => simp [Bindings.bind, Bindings.get?]
  | cons p rest ih =>
    rw [Bindings.bind]
    split
    · simp [Bindings.get?]
    · next h => simp [Bindings.get?, h, ih]

/-- Binding a name leaves the other names alone. -/
theorem Bindings.get?_bind_of_ne {name other : String} (h : other ≠ name) (value : Value)
    (b : Bindings) :
    Bindings.get? other (Bindings.bind name value b) = Bindings.get? other b := by
  induction b with
  | nil => simp [Bindings.bind, Bindings.get?, h.symm]
  | cons p rest ih =>
    rw [Bindings.bind]
    split
    · next eq => simp [Bindings.get?, eq, h.symm]
    · simp [Bindings.get?, ih]

/-- Bind names to values pairwise, as far as both go. -/
def Bindings.ofLists (names : List String) (values : List Value) : Bindings :=
  (names.zip values).foldl (fun b p => Bindings.bind p.1 p.2 b) []

/-! ## §2. Frames. -/

/-- A frame: its bindings, and the frame that encloses it. -/
structure Frame where
  bindings : Bindings
  enclosing : Option FrameId

/-- Whether a frame binds a name itself. -/
def Frame.binds (f : Frame) (name : String) : Bool := (Bindings.get? name f.bindings).isSome

/-- Every frame there is. -/
structure Scopes where
  frames : Array Frame

namespace Scopes

/-- No frames. -/
def empty : Scopes := ⟨#[]⟩

/-- Add a frame with some bindings. -/
def push (s : Scopes) (frame : Frame) : Scopes := ⟨s.frames.push frame⟩

/-- Where the next frame will be. -/
def next (s : Scopes) : FrameId := s.frames.size

/-- The nearest frame that binds a name, beginning at a frame. An enclosing
frame is older, so only older frames are looked at and the search ends. -/
def owner? (s : Scopes) (f : FrameId) (name : String) : Option FrameId :=
  match s.frames[f]? with
  | none => none
  | some frame =>
    if frame.binds name then some f
    else match frame.enclosing with
      | none => none
      -- The test always holds; it makes the recursion visibly end.
      | some outer => if outer < f then s.owner? outer name else none
termination_by f

/-- Bind a name in a frame itself. -/
def define (s : Scopes) (f : FrameId) (name : String) (value : Value) : Scopes :=
  ⟨s.frames.modify f fun frame => { frame with bindings := frame.bindings.bind name value }⟩

/-- The value of a name seen from a frame. -/
def get? (s : Scopes) (f : FrameId) (name : String) : Option Value := do
  let frame ← s.frames[← s.owner? f name]?
  Bindings.get? name frame.bindings

/-- Give a name another value in the nearest frame that binds it, and say
whether there is one. -/
def assign (s : Scopes) (f : FrameId) (name : String) (value : Value) : Bool × Scopes :=
  match s.owner? f name with
  | some owner => (true, s.define owner name value)
  | none => (false, s)

end Scopes

end Lox
