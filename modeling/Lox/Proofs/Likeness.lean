/-
  Lox.Proofs.Likeness
  ────────────────────────────────
  **MACHINES THAT CORRESPOND.**

  Two machines may do the same without being the same: what a frame is numbered
  and on which line a statement stands is nothing that a program can see.  A
  `Likeness` says which frames of two machines correspond, in the same order,
  and how the lines of function bodies may differ.  Values are alike if they are
  equal but for that, frames if they bind like values and corresponding frames
  enclose them, machines if corresponding frames are alike and the frames still
  to be made will correspond.

  Two things are said along the way.  A frame that corresponds to none stays as
  it was at the beginning.  And what is stored refers to frames that are there:
  a machine is closed if it is alike to itself (§6).
-/
import Mathlib.Data.List.Forall2
import Lox.Eval
import Lox.Proofs.Renumber
import Lox.Proofs.Stored

namespace Lox

/-! ## §1. Likenesses. -/

/-- What two machines have to do with each other. -/
structure Likeness where
  /-- How lines may be renumbered. -/
  moves : (Nat → Nat) → Prop
  /-- Which frame of the first machine is which frame of the second. -/
  frames : FrameId → FrameId → Prop
  /-- Lines may stay as they are. -/
  unmoved : moves id
  /-- Corresponding frames are in the same order. -/
  order : ∀ {f g f' g' : Nat}, frames f g → frames f' g' → (f < f' ↔ g < g')
  /-- The frames of the global names correspond. -/
  global : frames 0 0
  /-- The frames of the first machine at the beginning. -/
  before : Scopes

namespace Likeness

/-- A frame corresponds to at most one frame, on both sides. -/
theorem eq_iff (k : Likeness) {f g f' g' : Nat} (h : k.frames f g) (h' : k.frames f' g') :
    f = f' ↔ g = g' := by
  have hlt := k.order h h'
  have hgt := k.order h' h
  omega

end Likeness

variable {k : Likeness} {size larger : Nat} {g : Nat → Nat}

/-! ## §2. Values and failures. -/

/-- Functions that differ in their frame and in the lines of their bodies only.
The frame is one of the first `size` of the first machine. -/
structure Closure.Alike (k : Likeness) (size : Nat) (c d : Closure) : Prop where
  identity : d.identity = c.identity
  name : d.name = c.name
  parameters : d.parameters = c.parameters
  body : ∃ g, k.moves g ∧ d.body = Stmt.renumberAll g c.body
  frame : k.frames c.frame d.frame
  exists_frame : c.frame < size

/-- A function in the frame of the global names is alike to itself. -/
theorem Closure.alike_of_global (hs : 0 < size) {c : Closure} (hc : c.frame = 0) :
    c.Alike k size c where
  identity := rfl
  name := rfl
  parameters := rfl
  body := ⟨id, k.unmoved, (Stmt.renumberAll_id c.body).symm⟩
  frame := by
    rw [hc]
    exact k.global
  exists_frame := hc ▸ hs

/-- Equal values, or functions that are alike. -/
inductive Value.Alike (k : Likeness) (size : Nat) : Value → Value → Prop where
  | same {v : Value} (h : ∀ c, v ≠ .function c) : Alike k size v v
  | function {c d : Closure} (h : c.Alike k size d) : Alike k size (.function c) (.function d)

/-- A failure without what may depend on a line. -/
def Failure.unlocated : Failure → Failure
  | .runtime fault => .runtime { fault with line := 0 }
  | .host _ => .host ""

/-- Failures that differ in their lines only, and not at all if lines are not
renumbered. -/
structure Failure.Alike (k : Likeness) (failure other : Failure) : Prop where
  unlocated : other.unlocated = failure.unlocated
  exact_of : (∀ g, k.moves g → g = id) → other = failure

/-- Results that are alike, or failures that are. -/
inductive Except.Alike {α β : Type} (k : Likeness) (Q : α → β → Prop) :
    Except Failure α → Except Failure β → Prop where
  | ok {a : α} {b : β} (h : Q a b) : Except.Alike k Q (.ok a) (.ok b)
  | error {failure other : Failure} (h : failure.Alike k other) :
      Except.Alike k Q (.error failure) (.error other)

namespace Failure.Alike

theorem refl (failure : Failure) : failure.Alike k failure := ⟨rfl, fun _ => rfl⟩

/-- A failure at a token, on another line. -/
theorem at_token (hg : k.moves g) (make : Token → Failure) (t : Token)
    (h : (make (t.renumber g)).unlocated = (make t).unlocated) :
    (make t).Alike k (make (t.renumber g)) where
  unlocated := h
  exact_of := by
    intro hid
    rw [hid g hg, Token.renumber_id]

/-- Failures that are moved to another line. -/
theorem relocate {failure other : Failure} (h : failure.Alike k other) (hg : k.moves g)
    (line : Nat) : (failure.relocate line).Alike k (other.relocate (g line)) where
  unlocated := by
    have hsame := h.unlocated
    cases failure <;> cases other <;> simp_all [Failure.relocate, Failure.unlocated]
  exact_of := by
    intro hid
    rw [h.exact_of hid, hid g hg]
    rfl

end Failure.Alike

namespace Value.Alike

variable {v w v' w' : Value}

theorem mono (h : v.Alike k size w) (hs : size ≤ larger) : v.Alike k larger w := by
  cases h with
  | same h => exact .same h
  | function h =>
    exact .function ⟨h.identity, h.name, h.parameters, h.body, h.frame,
      Nat.lt_of_lt_of_le h.exists_frame hs⟩

theorem ofLiteral (l : Literal) : (Value.ofLiteral l).Alike k size (Value.ofLiteral l) := by
  apply same
  intro c h
  cases l <;> cases h

theorem isTruthy (h : v.Alike k size w) : w.isTruthy = v.isTruthy := by
  cases h <;> rfl

theorem chunks (h : v.Alike k size w) : w.chunks = v.chunks := by
  cases h with
  | same => rfl
  | @function c d h =>
    obtain ⟨identity, name, parameters, body, frame⟩ := c
    obtain ⟨identity', name', parameters', body', frame'⟩ := d
    have hname : name' = name := h.name
    subst hname
    cases name' <;> rfl

theorem text (h : v.Alike k size w) : w.text = v.text := congrArg String.join h.chunks

theorem inspect (h : v.Alike k size w) : w.inspect = v.inspect := by
  cases h with
  | same => rfl
  | @function c d h =>
    obtain ⟨identity, name, parameters, body, frame⟩ := c
    obtain ⟨identity', name', parameters', body', frame'⟩ := d
    cases h.name
    cases h.parameters
    rfl

theorem arity? (h : v.Alike k size w) : w.arity? = v.arity? := by
  cases h with
  | same => rfl
  | function h => simp only [Value.arity?, h.parameters]

theorem name? (h : v.Alike k size w) : w.name? = v.name? := by
  cases h with
  | same => rfl
  | function h => exact h.name

theorem equals (hv : v.Alike k size v') (hw : w.Alike k size w') :
    v'.equals w' = v.equals w := by
  cases hv with
  | same hv =>
    cases hw with
    | same hw => rfl
    | function hw => cases v <;> first | rfl | exact absurd rfl (hv _)
  | function hv =>
    cases hw with
    | same hw => cases w <;> first | rfl | exact absurd rfl (hw _)
    | function hw =>
      show decide (_ = _) = decide (_ = _)
      rw [hv.identity, hw.identity]

/-- Numbers are equal if they are alike. -/
theorem onNumbers (hg : k.moves g) (operator : Token) (hv : v.Alike k size v')
    (hw : w.Alike k size w') {result : Float → Float → Value}
    (hr : ∀ x y c, result x y ≠ .function c) :
    Except.Alike k (Value.Alike k size) (Value.onNumbers operator v w result)
      (Value.onNumbers (operator.renumber g) v' w' result) := by
  have herror := Failure.Alike.at_token hg (Failure.at · .operandsMustBeNumbers) operator rfl
  cases hv with
  | function hv => exact .error herror
  | same hv =>
    cases hw with
    | function hw =>
      cases v with
      | _ => exact .error herror
    | same hw =>
      cases v with
      | number x =>
        cases w with
        | number y => exact .ok (.same (hr x y))
        | _ => exact .error herror
      | _ => exact .error herror

theorem plus (hg : k.moves g) (operator : Token) (hk : operator.kind = .symbol .plus)
    (hv : v.Alike k size v') (hw : w.Alike k size w') :
    Except.Alike k (Value.Alike k size) (v.binary operator w)
      (v'.binary (operator.renumber g) w') := by
  have herror := Failure.Alike.at_token hg (Failure.at · .invalidAddition) operator rfl
  have hk' : (operator.renumber g).kind = .symbol .plus := hk
  unfold binary
  rw [hk, hk']
  cases hv with
  | function hv => exact .error herror
  | same hv =>
    cases hw with
    | function hw => cases v <;> exact .error herror
    | same hw =>
      cases v <;> cases w <;> first | exact .error herror | exact .ok (.same nofun)

/-- **Operators take like values to like values.** -/
theorem binary (hg : k.moves g) (operator : Token) (hv : v.Alike k size v')
    (hw : w.Alike k size w') :
    Except.Alike k (Value.Alike k size) (v.binary operator w)
      (v'.binary (operator.renumber g) w') := by
  by_cases hplus : operator.kind = .symbol .plus
  · exact plus hg operator hplus hv hw
  have hkind : (operator.renumber g).kind = operator.kind := rfl
  unfold Value.binary
  rw [hkind]
  split
  case h_1 h => exact absurd h hplus
  case h_9 | h_10 =>
    rw [hv.equals hw]
    exact .ok (.same nofun)
  case h_11 => exact .error (.at_token hg (fun t => .host ("line " ++ toString t.line ++ ": '" ++
      t.lexeme ++ "' is not a binary operator")) operator rfl)
  all_goals exact onNumbers hg operator hv hw nofun

theorem unary (hg : k.moves g) (operator : Token) (hv : v.Alike k size v') :
    Except.Alike k (Value.Alike k size) (v.unary operator) (v'.unary (operator.renumber g)) := by
  have hkind : (operator.renumber g).kind = operator.kind := rfl
  unfold Value.unary
  rw [hkind]
  split
  case h_1 =>
    rw [hv.isTruthy]
    exact .ok (.same nofun)
  case h_2 =>
    have herror := Failure.Alike.at_token hg (Failure.at · .operandMustBeNumber) operator rfl
    cases hv with
    | function h => exact .error herror
    | same h => cases v <;> first | exact .ok (.same nofun) | exact .error herror
  case h_3 => exact .error (.at_token hg (fun t => .host ("line " ++ toString t.line ++ ": '" ++
      t.lexeme ++ "' is not a unary operator")) operator rfl)

end Value.Alike

/-! ## §3. Bindings. -/

namespace Bindings

/-- Bindings of the same names to related values. -/
def Rel (R : Value → Value → Prop) (b b' : Bindings) : Prop :=
  ∀ name, Option.Rel R (Bindings.get? name b) (Bindings.get? name b')

section Rel

variable {R S : Value → Value → Prop} {b b' : Bindings}

theorem rel_nil : Rel R [] [] := fun _ => .none

theorem Rel.mono (h : b.Rel R b') (hrs : ∀ v w, R v w → S v w) : b.Rel S b' := by
  intro name
  have hname := h name
  generalize Bindings.get? name b = o at hname ⊢
  generalize Bindings.get? name b' = o' at hname ⊢
  cases hname with
  | some hv => exact .some (hrs _ _ hv)
  | none => exact .none

theorem Rel.isSome (h : b.Rel R b') (name : String) :
    (Bindings.get? name b').isSome = (Bindings.get? name b).isSome := by
  have hname := h name
  generalize Bindings.get? name b = o at hname ⊢
  generalize Bindings.get? name b' = o' at hname ⊢
  cases hname <;> rfl

theorem Rel.bind (h : b.Rel R b') (name : String) {v w : Value} (hv : R v w) :
    (Bindings.bind name v b).Rel R (Bindings.bind name w b') := by
  intro other
  by_cases hother : other = name
  · subst hother
    rw [get?_bind_self, get?_bind_self]
    exact .some hv
  · rw [get?_bind_of_ne hother, get?_bind_of_ne hother]
    exact h other

theorem rel_ofLists (names : List String) {vs ws : List Value} (h : List.Forall₂ R vs ws) :
    (ofLists names vs).Rel R (ofLists names ws) := by
  have fold : ∀ {vs ws : List Value}, List.Forall₂ R vs ws →
      ∀ (names : List String) {b b' : Bindings}, b.Rel R b' →
        ((names.zip vs).foldl (fun b p => Bindings.bind p.1 p.2 b) b).Rel R
          ((names.zip ws).foldl (fun b p => Bindings.bind p.1 p.2 b) b') := by
    intro vs ws hvs
    induction hvs with
    | nil =>
      intro names b b' hb
      rw [List.zip_nil_right]
      exact hb
    | cons hv _ ih =>
      intro names b b' hb
      cases names with
      | nil => exact hb
      | cons name names => exact ih names (hb.bind name hv)
  exact fold h names rel_nil

end Rel

end Bindings

/-- Bindings of the same names to like values. -/
def Bindings.Alike (k : Likeness) (size : Nat) (b b' : Bindings) : Prop :=
  ∀ name, Option.Rel (Value.Alike k size) (Bindings.get? name b) (Bindings.get? name b')

namespace Bindings.Alike

variable {b b' : Bindings}

theorem nil : Bindings.Alike k size [] [] := rel_nil

theorem mono (h : b.Alike k size b') (hs : size ≤ larger) : b.Alike k larger b' :=
  Rel.mono h fun _ _ hv => hv.mono hs

theorem bind (h : b.Alike k size b') (name : String) {v w : Value} (hv : v.Alike k size w) :
    (Bindings.bind name v b).Alike k size (Bindings.bind name w b') := Rel.bind h name hv

theorem ofLists (names : List String) {vs ws : List Value}
    (h : List.Forall₂ (Value.Alike k size) vs ws) :
    (Bindings.ofLists names vs).Alike k size (Bindings.ofLists names ws) := rel_ofLists names h

end Bindings.Alike

/-! ## §4. Frames. -/

/-- Frames that bind like values and that corresponding frames enclose.  The
first is at the place `f`; what encloses it is older, and if nothing does it is
the frame of the global names. -/
structure Frame.Alike (k : Likeness) (size : Nat) (f : FrameId) (a b : Frame) : Prop where
  bindings : a.bindings.Alike k size b.bindings
  enclosing : Option.Rel k.frames a.enclosing b.enclosing
  older : ∀ outer, a.enclosing = some outer → outer < f
  outermost : a.enclosing = none → f = 0

namespace Frame.Alike

variable {f : FrameId} {a b : Frame}

theorem mono (h : a.Alike k size f b) (hs : size ≤ larger) : a.Alike k larger f b :=
  ⟨h.bindings.mono hs, h.enclosing, h.older, h.outermost⟩

theorem binds (h : a.Alike k size f b) (name : String) : b.binds name = a.binds name :=
  Bindings.Rel.isSome h.bindings name

end Frame.Alike

/-- Corresponding frames are alike, the frames to come will correspond, and a
frame that corresponds to none is as it was at the beginning. -/
structure Scopes.Alike (k : Likeness) (s s' : Scopes) : Prop where
  frame : ∀ {f g : Nat}, k.frames f g → f < s.next →
    ∃ a b, s.frames[f]? = some a ∧ s'.frames[g]? = some b ∧ a.Alike k s.next f b
  fresh : ∀ i, k.frames (s.next + i) (s'.next + i)
  others : ∀ f, f < k.before.next → (∀ g, ¬ k.frames f g) →
    s.frames[f]? = k.before.frames[f]?

namespace Scopes

theorem next_define (s : Scopes) (f : FrameId) (name : String) (v : Value) :
    (s.define f name v).next = s.next := Array.size_modify

theorem getElem?_define_self (s : Scopes) (f : FrameId) (name : String) (v : Value) :
    (s.define f name v).frames[f]? = (s.frames[f]?).map fun frame =>
      { frame with bindings := frame.bindings.bind name v } := by
  unfold define
  rw [Array.getElem?_modify, if_pos rfl]

theorem getElem?_define_of_ne (s : Scopes) {f i : FrameId} (h : f ≠ i) (name : String)
    (v : Value) : (s.define f name v).frames[i]? = s.frames[i]? := by
  unfold define
  rw [Array.getElem?_modify, if_neg h]

end Scopes

namespace Scopes.Alike

variable {s s' : Scopes} {f i : Nat} {v w : Value}

/-- A frame that is not there yet corresponds to one that is not there yet. -/
theorem lt_iff (h : s.Alike k s') (hf : k.frames f i) : f < s.next ↔ i < s'.next :=
  k.order hf (h.fresh 0)

/-- **A name belongs to corresponding frames.** -/
theorem owner? (h : s.Alike k s') (name : String) (hf : k.frames f i) (hlt : f < s.next) :
    Option.Rel (fun o o' => k.frames o o' ∧ o < s.next) (s.owner? f name) (s'.owner? i name) := by
  induction f using Nat.strongRecOn generalizing i with
  | ind f ih =>
    obtain ⟨a, b, ha, hb, hab⟩ := h.frame hf hlt
    unfold Scopes.owner?
    simp only [ha, hb, hab.binds]
    by_cases hbinds : a.binds name = true
    · simp only [hbinds, if_true]
      exact .some ⟨hf, hlt⟩
    · simp only [hbinds, if_false, Bool.false_eq_true]
      have henclosing := hab.enclosing
      have holder := hab.older
      generalize a.enclosing = outer at henclosing holder ⊢
      generalize b.enclosing = outer' at henclosing ⊢
      cases henclosing with
      | none => exact .none
      | @some o o' ho =>
        -- The search goes on in older frames on both sides.
        have hlt_f : o < f := holder o rfl
        have hlt_i : o' < i := (k.order ho hf).1 hlt_f
        simp only [hlt_f, hlt_i, if_true]
        exact ih o hlt_f ho (Nat.lt_trans hlt_f hlt)

/-- **A name has like values in corresponding frames.** -/
theorem get? (h : s.Alike k s') (name : String) (hf : k.frames f i) (hlt : f < s.next) :
    Option.Rel (Value.Alike k s.next) (s.get? f name) (s'.get? i name) := by
  have howner := h.owner? name hf hlt
  unfold Scopes.get?
  generalize s.owner? f name = o at howner ⊢
  generalize s'.owner? i name = o' at howner ⊢
  cases howner with
  | none => exact .none
  | @some o o' ho =>
    obtain ⟨a, b, ha, hb, hab⟩ := h.frame ho.1 ho.2
    show Option.Rel _ ((s.frames[o]?).bind _) ((s'.frames[o']?).bind _)
    rw [ha, hb]
    exact hab.bindings name

/-- Binding a name in corresponding frames. -/
theorem define (h : s.Alike k s') (name : String) (hf : k.frames f i)
    (hv : v.Alike k s.next w) : (s.define f name v).Alike k (s'.define i name w) where
  frame := by
    intro f' i' hf' hlt
    rw [next_define] at hlt ⊢
    obtain ⟨a, b, ha, hb, hab⟩ := h.frame hf' hlt
    by_cases heq : f = f'
    · have heq' := (k.eq_iff hf hf').1 heq
      subst heq heq'
      rw [getElem?_define_self, getElem?_define_self, ha, hb]
      exact ⟨_, _, rfl, rfl, hab.bindings.bind name hv, hab.enclosing, hab.older,
        hab.outermost⟩
    · have hne : i ≠ i' := fun heq' => heq ((k.eq_iff hf hf').2 heq')
      rw [getElem?_define_of_ne _ heq, getElem?_define_of_ne _ hne]
      exact ⟨a, b, ha, hb, hab⟩
  fresh := by
    intro j
    rw [next_define, next_define]
    exact h.fresh j
  others := by
    intro f' hf' hnone
    have hne : f ≠ f' := fun heq => hnone i (heq ▸ hf)
    rw [getElem?_define_of_ne _ hne]
    exact h.others f' hf' hnone

/-- Adding like frames. -/
theorem push (h : s.Alike k s') {a b : Frame} (hab : a.Alike k s.next s.next b) :
    (s.push a).Alike k (s'.push b) where
  frame := by
    intro f i hf hlt
    rw [next_push] at hlt ⊢
    by_cases heq : s.next = f
    · have heq' : s'.next = i := (k.eq_iff (h.fresh 0) hf).1 heq
      subst heq heq'
      exact ⟨a, b, getElem?_push_next s a, getElem?_push_next s' b, hab.mono (Nat.le_succ _)⟩
    · have hf' : f < s.next := Nat.lt_of_le_of_ne (Nat.le_of_lt_succ hlt) (Ne.symm heq)
      have hi : i < s'.next := (h.lt_iff hf).1 hf'
      rw [getElem?_push_of_lt s a hf', getElem?_push_of_lt s' b hi]
      obtain ⟨a', b', ha, hb, hab'⟩ := h.frame hf hf'
      exact ⟨a', b', ha, hb, hab'.mono (Nat.le_succ _)⟩
  fresh := by
    intro j
    rw [next_push, next_push, Nat.add_assoc, Nat.add_assoc]
    exact h.fresh (1 + j)
  others := by
    intro f hf hnone
    have hne : f ≠ s.next := fun heq => hnone s'.next (heq ▸ h.fresh 0)
    rw [← h.others f hf hnone]
    unfold Scopes.push
    rw [Array.getElem?_push]
    exact if_neg hne

end Scopes.Alike

/-! ## §5. Machines. -/

/-- Machines that do the same: corresponding frames are alike and code runs in
corresponding frames. -/
structure Machine.Alike (k : Likeness) (m m' : Machine) : Prop where
  scopes : m.scopes.Alike k m'.scopes
  current : k.frames m.current m'.current
  exists_current : m.current < m.scopes.next
  made : m'.made = m.made
  readings : m'.readings = m.readings
  output : m'.output = m.output

/-! ## §6. Closed machines. -/

/-- A value refers to frames that are there. -/
def Value.Closed (size : Nat) (v : Value) : Prop := ∀ c, v = .function c → c.frame < size

/-- What encloses a frame is older, only the first frame is enclosed by none,
and every stored function has a frame that is there. -/
structure Scopes.Closed (s : Scopes) : Prop where
  older : ∀ {f : Nat} {frame : Frame}, s.frames[f]? = some frame →
    ∀ outer, frame.enclosing = some outer → outer < f
  outermost : ∀ {f : Nat} {frame : Frame}, s.frames[f]? = some frame →
    frame.enclosing = none → f = 0
  stored : ∀ {f : Nat} {frame : Frame}, s.frames[f]? = some frame →
    ∀ name v, Bindings.get? name frame.bindings = some v → v.Closed s.next

/-- A machine whose frames refer to frames that are there, as does the machine. -/
structure Machine.Closed (m : Machine) : Prop where
  scopes : m.scopes.Closed
  current : m.current < m.scopes.next

/-- The likeness of machines that differ in the lines of function bodies only,
which may be renumbered in some ways. -/
def Likeness.inPlace (moves : (Nat → Nat) → Prop) (unmoved : moves id) : Likeness where
  moves := moves
  frames := Eq
  unmoved := unmoved
  order := by
    intro f g f' g' h h'
    rw [h, h']
  global := rfl
  before := .empty

/-- The likeness of machines that differ in the lines of function bodies only, in
any way. -/
abbrev Likeness.onLines : Likeness := .inPlace (fun _ => True) trivial

section Closed

variable {moves : (Nat → Nat) → Prop} {unmoved : moves id}

theorem Value.Closed.alike {v : Value} (h : v.Closed size) :
    v.Alike (.inPlace moves unmoved) size v := by
  cases v with
  | function c =>
    exact .function ⟨rfl, rfl, rfl, ⟨id, unmoved, (Stmt.renumberAll_id c.body).symm⟩, rfl, h c rfl⟩
  | _ => exact .same nofun

theorem Value.Alike.closed {v w : Value} (h : v.Alike k size w) : v.Closed size := by
  intro c hc
  cases h with
  | same hplain => exact absurd hc (hplain c)
  | function hd =>
    cases hc
    exact hd.exists_frame

/-- **A closed machine is alike to itself.** -/
theorem Machine.Closed.alike {m : Machine} (h : m.Closed) :
    m.Alike (.inPlace moves unmoved) m := by
  refine ⟨⟨?_, fun _ => rfl, ?_⟩, rfl, h.current, rfl, rfl, rfl⟩
  · intro f g hfg hlt
    cases hfg
    have hf := Array.getElem?_eq_getElem hlt
    refine ⟨_, _, hf, hf, ?_, ?_, h.scopes.older hf, h.scopes.outermost hf⟩
    · intro name
      cases hv : Bindings.get? name (m.scopes.frames[f]).bindings with
      | none => exact .none
      | some v => exact .some (h.scopes.stored hf name v hv).alike
    · cases (m.scopes.frames[f]).enclosing with
      | none => exact .none
      | some outer => exact .some rfl
  · intro f _ hnone
    exact absurd rfl (hnone f)

theorem Machine.Alike.closed {m m' : Machine} (h : m.Alike (.inPlace moves unmoved) m') :
    m.Closed := by
  have hframe : ∀ {f : Nat} {a : Frame}, m.scopes.frames[f]? = some a →
      ∃ b, a.Alike (.inPlace moves unmoved) m.scopes.next f b := by
    intro f a hf
    obtain ⟨a', b, ha, -, hab⟩ := h.scopes.frame (f := f) rfl (Array.getElem?_eq_some_iff.1 hf).1
    rw [hf] at ha
    cases ha
    exact ⟨b, hab⟩
  refine ⟨⟨?_, ?_, ?_⟩, h.exists_current⟩
  · intro f frame hf
    obtain ⟨b, hab⟩ := hframe hf
    exact hab.older
  · intro f frame hf
    obtain ⟨b, hab⟩ := hframe hf
    exact hab.outermost
  · intro f frame hf name v hv
    obtain ⟨b, hab⟩ := hframe hf
    have hname := hab.bindings name
    rw [hv] at hname
    generalize Bindings.get? name b.bindings = o at hname
    cases hname with
    | some hvw => exact hvw.closed

end Closed

/-- The first machine has one frame, which binds host functions only. -/
theorem Machine.start_frame {host : Host} {output : Channel} {f : FrameId} {frame : Frame}
    (hf : (Machine.start host output).scopes.frames[f]? = some frame) :
    f = 0 ∧ frame.enclosing = none ∧ frame.bindings.All fun v => ∀ c, v ≠ .function c := by
  have hframe := (Array.mem_push.1 (Array.mem_of_getElem? hf)).resolve_left
    (Array.not_mem_empty _)
  refine ⟨Nat.lt_one_iff.1 (Array.getElem?_eq_some_iff.1 hf).1, ?_, ?_⟩
  · rw [hframe]
  · rw [hframe]
    apply Bindings.all_ofLists
    intro v hv
    obtain ⟨i, hi, hvalue⟩ := List.mem_mapIdx.1 hv
    rw [← hvalue]
    exact nofun

theorem Machine.start_closed (host : Host) (output : Channel) :
    (Machine.start host output).Closed := by
  refine ⟨⟨?_, fun hf _ => (Machine.start_frame hf).1, ?_⟩, Nat.zero_lt_one⟩
  · intro f frame hf outer houter
    rw [(Machine.start_frame hf).2.1] at houter
    cases houter
  · intro f frame hf name v hv c hc
    exact absurd hc ((Machine.start_frame hf).2.2.get? hv c)

end Lox
