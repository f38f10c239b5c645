/-
  Lox.Proofs.Folding
  ────────────────────────────────
  **FRAMES THAT ONLY STAND IN BETWEEN.**

  A frame that binds nothing is of no account: seen from it, every name means
  what it means in the frame around it.  Two machines may do the same although
  one of them has such frames and the other has not.  A `Folding` folds the first
  onto the second:

    • frames with bindings are paired one by one (`own`),
    • a frame in between is folded onto what its enclosing frame is folded onto
      (`between`).

  A function made in a frame in between is, on the second machine, one made in
  the frame around it; so functions correspond if they are equal but for their
  frames and one frame is folded onto the other (`Value.Over`).  Foldings grow
  while the machines run, since frames are added on both sides.

  What a host function can tell apart must not include the frames of functions
  (`Host.IgnoresFrames`, §2).  Whatever relation there is between frames, it has
  to treat functions that are related by it alike.
-/
import Lox.Proofs.Locality

namespace Lox

variable {Φ Ψ : FrameId → FrameId → Prop}

/-! ## §1. Values. -/

/-- Equal values, or functions that are equal but for their frames, which are
related. -/
inductive Value.Over (Φ : FrameId → FrameId → Prop) : Value → Value → Prop where
  | same {v : Value} (h : ∀ c, v ≠ .function c) : Over Φ v v
  | function {c : Closure} {frame : FrameId} (h : Φ c.frame frame) :
      Over Φ (.function c) (.function { c with frame := frame })

/-- Signals that are equal but for a related value. -/
inductive Signal.Over (Φ : FrameId → FrameId → Prop) : Signal → Signal → Prop where
  | next : Over Φ .next .next
  | give {v w : Value} (h : v.Over Φ w) : Over Φ (.give v) (.give w)
  | leave : Over Φ .leave .leave
  | skip : Over Φ .skip .skip

namespace Value.Over

variable {v w v' w' : Value}

theorem mono (h : v.Over Φ w) (hle : ∀ f g, Φ f g → Ψ f g) : v.Over Ψ w := by
  cases h with
  | same h => exact .same h
  | function h => exact .function (hle _ _ h)

theorem ofLiteral (l : Literal) : (Value.ofLiteral l).Over Φ (Value.ofLiteral l) := by
  apply same
  intro c h
  cases l <;> cases h

/-- What is not callable is related to itself. -/
theorem plain (h : v.isCallable = false) : v.Over Φ v := by
  apply same
  rintro c rfl
  cases h

theorem isTruthy (h : v.Over Φ w) : w.isTruthy = v.isTruthy := by
  cases h <;> rfl

theorem chunks (h : v.Over Φ w) : w.chunks = v.chunks := by
  cases h with
  | same => rfl
  | @function c frame _ =>
    obtain ⟨identity, name, parameters, body, old⟩ := c
    cases name <;> rfl

theorem text (h : v.Over Φ w) : w.text = v.text := congrArg String.join h.chunks

theorem inspect (h : v.Over Φ w) : w.inspect = v.inspect := by
  cases h <;> rfl

theorem arity? (h : v.Over Φ w) : w.arity? = v.arity? := by
  cases h <;> rfl

theorem name? (h : v.Over Φ w) : w.name? = v.name? := by
  cases h <;> rfl

theorem equals (hv : v.Over Φ v') (hw : w.Over Φ w') : v'.equals w' = v.equals w := by
  cases hv with
  | same hv =>
    cases hw with
    | same hw => rfl
    | function hw => cases v <;> rfl
  | function hv =>
    cases hw with
    | same hw => cases w <;> rfl
    | function hw => rfl

/-- Operators do not look at functions. -/
theorem onNumbers (hv : v.Over Φ v') (hw : w.Over Φ w') (operator : Token)
    (result : Float → Float → Value) :
    Value.onNumbers operator v' w' result = Value.onNumbers operator v w result := by
  cases hv with
  | function hv => rfl
  | same hv =>
    cases hw with
    | same hw => rfl
    | function hw => cases v <;> rfl

theorem binary (hv : v.Over Φ v') (hw : w.Over Φ w') (operator : Token) :
    v'.binary operator w' = v.binary operator w := by
  unfold Value.binary
  simp only [hv.onNumbers hw, hv.equals hw]
  split
  · cases hv with
    | function hv => rfl
    | same hv =>
      cases hw with
      | same hw => rfl
      | function hw => cases v <;> rfl
  all_goals rfl

theorem unary (hv : v.Over Φ v') (operator : Token) : v'.unary operator = v.unary operator := by
  cases hv with
  | same hv => rfl
  | function hv => rfl

end Value.Over

/-! ## §2. Host functions. -/

/-- Actions that do the same with related values, whatever becomes related while
functions are called. -/
inductive Action.Over : (FrameId → FrameId → Prop) → Action → Action → Prop where
  | give {Φ : FrameId → FrameId → Prop} {v w : Value} (h : v.Over Φ w) :
      Over Φ (.give v) (.give w)
  | raise {Φ : FrameId → FrameId → Prop} (fault : RuntimeFault) :
      Over Φ (.raise fault) (.raise fault)
  | abort {Φ : FrameId → FrameId → Prop} (text : String) : Over Φ (.abort text) (.abort text)
  | readClock {Φ : FrameId → FrameId → Prop} {next next' : Float → Action}
      (h : ∀ now, Over Φ (next now) (next' now)) : Over Φ (.readClock next) (.readClock next')
  | call {Φ : FrameId → FrameId → Prop} {c d : Closure} {vs ws : List Value}
      {next next' : Except Failure Value → Action} (hc : (Value.function c).Over Φ (.function d))
      (hvs : List.Forall₂ (Value.Over Φ) vs ws)
      (hgiven : ∀ Ψ : FrameId → FrameId → Prop, (∀ f g, Φ f g → Ψ f g) →
        ∀ v w, v.Over Ψ w → Over Ψ (next (.ok v)) (next' (.ok w)))
      (hfailed : ∀ Ψ : FrameId → FrameId → Prop, (∀ f g, Φ f g → Ψ f g) →
        ∀ failure, Over Ψ (next (.error failure)) (next' (.error failure))) :
      Over Φ (.call c vs next) (.call d ws next')

theorem Action.over_fail (failure : Failure) : Action.Over Φ (.fail failure) (.fail failure) := by
  cases failure with
  | runtime fault => exact .raise fault
  | host text => exact .abort text

/-- A host function that treats related values alike, whatever the relation is. The
frame of the global names is related to itself: a host may call functions of its
own there. -/
def HostFunction.IgnoresFrames (fn : HostFunction) : Prop :=
  ∀ Φ : FrameId → FrameId → Prop, Φ 0 0 → ∀ vs ws, List.Forall₂ (Value.Over Φ) vs ws →
    Action.Over Φ (fn.act vs) (fn.act ws)

/-- **The host does not look at the frames of functions.** -/
def Host.IgnoresFrames (host : Host) : Prop := ∀ fn ∈ host.functions, fn.IgnoresFrames

theorem Host.IgnoresFrames.act {host : Host} (h : host.IgnoresFrames) (hglobal : Φ 0 0)
    (n : Native) {vs ws : List Value} (hvs : List.Forall₂ (Value.Over Φ) vs ws) :
    Action.Over Φ (host.act n vs) (host.act n ws) := by
  unfold Host.act
  cases hf : host.functions[n.identity]? with
  | none => exact .abort _
  | some fn => exact h fn (Array.mem_of_getElem? hf) Φ hglobal vs ws hvs

/-- A likeness that leaves lines alone is a relation between frames. -/
theorem Value.Over.alike {k : Likeness} {size : Nat}
    (hle : ∀ f g, Φ f g → k.frames f g ∧ f < size) {v w : Value} (h : v.Over Φ w) :
    v.Alike k size w := by
  cases h with
  | same h => exact .same h
  | @function c frame h =>
    obtain ⟨hframes, hlt⟩ := hle _ _ h
    have hbody : ∃ g, k.moves g ∧ c.body = Stmt.renumberAll g c.body :=
      ⟨id, k.unmoved, (Stmt.renumberAll_id c.body).symm⟩
    exact .function ⟨rfl, rfl, rfl, hbody, hframes, hlt⟩

theorem Value.Alike.over {k : Likeness} (hid : ∀ g, k.moves g → g = id) {size : Nat} {v w : Value}
    (h : v.Alike k size w) : v.Over (fun f g => k.frames f g ∧ f < size) w := by
  cases h with
  | same h => exact .same h
  | @function c d h =>
    obtain ⟨g, hg, hbody⟩ := h.body
    rw [hid g hg, Stmt.renumberAll_id] at hbody
    obtain ⟨identity, name, parameters, body, frame⟩ := d
    cases h.identity
    cases h.name
    cases h.parameters
    cases hbody
    exact .function ⟨h.frame, h.exists_frame⟩

theorem Action.Over.alike {k : Likeness} (hid : ∀ g, k.moves g → g = id) {a a' : Action}
    (h : a.Over Φ a') : ∀ {size : Nat}, (∀ f g, Φ f g → k.frames f g ∧ f < size) →
      Action.Alike k size a a' := by
  induction h with
  | give h => exact fun hle => .give (h.alike hle)
  | raise fault => exact fun _ => .raise (.refl _)
  | abort text => exact fun _ => .abort (.refl _)
  | readClock _ ih => exact fun hle => .readClock fun now => ih now hle
  | @call Φ c d vs ws next next' hc hvs _ _ ihgiven ihfailed =>
    intro size hle
    cases hc.alike hle with
    | same h => exact absurd rfl (h _)
    | function hcd =>
      refine .call hcd (hvs.imp fun _ _ h => h.alike hle) fun n hn answer answer' hanswer => ?_
      -- While functions are called, the frames up to `n` are related.
      have hgrown : ∀ f g, Φ f g → k.frames f g ∧ f < n := fun f g hfg =>
        ⟨(hle f g hfg).1, Nat.lt_of_lt_of_le (hle f g hfg).2 hn⟩
      cases hanswer with
      | ok hv => exact ihgiven _ hgrown _ _ (hv.over hid) fun _ _ h => h
      | error hf =>
        cases hf.exact_of hid
        exact ihfailed _ hgrown _ fun _ _ h => h

/-- A host that ignores frames gets at them only through what it is handed and
through the global names. -/
theorem Host.IgnoresFrames.confined {host : Host} (h : host.IgnoresFrames) : host.Confined := by
  intro k hid size n vs ws hpos hvs
  have hact := h.act (Φ := fun f g => k.frames f g ∧ f < size) ⟨k.global, hpos⟩ n
    (hvs.imp fun _ _ hv => hv.over hid)
  exact hact.alike hid fun _ _ hfg => hfg

namespace HostFunction

theorem clock_ignoresFrames : clock.IgnoresFrames := by
  refine fun _ _ _ _ _ => .readClock fun now => ?_
  by_cases hbefore : now < 0
  · rw [if_pos hbefore]
    exact .abort _
  · rw [if_neg hbefore]
    exact .give (.same nofun)

/-- A function that looks at its first argument only, and only at what related
values have in common. -/
theorem ignoresFrames_of_head {fn : HostFunction} {first : Value → Action} {none : Action}
    (hact : fn.act = fun | v :: _ => first v | [] => none)
    (hfirst : ∀ (Φ : FrameId → FrameId → Prop) (v w : Value), v.Over Φ w →
      Action.Over Φ (first v) (first w))
    (hnone : ∀ Φ : FrameId → FrameId → Prop, Action.Over Φ none none) : fn.IgnoresFrames := by
  intro Φ _ vs ws hvs
  rw [hact]
  cases hvs with
  | nil => exact hnone Φ
  | cons hv _ => exact hfirst Φ _ _ hv

theorem inspect_ignoresFrames : inspect.IgnoresFrames := by
  refine ignoresFrames_of_head rfl (fun Φ v w hv => ?_) fun _ => .give (.same nofun)
  rw [hv.inspect]
  exact .give (.same nofun)

theorem asText_ignoresFrames : asText.IgnoresFrames := by
  refine ignoresFrames_of_head rfl (fun Φ v w hv => ?_) fun _ => .give (.same nofun)
  rw [hv.text]
  exact .give (.same nofun)

theorem fail_ignoresFrames : fail.IgnoresFrames := by
  refine ignoresFrames_of_head rfl (fun Φ v w hv => ?_) fun _ => .give (.same nofun)
  rw [hv.text]
  exact .raise _

theorem describe_ignoresFrames : describe.IgnoresFrames := by
  refine ignoresFrames_of_head rfl (fun Φ v w hv => ?_) fun _ => .give (.same nofun)
  rw [hv.arity?, hv.name?]
  cases v.arity? with
  | none => exact .give (.same nofun)
  | some arity => exact .give (.same nofun)

theorem crash_ignoresFrames : crash.IgnoresFrames := fun _ _ _ _ _ => .abort _

theorem twice_ignoresFrames : twice.IgnoresFrames := by
  intro Φ _ vs ws hvs
  unfold twice
  dsimp only
  cases hvs with
  | nil => exact .raise _
  | @cons v w _ _ hv hvs =>
    cases hv with
    | function _ => exact .raise _
    | same _ =>
      cases v with
      | number x =>
        cases hvs with
        | nil => exact .give (.same nofun)
        | cons _ _ => exact .raise _
      | _ => exact .raise _

/-- A function that is handed over is called with what is handed over. -/
theorem apply_ignoresFrames : apply.IgnoresFrames := by
  intro Φ _ vs ws hvs
  unfold apply
  dsimp only
  cases hvs with
  | nil => exact .raise _
  | @cons v w _ _ hv hvs =>
    cases hv with
    | same hplain =>
      cases v with
      | function f => exact absurd rfl (hplain f)
      | _ => exact .raise _
    | function hf =>
      cases hvs with
      | nil => exact .raise _
      | cons hx hvs =>
        cases hvs with
        | nil =>
          exact .call (.function hf) (.cons hx .nil) (fun _ _ _ _ h => .give h) fun _ _ failure =>
            Action.over_fail failure
        | cons _ _ => exact .raise _

end HostFunction

theorem Host.standard_ignoresFrames (clock : Nat → Float) :
    (Host.standard clock).IgnoresFrames := by
  intro fn hfn
  rw [List.mem_singleton.1 (Array.mem_toList_iff.2 hfn)]
  exact HostFunction.clock_ignoresFrames

theorem Host.toolbox_ignoresFrames (clock : Nat → Float) :
    (Host.toolbox clock).IgnoresFrames := by
  intro fn hfn
  simp only [Host.toolbox, List.mem_toArray, List.mem_cons, List.not_mem_nil, or_false] at hfn
  rcases hfn with rfl | rfl | rfl | rfl | rfl | rfl | rfl | rfl
  · exact HostFunction.clock_ignoresFrames
  · exact HostFunction.twice_ignoresFrames
  · exact HostFunction.inspect_ignoresFrames
  · exact HostFunction.asText_ignoresFrames
  · exact HostFunction.fail_ignoresFrames
  · exact HostFunction.crash_ignoresFrames
  · exact HostFunction.apply_ignoresFrames
  · exact HostFunction.describe_ignoresFrames

/-! ## §3. Foldings. -/

/-- **How the frames of one machine are folded onto those of another.** -/
structure Folding where
  /-- Frames that are paired. -/
  own : FrameId → FrameId → Prop
  /-- Frames in between, and what they are folded onto. -/
  between : FrameId → FrameId → Prop
  /-- The frames of the global names are paired. -/
  globals : own 0 0

namespace Folding

variable {F G H : Folding}

/-- One frame is folded onto another. -/
def At (F : Folding) (f g : FrameId) : Prop := F.own f g ∨ F.between f g

/-- What is folded stays folded. -/
structure Le (F G : Folding) : Prop where
  own : ∀ {f g}, F.own f g → G.own f g
  between : ∀ {f g}, F.between f g → G.between f g

theorem Le.refl (F : Folding) : F.Le F := ⟨id, id⟩

theorem Le.trans (h : F.Le G) (h' : G.Le H) : F.Le H :=
  ⟨fun hf => h'.own (h.own hf), fun hf => h'.between (h.between hf)⟩

theorem Le.at (h : F.Le G) (f g : FrameId) (hf : F.At f g) : G.At f g :=
  hf.imp h.own h.between

/-- Another pair of frames. -/
def pair (F : Folding) (f g : FrameId) : Folding where
  own i j := F.own i j ∨ i = f ∧ j = g
  between := F.between
  globals := .inl F.globals

/-- Another frame in between. -/
def insert (F : Folding) (f g : FrameId) : Folding where
  own := F.own
  between i j := F.between i j ∨ i = f ∧ j = g
  globals := F.globals

theorem le_pair (F : Folding) (f g : FrameId) : F.Le (F.pair f g) := ⟨.inl, id⟩

theorem le_insert (F : Folding) (f g : FrameId) : F.Le (F.insert f g) := ⟨id, .inl⟩

end Folding

/-! ## §4. Frames and machines. -/

variable {F G : Folding}

/-- Frames at the places `f` and `g` that bind related values, and whose
enclosing frames are older and folded. -/
structure Frame.Folds (F : Folding) (f g : FrameId) (a b : Frame) : Prop where
  bindings : a.bindings.Rel (Value.Over F.At) b.bindings
  enclosing : Option.Rel F.At a.enclosing b.enclosing
  older : ∀ outer, a.enclosing = some outer → outer < f
  older' : ∀ outer, b.enclosing = some outer → outer < g

theorem Frame.Folds.mono {f g : FrameId} {a b : Frame} (h : a.Folds F f g b) (hle : F.Le G) :
    a.Folds G f g b := by
  refine ⟨h.bindings.mono fun _ _ hv => hv.mono hle.at, ?_, h.older, h.older'⟩
  have henclosing := h.enclosing
  generalize a.enclosing = outer at henclosing ⊢
  generalize b.enclosing = outer' at henclosing ⊢
  cases henclosing with
  | none => exact .none
  | some ho => exact .some (hle.at _ _ ho)

/-- **One machine's frames are folded onto another's.** -/
structure Scopes.Folds (F : Folding) (s s' : Scopes) : Prop where
  own : ∀ {f g}, F.own f g →
    ∃ a b, s.frames[f]? = some a ∧ s'.frames[g]? = some b ∧ a.Folds F f g b
  between : ∀ {f g}, F.between f g →
    ∃ outer, s.frames[f]? = some ⟨[], some outer⟩ ∧ outer < f ∧ F.At outer g
  /-- Frames are paired one by one. -/
  single : ∀ {f g i j}, F.own f g → F.own i j → (f = i ↔ g = j)
  /-- No paired frame is in between. -/
  apart : ∀ {f g i j}, F.own f g → F.between i j → f ≠ i

namespace Scopes.Folds

variable {s s' : Scopes} {f g : FrameId} {v w : Value}

/-- What is folded is there. -/
theorem lt (h : s.Folds F s') (hfg : F.At f g) : f < s.next := by
  rcases hfg with hfg | hfg
  · obtain ⟨a, _, ha, -, -⟩ := h.own hfg
    exact (Array.getElem?_eq_some_iff.1 ha).1
  · obtain ⟨outer, ha, -, -⟩ := h.between hfg
    exact (Array.getElem?_eq_some_iff.1 ha).1

theorem lt' (h : s.Folds F s') (hfg : F.At f g) : g < s'.next := by
  induction f using Nat.strongRecOn with
  | ind f ih =>
    rcases hfg with hfg | hfg
    · obtain ⟨_, b, -, hb, -⟩ := h.own hfg
      exact (Array.getElem?_eq_some_iff.1 hb).1
    · obtain ⟨outer, -, hlt, houter⟩ := h.between hfg
      exact ih outer hlt houter

/-- **A name belongs to paired frames,** wherever it is seen from. -/
theorem owner? (h : s.Folds F s') (name : String) (hfg : F.At f g) :
    Option.Rel F.own (s.owner? f name) (s'.owner? g name) := by
  induction f using Nat.strongRecOn generalizing g with
  | ind f ih =>
    rcases hfg with hfg | hfg
    · obtain ⟨a, b, ha, hb, hab⟩ := h.own hfg
      have hbinds : b.binds name = a.binds name := hab.bindings.isSome name
      unfold Scopes.owner?
      simp only [ha, hb, hbinds]
      by_cases hbound : a.binds name = true
      · simp only [hbound, if_true]
        exact .some hfg
      · simp only [hbound, if_false, Bool.false_eq_true]
        have henclosing := hab.enclosing
        have holder := hab.older
        have holder' := hab.older'
        generalize a.enclosing = outer at henclosing holder ⊢
        generalize b.enclosing = outer' at henclosing holder' ⊢
        cases henclosing with
        | none => exact .none
        | @some o o' ho =>
          have hlt := holder o rfl
          have hlt' := holder' o' rfl
          simp only [hlt, hlt', if_true]
          exact ih o hlt ho
    · -- The search goes on in the frame around, and on the other side nothing happens.
      obtain ⟨outer, ha, hlt, houter⟩ := h.between hfg
      have hskip : s.owner? f name = s.owner? outer name := by
        rw [Scopes.owner?, ha]
        simp only [Frame.binds, Bindings.get?, Option.isSome_none, Bool.false_eq_true, if_false,
          hlt, if_true]
      rw [hskip]
      exact ih outer hlt houter

/-- **A name has related values,** wherever it is seen from. -/
theorem get? (h : s.Folds F s') (name : String) (hfg : F.At f g) :
    Option.Rel (Value.Over F.At) (s.get? f name) (s'.get? g name) := by
  have howner := h.owner? name hfg
  unfold Scopes.get?
  generalize s.owner? f name = o at howner ⊢
  generalize s'.owner? g name = o' at howner ⊢
  cases howner with
  | none => exact .none
  | @some o o' ho =>
    obtain ⟨a, b, ha, hb, hab⟩ := h.own ho
    show Option.Rel _ ((s.frames[o]?).bind _) ((s'.frames[o']?).bind _)
    rw [ha, hb]
    exact hab.bindings name

/-- Binding a name in paired frames. -/
theorem define (h : s.Folds F s') (name : String) (hfg : F.own f g) (hv : v.Over F.At w) :
    (s.define f name v).Folds F (s'.define g name w) where
  own := by
    intro i j hij
    obtain ⟨a, b, ha, hb, hab⟩ := h.own hij
    by_cases heq : f = i
    · have heq' := (h.single hfg hij).1 heq
      subst heq heq'
      rw [getElem?_define_self, getElem?_define_self, ha, hb]
      exact ⟨_, _, rfl, rfl, hab.bindings.bind name hv, hab.enclosing, hab.older, hab.older'⟩
    · have hne : g ≠ j := fun heq' => heq ((h.single hfg hij).2 heq')
      rw [getElem?_define_of_ne _ heq, getElem?_define_of_ne _ hne]
      exact ⟨a, b, ha, hb, hab⟩
  between := by
    intro i j hij
    obtain ⟨outer, ha, hlt, houter⟩ := h.between hij
    rw [getElem?_define_of_ne _ (h.apart hfg hij)]
    exact ⟨outer, ha, hlt, houter⟩
  single := h.single
  apart := h.apart

/-- Adding frames to both sides pairs them. -/
theorem push (h : s.Folds F s') {a b : Frame} (hab : a.Folds F s.next s'.next b) :
    (s.push a).Folds (F.pair s.next s'.next) (s'.push b) where
  own := by
    have hle := F.le_pair s.next s'.next
    intro i j hij
    rcases hij with hij | ⟨rfl, rfl⟩
    · rw [getElem?_push_of_lt s a (h.lt (.inl hij)), getElem?_push_of_lt s' b (h.lt' (.inl hij))]
      obtain ⟨a', b', ha, hb, hab'⟩ := h.own hij
      exact ⟨a', b', ha, hb, hab'.mono hle⟩
    · exact ⟨a, b, getElem?_push_next s a, getElem?_push_next s' b, hab.mono hle⟩
  between := by
    intro i j hij
    rw [getElem?_push_of_lt s a (h.lt (.inr hij))]
    obtain ⟨outer, ha, hlt, houter⟩ := h.between hij
    exact ⟨outer, ha, hlt, (F.le_pair _ _).at _ _ houter⟩
  single := by
    intro i j i' j' hij hij'
    rcases hij with hij | ⟨rfl, rfl⟩ <;> rcases hij' with hij' | ⟨rfl, rfl⟩
    · exact h.single hij hij'
    · exact iff_of_false (Nat.ne_of_lt (h.lt (.inl hij))) (Nat.ne_of_lt (h.lt' (.inl hij)))
    · exact iff_of_false (Nat.ne_of_gt (h.lt (.inl hij'))) (Nat.ne_of_gt (h.lt' (.inl hij')))
    · exact iff_of_true rfl rfl
  apart := by
    intro i j i' j' hij hij'
    rcases hij with hij | ⟨rfl, rfl⟩
    · exact h.apart hij hij'
    · exact Nat.ne_of_gt (h.lt (.inr hij'))

/-- **A frame that binds nothing can be added to the first side alone.** -/
theorem insert (h : s.Folds F s') (hfg : F.At f g) :
    (s.push ⟨[], some f⟩).Folds (F.insert s.next g) s' where
  own := by
    intro i j hij
    rw [getElem?_push_of_lt s _ (h.lt (.inl hij))]
    obtain ⟨a, b, ha, hb, hab⟩ := h.own hij
    exact ⟨a, b, ha, hb, hab.mono (F.le_insert _ _)⟩
  between := by
    have hle := F.le_insert s.next g
    intro i j hij
    rcases hij with hij | ⟨rfl, rfl⟩
    · rw [getElem?_push_of_lt s _ (h.lt (.inr hij))]
      obtain ⟨outer, ha, hlt, houter⟩ := h.between hij
      exact ⟨outer, ha, hlt, hle.at _ _ houter⟩
    · exact ⟨f, getElem?_push_next s _, h.lt hfg, hle.at _ _ hfg⟩
  single := h.single
  apart := by
    intro i j i' j' hij hij'
    rcases hij' with hij' | ⟨rfl, rfl⟩
    · exact h.apart hij hij'
    · exact Nat.ne_of_lt (h.lt (.inl hij))

end Scopes.Folds

/-- **One machine is folded onto another.** Code runs in the frames `f` and `g`. -/
structure Machine.Folds (F : Folding) (f g : FrameId) (m m' : Machine) : Prop where
  scopes : m.scopes.Folds F m'.scopes
  here : F.At f g
  current : m.current = f
  current' : m'.current = g
  made : m'.made = m.made
  readings : m'.readings = m.readings
  output : m'.output = m.output

/-- The frames that are there, each paired with itself. -/
def Folding.same (size : Nat) (h : 0 < size) : Folding where
  own f g := f = g ∧ f < size
  between _ _ := False
  globals := ⟨rfl, h⟩

/-- **A closed machine is folded onto itself,** with nothing in between. -/
theorem Machine.Closed.folds {m : Machine} (h : m.Closed) :
    m.Folds (.same m.scopes.next (Nat.zero_lt_of_lt h.current)) m.current m.current m := by
  refine ⟨⟨?_, nofun, ?_, fun _ => nofun⟩, .inl ⟨rfl, h.current⟩, rfl, rfl, rfl, rfl, rfl⟩
  · rintro f g ⟨rfl, hlt⟩
    have hf := Array.getElem?_eq_getElem hlt
    refine ⟨_, _, hf, hf, ?_, ?_, h.scopes.older hf, h.scopes.older hf⟩
    · intro name
      cases hv : Bindings.get? name (m.scopes.frames[f]).bindings with
      | none => exact .none
      | some v =>
        have hclosed := h.scopes.stored hf name v hv
        cases v with
        | function c => exact .some (.function (.inl ⟨rfl, hclosed c rfl⟩))
        | _ => exact .some (.same nofun)
    · cases ho : (m.scopes.frames[f]).enclosing with
      | none => exact .none
      | some outer => exact .some (.inl ⟨rfl, Nat.lt_trans (h.scopes.older hf outer ho) hlt⟩)
  · rintro f g i j ⟨rfl, -⟩ ⟨rfl, -⟩
    exact Iff.rfl

end Lox
