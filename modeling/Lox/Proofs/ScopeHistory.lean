/-
  Lox.Proofs.ScopeHistory
  ────────────────────────────────
  **WHAT A NAME MEANS, TOLD FROM THE HISTORY.**

  Frames come about by edits: a root is made, or a child inside a frame, and a
  name is defined in a frame or assigned from one.  A history of edits alone says
  what every name should mean afterwards (§1):

    • the chain of a frame was settled when the frame was made;
    • a frame binds the names that were defined in it, and has for each of them
      the value that was stored last, by a definition or by an assignment from
      any frame that resolved the name to it;
    • a frame resolves a name to the first frame of its chain that binds it.

  None of this looks at frames that are kept anywhere.  The frames that the edits
  leave behind agree with it at every point of every history (`Makes.tells`, §2),
  so what an assignment or a definition changes, seen from any frame, is read off
  from the history that is longer by one edit (§3).
-/
import Lox.Proofs.Likeness
import Lox.Proofs.Names

namespace Lox

/-! ## §1. Histories. -/

/-- One edit of the frames. -/
inductive Edit where
  /-- Make a frame: a root if nothing encloses it, and a child otherwise. -/
  | frame (enclosing : Option FrameId)
  /-- Bind a name in a frame itself. -/
  | define (f : FrameId) (name : String) (value : Value)
  /-- Give a name, as it is seen from a frame, another value. -/
  | assign (f : FrameId) (name : String) (value : Value)

/-- The edits so far, the last one first. -/
abbrev History := List Edit

namespace History

/-- The number of frames that have been made. -/
def size : History → Nat
  | [] => 0
  | .frame _ :: h => size h + 1
  | .define _ _ _ :: h | .assign _ _ _ :: h => size h

/-- The frames from a frame outwards. The first frame is number 0, and the next
one is numbered by the size of the history. -/
def chain : History → FrameId → List FrameId
  | [], _ => []
  | .frame enclosing :: h, f =>
    if f = size h then f :: enclosing.elim [] (chain h) else chain h f
  | .define _ _ _ :: h, f | .assign _ _ _ :: h, f => chain h f

/-- The value that was last stored in a frame itself under a name. -/
def stored : History → FrameId → String → Option Value
  | [], _, _ => none
  | .frame _ :: h, g, y => stored h g y
  | .define f x v :: h, g, y => if g = f ∧ y = x then some v else stored h g y
  | .assign f x v :: h, g, y =>
    -- The assignment reached the first frame of the chain that had the name.
    if y = x ∧ (chain h f).find? (fun i => (stored h i x).isSome) = some g then some v
    else stored h g y

variable {h : History} {e : Edit} {f g : FrameId} {x y : String}

/-- The frame that a name means, seen from a frame. -/
def resolve? (h : History) (f : FrameId) (x : String) : Option FrameId :=
  (chain h f).find? fun i => (stored h i x).isSome

/-- The value that a name should have, seen from a frame. -/
def value? (h : History) (f : FrameId) (x : String) : Option Value :=
  (resolve? h f x).bind (stored h · x)

/-- A frame binds a name itself: the name was defined in it. -/
def Binds (h : History) (f : FrameId) (x : String) : Prop := ∃ v, Edit.define f x v ∈ h

/-- The chain of a frame comes to another one before any frame that binds the
name. -/
def Sees (h : History) (x : String) (g f : FrameId) : Prop :=
  ∃ inner outer, chain h g = inner ++ f :: outer ∧ ∀ i ∈ inner, ¬ Binds h i x

/-- **The frames that a history makes.** An edit speaks of frames that are there. -/
inductive Makes : History → Scopes → Prop where
  | start : Makes [] .empty
  | frame {h : History} {s : Scopes} {enclosing : Option FrameId} (hs : Makes h s)
      (ho : ∀ outer ∈ enclosing, outer < s.next) :
      Makes (.frame enclosing :: h) (s.push ⟨[], enclosing⟩)
  | define {h : History} {s : Scopes} {f : FrameId} (x : String) (v : Value) (hs : Makes h s)
      (hf : f < s.next) : Makes (.define f x v :: h) (s.define f x v)
  | assign {h : History} {s : Scopes} {f : FrameId} (x : String) (v : Value) (hs : Makes h s)
      (hf : f < s.next) : Makes (.assign f x v :: h) (s.assign f x v).2

theorem binds_cons_iff : Binds (e :: h) g y ↔ (∃ v, e = .define g y v) ∨ Binds h g y := by
  simp only [Binds, List.mem_cons, exists_or, eq_comm]

/-- A frame has a value for a name exactly if the name was defined in it. -/
theorem isSome_stored_iff : (stored h g y).isSome = true ↔ Binds h g y := by
  induction h generalizing g y with
  | nil => simp [stored, Binds]
  | cons e h ih =>
    rw [binds_cons_iff]
    cases e with
    | frame enclosing => simpa [stored] using ih
    | define f x v =>
      rw [stored]
      split
      · next hhere => simp [hhere]
      · next hother =>
        rw [ih]
        refine ⟨.inr, ?_⟩
        rintro (⟨w, heq⟩ | hbinds)
        · cases heq
          exact absurd ⟨rfl, rfl⟩ hother
        · exact hbinds
    | assign f x v =>
      rw [stored]
      split
      · next hhere =>
        -- An assignment only ever reaches a frame that has the name.
        obtain ⟨rfl, hfound⟩ := hhere
        have hsome := List.find?_some hfound
        exact ⟨fun _ => .inr (ih.1 hsome), fun _ => rfl⟩
      · simpa using ih

/-- A frame that has not been made has no chain. -/
theorem chain_of_size_le (hf : size h ≤ f) : chain h f = [] := by
  induction h with
  | nil => rfl
  | cons e h ih =>
    cases e with
    | frame enclosing =>
      have hlt : size h < f := hf
      rw [chain, if_neg (Nat.ne_of_gt hlt), ih (Nat.le_of_lt hlt)]
    | define f x v => exact ih hf
    | assign f x v => exact ih hf

theorem resolve?_eq_none_iff : resolve? h f x = none ↔ ∀ g ∈ chain h f, ¬ Binds h g x := by
  unfold resolve?
  rw [List.find?_eq_none]
  exact forall₂_congr fun g _ => not_congr isSome_stored_iff

/-- A frame resolves a name to the first frame of its chain that binds it. -/
theorem resolve?_eq_some_iff : resolve? h f x = some g ↔ Binds h g x ∧ Sees h x f g := by
  unfold resolve? Sees
  rw [List.find?_eq_some_iff_append, isSome_stored_iff]
  refine and_congr_right fun _ => exists₂_congr fun inner outer => and_congr_right fun _ => ?_
  refine forall₂_congr fun i _ => ?_
  rw [Bool.not_eq_true', ← Bool.not_eq_true, isSome_stored_iff]

/-- A name that is resolved has a value. -/
theorem value?_of_resolve? (hr : resolve? h f x = some g) :
    ∃ v, stored h g x = some v ∧ value? h f x = some v := by
  have hsome := isSome_stored_iff.2 (resolve?_eq_some_iff.1 hr).1
  obtain ⟨v, hv⟩ := Option.isSome_iff_exists.1 hsome
  refine ⟨v, hv, ?_⟩
  unfold value?
  rw [hr, Option.bind_some, hv]

theorem value?_eq_none_iff : value? h f x = none ↔ resolve? h f x = none := by
  cases hr : resolve? h f x with
  | none => simp [value?, hr]
  | some g =>
    obtain ⟨v, -, hv⟩ := value?_of_resolve? hr
    simp [hv]

end History

/-! ## §2. The frames agree with the history. -/

namespace Scopes

variable {s : Scopes} {f g : FrameId} {x y : String} {v : Value}

/-- The value that a frame itself has for a name. -/
def own? (s : Scopes) (f : FrameId) (x : String) : Option Value :=
  (s.frames[f]?).bind fun frame => Bindings.get? x frame.bindings

/-- The frame that encloses a frame. -/
def outer? (s : Scopes) (f : FrameId) : Option FrameId := (s.frames[f]?).bind Frame.enclosing

theorem own?_push {enclosing : Option FrameId} :
    (s.push ⟨[], enclosing⟩).own? g y = s.own? g y := by
  unfold own? push
  rw [Array.getElem?_push]
  split
  · next hg =>
    rw [hg, Array.getElem?_eq_none (Nat.le_refl _)]
    rfl
  · rfl

theorem outer?_push {enclosing : Option FrameId} : (s.push ⟨[], enclosing⟩).outer? g =
    if g = s.next then enclosing else s.outer? g := by
  unfold outer? push next
  rw [Array.getElem?_push]
  split <;> rfl

theorem own?_define (hf : f < s.next) :
    (s.define f x v).own? g y = if g = f ∧ y = x then some v else s.own? g y := by
  unfold own?
  by_cases hg : f = g
  · subst hg
    rw [getElem?_define_self, Array.getElem?_eq_getElem hf]
    by_cases hy : y = x
    · subst hy
      rw [if_pos ⟨rfl, rfl⟩]
      exact Bindings.get?_bind_self y v _
    · rw [if_neg fun hboth => hy hboth.2]
      exact Bindings.get?_bind_of_ne hy v _
  · rw [getElem?_define_of_ne s hg, if_neg fun hboth => hg hboth.1.symm]

theorem outer?_define : (s.define f x v).outer? g = s.outer? g := by
  unfold outer?
  by_cases hg : f = g
  · subst hg
    rw [getElem?_define_self]
    cases s.frames[f]? <;> rfl
  · rw [getElem?_define_of_ne s hg]

/-- **A search by what the frames have and what encloses them.** -/
theorem owner?_eq (hf : f < s.next) (holder : ∀ outer ∈ s.outer? f, outer < f) :
    s.owner? f x = if (s.own? f x).isSome then some f else (s.outer? f).bind (s.owner? · x) := by
  have hframe := Array.getElem?_eq_getElem hf
  unfold own? outer? at *
  rw [hframe] at holder ⊢
  rw [owner?, hframe]
  simp only [Option.bind_some] at holder ⊢
  refine if_congr Iff.rfl rfl ?_
  cases ho : (s.frames[f]).enclosing with
  | none => rfl
  | some outer => exact if_pos (holder outer ho)

theorem get?_eq_bind (s : Scopes) (f : FrameId) (x : String) :
    s.get? f x = (s.owner? f x).bind (s.own? · x) := rfl

end Scopes

namespace History

variable {h : History} {s : Scopes}

/-- **A history tells what the frames are:** how many there are, what every frame
has, and which frame encloses it. -/
structure Tells (h : History) (s : Scopes) : Prop where
  next : s.next = size h
  own : ∀ g y, s.own? g y = stored h g y
  links : ∀ g < s.next, chain h g = g :: (s.outer? g).elim [] (chain h)
  older : ∀ g, ∀ outer ∈ s.outer? g, outer < g

namespace Tells

/-- **A search finds the frame that the history says.** -/
theorem owner?_eq (ht : Tells h s) (f : FrameId) (x : String) :
    s.owner? f x = resolve? h f x := by
  induction f using Nat.strongRecOn with
  | ind f ih =>
    by_cases hf : f < s.next
    · rw [Scopes.owner?_eq hf (ht.older f), ht.own]
      unfold resolve?
      rw [ht.links f hf, List.find?_cons]
      cases (stored h f x).isSome with
      | true => rfl
      | false =>
        cases ho : s.outer? f with
        | none => rfl
        | some outer => exact ih outer (ht.older f outer ho)
    · have hsize : size h ≤ f := ht.next ▸ Nat.le_of_not_lt hf
      unfold Scopes.owner? resolve?
      rw [chain_of_size_le hsize, Array.getElem?_eq_none (Nat.le_of_not_lt hf)]
      rfl

/-- **A lookup finds the value that the history says.** -/
theorem get?_eq (ht : Tells h s) (f : FrameId) (x : String) : s.get? f x = value? h f x := by
  rw [Scopes.get?_eq_bind, ht.owner?_eq]
  unfold value?
  simp only [ht.own]

/-! ### One edit. -/

theorem start : Tells [] .empty where
  next := rfl
  own := fun _ _ => rfl
  links := nofun
  older := nofun

/-- A new frame has nothing, and the frames that are there stay as they are. -/
theorem frame (ht : Tells h s) {enclosing : Option FrameId}
    (ho : ∀ outer ∈ enclosing, outer < s.next) :
    Tells (.frame enclosing :: h) (s.push ⟨[], enclosing⟩) := by
  have hold : ∀ f < s.next, chain (.frame enclosing :: h) f = chain h f := by
    intro f hf
    rw [chain, if_neg (ht.next ▸ Nat.ne_of_lt hf)]
  -- What encloses a frame was there before it, so its chain stays.
  have helim : ∀ o : Option FrameId, (∀ outer ∈ o, outer < s.next) →
      o.elim [] (chain (.frame enclosing :: h)) = o.elim [] (chain h) := by
    intro o hlt
    cases o with
    | none => rfl
    | some outer => exact hold outer (hlt outer rfl)
  refine ⟨?_, ?_, ?_, ?_⟩
  · rw [Scopes.next_push, ht.next, size]
  · intro g y
    rw [Scopes.own?_push, ht.own, stored]
  · intro g hg
    rw [Scopes.next_push] at hg
    rw [Scopes.outer?_push]
    by_cases hnew : g = s.next
    · rw [if_pos hnew, helim _ ho, chain, if_pos (hnew.trans ht.next)]
    · have hlt : g < s.next := Nat.lt_of_le_of_ne (Nat.le_of_lt_succ hg) hnew
      have houter := fun outer houter => Nat.lt_trans (ht.older g outer houter) hlt
      rw [if_neg hnew, helim _ houter, hold g hlt, ht.links g hlt]
  · intro g outer houter
    rw [Scopes.outer?_push] at houter
    split at houter
    · next hnew => exact hnew ▸ ho outer houter
    · exact ht.older g outer houter

/-- Storing a value in a frame keeps all chains. -/
theorem define (ht : Tells h s) {f : FrameId} {x : String} {v : Value} {h' : History}
    (hf : f < s.next) (hsize : size h' = size h) (hchain : chain h' = chain h)
    (hstored : ∀ g y, stored h' g y = if g = f ∧ y = x then some v else stored h g y) :
    Tells h' (s.define f x v) := by
  refine ⟨?_, ?_, ?_, ?_⟩
  · rw [Scopes.next_define, ht.next, hsize]
  · intro g y
    rw [Scopes.own?_define hf, hstored, ht.own]
  · intro g hg
    rw [Scopes.next_define] at hg
    rw [Scopes.outer?_define, hchain, ht.links g hg]
  · intro g outer houter
    rw [Scopes.outer?_define] at houter
    exact ht.older g outer houter

/-- An assignment stores the value where the name is resolved, or changes nothing. -/
theorem assign (ht : Tells h s) (f : FrameId) (x : String) (v : Value) :
    Tells (.assign f x v :: h) (s.assign f x v).2 := by
  have howner := ht.owner?_eq f x
  unfold Scopes.assign
  cases ho : s.owner? f x with
  | none =>
    have hnone : resolve? h f x = none := by rw [← howner, ho]
    refine ⟨ht.next, fun g y => ?_, ht.links, ht.older⟩
    rw [ht.own, stored, if_neg]
    rintro ⟨-, hfound⟩
    exact absurd (hnone.symm.trans hfound) nofun
  | some owner =>
    have hsome : resolve? h f x = some owner := by rw [← howner, ho]
    obtain ⟨frame, hframe, -⟩ := s.binds_of_owner? x ho
    refine ht.define (Array.getElem?_eq_some_iff.1 hframe).1 rfl rfl fun g y => ?_
    rw [stored]
    refine if_congr ?_ rfl rfl
    show y = x ∧ resolve? h f x = some g ↔ g = owner ∧ y = x
    rw [hsome, Option.some_inj, and_comm, eq_comm]

end Tells

/-- **At every point of a history the frames are as it tells.** -/
theorem Makes.tells (hs : Makes h s) : Tells h s := by
  induction hs with
  | start => exact .start
  | frame _ ho ih => exact ih.frame ho
  | define x v _ hf ih => exact ih.define hf rfl rfl fun _ _ => rfl
  | assign x v _ _ ih => exact ih.assign _ x v

/-! ## §3. What an edit changes. -/

section Changes

variable {f g : FrameId} {x y : String} {v : Value}

/-- No frame gains a name by an assignment. -/
theorem binds_assign_iff : Binds (.assign f x v :: h) g y ↔ Binds h g y := by
  rw [binds_cons_iff]
  exact ⟨fun hb => hb.resolve_left nofun, .inr⟩

/-- An assignment keeps what every name means. -/
theorem resolve?_assign : resolve? (.assign f x v :: h) g y = resolve? h g y := by
  unfold resolve?
  rw [chain]
  congr 1
  funext i
  rw [Bool.eq_iff_iff, isSome_stored_iff, isSome_stored_iff, binds_assign_iff]

/-- **An assignment changes the name for all frames that share it,** and nothing
else. -/
theorem value?_assign {owner : FrameId} (hf : resolve? h f x = some owner) :
    value? (.assign f x v :: h) g y =
      if y = x ∧ resolve? h g x = some owner then some v else value? h g y := by
  unfold value?
  rw [resolve?_assign]
  cases hg : resolve? h g y with
  | none =>
    rw [if_neg]
    · rfl
    · rintro ⟨rfl, hsome⟩
      exact absurd (hg.symm.trans hsome) nofun
  | some i =>
    rw [Option.bind_some, Option.bind_some, stored]
    refine if_congr ?_ rfl rfl
    show y = x ∧ resolve? h f x = some i ↔ y = x ∧ resolve? h g x = some owner
    refine and_congr_right ?_
    rintro rfl
    rw [hf, hg, eq_comm]

theorem binds_define_iff : Binds (.define f x v :: h) g y ↔ (g = f ∧ y = x) ∨ Binds h g y := by
  rw [binds_cons_iff]
  refine or_congr_left ⟨?_, ?_⟩
  · rintro ⟨w, heq⟩
    cases heq
    exact ⟨rfl, rfl⟩
  · rintro ⟨rfl, rfl⟩
    exact ⟨v, rfl⟩

/-- A frame that sees the frame of a definition finds the name there. -/
theorem resolve?_define_of_sees (hg : Sees h x g f) :
    resolve? (.define f x v :: h) g x = some f := by
  obtain ⟨inner, outer, hchain, hinner⟩ := hg
  unfold resolve?
  rw [chain, hchain, List.find?_append]
  cases hfound : inner.find? fun i => (stored (.define f x v :: h) i x).isSome with
  | some i =>
    have hsome := List.find?_some hfound
    rcases binds_define_iff.1 (isSome_stored_iff.1 hsome) with ⟨rfl, -⟩ | hbinds
    · rfl
    · exact absurd hbinds (hinner i (List.mem_of_find?_eq_some hfound))
  | none =>
    have hself : (stored (.define f x v :: h) f x).isSome = true :=
      isSome_stored_iff.2 (binds_define_iff.2 (.inl ⟨rfl, rfl⟩))
    rw [Option.none_or, List.find?_cons, hself]

/-- To all other frames and names a definition means nothing. -/
theorem resolve?_define_of_not_sees (hg : ¬ (y = x ∧ Sees h x g f)) :
    resolve? (.define f x v :: h) g y = resolve? h g y := by
  cases hr : resolve? (.define f x v :: h) g y with
  | none =>
    have hnone : resolve? h g y = none := resolve?_eq_none_iff.2 fun i hi hbinds =>
      resolve?_eq_none_iff.1 hr i hi (binds_define_iff.2 (.inr hbinds))
    exact hnone.symm
  | some i =>
    obtain ⟨hbinds, inner, outer, hchain, hinner⟩ := resolve?_eq_some_iff.1 hr
    have hsees : Sees h y g i :=
      ⟨inner, outer, hchain, fun j hj hb => hinner j hj (binds_define_iff.2 (.inr hb))⟩
    rcases binds_define_iff.1 hbinds with ⟨rfl, rfl⟩ | hbinds
    · exact absurd ⟨rfl, hsees⟩ hg
    · exact (resolve?_eq_some_iff.2 ⟨hbinds, hsees⟩).symm

/-- **A definition changes the name for all frames that see its frame,** and nothing
else. -/
theorem value?_define_of_sees (hg : Sees h x g f) :
    value? (.define f x v :: h) g x = some v := by
  unfold value?
  rw [resolve?_define_of_sees hg, Option.bind_some, stored, if_pos ⟨rfl, rfl⟩]

theorem value?_define_of_not_sees (hg : ¬ (y = x ∧ Sees h x g f)) :
    value? (.define f x v :: h) g y = value? h g y := by
  unfold value?
  rw [resolve?_define_of_not_sees hg]
  cases hr : resolve? h g y with
  | none => rfl
  | some i =>
    rw [Option.bind_some, Option.bind_some, stored, if_neg]
    rintro ⟨rfl, rfl⟩
    exact hg ⟨rfl, (resolve?_eq_some_iff.1 hr).2⟩

end Changes

end History

open History

/-- **The laws of names in a tree of frames.** After any history of edits, for every
frame `f`, name `x` and value `v`:

  • a lookup fails if and only if no frame on the chain of `f` binds the name, and
    otherwise gives the value that was last stored in the first frame that does;
  • an assignment fails if and only if a lookup does, and then changes nothing;
  • an assignment that succeeds changes what a lookup of the same name gives in
    all frames that resolve it to the same frame as `f`, and no other lookup; no
    frame gains or loses a name;
  • a definition changes what a lookup of the same name gives in all frames whose
    chain comes to `f` before any frame that binds the name, and no other lookup. -/
theorem names_follow_the_history {h : History} {s : Scopes} (hs : h.Makes s) {f : FrameId}
    (hf : f < s.next) (x : String) (v : Value) :
    ((s.get? f x = none ↔ ∀ g ∈ h.chain f, ¬ h.Binds g x) ∧
      ∀ inner g outer, h.chain f = inner ++ g :: outer → (∀ i ∈ inner, ¬ h.Binds i x) →
        h.Binds g x → ∃ w, h.stored g x = some w ∧ s.get? f x = some w) ∧
    (((s.assign f x v).1 = false ↔ s.get? f x = none) ∧
      ((s.assign f x v).1 = false → (s.assign f x v).2 = s)) ∧
    ((s.assign f x v).1 = true →
      (∀ g y,
        (y = x ∧ h.resolve? g x = h.resolve? f x → (s.assign f x v).2.get? g y = some v) ∧
        (¬ (y = x ∧ h.resolve? g x = h.resolve? f x) →
          (s.assign f x v).2.get? g y = s.get? g y)) ∧
      ∀ g y, ((s.assign f x v).2.own? g y).isSome = (s.own? g y).isSome) ∧
    ∀ g y,
      (y = x ∧ h.Sees x g f → (s.define f x v).get? g y = some v) ∧
      (¬ (y = x ∧ h.Sees x g f) → (s.define f x v).get? g y = s.get? g y) := by
  have ht := hs.tells
  have hassign := (hs.assign x v hf).tells
  have hdefine := (hs.define x v hf).tells
  have hfails : (s.assign f x v).1 = (h.resolve? f x).isSome := by
    unfold Scopes.assign
    rw [← ht.owner?_eq]
    cases s.owner? f x <;> rfl
  refine ⟨⟨?_, ?_⟩, ⟨?_, ?_⟩, ?_, ?_⟩
  · rw [ht.get?_eq, value?_eq_none_iff, resolve?_eq_none_iff]
  · intro inner g outer hchain hinner hbinds
    have hr : h.resolve? f x = some g :=
      resolve?_eq_some_iff.2 ⟨hbinds, inner, outer, hchain, hinner⟩
    rw [ht.get?_eq]
    exact value?_of_resolve? hr
  · rw [hfails, ht.get?_eq, value?_eq_none_iff, Option.isSome_eq_false_iff,
      Option.isNone_iff_eq_none]
  · rw [hfails, Option.isSome_eq_false_iff, Option.isNone_iff_eq_none]
    intro hnone
    unfold Scopes.assign
    rw [ht.owner?_eq, hnone]
  · rw [hfails, Option.isSome_iff_exists]
    rintro ⟨owner, hr⟩
    refine ⟨fun g y => ?_, fun g y => ?_⟩
    · rw [hassign.get?_eq, ht.get?_eq, value?_assign hr, hr]
      exact ⟨fun hshared => if_pos hshared, fun hapart => if_neg hapart⟩
    · rw [hassign.own, ht.own, Bool.eq_iff_iff, isSome_stored_iff, isSome_stored_iff]
      exact binds_assign_iff
  · intro g y
    rw [hdefine.get?_eq, ht.get?_eq]
    refine ⟨?_, value?_define_of_not_sees⟩
    rintro ⟨rfl, hsees⟩
    exact value?_define_of_sees hsees

/-- Two frames inside one, of which the second has a name of its own. -/
def twoChildren : History :=
  [.define 2 "a" (.bool false), .frame (some 0), .frame (some 0), .define 0 "a" .nil, .frame none]

theorem names_follow_the_history_two_children :
    ∃ s : Scopes, twoChildren.Makes s ∧ 1 < s.next ∧ s.get? 1 "a" = some .nil ∧
      (s.assign 1 "a" (.bool true)).2.get? 0 "a" = some (.bool true) ∧
      (s.assign 1 "a" (.bool true)).2.get? 2 "a" = s.get? 2 "a" := by
  have hmade : twoChildren.Makes (((((Scopes.empty.push ⟨[], none⟩).define 0 "a" .nil).push
      ⟨[], some 0⟩).push ⟨[], some 0⟩).define 2 "a" (.bool false)) :=
    .define _ _ (.frame (.frame (.define _ _ (.frame .start nofun) (by decide)) (by decide))
      (by decide)) (by decide)
  obtain ⟨⟨-, hget⟩, ⟨hfails, -⟩, hassign, -⟩ :=
    names_follow_the_history hmade (by decide : 1 < _) "a" (.bool true)
  obtain ⟨w, hw, hvalue⟩ := hget [1] 0 [] rfl (by simp [Binds, twoChildren])
    ⟨.nil, by simp [twoChildren]⟩
  cases hw
  have hdone := Bool.of_not_eq_false fun hnone => absurd (hvalue.symm.trans (hfails.1 hnone)) nofun
  obtain ⟨hchanged, -⟩ := hassign hdone
  exact ⟨_, hmade, by decide, hvalue, (hchanged 0 "a").1 ⟨rfl, rfl⟩,
    (hchanged 2 "a").2 fun hshared => absurd hshared.2 (by decide)⟩

end Lox
