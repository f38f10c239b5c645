/-
  Lox.Proofs.Names
  ────────────────────────────────
  **WHICH FRAMES GAIN NAMES.**

  Binding a name always acts on the frame in which code runs now, so a name can
  get into a frame that is there already only while this frame is the current
  one.  `m.Declares new m'` says what may lie between two machines: the current
  frame is the same, every frame of the first is in the second with the same
  enclosing frame and all its names, the current frame may have gained some of
  the names `new`, and no other frame has gained any.

  Evaluating an expression, executing a block and calling a function gain
  nothing at all: whatever is declared on the way is declared in frames made on
  the way (`declares_inFreshFrame`).  A statement gains at most the names of
  the declarations in it that no block and no function encloses.  All of this
  holds for every machine and every outcome.
-/
import Lox.Proofs.Keeps
import Lox.Proofs.Stored

namespace Lox

/-! ## §1. Declared names. -/

mutual

/-- The names that a statement may bind in the frame in which it is executed:
those of its declarations that no block and no function encloses. -/
def Stmt.declares : Stmt → List String
  | .var name _ | .function name _ _ => [name.lexeme]
  | .branch _ yes no => Stmt.declares yes ++ Stmt.declaresOption no
  | .loop _ body _ => Stmt.declares body
  | .expr _ | .print _ | .block _ | .give _ _ | .leave _ | .next _ => []
termination_by structural tree => tree

/-- The names that an optional branch may bind. -/
def Stmt.declaresOption : Option Stmt → List String
  | none => []
  | some s => Stmt.declares s
termination_by structural tree => tree

end

/-- What may have become of a frame: it has the same enclosing frame and all its
names, and at most some new ones. -/
structure Frame.Gains (new : List String) (before after : Frame) : Prop where
  enclosing : after.enclosing = before.enclosing
  kept : ∀ x, before.binds x = true → after.binds x = true
  gained : ∀ x, after.binds x = true → before.binds x = true ∨ x ∈ new

/-- The names that may have been bound in a frame while another one, or the same,
was the current one. -/
def namesFor (new : List String) (current f : FrameId) : List String :=
  if f = current then new else []

/-- **What may lie between two machines:** at most the names `new` have been
bound in the current frame, and none in the other frames. -/
structure Machine.Declares (new : List String) (m m' : Machine) : Prop where
  current : m'.current = m.current
  frame : ∀ f (before : Frame), m.scopes.frames[f]? = some before →
    ∃ after, m'.scopes.frames[f]? = some after ∧
      before.Gains (namesFor new m.current f) after

/-- Every frame of a machine has the same names and the same enclosing frame in
another one. -/
def Machine.SameNames (m m' : Machine) : Prop :=
  ∀ (f : FrameId) (before : Frame), m.scopes.frames[f]? = some before →
    ∃ after : Frame, m'.scopes.frames[f]? = some after ∧ after.enclosing = before.enclosing ∧
      ∀ x, after.binds x = before.binds x

namespace Frame.Gains

variable {new other : List String} {a b c : Frame}

theorem refl (new : List String) (a : Frame) : a.Gains new a := ⟨rfl, fun _ h => h, fun _ => .inl⟩

theorem trans (h : a.Gains new b) (g : b.Gains new c) : a.Gains new c where
  enclosing := g.enclosing.trans h.enclosing
  kept := fun x hx => g.kept x (h.kept x hx)
  gained := by
    intro x hx
    rcases g.gained x hx with hx | hx
    · exact h.gained x hx
    · exact .inr hx

theorem mono (h : a.Gains new b) (hsub : new ⊆ other) : a.Gains other b :=
  ⟨h.enclosing, h.kept, fun x hx => (h.gained x hx).imp_right (hsub ·)⟩

/-- A frame that gains nothing binds the same names. -/
theorem binds_eq (h : a.Gains [] b) (x : String) : b.binds x = a.binds x := by
  have gained : b.binds x = true → a.binds x = true := by
    intro hx
    rcases h.gained x hx with hx | hx
    · exact hx
    · cases hx
  exact Bool.eq_iff_iff.2 ⟨gained, h.kept x⟩

end Frame.Gains

theorem namesFor_mono {new other : List String} (h : new ⊆ other) (current f : FrameId) :
    namesFor new current f ⊆ namesFor other current f := by
  unfold namesFor
  split
  · exact h
  · exact List.Subset.refl _

theorem namesFor_nil (current f : FrameId) : namesFor [] current f = [] := by
  unfold namesFor
  split <;> rfl

namespace Machine.Declares

variable {new other : List String} {m m' m'' : Machine}

theorem refl (new : List String) (m : Machine) : m.Declares new m :=
  ⟨rfl, fun _ before h => ⟨before, h, .refl _ before⟩⟩

theorem trans (h : m.Declares new m') (g : m'.Declares new m'') : m.Declares new m'' where
  current := g.current.trans h.current
  frame := by
    intro f before hf
    obtain ⟨middle, hmiddle, hfirst⟩ := h.frame f before hf
    obtain ⟨after, hafter, hsecond⟩ := g.frame f middle hmiddle
    rw [h.current] at hsecond
    exact ⟨after, hafter, hfirst.trans hsecond⟩

theorem mono (h : m.Declares new m') (hsub : new ⊆ other) : m.Declares other m' where
  current := h.current
  frame := by
    intro f before hf
    obtain ⟨after, hafter, hgains⟩ := h.frame f before hf
    exact ⟨after, hafter, hgains.mono (namesFor_mono hsub m.current f)⟩

theorem sameNames (h : m.Declares [] m') : m.SameNames m' := by
  intro f before hf
  obtain ⟨after, hafter, hgains⟩ := h.frame f before hf
  rw [namesFor_nil] at hgains
  exact ⟨after, hafter, hgains.enclosing, hgains.binds_eq⟩

/-- The names of frames do not depend on what is printed, read or counted. -/
theorem of_scopes_eq (hc : m'.current = m.current) (hs : m'.scopes = m.scopes) :
    m.Declares new m' := by
  refine ⟨hc, fun f before hf => ⟨before, ?_, .refl _ before⟩⟩
  rw [hs]
  exact hf

end Machine.Declares

/-! ## §2. Frames. -/

theorem Frame.binds_bind (frame : Frame) (name : String) (v : Value) (x : String) :
    ({ frame with bindings := frame.bindings.bind name v } : Frame).binds x =
      (decide (x = name) || frame.binds x) := by
  unfold Frame.binds
  by_cases hx : x = name
  · subst hx
    simp [Bindings.get?_bind_self]
  · simp [Bindings.get?_bind_of_ne hx, hx]

/-- Binding a name in a frame gains this name there. -/
theorem Scopes.gains_define (s : Scopes) (f : FrameId) (name : String) (v : Value) {g : FrameId}
    {before : Frame} (h : s.frames[g]? = some before) :
    ∃ after, (s.define f name v).frames[g]? = some after ∧
      before.Gains (namesFor [name] f g) after := by
  unfold Scopes.define
  rw [Array.getElem?_modify, h]
  by_cases hg : f = g
  · refine ⟨{ before with bindings := before.bindings.bind name v }, by simp [hg], rfl, ?_, ?_⟩
    · intro x hx
      rw [Frame.binds_bind, hx, Bool.or_true]
    · intro x hx
      rw [Frame.binds_bind, Bool.or_eq_true, decide_eq_true_eq] at hx
      rcases hx with hx | hx
      · subst hg
        subst hx
        exact .inr (by simp [namesFor])
      · exact .inl hx
  · exact ⟨before, by simp [hg], .refl _ before⟩

/-- The owner of a name binds it. -/
theorem Scopes.binds_of_owner? (s : Scopes) (name : String) {f owner : FrameId}
    (h : s.owner? f name = some owner) :
    ∃ frame, s.frames[owner]? = some frame ∧ frame.binds name = true := by
  induction f using Nat.strongRecOn with
  | ind f ih =>
    unfold Scopes.owner? at h
    cases hf : s.frames[f]? with
    | none =>
      rw [hf] at h
      cases h
    | some frame =>
      simp only [hf] at h
      by_cases hb : frame.binds name = true
      · rw [if_pos hb] at h
        cases h
        exact ⟨frame, hf, hb⟩
      · rw [if_neg hb] at h
        cases ho : frame.enclosing with
        | none =>
          rw [ho] at h
          cases h
        | some outer =>
          simp only [ho] at h
          by_cases hlt : outer < f
          · rw [if_pos hlt] at h
            exact ih outer hlt h
          · rw [if_neg hlt] at h
            cases h

/-- A name that no frame binds has no value, wherever it is looked up. -/
theorem Scopes.get?_eq_none (s : Scopes) (f : FrameId) {name : String}
    (h : ∀ frame ∈ s.frames, frame.binds name = false) : s.get? f name = none := by
  unfold Scopes.get?
  cases howner : s.owner? f name with
  | none => rfl
  | some owner =>
    obtain ⟨frame, hframe, hbinds⟩ := s.binds_of_owner? name howner
    rw [h frame (Array.mem_of_getElem? hframe)] at hbinds
    cases hbinds

/-- A frame that binds a name gains nothing when the name gets another value. -/
theorem Scopes.gains_assign (s : Scopes) (f : FrameId) (name : String) (v : Value) {g : FrameId}
    {before : Frame} (h : s.frames[g]? = some before) :
    ∃ after, (s.assign f name v).2.frames[g]? = some after ∧ before.Gains [] after := by
  unfold Scopes.assign
  cases ho : s.owner? f name with
  | none => exact ⟨before, h, .refl _ before⟩
  | some owner =>
    obtain ⟨after, hafter, hgains⟩ := s.gains_define owner name v h
    refine ⟨after, hafter, hgains.enclosing, hgains.kept, fun x hx => ?_⟩
    rcases hgains.gained x hx with hx | hx
    · exact .inl hx
    · -- The only name that could be new is one that the owner binds.
      unfold namesFor at hx
      split at hx
      · next hg =>
        obtain ⟨frame, hframe, hbinds⟩ := s.binds_of_owner? name ho
        rw [← hg, h] at hframe
        cases hframe
        rw [List.mem_singleton.1 hx]
        exact .inl hbinds
      · cases hx

/-! ## §3. Computations. -/

theorem Signal.all_true (signal : Signal) : signal.All fun _ => True := by
  cases signal <;> trivial

namespace Eval

variable {α β : Type} {new other : List String}

/-- **A computation binds at most these names in the frame in which it runs,** and
no name in any other frame that is there when it begins. -/
def Declares (new : List String) (p : Eval α) : Prop := ∀ m, (p m).After (m.Declares new)

/-- What a computation declares, it declares on top of what was declared before. -/
theorem Declares.keeps {p : Eval α} (h : p.Declares new) (hsub : new ⊆ other) (first : Machine) :
    p.Keeps (first.Declares other) (fun _ => True) fun _ => True := by
  intro m hm
  have hend := h m
  cases hp : p m with
  | done a m' =>
    rw [hp] at hend
    exact ⟨hm.trans (Machine.Declares.mono hend hsub), trivial⟩
  | failed failure m' =>
    rw [hp] at hend
    exact ⟨hm.trans (Machine.Declares.mono hend hsub), trivial⟩
  | exhausted => trivial

theorem Declares.of_keeps {p : Eval α} {Q : α → Prop}
    (h : ∀ first : Machine, p.Keeps (first.Declares new) (fun _ => True) Q) : p.Declares new := by
  intro m
  have hend := h m m (.refl new m)
  cases hp : p m with
  | done a m' =>
    rw [hp] at hend
    exact hend.1
  | failed failure m' =>
    rw [hp] at hend
    exact hend.1
  | exhausted => trivial

theorem Declares.mono {p : Eval α} (h : p.Declares new) (hsub : new ⊆ other) :
    p.Declares other := .of_keeps fun first => h.keeps hsub first

/-- **One computation after the other** declares what both declare. -/
theorem Declares.bind {p : Eval α} {k : α → Eval β} (hp : p.Declares new)
    (hk : ∀ a, (k a).Declares new) : (p >>= k).Declares new :=
  .of_keeps fun first => (hp.keeps (List.Subset.refl _) first).bind fun a _ =>
    (hk a).keeps (List.Subset.refl _) first

/-- What leaves the frames alone declares nothing. -/
theorem declares_of_scopes {p : Eval α}
    (h : ∀ m, (p m).After fun m' => m'.current = m.current ∧ m'.scopes = m.scopes) :
    p.Declares new :=
  fun m => (h m).mono fun _ hend => .of_scopes_eq hend.1 hend.2

theorem pure_declares (a : α) : (pure a : Eval α).Declares new := fun m => .refl new m

theorem fail_declares (failure : Failure) : (fail failure : Eval α).Declares new :=
  fun m => .refl new m

theorem exhausted_declares : (exhausted : Eval α).Declares new := fun _ => trivial

theorem ofExcept_declares (r : Except Failure α) : (ofExcept r).Declares new := by
  cases r with
  | ok a => exact pure_declares a
  | error failure => exact fail_declares failure

theorem relocating_declares {p : Eval α} (hp : p.Declares new) (line : Nat) :
    (relocating line p).Declares new :=
  .of_keeps fun first => (hp.keeps (List.Subset.refl _) first).relocating line fun _ _ => trivial

theorem attempt_declares {p : Eval α} (hp : p.Declares new) : p.attempt.Declares new :=
  .of_keeps (Q := fun _ => True) fun first =>
    (hp.keeps (List.Subset.refl _) first).attempt (fun _ _ => trivial) fun _ _ => trivial

theorem get_declares (name : Token) : (get name).Declares new := by
  apply declares_of_scopes
  intro m
  unfold get
  cases m.scopes.get? m.current name.lexeme with
  | some v => exact ⟨rfl, rfl⟩
  | none => exact ⟨rfl, rfl⟩

theorem assign_declares (name : Token) (v : Value) : (assign name v).Declares new := by
  intro m
  have hgains : ∀ f (before : Frame), m.scopes.frames[f]? = some before → ∃ after,
      (m.scopes.assign m.current name.lexeme v).2.frames[f]? = some after ∧
        before.Gains (namesFor new m.current f) after := by
    intro f before hf
    obtain ⟨after, hafter, hgains⟩ := m.scopes.gains_assign m.current name.lexeme v hf
    exact ⟨after, hafter, hgains.mono (List.nil_subset _)⟩
  unfold assign
  rcases hassign : m.scopes.assign m.current name.lexeme v with ⟨found, scopes⟩
  rw [hassign] at hgains
  cases found with
  | true => exact ⟨rfl, hgains⟩
  | false => exact ⟨rfl, hgains⟩

/-- Binding a name is where a frame gains one. -/
theorem define_declares (name : String) (v : Value) : (define name v).Declares [name] :=
  fun m => ⟨rfl, fun _ _ hf => m.scopes.gains_define m.current name v hf⟩

theorem current_declares : current.Declares new := fun m => .refl new m

theorem newClosure_declares (name : Option String) (parameters : List Token) (body : List Stmt)
    (frame : FrameId) : (newClosure name parameters body frame).Declares new :=
  fun _ => .of_scopes_eq rfl rfl

theorem print_declares (v : Value) : (print v).Declares new := by
  apply declares_of_scopes
  intro m
  unfold print
  rcases m.output.writeLine v.chunks with ⟨taken, channel⟩
  cases taken with
  | true => exact ⟨rfl, rfl⟩
  | false => exact ⟨rfl, rfl⟩

theorem readClock_declares (host : Host) : (readClock host).Declares new :=
  fun _ => .of_scopes_eq rfl rfl

/-- A computation in another frame ends in the frame in which it began. -/
theorem after_inFrame {p : Eval α} {P : Machine → Prop} {frame : FrameId} {m : Machine}
    (h : (p { m with current := frame }).After fun m' => P { m' with current := m.current }) :
    (inFrame frame p m).After P := by
  unfold inFrame
  cases hp : p { m with current := frame } with
  | done a m' =>
    rw [hp] at h
    exact h
  | failed failure m' =>
    rw [hp] at h
    exact h
  | exhausted => trivial

/-- **What is declared in a frame made for it is declared in no frame that was
there before,** whatever it is. -/
theorem declares_inFreshFrame {p : FrameId → Eval α} (hp : ∀ frame, (p frame).Declares other)
    (enclosing : FrameId) (b : Bindings) :
    (newFrame enclosing b >>= fun frame => inFrame frame (p frame)).Declares new := by
  intro m
  apply after_inFrame (m := { m with scopes := m.scopes.push ⟨b, some enclosing⟩ })
  apply Outcome.After.mono (hp m.scopes.next _)
  intro m' hm
  refine ⟨rfl, fun f before hf => ?_⟩
  have hlt : f < m.scopes.next := (Array.getElem?_eq_some_iff.1 hf).1
  obtain ⟨after, hafter, hgains⟩ :=
    hm.frame f before ((m.scopes.getElem?_push_of_lt _ hlt).trans hf)
  -- The frame in which the names are declared is not the one that was there.
  have hnone : namesFor other m.scopes.next f = [] := if_neg (Nat.ne_of_lt hlt)
  rw [show namesFor other _ f = [] from hnone] at hgains
  exact ⟨after, hafter, hgains.mono (List.nil_subset _)⟩

/-! ## §4. Combinators. -/

section Combinators

variable {ev : Expr → Eval Value} {ex : Stmt → Eval Signal} {host : Host}

theorem values_declares (he : ∀ e, (ev e).Declares []) (es : List Expr) :
    (values ev es).Declares [] :=
  .of_keeps fun first => values_keeps (P := fun _ => True) fun e _ =>
    (he e).keeps (List.Subset.refl _) first

theorem valueOrNil_declares (he : ∀ e, (ev e).Declares []) (o : Option Expr) :
    (valueOrNil ev o).Declares [] := by
  cases o with
  | none => exact pure_declares _
  | some e => exact he e

/-- Statements in a row declare what any of them declares. -/
theorem sequence_declares (hs : ∀ s, (ex s).Declares s.declares) (ss : List Stmt) :
    (sequence ex ss).Declares (ss.flatMap Stmt.declares) := by
  refine .of_keeps fun first => sequence_keeps (P := fun _ => True) fun s hmem => ?_
  have hsub : s.declares ⊆ ss.flatMap Stmt.declares :=
    fun x hx => List.mem_flatMap.2 ⟨s, hmem, hx⟩
  exact ((hs s).keeps hsub first).mono fun signal _ => signal.all_true

/-- A loop declares what its body declares. -/
theorem rounds_declares {condition : Eval Value} {body : Eval Signal} {step : Eval Unit}
    (hc : condition.Declares []) (hb : body.Declares new) (ht : step.Declares []) (n : Nat) :
    (rounds condition body step n).Declares new :=
  .of_keeps fun first => rounds_keeps (P := fun _ => True) (hc.keeps (List.nil_subset _) first)
    ((hb.keeps (List.Subset.refl _) first).mono fun signal _ => signal.all_true)
    (ht.keeps (List.nil_subset _) first) n

theorem loopStep_declares (he : ∀ e, (ev e).Declares []) (increment : Bool) (body : Stmt) :
    (loopStep ev increment body).Declares [] := by
  unfold loopStep
  cases increment with
  | false => exact pure_declares ()
  | true =>
    cases body with
    | block statements =>
      simp only [if_true]
      cases statements.getLast? with
      | none => exact fail_declares _
      | some last =>
        cases last with
        | expr value => exact (he value).bind fun _ => pure_declares ()
        | _ => exact fail_declares _
    | _ => exact fail_declares _

/-- A call runs in a frame of its own. -/
theorem enter_declares (hs : ∀ s, (ex s).Declares s.declares) (c : Closure) (vs : List Value) :
    (enter ex c vs).Declares [] := by
  have hbody : (newFrame c.frame (Bindings.ofLists c.parameters vs) >>= fun frame =>
      inFrame frame (sequence ex c.body)).Declares [] :=
    declares_inFreshFrame (fun _ => sequence_declares hs c.body) c.frame _
  -- The frame is made, the body is run and its signal is read: one after the other.
  have hall : ∀ k : Signal → Eval Value, (∀ signal, (k signal).Declares []) →
      (newFrame c.frame (Bindings.ofLists c.parameters vs) >>= fun frame =>
        inFrame frame (sequence ex c.body) >>= k).Declares [] :=
    fun k hk m => hbody.bind hk m
  unfold enter
  refine hall _ fun signal => ?_
  cases signal <;> exact pure_declares _

theorem perform_declares (hs : ∀ s, (ex s).Declares s.declares) (a : Action) :
    (perform host (enter ex) a).Declares [] := by
  induction a with
  | give value => exact pure_declares value
  | raise fault => exact fail_declares _
  | abort text => exact fail_declares _
  | readClock next ih => exact (readClock_declares host).bind ih
  | call closure arguments next ih =>
    exact (attempt_declares (enter_declares hs closure arguments)).bind ih

theorem call_declares (hs : ∀ s, (ex s).Declares s.declares) (callee : Value) (paren : Token)
    (vs : List Value) : (call host ex callee paren vs).Declares [] := by
  unfold call
  split
  · split
    · exact enter_declares hs _ vs
    · exact fail_declares _
  · split
    · exact relocating_declares (perform_declares hs _) paren.line
    · exact fail_declares _
  · exact fail_declares _

/-- A function with a name is bound in a frame of its own. -/
theorem functionValue_declares (name : Option Token) (parameters : List Token)
    (body : List Stmt) : (functionValue name parameters body).Declares [] := by
  unfold functionValue
  cases name with
  | none => exact current_declares.bind fun frame => newClosure_declares none parameters body frame
  | some own =>
    refine current_declares.bind fun outer => ?_
    have hinner : ∀ frame, (newClosure (some own.lexeme) parameters body frame >>= fun v =>
        define own.lexeme v >>= fun _ => pure v).Declares [own.lexeme] := by
      intro frame
      refine (newClosure_declares _ parameters body frame).bind fun v => ?_
      exact (define_declares own.lexeme v).bind fun _ => pure_declares v
    -- Making the function does not look at the current frame.
    exact fun m => declares_inFreshFrame hinner outer [] m

end Combinators

/-! ## §5. Expressions and statements. -/

/-- At a bound, no expression declares anything, and a statement declares no more
than its own declarations. -/
structure DeclaresAt (host : Host) (n : Nat) : Prop where
  evaluate : ∀ e, (evaluate host n e).Declares []
  execute : ∀ s : Stmt, (execute host n s).Declares s.declares

variable {host : Host} {n : Nat}

/-- One level of an expression. -/
theorem DeclaresAt.evaluate_succ (ih : DeclaresAt host n) (e : Expr) :
    (Eval.evaluate host (n + 1) e).Declares [] := by
  cases e with
  | literal value =>
    rw [Eval.evaluate]
    exact pure_declares _
  | group inner =>
    rw [Eval.evaluate]
    exact ih.evaluate inner
  | name token =>
    rw [Eval.evaluate]
    exact get_declares token
  | assign target value =>
    rw [Eval.evaluate]
    refine (ih.evaluate value).bind fun v => ?_
    exact (assign_declares target v).bind fun _ => pure_declares v
  | unary operator operand =>
    rw [Eval.evaluate]
    exact (ih.evaluate operand).bind fun v => ofExcept_declares _
  | binary left operator right =>
    rw [Eval.evaluate]
    refine (ih.evaluate left).bind fun l => ?_
    exact (ih.evaluate right).bind fun r => ofExcept_declares _
  | logical left operator right =>
    rw [Eval.evaluate]
    refine (ih.evaluate left).bind fun l => (ofExcept_declares _).bind fun decided => ?_
    cases decided with
    | true => exact pure_declares l
    | false => exact ih.evaluate right
  | call callee paren arguments =>
    rw [Eval.evaluate]
    refine (ih.evaluate callee).bind fun f => ?_
    refine (values_declares ih.evaluate arguments).bind fun vs => ?_
    exact call_declares ih.execute f paren vs
  | function own parameters body =>
    rw [Eval.evaluate]
    exact functionValue_declares own parameters body
  | pipe left operator right =>
    rw [Eval.evaluate]
    exact fail_declares _

/-- One level of a statement. -/
theorem DeclaresAt.execute_succ (ih : DeclaresAt host n) (s : Stmt) :
    (Eval.execute host (n + 1) s).Declares s.declares := by
  cases s with
  | expr value =>
    rw [Eval.execute]
    exact (ih.evaluate value).bind fun _ => pure_declares _
  | print value =>
    rw [Eval.execute]
    exact (ih.evaluate value).bind fun v => (print_declares v).bind fun _ => pure_declares _
  | var name initial =>
    rw [Eval.execute]
    -- The first value is there before the name is bound.
    refine ((valueOrNil_declares ih.evaluate initial).mono (List.nil_subset _)).bind fun v => ?_
    exact (define_declares name.lexeme v).bind fun _ => pure_declares _
  | block body =>
    rw [Eval.execute]
    refine current_declares.bind fun outer => ?_
    exact declares_inFreshFrame (fun _ => sequence_declares ih.execute body) outer []
  | branch condition yes no =>
    rw [Eval.execute.eq_def]
    refine ((ih.evaluate condition).mono (List.nil_subset _)).bind fun v => ?_
    by_cases hv : v.isTruthy = true
    · rw [if_pos hv]
      exact (ih.execute yes).mono (List.subset_append_left _ _)
    · rw [if_neg hv]
      cases no with
      | none => exact pure_declares _
      | some other => exact (ih.execute other).mono (List.subset_append_right _ _)
  | loop condition body increment =>
    rw [Eval.execute]
    exact rounds_declares (ih.evaluate condition) (ih.execute body)
      (loopStep_declares ih.evaluate increment body) n
  | function name parameters body =>
    rw [Eval.execute]
    refine current_declares.bind fun frame => ?_
    refine (newClosure_declares _ parameters body frame).bind fun v => ?_
    exact (define_declares name.lexeme v).bind fun _ => pure_declares _
  | give keyword value =>
    rw [Eval.execute]
    exact (valueOrNil_declares ih.evaluate value).bind fun v => pure_declares _
  | leave keyword =>
    rw [Eval.execute]
    exact pure_declares _
  | next keyword =>
    rw [Eval.execute]
    exact pure_declares _

/-- **Expressions declare nothing and statements what stands in them,** at every
bound. -/
theorem declaresAt (host : Host) (n : Nat) : DeclaresAt host n := by
  induction n with
  | zero =>
    constructor
    · intro e
      rw [Eval.evaluate]
      exact exhausted_declares
    · intro s
      rw [Eval.execute]
      exact exhausted_declares
  | succ n ih => exact ⟨ih.evaluate_succ, ih.execute_succ⟩

theorem flush_declares {new : List String} : flush.Declares new := by
  apply declares_of_scopes
  intro m
  unfold flush
  split <;> exact ⟨rfl, rfl⟩

/-- A program declares what its statements declare. -/
theorem runProgram_declares (host : Host) (bound : Nat) (program : List Stmt) :
    (runProgram host bound program).Declares (program.flatMap Stmt.declares) := by
  have hall : (doAll (execute host bound) program).Declares (program.flatMap Stmt.declares) := by
    refine .of_keeps fun first => doAll_keeps (P := fun _ => True) fun s hmem => ?_
    have hsub : s.declares ⊆ program.flatMap Stmt.declares :=
      fun x hx => List.mem_flatMap.2 ⟨s, hmem, hx⟩
    exact (((declaresAt host bound).execute s).keeps hsub first).mono fun signal _ =>
      signal.all_true
  exact hall.bind fun _ => flush_declares

/-- A call without a look at the number of arguments, as a host function makes
it. -/
theorem invoke_declares {ex : Stmt → Eval Signal} (hs : ∀ s, (ex s).Declares s.declares)
    {callee : Value} {arguments : List Value} {p : Eval Value}
    (h : invoke host ex callee arguments = some p) : p.Declares [] := by
  unfold invoke at h
  cases callee with
  | function closure =>
    cases h
    exact enter_declares hs closure arguments
  | native n =>
    cases h
    exact perform_declares hs (host.act n arguments)
  | _ => cases h

end Eval

/-- **No name leaks out of a scope.** On every machine and with every outcome,
evaluating an expression, executing a block, calling a value and running a
function of the program leave every frame that was there with the same names and
the same enclosing frame.  Executing any statement leaves the frames other than
the current one with the same names, and the current one gains only names that
declarations of the statement outside of blocks and functions bind. -/
theorem names_stay_in_scope (host : Host) (bound : Nat) (m : Machine) :
    (∀ e, (Eval.evaluate host bound e m).After m.SameNames) ∧
      (∀ body, (Eval.execute host bound (.block body) m).After m.SameNames) ∧
      (∀ callee paren arguments,
        (Eval.call host (Eval.execute host bound) callee paren arguments m).After m.SameNames) ∧
      (∀ closure arguments,
        (Eval.enter (Eval.execute host bound) closure arguments m).After m.SameNames) ∧
      ∀ s : Stmt, (Eval.execute host bound s m).After (m.Declares s.declares) := by
  have hat := Eval.declaresAt host bound
  refine ⟨fun e => ?_, fun body => ?_, fun callee paren arguments => ?_,
    fun closure arguments => ?_, fun s => hat.execute s m⟩
  · exact (hat.evaluate e m).mono fun _ h => h.sameNames
  · exact (hat.execute (.block body) m).mono fun _ h => h.sameNames
  · exact (Eval.call_declares hat.execute callee paren arguments m).mono fun _ h => h.sameNames
  · exact (Eval.enter_declares hat.execute closure arguments m).mono fun _ h => h.sameNames

end Lox
