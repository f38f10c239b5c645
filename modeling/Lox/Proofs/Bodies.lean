/-
  Lox.Proofs.Bodies
  ────────────────────────────────
  **MACHINES THAT DIFFER IN FUNCTION BODIES.**

  Take a map `f` of function bodies and apply it to every function that a
  machine holds.  The machine looks at bodies only when it runs them: printing,
  comparing, calling and looking up names come out the same.  So two
  computations go side by side if the second does on the changed machine what
  the first does on the machine, `p.Mirrors f g q`:

      q (m.mapBodies f)  =  (p m), with its value under `g` and its machine
                            under `mapBodies f`

  Failures and running into the bound are part of the equation.  Every operation
  of the machine mirrors itself (§4), every combinator mirrors itself if its
  parts do (§5), and a host function does if it treats functions alike that
  differ in their bodies only (`Action.Mirrors`).
-/
import Lox.Eval
import Lox.Proofs.Stored

namespace Lox

/-! ## §1. Another body for every function. -/

section Maps

variable (f : List Stmt → List Stmt)

/-- A function with another body. -/
def Closure.mapBody (c : Closure) : Closure := { c with body := f c.body }

/-- A value with another body, if it is a function of the program. -/
def Value.mapBody : Value → Value
  | .function closure => .function (closure.mapBody f)
  | v => v

/-- Bindings with other function bodies. -/
def Bindings.mapBodies (b : Bindings) : Bindings := b.map fun p => (p.1, p.2.mapBody f)

/-- A frame with other function bodies. -/
def Frame.mapBodies (frame : Frame) : Frame :=
  { frame with bindings := Bindings.mapBodies f frame.bindings }

/-- Frames with other function bodies. -/
def Scopes.mapBodies (s : Scopes) : Scopes := ⟨s.frames.map (Frame.mapBodies f)⟩

/-- A machine with other function bodies. -/
def Machine.mapBodies (m : Machine) : Machine := { m with scopes := m.scopes.mapBodies f }

/-- A signal with another function body in its value. -/
def Signal.mapBody : Signal → Signal
  | .give value => .give (value.mapBody f)
  | signal => signal

/-- An outcome with another value, and other function bodies in its machine. -/
def Outcome.mapBodies {α β : Type} (g : α → β) : Outcome α → Outcome β
  | .done a m => .done (g a) (m.mapBodies f)
  | .failed failure m => .failed failure (m.mapBodies f)
  | .exhausted => .exhausted

end Maps

variable {f : List Stmt → List Stmt}

theorem Outcome.mapBodies_ne_exhausted {α β : Type} {g : α → β} {o : Outcome α}
    (h : o ≠ .exhausted) : o.mapBodies f g ≠ .exhausted := by
  intro hmap
  cases o with
  | done a m => cases hmap
  | failed failure m => cases hmap
  | exhausted => exact h rfl

/-! ## §2. Values do not depend on bodies. -/

namespace Value

@[simp] theorem mapBody_ofLiteral (l : Literal) : (ofLiteral l).mapBody f = ofLiteral l := by
  cases l <;> rfl

@[simp] theorem isTruthy_mapBody (v : Value) : (v.mapBody f).isTruthy = v.isTruthy := by
  cases v <;> rfl

@[simp] theorem chunks_mapBody (v : Value) : (v.mapBody f).chunks = v.chunks := by
  cases v with
  | function c =>
    obtain ⟨identity, name, parameters, body, frame⟩ := c
    cases name <;> rfl
  | _ => rfl

theorem equals_mapBody (v w : Value) : (v.mapBody f).equals (w.mapBody f) = v.equals w := by
  cases v <;> cases w <;> rfl

theorem onNumbers_mapBody (operator : Token) (v w : Value) {result : Float → Float → Value}
    (h : ∀ x y, (result x y).mapBody f = result x y) :
    onNumbers operator (v.mapBody f) (w.mapBody f) result =
      (onNumbers operator v w result).map (mapBody f) := by
  cases v <;> cases w <;> simp [onNumbers, mapBody, Except.map]
  exact (h _ _).symm

theorem binary_mapBody (v : Value) (operator : Token) (w : Value) :
    (v.mapBody f).binary operator (w.mapBody f) = (v.binary operator w).map (mapBody f) := by
  unfold binary
  split
  · cases v <;> cases w <;> rfl
  all_goals first
    | exact onNumbers_mapBody operator v w fun _ _ => rfl
    | rw [equals_mapBody]; rfl
    | rfl

theorem unary_mapBody (operator : Token) (v : Value) :
    (v.mapBody f).unary operator = (v.unary operator).map (mapBody f) := by
  unfold unary
  split
  · rw [isTruthy_mapBody]
    rfl
  · cases v <;> rfl
  · rfl

end Value

theorem Eval.decides_mapBody (operator : Token) (v : Value) :
    Eval.decides operator (v.mapBody f) = Eval.decides operator v := by
  unfold Eval.decides
  rw [Value.isTruthy_mapBody]

/-! ## §3. Neither do frames. -/

namespace Bindings

theorem get?_mapBodies (name : String) (b : Bindings) :
    get? name (b.mapBodies f) = (get? name b).map (Value.mapBody f) := by
  induction b with
  | nil => rfl
  | cons p rest ih =>
    show get? name ((p.1, p.2.mapBody f) :: mapBodies f rest) = _
    unfold get?
    by_cases h : p.1 = name
    · simp [h]
    · simp [h, ih]

theorem bind_mapBodies (name : String) (v : Value) (b : Bindings) :
    bind name (v.mapBody f) (b.mapBodies f) = (bind name v b).mapBodies f := by
  induction b with
  | nil => rfl
  | cons p rest ih =>
    show bind name (v.mapBody f) ((p.1, p.2.mapBody f) :: mapBodies f rest) = _
    unfold bind
    by_cases h : p.1 = name
    · simp [h, mapBodies]
    · simp only [h, if_false, ih]
      rfl

theorem ofLists_mapBodies (names : List String) (vs : List Value) :
    ofLists names (vs.map (Value.mapBody f)) = (ofLists names vs).mapBodies f := by
  have fold : ∀ (ps : List (String × Value)) (b : Bindings),
      (ps.map fun p => (p.1, p.2.mapBody f)).foldl (fun b p => bind p.1 p.2 b) (b.mapBodies f) =
        (ps.foldl (fun b p => bind p.1 p.2 b) b).mapBodies f := by
    intro ps
    induction ps with
    | nil => exact fun _ => rfl
    | cons p ps ih =>
      intro b
      rw [List.map_cons, List.foldl_cons, List.foldl_cons, bind_mapBodies, ih]
  have hzip : names.zip (vs.map (Value.mapBody f)) =
      (names.zip vs).map fun p => (p.1, p.2.mapBody f) := by
    rw [List.zip_map_right]
    rfl
  unfold ofLists
  rw [hzip]
  exact fold _ []

end Bindings

namespace Scopes

theorem getElem?_mapBodies (s : Scopes) (i : FrameId) :
    (s.mapBodies f).frames[i]? = (s.frames[i]?).map (Frame.mapBodies f) :=
  Array.getElem?_map ..

theorem binds_mapBodies (frame : Frame) (name : String) :
    (frame.mapBodies f).binds name = frame.binds name := by
  unfold Frame.binds Frame.mapBodies
  rw [Bindings.get?_mapBodies, Option.isSome_map]

theorem owner?_mapBodies (s : Scopes) (i : FrameId) (name : String) :
    (s.mapBodies f).owner? i name = s.owner? i name := by
  induction i using Nat.strongRecOn with
  | ind i ih =>
    unfold owner?
    rw [getElem?_mapBodies]
    cases s.frames[i]? with
    | none => rfl
    | some frame =>
      have henclosing : (frame.mapBodies f).enclosing = frame.enclosing := rfl
      simp only [Option.map_some, binds_mapBodies, henclosing]
      by_cases hb : frame.binds name = true
      · simp [hb]
      · simp only [hb, if_false, Bool.false_eq_true]
        cases frame.enclosing with
        | none => rfl
        | some outer =>
          by_cases ho : outer < i
          · simp only [ho, if_true, ih outer ho]
          · simp only [ho, if_false]

theorem get?_mapBodies (s : Scopes) (i : FrameId) (name : String) :
    (s.mapBodies f).get? i name = (s.get? i name).map (Value.mapBody f) := by
  unfold get?
  rw [owner?_mapBodies]
  cases s.owner? i name with
  | none => rfl
  | some owner =>
    show ((s.mapBodies f).frames[owner]?).bind _ = Option.map _ ((s.frames[owner]?).bind _)
    rw [getElem?_mapBodies]
    cases s.frames[owner]? with
    | none => rfl
    | some frame => exact Bindings.get?_mapBodies name frame.bindings

theorem define_mapBodies (s : Scopes) (i : FrameId) (name : String) (v : Value) :
    (s.mapBodies f).define i name (v.mapBody f) = (s.define i name v).mapBodies f := by
  unfold define mapBodies
  congr 1
  apply Array.ext_getElem?
  intro j
  simp only [Array.getElem?_modify, Array.getElem?_map]
  by_cases h : i = j
  · simp only [h, if_true, Option.map_map]
    congr 1
    funext frame
    exact congrArg (Frame.mk · frame.enclosing) (Bindings.bind_mapBodies name v frame.bindings)
  · simp only [h, if_false]

theorem assign_mapBodies (s : Scopes) (i : FrameId) (name : String) (v : Value) :
    (s.mapBodies f).assign i name (v.mapBody f) =
      ((s.assign i name v).1, (s.assign i name v).2.mapBodies f) := by
  unfold assign
  rw [owner?_mapBodies]
  cases s.owner? i name with
  | none => rfl
  | some owner => exact congrArg (Prod.mk true) (define_mapBodies s owner name v)

theorem push_mapBodies (s : Scopes) (frame : Frame) :
    (s.mapBodies f).push (frame.mapBodies f) = (s.push frame).mapBodies f := by
  unfold push mapBodies
  rw [Array.map_push]

theorem next_mapBodies (s : Scopes) : (s.mapBodies f).next = s.next := Array.size_map ..

/-- Frames whose functions have the bodies already are left alone. -/
theorem mapBodies_eq_self {s : Scopes} (h : s.All fun v => v.mapBody f = v) :
    s.mapBodies f = s := by
  have hframe : ∀ frame ∈ s.frames, frame.mapBodies f = frame := by
    intro frame hframe
    have hbindings : Bindings.mapBodies f frame.bindings = frame.bindings := by
      unfold Bindings.mapBodies
      conv => rhs; rw [← List.map_id frame.bindings]
      apply List.map_congr_left
      intro p hp
      exact congrArg (Prod.mk p.1) (h frame hframe p hp)
    exact congrArg (Frame.mk · frame.enclosing) hbindings
  unfold mapBodies
  have hframes : s.frames.map (Frame.mapBodies f) = s.frames := by
    conv => rhs; rw [← Array.map_id s.frames]
    exact Array.map_congr_left fun frame hmem => hframe frame hmem
  rw [hframes]

end Scopes

/-! ## §4. Computations side by side. -/

namespace Eval

variable {α β γ δ : Type} {g : α → β} {h : γ → δ}

/-- **One computation does on the changed machine what another one does on the
machine.** -/
def Mirrors (f : List Stmt → List Stmt) (g : α → β) (p : Eval α) (q : Eval β) : Prop :=
  ∀ m : Machine, q (m.mapBodies f) = (p m).mapBodies f g

theorem Mirrors.pure (a : α) : Mirrors f g (Pure.pure a) (Pure.pure (g a)) := fun _ => rfl

/-- **One computation after the other.** -/
theorem Mirrors.bind {p : Eval α} {q : Eval β} {k : α → Eval γ} {k' : β → Eval δ}
    (hp : p.Mirrors f g q) (hk : ∀ a, (k a).Mirrors f h (k' (g a))) :
    (p >>= k).Mirrors f h (q >>= k') := by
  intro m
  show Eval.bind q k' (m.mapBodies f) = (Eval.bind p k m).mapBodies f h
  unfold Eval.bind
  rw [hp m]
  cases p m with
  | done a m' => exact hk a m'
  | failed failure m' => rfl
  | exhausted => rfl

theorem Mirrors.fail (failure : Failure) :
    Mirrors f g (Eval.fail failure) (Eval.fail failure) := fun _ => rfl

theorem Mirrors.exhausted : Mirrors f g Eval.exhausted Eval.exhausted := fun _ => rfl

theorem Mirrors.ofExcept (r : Except Failure α) :
    Mirrors f g (Eval.ofExcept r) (Eval.ofExcept (r.map g)) := by
  cases r <;> exact fun _ => rfl

theorem Mirrors.relocating {p : Eval α} {q : Eval β} (hp : p.Mirrors f g q) (line : Nat) :
    (Eval.relocating line p).Mirrors f g (Eval.relocating line q) := by
  intro m
  unfold Eval.relocating
  rw [hp m]
  cases p m <;> rfl

theorem Mirrors.inFrame {p : Eval α} {q : Eval β} (hp : p.Mirrors f g q) (frame : FrameId) :
    (Eval.inFrame frame p).Mirrors f g (Eval.inFrame frame q) := by
  intro m
  have hm : q { m.mapBodies f with current := frame } = _ := hp { m with current := frame }
  unfold Eval.inFrame
  rw [hm]
  cases p { m with current := frame } <;> rfl

/-- A name has the same value, but for its body. -/
theorem get_mirrors (name : Token) : Mirrors f (Value.mapBody f) (get name) (get name) := by
  intro m
  have hget : (m.mapBodies f).scopes.get? (m.mapBodies f).current name.lexeme =
      (m.scopes.get? m.current name.lexeme).map (Value.mapBody f) :=
    Scopes.get?_mapBodies m.scopes m.current name.lexeme
  unfold get
  rw [hget]
  cases m.scopes.get? m.current name.lexeme <;> rfl

theorem assign_mirrors (name : Token) (v : Value) :
    Mirrors f id (assign name v) (assign name (v.mapBody f)) := by
  intro m
  have hassign : (m.mapBodies f).scopes.assign (m.mapBodies f).current name.lexeme (v.mapBody f) =
      ((m.scopes.assign m.current name.lexeme v).1,
        (m.scopes.assign m.current name.lexeme v).2.mapBodies f) :=
    Scopes.assign_mapBodies m.scopes m.current name.lexeme v
  unfold assign
  rw [hassign]
  obtain ⟨found, scopes⟩ := m.scopes.assign m.current name.lexeme v
  cases found <;> rfl

theorem define_mirrors (name : String) (v : Value) :
    Mirrors f id (define name v) (define name (v.mapBody f)) := by
  intro m
  show Outcome.done () _ = Outcome.done () _
  congr 1
  exact congrArg (fun s => { m with scopes := s }) (Scopes.define_mapBodies m.scopes _ name v)

theorem current_mirrors : Mirrors f id current current := fun _ => rfl

theorem newFrame_mirrors (enclosing : FrameId) (b : Bindings) :
    Mirrors f id (newFrame enclosing b) (newFrame enclosing (b.mapBodies f)) := by
  intro m
  show Outcome.done (m.scopes.mapBodies f).next _ = Outcome.done m.scopes.next _
  rw [Scopes.next_mapBodies]
  congr 1
  exact congrArg (fun s => { m with scopes := s })
    (Scopes.push_mapBodies m.scopes ⟨b, some enclosing⟩)

theorem newClosure_mirrors (name : Option String) (parameters : List Token) (body : List Stmt)
    (frame : FrameId) :
    Mirrors f (Value.mapBody f) (newClosure name parameters body frame)
      (newClosure name parameters (f body) frame) := fun _ => rfl

theorem print_mirrors (v : Value) : Mirrors f id (print v) (print (v.mapBody f)) := by
  intro m
  have houtput : (m.mapBodies f).output = m.output := rfl
  unfold print
  rw [Value.chunks_mapBody, houtput]
  obtain ⟨written, channel⟩ := m.output.writeLine v.chunks
  cases written <;> rfl

theorem flush_mirrors : Mirrors f id flush flush := by
  intro m
  have houtput : (m.mapBodies f).output = m.output := rfl
  unfold flush
  rw [houtput]
  cases m.output.flushFails <;> rfl

theorem readClock_mirrors (host : Host) : Mirrors f id (readClock host) (readClock host) :=
  fun _ => rfl

end Eval

/-! ## §5. Host functions. -/

/-- One action does to functions with other bodies what another one does to the
functions. -/
inductive Action.Mirrors (f : List Stmt → List Stmt) : Action → Action → Prop where
  | give (v : Value) : Mirrors f (.give v) (.give (v.mapBody f))
  | raise (fault : RuntimeFault) : Mirrors f (.raise fault) (.raise fault)
  | abort (text : String) : Mirrors f (.abort text) (.abort text)
  | readClock {next next' : Float → Action} (h : ∀ now, Mirrors f (next now) (next' now)) :
      Mirrors f (.readClock next) (.readClock next')
  | call (c : Closure) (vs : List Value) {next next' : Except Failure Value → Action}
      (h : ∀ answer, Mirrors f (next answer) (next' (answer.map (Value.mapBody f)))) :
      Mirrors f (.call c vs next) (.call (c.mapBody f) (vs.map (Value.mapBody f)) next')

/-- A host that does not look into the bodies of functions: what it does with
other bodies is what it does, with these bodies. -/
def Host.IgnoresBodies (host : Host) : Prop :=
  ∀ (f : List Stmt → List Stmt) (n : Native) (vs : List Value),
    Action.Mirrors f (host.act n vs) (host.act n (vs.map (Value.mapBody f)))

/-- A host does not look into bodies if none of its functions does. -/
theorem Host.ignoresBodies_of_functions {host : Host}
    (h : ∀ fn ∈ host.functions, ∀ (f : List Stmt → List Stmt) (vs : List Value),
      Action.Mirrors f (fn.act vs) (fn.act (vs.map (Value.mapBody f)))) :
    host.IgnoresBodies := by
  intro f n vs
  unfold Host.act
  cases hf : host.functions[n.identity]? with
  | none => exact .abort _
  | some fn => exact h fn (Array.mem_of_getElem? hf) f vs

theorem Host.standard_ignoresBodies (clock : Nat → Float) :
    (Host.standard clock).IgnoresBodies := by
  apply Host.ignoresBodies_of_functions
  intro fn hfn f vs
  have hclock : fn = .clock := by simpa [Host.standard] using hfn
  rw [hclock]
  refine .readClock fun now => ?_
  by_cases hbefore : now < 0
  · rw [if_pos hbefore]
    exact .abort _
  · rw [if_neg hbefore]
    exact .give (.number now)

namespace Eval

variable {α β : Type} {g : α → β} {host : Host}

theorem Mirrors.attempt {p : Eval α} {q : Eval β} (h : p.Mirrors f g q) :
    p.attempt.Mirrors f (Except.map g) q.attempt := by
  intro m
  show Eval.attempt q (m.mapBodies f) = (Eval.attempt p m).mapBodies f (Except.map g)
  unfold Eval.attempt
  rw [h m]
  cases p m with
  | done a m' => rfl
  | failed failure m' => rfl
  | exhausted => rfl

/-- What is done for a host function. -/
theorem perform_mirrors {call call' : Closure → List Value → Eval Value}
    (hc : ∀ c vs, (call c vs).Mirrors f (Value.mapBody f)
      (call' (c.mapBody f) (vs.map (Value.mapBody f))))
    {a a' : Action} (ha : Action.Mirrors f a a') :
    (perform host call a).Mirrors f (Value.mapBody f) (perform host call' a') := by
  induction ha with
  | give v => exact .pure v
  | raise fault => exact .fail _
  | abort text => exact .fail _
  | readClock _ ih => exact (readClock_mirrors host).bind ih
  | call c vs _ ih => exact (hc c vs).attempt.bind ih

/-! ## §6. Combinators. -/

section Combinators

variable {ev ev' : Expr → Eval Value} {ex ex' : Stmt → Eval Signal}

theorem values_mirrors {k : Expr → Expr}
    (he : ∀ e, (ev e).Mirrors f (Value.mapBody f) (ev' (k e))) (es : List Expr) :
    (values ev es).Mirrors f (List.map (Value.mapBody f)) (values ev' (es.map k)) := by
  induction es with
  | nil => exact .pure []
  | cons e es ih => exact (he e).bind fun v => ih.bind fun vs => .pure (v :: vs)

theorem valueOrNil_mirrors {k : Expr → Expr}
    (he : ∀ e, (ev e).Mirrors f (Value.mapBody f) (ev' (k e))) (o : Option Expr) :
    (valueOrNil ev o).Mirrors f (Value.mapBody f) (valueOrNil ev' (o.map k)) := by
  cases o with
  | none => exact .pure Value.nil
  | some e => exact he e

theorem sequence_mirrors {k : Stmt → Stmt}
    (hs : ∀ s, (ex s).Mirrors f (Signal.mapBody f) (ex' (k s))) (ss : List Stmt) :
    (sequence ex ss).Mirrors f (Signal.mapBody f) (sequence ex' (ss.map k)) := by
  induction ss with
  | nil => exact .pure Signal.next
  | cons s ss ih =>
    refine (hs s).bind fun signal => ?_
    cases signal with
    | next => exact ih
    | give v => exact .pure (Signal.give v)
    | leave => exact .pure Signal.leave
    | skip => exact .pure Signal.skip

theorem doAll_mirrors {k : Stmt → Stmt}
    (hs : ∀ s, (ex s).Mirrors f (Signal.mapBody f) (ex' (k s))) (ss : List Stmt) :
    (doAll ex ss).Mirrors f id (doAll ex' (ss.map k)) := by
  induction ss with
  | nil => exact .pure ()
  | cons s ss ih => exact (hs s).bind fun _ => ih

theorem rounds_mirrors {condition condition' : Eval Value} {body body' : Eval Signal}
    {step step' : Eval Unit} (hc : condition.Mirrors f (Value.mapBody f) condition')
    (hb : body.Mirrors f (Signal.mapBody f) body') (ht : step.Mirrors f id step') (n : Nat) :
    (rounds condition body step n).Mirrors f (Signal.mapBody f)
      (rounds condition' body' step' n) := by
  induction n with
  | zero => exact .exhausted
  | succ n ih =>
    refine hc.bind fun v => ?_
    rw [Value.isTruthy_mapBody]
    by_cases hv : v.isTruthy = true
    · rw [if_pos hv, if_pos hv]
      refine hb.bind fun signal => ?_
      cases signal with
      | next => exact ih
      | give v => exact .pure (Signal.give v)
      | leave => exact .pure Signal.next
      | skip => exact ht.bind fun _ => ih
    · rw [if_neg hv, if_neg hv]
      exact .pure Signal.next

/-- A function is run with the other body. -/
theorem enter_mirrors
    (hs : ∀ ss, (sequence ex ss).Mirrors f (Signal.mapBody f) (sequence ex' (f ss)))
    (c : Closure) (vs : List Value) :
    (enter ex c vs).Mirrors f (Value.mapBody f)
      (enter ex' (c.mapBody f) (vs.map (Value.mapBody f))) := by
  have hframe := newFrame_mirrors (f := f) c.frame (Bindings.ofLists c.parameters vs)
  rw [← Bindings.ofLists_mapBodies] at hframe
  refine hframe.bind fun frame => ((hs c.body).inFrame frame).bind fun signal => ?_
  cases signal with
  | give v => exact .pure v
  | next => exact .pure Value.nil
  | leave => exact .pure Value.nil
  | skip => exact .pure Value.nil

theorem call_mirrors (hh : host.IgnoresBodies)
    (hs : ∀ ss, (sequence ex ss).Mirrors f (Signal.mapBody f) (sequence ex' (f ss)))
    (callee : Value) (paren : Token) (vs : List Value) :
    (call host ex callee paren vs).Mirrors f (Value.mapBody f)
      (call host ex' (callee.mapBody f) paren (vs.map (Value.mapBody f))) := by
  cases callee with
  | function c =>
    show Mirrors f _ (if vs.length = c.parameters.length then _ else _)
      (if (vs.map (Value.mapBody f)).length = c.parameters.length then _ else _)
    rw [List.length_map]
    by_cases hn : vs.length = c.parameters.length
    · rw [if_pos hn, if_pos hn]
      exact enter_mirrors hs c vs
    · rw [if_neg hn, if_neg hn]
      exact .fail _
  | native n =>
    show Mirrors f _ (if vs.length = n.arity then _ else _)
      (if (vs.map (Value.mapBody f)).length = n.arity then _ else _)
    rw [List.length_map]
    by_cases hn : vs.length = n.arity
    · rw [if_pos hn, if_pos hn]
      exact (perform_mirrors (enter_mirrors hs) (hh f n vs)).relocating paren.line
    · rw [if_neg hn, if_neg hn]
      exact .fail _
  | nil => exact .fail _
  | bool v => exact .fail _
  | number v => exact .fail _
  | string v => exact .fail _

theorem functionValue_mirrors (name : Option Token) (parameters : List Token)
    (body : List Stmt) :
    (functionValue name parameters body).Mirrors f (Value.mapBody f)
      (functionValue name parameters (f body)) := by
  cases name with
  | none => exact current_mirrors.bind fun frame => newClosure_mirrors none parameters body frame
  | some own =>
    refine current_mirrors.bind fun outer => (newFrame_mirrors outer []).bind fun frame => ?_
    refine (newClosure_mirrors _ parameters body frame).bind fun v => ?_
    exact ((define_mirrors own.lexeme v).inFrame frame).bind fun _ => .pure v

end Combinators

end Eval

end Lox
