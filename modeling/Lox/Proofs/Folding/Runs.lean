/-
  Lox.Proofs.Folding.Runs
  ────────────────────────────────
  **RUNS ON FOLDED MACHINES.**

  If one machine is folded onto another, the same code does the same on both:
  it prints the same, fails alike or gives related values, and the first machine
  is folded onto the second again, by a larger folding.  `p.Folds F f g Q q` says
  so of two computations that run in the frames `f` and `g`.

  There is one condition.  Where `f` is a frame in between, nothing may be bound
  in it, so a statement must not be a declaration.  In a frame that is paired
  everything may be done, and all frames that the evaluator makes are paired.
  One induction on the bound gives it all (`foldsAt`).
-/
import Lox.Proofs.Folding
import Lox.Proofs.Names
import Lox.Proofs.Holding

namespace Lox

variable {F G : Folding} {f g i j : FrameId}

/-- Outcomes of code in the frames `f` and `g` that are the same up to frames in
between.  The folding has grown from `F`. -/
inductive Outcome.Folds {α β : Type} (F : Folding) (f g : FrameId) (Q : Folding → α → β → Prop) :
    Outcome α → Outcome β → Prop where
  | done {G : Folding} {a : α} {b : β} {m m' : Machine} (hG : F.Le G) (hm : m.Folds G f g m')
      (h : Q G a b) : Folds F f g Q (.done a m) (.done b m')
  | failed {G : Folding} {failure : Failure} {m m' : Machine} (hG : F.Le G)
      (hm : m.Folds G f g m') : Folds F f g Q (.failed failure m) (.failed failure m')
  | exhausted : Folds F f g Q .exhausted .exhausted

theorem Outcome.Folds.exhausted_iff {α β : Type} {Q : Folding → α → β → Prop} {o : Outcome α}
    {o' : Outcome β} (h : Outcome.Folds F f g Q o o') : o = .exhausted ↔ o' = .exhausted := by
  cases h <;> simp

theorem Outcome.Folds.grow {α β : Type} {Q : Folding → α → β → Prop} {o : Outcome α}
    {o' : Outcome β} (h : Outcome.Folds G f g Q o o') (hle : F.Le G) :
    Outcome.Folds F f g Q o o' := by
  cases h with
  | done hG hm h => exact .done (hle.trans hG) hm h
  | failed hG hm => exact .failed (hle.trans hG) hm
  | exhausted => exact .exhausted

namespace Eval

variable {α β γ δ : Type} {Q : Folding → α → β → Prop} {R : Folding → γ → δ → Prop}

/-! ## §1. Computations. -/

/-- **Computations that do the same up to frames in between,** on machines that
are folded by `F` or a larger folding. -/
def Folds (F : Folding) (f g : FrameId) (Q : Folding → α → β → Prop) (p : Eval α) (q : Eval β) :
    Prop :=
  ∀ G, F.Le G → ∀ m m' : Machine, m.Folds G f g m' → Outcome.Folds G f g Q (p m) (q m')

namespace Folds

theorem pure {a : α} {b : β} (h : ∀ G, F.Le G → Q G a b) :
    Folds F f g Q (Pure.pure a) (Pure.pure b) :=
  fun G hG _ _ hm => .done (.refl G) hm (h G hG)

theorem fail (failure : Failure) : Folds F f g Q (Eval.fail failure) (Eval.fail failure) :=
  fun G _ _ _ hm => .failed (.refl G) hm

theorem exhausted : Folds F f g Q Eval.exhausted Eval.exhausted := fun _ _ _ _ _ => .exhausted

/-- A larger folding. -/
theorem grow {p : Eval α} {q : Eval β} (h : p.Folds F f g Q q) (hle : F.Le G) :
    p.Folds G f g Q q := fun H hH m m' hm => h H (hle.trans hH) m m' hm

/-- **One computation after the other.** -/
theorem bind {p : Eval α} {q : Eval β} {l : α → Eval γ} {l' : β → Eval δ}
    (hp : p.Folds F f g Q q)
    (hl : ∀ G, F.Le G → ∀ a b, Q G a b → (l a).Folds G f g R (l' b)) :
    (p >>= l).Folds F f g R (q >>= l') := by
  intro G hG m m' hm
  have hfirst := hp G hG m m' hm
  show Outcome.Folds G f g R (Eval.bind p l m) (Eval.bind q l' m')
  unfold Eval.bind
  generalize p m = o at hfirst ⊢
  generalize q m' = o' at hfirst ⊢
  cases hfirst with
  | @done H a b n n' hH hn hab =>
    exact (hl H (hG.trans hH) a b hab H (.refl H) n n' hn).grow hH
  | failed hH hn => exact .failed hH hn
  | exhausted => exact .exhausted

theorem ofExcept {r : Except Failure α} {R : Folding → α → α → Prop}
    (h : ∀ a, r = .ok a → ∀ G, F.Le G → R G a a) :
    (Eval.ofExcept r).Folds F f g R (Eval.ofExcept r) := by
  cases r with
  | ok a => exact pure (h a rfl)
  | error failure => exact fail failure

theorem relocating {p : Eval α} {q : Eval β} (h : p.Folds F f g Q q) (line : Nat) :
    (Eval.relocating line p).Folds F f g Q (Eval.relocating line q) := by
  intro G hG m m' hm
  have hend := h G hG m m' hm
  unfold Eval.relocating
  generalize p m = o at hend ⊢
  generalize q m' = o' at hend ⊢
  cases hend with
  | done hH hn h => exact .done hH hn h
  | failed hH hn => exact .failed hH hn
  | exhausted => exact .exhausted

theorem attempt {p : Eval α} {q : Eval β} (h : p.Folds F f g Q q) :
    p.attempt.Folds F f g (fun G a b => (∃ v w, a = .ok v ∧ b = .ok w ∧ Q G v w) ∨
      ∃ failure, a = .error failure ∧ b = .error failure) q.attempt := by
  intro G hG m m' hm
  have hend := h G hG m m' hm
  unfold Eval.attempt
  generalize p m = o at hend ⊢
  generalize q m' = o' at hend ⊢
  cases hend with
  | done hH hn h => exact .done hH hn (.inl ⟨_, _, rfl, rfl, h⟩)
  | failed hH hn => exact .done hH hn (.inr ⟨_, rfl, rfl⟩)
  | exhausted => exact .exhausted

/-- Computing in other frames, one of which is folded onto the other. -/
theorem inFrame {p : Eval α} {q : Eval β} (h : p.Folds F i j Q q) (hij : F.At i j) :
    (Eval.inFrame i p).Folds F f g Q (Eval.inFrame j q) := by
  intro G hG m m' hm
  have hthere : Machine.Folds G i j { m with current := i } { m' with current := j } :=
    ⟨hm.scopes, hG.at _ _ hij, rfl, rfl, hm.made, hm.readings, hm.output⟩
  -- The frames to come back to are still folded.
  have hback : ∀ {H : Folding} {n n' : Machine}, G.Le H → n.Folds H i j n' →
      Machine.Folds H f g { n with current := m.current } { n' with current := m'.current } :=
    fun hH hn => ⟨hn.scopes, hH.at _ _ hm.here, hm.current, hm.current', hn.made, hn.readings,
      hn.output⟩
  have hend := h G hG _ _ hthere
  unfold Eval.inFrame
  dsimp only
  generalize p { m with current := i } = o at hend ⊢
  generalize q { m' with current := j } = o' at hend ⊢
  cases hend with
  | done hH hn h => exact .done hH (hback hH hn) h
  | failed hH hn => exact .failed hH (hback hH hn)
  | exhausted => exact .exhausted

end Folds

/-! ## §2. The operations of the machine. -/

/-- Related values. -/
abbrev SameValue (F : Folding) : Value → Value → Prop := Value.Over F.At

theorem get_folds (name : Token) : (get name).Folds F f g SameValue (get name) := by
  intro G _ m m' hm
  have hfound := hm.scopes.get? name.lexeme hm.here
  unfold get
  cases hm.current
  cases hm.current'
  generalize m.scopes.get? m.current name.lexeme = o at hfound ⊢
  generalize m'.scopes.get? m'.current name.lexeme = o' at hfound ⊢
  cases hfound with
  | some hv => exact .done (.refl G) hm hv
  | none => exact .failed (.refl G) hm

/-- A change to the frames of both machines. -/
theorem change_folds {m m' : Machine} (hm : m.Folds F f g m') {s s' : Scopes}
    (hs : s.Folds G s') (hle : F.Le G) {a : α} {b : β} (h : Q G a b) :
    Outcome.Folds F f g Q (.done a { m with scopes := s }) (.done b { m' with scopes := s' }) :=
  .done hle ⟨hs, hle.at _ _ hm.here, hm.current, hm.current', hm.made, hm.readings, hm.output⟩ h

theorem assign_folds (name : Token) {v w : Value} (hv : SameValue F v w) :
    (assign name v).Folds F f g (fun _ _ _ => True) (assign name w) := by
  intro G hG m m' hm
  have howner := hm.scopes.owner? name.lexeme hm.here
  unfold assign Scopes.assign
  cases hm.current
  cases hm.current'
  generalize m.scopes.owner? m.current name.lexeme = o at howner ⊢
  generalize m'.scopes.owner? m'.current name.lexeme = o' at howner ⊢
  cases howner with
  | some ho =>
    exact change_folds hm (hm.scopes.define name.lexeme ho (hv.mono hG.at)) (.refl G) trivial
  | none => exact .failed (.refl G) hm

/-- Names are bound in paired frames only. -/
theorem define_folds (hown : F.own f g) (name : String) {v w : Value} (hv : SameValue F v w) :
    (define name v).Folds F f g (fun _ _ _ => True) (define name w) := by
  intro G hG m m' hm
  unfold define
  cases hm.current
  cases hm.current'
  exact change_folds hm (hm.scopes.define name (hG.own hown) (hv.mono hG.at)) (.refl G) trivial

/-- The frames in which code runs are folded. -/
theorem current_folds : current.Folds F f g Folding.At current := by
  intro G _ m m' hm
  refine .done (.refl G) hm ?_
  rw [hm.current, hm.current']
  exact hm.here

/-- New frames are paired. -/
theorem newFrame_folds (hij : F.At i j) {b b' : Bindings} (hb : b.Rel (SameValue F) b') :
    (newFrame i b).Folds F f g Folding.own (newFrame j b') := by
  intro G hG m m' hm
  have hij' := hG.at _ _ hij
  have hframe : Frame.Folds G m.scopes.next m'.scopes.next ⟨b, some i⟩ ⟨b', some j⟩ := by
    refine ⟨hb.mono fun _ _ hv => hv.mono hG.at, .some hij', ?_, ?_⟩
    · intro outer ho
      cases ho
      exact hm.scopes.lt hij'
    · intro outer ho
      cases ho
      exact hm.scopes.lt' hij'
  exact change_folds hm (hm.scopes.push hframe) (G.le_pair _ _) (.inr ⟨rfl, rfl⟩)

/-- Compute in a frame made for it. -/
def inNewFrame (p : Eval α) : Eval α := do
  let frame ← newFrame (← current) []
  inFrame frame p

/-- Computing in new frames, which are paired. -/
theorem inNewFrame_folds {p : Eval α} {q : Eval β}
    (h : ∀ G, F.Le G → ∀ i j, G.own i j → p.Folds G i j Q q) :
    (inNewFrame p).Folds F f g Q (inNewFrame q) := by
  refine current_folds.bind fun G hG outer outer' houter => ?_
  refine (newFrame_folds houter Bindings.rel_nil).bind fun H hH i j hij => ?_
  exact (h H (hG.trans hH) i j hij).inFrame (.inl hij)

/-- **A frame in between makes no difference.** A computation in a new frame that
binds nothing does what another one does in the frame around it. -/
theorem inserted_folds {p : Eval α} {q : Eval β}
    (h : ∀ G, F.Le G → ∀ i, G.At i g → p.Folds G i g Q q) :
    (inNewFrame p).Folds F f g Q q := by
  intro G hG m m' hm
  cases hm.current
  cases hm.current'
  -- The new frame is folded onto the frame in which the other side stays.
  have hle := G.le_insert m.scopes.next m'.current
  have hnew : (G.insert m.scopes.next m'.current).At m.scopes.next m'.current :=
    .inr (.inr ⟨rfl, rfl⟩)
  have hthere : Machine.Folds (G.insert m.scopes.next m'.current) m.scopes.next m'.current
      { m with scopes := m.scopes.push ⟨[], some m.current⟩, current := m.scopes.next } m' :=
    ⟨hm.scopes.insert hm.here, hnew, rfl, rfl, hm.made, hm.readings, hm.output⟩
  have hback : ∀ {H : Folding} {n n' : Machine}, (G.insert m.scopes.next m'.current).Le H →
      n.Folds H m.scopes.next m'.current n' →
      Machine.Folds H m.current m'.current { n with current := m.current } n' :=
    fun hH hn => ⟨hn.scopes, (hle.trans hH).at _ _ hm.here, rfl, hn.current', hn.made, hn.readings,
      hn.output⟩
  have hend := h _ (hG.trans hle) _ hnew _ (.refl _) _ _ hthere
  show Outcome.Folds G m.current m'.current Q (inFrame m.scopes.next p
    { m with scopes := m.scopes.push ⟨[], some m.current⟩ }) (q m')
  unfold inFrame
  dsimp only
  generalize p _ = o at hend ⊢
  generalize q m' = o' at hend ⊢
  cases hend with
  | done hH hn h => exact .done (hle.trans hH) (hback hH hn) h
  | failed hH hn => exact .failed (hle.trans hH) (hback hH hn)
  | exhausted => exact .exhausted

theorem newClosure_folds (name : Option String) (parameters : List Token) (body : List Stmt)
    (hij : F.At i j) :
    (newClosure name parameters body i).Folds F f g SameValue
      (newClosure name parameters body j) := by
  intro G hG m m' hm
  unfold newClosure
  rw [hm.made]
  refine .done (.refl G) ⟨hm.scopes, hm.here, hm.current, hm.current', rfl, hm.readings,
    hm.output⟩ ?_
  exact .function (hG.at _ _ hij)

theorem print_folds {v w : Value} (hv : SameValue F v w) :
    (print v).Folds F f g (fun _ _ _ => True) (print w) := by
  intro G _ m m' hm
  unfold print
  rw [hv.chunks, hm.output]
  obtain ⟨written, channel⟩ := m.output.writeLine v.chunks
  have hn : Machine.Folds G f g { m with output := channel } { m' with output := channel } :=
    ⟨hm.scopes, hm.here, hm.current, hm.current', hm.made, hm.readings, rfl⟩
  cases written with
  | true => exact .done (.refl G) hn trivial
  | false => exact .failed (.refl G) hn

theorem readClock_folds (host : Host) :
    (readClock host).Folds F f g (fun _ now now' => now' = now) (readClock host) := by
  intro G _ m m' hm
  refine .done (.refl G) ⟨hm.scopes, hm.here, hm.current, hm.current', hm.made,
    congrArg (· + 1) hm.readings, hm.output⟩ ?_
  rw [hm.readings]

/-! ## §3. Combinators. -/

section Combinators

variable {host : Host} {ev : Expr → Eval Value} {ex : Stmt → Eval Signal}

/-- Related signals. -/
abbrev SameSignal (F : Folding) : Signal → Signal → Prop := Signal.Over F.At

/-- Expressions do the same in any frames, one of which is folded onto the other. -/
def EvaluatesFolded (ev : Expr → Eval Value) : Prop :=
  ∀ (F : Folding) (f g : FrameId) (e : Expr), (ev e).Folds F f g SameValue (ev e)

/-- Statements do so if they declare nothing or the frames are paired. -/
def ExecutesFolded (ex : Stmt → Eval Signal) : Prop :=
  ∀ (F : Folding) (f g : FrameId) (s : Stmt), s.declares = [] ∨ F.own f g →
    (ex s).Folds F f g SameSignal (ex s)

theorem values_folds (he : EvaluatesFolded ev) (F : Folding) (f g : FrameId) (es : List Expr) :
    (values ev es).Folds F f g (fun G => List.Forall₂ (SameValue G)) (values ev es) := by
  induction es generalizing F with
  | nil => exact .pure fun _ _ => .nil
  | cons e es ih =>
    refine (he F f g e).bind fun G _ v w hv => (ih G).bind fun H hH vs ws hvs => ?_
    exact .pure fun K hK => .cons (hv.mono (hH.trans hK).at) (hvs.imp fun _ _ h => h.mono hK.at)

theorem valueOrNil_folds (he : EvaluatesFolded ev) (F : Folding) (f g : FrameId)
    (o : Option Expr) : (valueOrNil ev o).Folds F f g SameValue (valueOrNil ev o) := by
  cases o with
  | none => exact .pure fun _ _ => .same nofun
  | some e => exact he F f g e

/-- Statements in a row, in paired frames. -/
theorem sequence_folds (hx : ExecutesFolded ex) (hown : F.own f g) (ss : List Stmt) :
    (sequence ex ss).Folds F f g SameSignal (sequence ex ss) := by
  induction ss generalizing F with
  | nil => exact .pure fun _ _ => .next
  | cons s ss ih =>
    refine (hx F f g s (.inr hown)).bind fun G hG signal signal' hsignal => ?_
    cases hsignal with
    | next => exact ih (hG.own hown)
    | give hv => exact .pure fun H hH => .give (hv.mono hH.at)
    | leave => exact .pure fun _ _ => .leave
    | skip => exact .pure fun _ _ => .skip

theorem rounds_folds {condition condition' : Eval Value} {body body' : Eval Signal}
    {step step' : Eval Unit} (hc : condition.Folds F f g SameValue condition')
    (hb : body.Folds F f g SameSignal body')
    (ht : step.Folds F f g (fun _ _ _ => True) step') (bound : Nat) :
    (rounds condition body step bound).Folds F f g SameSignal
      (rounds condition' body' step' bound) := by
  induction bound with
  | zero => exact .exhausted
  | succ bound ih =>
    refine hc.bind fun G hG v w hv => ?_
    rw [hv.isTruthy]
    by_cases htrue : v.isTruthy = true
    · rw [if_pos htrue, if_pos htrue]
      refine (hb.grow hG).bind fun H hH signal signal' hsignal => ?_
      have hmore := hG.trans hH
      cases hsignal with
      | next => exact ih.grow hmore
      | give hv => exact .pure fun K hK => .give (hv.mono hK.at)
      | leave => exact .pure fun _ _ => .next
      | skip => exact (ht.grow hmore).bind fun K hK _ _ _ => ih.grow (hmore.trans hK)
    · rw [if_neg htrue, if_neg htrue]
      exact .pure fun _ _ => .next

theorem loopStep_folds (he : EvaluatesFolded ev) (F : Folding) (f g : FrameId) (increment : Bool)
    (body : Stmt) :
    (loopStep ev increment body).Folds F f g (fun _ _ _ => True) (loopStep ev increment body) := by
  unfold loopStep
  cases increment with
  | false => exact .pure fun _ _ => trivial
  | true =>
    cases body with
    | block statements =>
      simp only [if_true]
      cases statements.getLast? with
      | none => exact .fail _
      | some last =>
        cases last with
        | expr value => exact (he F f g value).bind fun _ _ _ _ _ => .pure fun _ _ => trivial
        | _ => exact .fail _
    | _ => exact .fail _

/-- **Related functions are entered alike:** their new frames are paired. -/
theorem enter_folds (hx : ExecutesFolded ex) {c d : Closure}
    (hc : SameValue F (.function c) (.function d)) {vs ws : List Value}
    (hvs : List.Forall₂ (SameValue F) vs ws) :
    (enter ex c vs).Folds F f g SameValue (enter ex d ws) := by
  cases hc with
  | same h => exact absurd rfl (h c)
  | function hframe =>
    unfold enter
    refine (newFrame_folds hframe (Bindings.rel_ofLists c.parameters hvs)).bind
      fun G _ i j hown => ?_
    refine ((sequence_folds hx hown c.body).inFrame (.inl hown)).bind fun H _ _ _ hsignal => ?_
    cases hsignal with
    | give hv => exact .pure fun K hK => hv.mono hK.at
    | next => exact .pure fun _ _ => .same nofun
    | leave => exact .pure fun _ _ => .same nofun
    | skip => exact .pure fun _ _ => .same nofun

theorem perform_folds (hx : ExecutesFolded ex) {Φ : FrameId → FrameId → Prop} {a a' : Action}
    (ha : a.Over Φ a') : ∀ {F : Folding}, (∀ i j, Φ i j → F.At i j) →
      (perform host (enter ex) a).Folds F f g SameValue (perform host (enter ex) a') := by
  induction ha with
  | give hv => exact fun hle => .pure fun G hG => hv.mono fun i j h => hG.at i j (hle i j h)
  | raise fault => exact fun _ => .fail _
  | abort text => exact fun _ => .fail _
  | readClock _ ih =>
    intro F hle
    refine (readClock_folds host).bind fun G hG now now' hnow => ?_
    rw [hnow]
    exact ih now fun i j h => hG.at i j (hle i j h)
  | @call Φ c d vs ws next next' hc hvs _ _ ihgiven ihfailed =>
    intro F hle
    refine (enter_folds hx (hc.mono hle) (hvs.imp fun _ _ h => h.mono hle)).attempt.bind
      fun G hG answer answer' hanswer => ?_
    have hgrown : ∀ i j, Φ i j → G.At i j := fun i j h => hG.at i j (hle i j h)
    rcases hanswer with ⟨v, w, rfl, rfl, hv⟩ | ⟨failure, rfl, rfl⟩
    · exact ihgiven G.At hgrown v w hv fun _ _ h => h
    · exact ihfailed G.At hgrown failure fun _ _ h => h

theorem call_folds (hh : host.IgnoresFrames) (hx : ExecutesFolded ex) {v w : Value}
    (hv : SameValue F v w) (paren : Token) {vs ws : List Value}
    (hvs : List.Forall₂ (SameValue F) vs ws) :
    (call host ex v paren vs).Folds F f g SameValue (call host ex w paren ws) := by
  unfold call
  rw [← hvs.length_eq]
  cases hv with
  | @function c frame hframe =>
    dsimp only
    by_cases hn : vs.length = c.parameters.length
    · rw [if_pos hn, if_pos hn]
      exact enter_folds hx (.function hframe) hvs
    · rw [if_neg hn, if_neg hn]
      exact .fail _
  | same hplain =>
    cases v with
    | function c => exact absurd rfl (hplain c)
    | native n =>
      dsimp only
      by_cases hn : vs.length = n.arity
      · rw [if_pos hn, if_pos hn]
        have hact := hh.act (Φ := F.At) (.inl F.globals) n hvs
        exact (perform_folds hx hact fun _ _ h => h).relocating paren.line
      · rw [if_neg hn, if_neg hn]
        exact .fail _
    | _ => exact .fail _

theorem functionValue_folds (F : Folding) (f g : FrameId) (name : Option Token)
    (parameters : List Token) (body : List Stmt) :
    (functionValue name parameters body).Folds F f g SameValue
      (functionValue name parameters body) := by
  cases name with
  | none =>
    exact current_folds.bind fun G _ i j hij => newClosure_folds none parameters body hij
  | some own =>
    refine current_folds.bind fun G _ outer outer' houter => ?_
    refine (newFrame_folds houter Bindings.rel_nil).bind fun H _ i j hij => ?_
    refine (newClosure_folds _ parameters body (.inl hij)).bind fun K hK v w hv => ?_
    have hown := hK.own hij
    refine ((define_folds hown own.lexeme hv).inFrame (.inl hown)).bind fun L hL _ _ _ => ?_
    exact .pure fun M hM => hv.mono (hL.trans hM).at

/-- Whether a left operand decides is seen from its truth. -/
theorem decides_over (operator : Token) {v w : Value} (hv : SameValue F v w) :
    decides operator w = decides operator v := by
  unfold decides
  rw [hv.isTruthy]

end Combinators

/-! ## §4. Expressions and statements. -/

/-- All expressions and statements do the same up to frames in between, at one
bound. -/
structure FoldsAt (host : Host) (bound : Nat) : Prop where
  evaluate : EvaluatesFolded (evaluate host bound)
  execute : ExecutesFolded (execute host bound)

variable {host : Host} {bound : Nat}

/-- One level of an expression. -/
theorem FoldsAt.evaluate_succ (hh : host.IgnoresFrames) (ih : FoldsAt host bound) :
    EvaluatesFolded (Eval.evaluate host (bound + 1)) := by
  intro F f g e
  have he := ih.evaluate
  cases e with
  | literal value =>
    rw [Eval.evaluate]
    exact .pure fun _ _ => .ofLiteral value
  | group inner =>
    rw [Eval.evaluate]
    exact he F f g inner
  | name token =>
    rw [Eval.evaluate]
    exact get_folds token
  | assign target value =>
    rw [Eval.evaluate]
    refine (he F f g value).bind fun G _ v w hv => ?_
    exact (assign_folds target hv).bind fun H hH _ _ _ =>
      .pure fun K hK => hv.mono (hH.trans hK).at
  | unary operator operand =>
    rw [Eval.evaluate]
    refine (he F f g operand).bind fun G _ v w hv => ?_
    rw [hv.unary]
    exact .ofExcept fun _ h _ _ => .plain (Value.unary_plain h)
  | binary left operator right =>
    rw [Eval.evaluate]
    refine (he F f g left).bind fun G _ l l' hl => (he G f g right).bind fun H hH r r' hr => ?_
    rw [(hl.mono hH.at).binary hr]
    exact .ofExcept fun _ h _ _ => .plain (Value.binary_plain h)
  | logical left operator right =>
    rw [Eval.evaluate]
    refine (he F f g left).bind fun G _ l l' hl => ?_
    rw [decides_over operator hl]
    refine (Folds.ofExcept fun _ _ _ _ => rfl).bind fun H hH decided decided' hd => ?_
    cases hd
    cases decided with
    | true => exact .pure fun K hK => hl.mono (hH.trans hK).at
    | false => exact he H f g right
  | call callee paren arguments =>
    rw [Eval.evaluate]
    refine (he F f g callee).bind fun G _ v w hv => ?_
    refine (values_folds he G f g arguments).bind fun H hH vs ws hvs => ?_
    exact call_folds hh ih.execute (hv.mono hH.at) paren hvs
  | function own parameters body =>
    rw [Eval.evaluate]
    exact functionValue_folds F f g own parameters body
  | pipe left operator right =>
    rw [Eval.evaluate]
    exact .fail _

/-- One level of a statement. -/
theorem FoldsAt.execute_succ (ih : FoldsAt host bound) :
    ExecutesFolded (Eval.execute host (bound + 1)) := by
  intro F f g s hs
  have he := ih.evaluate
  cases s with
  | expr value =>
    rw [Eval.execute]
    exact (he F f g value).bind fun _ _ _ _ _ => .pure fun _ _ => .next
  | print value =>
    rw [Eval.execute]
    refine (he F f g value).bind fun G _ v w hv => ?_
    exact (print_folds hv).bind fun _ _ _ _ _ => .pure fun _ _ => .next
  | var name initial =>
    rw [Eval.execute]
    -- A declaration declares something, so it is executed in paired frames.
    have hown := hs.resolve_left (by simp [Stmt.declares])
    refine (valueOrNil_folds he F f g initial).bind fun G hG v w hv => ?_
    exact (define_folds (hG.own hown) name.lexeme hv).bind fun _ _ _ _ _ => .pure fun _ _ => .next
  | block body =>
    rw [Eval.execute]
    exact inNewFrame_folds fun G _ i j hij => sequence_folds ih.execute hij body
  | branch condition yes no =>
    rw [Eval.execute.eq_def]
    have hparts : (yes.declares = [] ∧ Stmt.declaresOption no = []) ∨ F.own f g := by
      rwa [Stmt.declares, List.append_eq_nil_iff] at hs
    refine (he F f g condition).bind fun G hG v w hv => ?_
    rw [hv.isTruthy]
    by_cases htrue : v.isTruthy = true
    · rw [if_pos htrue]
      exact ih.execute G f g yes (hparts.imp And.left hG.own)
    · rw [if_neg htrue]
      cases no with
      | none => exact .pure fun _ _ => .next
      | some other => exact ih.execute G f g other (hparts.imp And.right hG.own)
  | loop condition body increment =>
    rw [Eval.execute]
    rw [Stmt.declares] at hs
    exact rounds_folds (he F f g condition) (ih.execute F f g body hs)
      (loopStep_folds he F f g increment body) bound
  | function name parameters body =>
    rw [Eval.execute]
    have hown := hs.resolve_left (by simp [Stmt.declares])
    refine current_folds.bind fun G hG i j hij => ?_
    refine (newClosure_folds _ parameters body hij).bind fun H hH v w hv => ?_
    exact (define_folds ((hG.trans hH).own hown) name.lexeme hv).bind
      fun _ _ _ _ _ => .pure fun _ _ => .next
  | give keyword value =>
    rw [Eval.execute]
    refine (valueOrNil_folds he F f g value).bind fun G _ v w hv => ?_
    exact .pure fun H hH => .give (hv.mono hH.at)
  | leave keyword =>
    rw [Eval.execute]
    exact .pure fun _ _ => .leave
  | next keyword =>
    rw [Eval.execute]
    exact .pure fun _ _ => .skip

/-- **Code does the same on machines that are folded,** at every bound. -/
theorem foldsAt (hh : host.IgnoresFrames) (bound : Nat) : FoldsAt host bound := by
  induction bound with
  | zero =>
    constructor
    · intro F f g e
      rw [Eval.evaluate]
      exact .exhausted
    · intro F f g s _
      rw [Eval.execute]
      exact .exhausted
  | succ bound ih => exact ⟨ih.evaluate_succ hh, ih.execute_succ⟩

end Eval

end Lox
