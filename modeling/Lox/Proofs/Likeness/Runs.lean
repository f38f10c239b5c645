/-
  Lox.Proofs.Likeness.Runs
  ────────────────────────────────
  **RUNS THAT CORRESPOND.**

  On machines that correspond, the same expression or statement, on the same
  lines or on others, comes to outcomes that correspond: like values or like
  failures, on machines that correspond again.  `p.Alike k size Q q` says so of
  two computations for machines with at least `size` frames; what is known of a
  value is known relative to the number of frames, which only grows.

  The operations of the machine are treated one by one (§2), a host has to treat
  like values alike (`Host.Respects`, and `Host.Parametric` for any likeness),
  and the combinators of the evaluator hand likeness on from their parts (§4).
  The evaluator then needs one induction on its bound (`alikeAt`), whatever the
  likeness is.
-/
import Lox.Host.Toolbox
import Lox.Proofs.Keeps
import Lox.Proofs.Likeness

namespace Lox

variable {k : Likeness} {size larger : Nat} {g : Nat → Nat}

/-- Signals that are equal but for a like value. -/
inductive Signal.Alike (k : Likeness) (size : Nat) : Signal → Signal → Prop where
  | next : Alike k size .next .next
  | give {v w : Value} (h : v.Alike k size w) : Alike k size (.give v) (.give w)
  | leave : Alike k size .leave .leave
  | skip : Alike k size .skip .skip

/-- Outcomes that correspond, on machines with at least `size` frames. -/
inductive Outcome.Alike {α β : Type} (k : Likeness) (size : Nat) (Q : Nat → α → β → Prop) :
    Outcome α → Outcome β → Prop where
  | done {a : α} {b : β} {m m' : Machine} (hm : m.Alike k m') (hs : size ≤ m.scopes.next)
      (h : Q m.scopes.next a b) : Alike k size Q (.done a m) (.done b m')
  | failed {failure other : Failure} {m m' : Machine} (hm : m.Alike k m')
      (hs : size ≤ m.scopes.next) (h : failure.Alike k other) :
      Alike k size Q (.failed failure m) (.failed other m')
  | exhausted : Alike k size Q .exhausted .exhausted

theorem Outcome.Alike.exhausted_iff {α β : Type} {Q : Nat → α → β → Prop} {o : Outcome α}
    {o' : Outcome β} (h : Outcome.Alike k size Q o o') : o = .exhausted ↔ o' = .exhausted := by
  cases h <;> simp

namespace Eval

variable {α β γ δ : Type} {Q : Nat → α → β → Prop} {R : Nat → γ → δ → Prop}

/-! ## §1. Computations. -/

/-- **Computations that correspond:** they take machines that correspond, with at
least `size` frames, to outcomes that do. -/
def Alike (k : Likeness) (size : Nat) (Q : Nat → α → β → Prop) (p : Eval α) (q : Eval β) : Prop :=
  ∀ m m' : Machine, m.Alike k m' → size ≤ m.scopes.next →
    Outcome.Alike k m.scopes.next Q (p m) (q m')

namespace Alike

theorem pure {a : α} {b : β} (h : ∀ n, size ≤ n → Q n a b) :
    Alike k size Q (Pure.pure a) (Pure.pure b) :=
  fun _ _ hm hs => .done hm (Nat.le_refl _) (h _ hs)

theorem fail {failure other : Failure} (h : failure.Alike k other) :
    Alike k size Q (Eval.fail failure) (Eval.fail other) :=
  fun _ _ hm _ => .failed hm (Nat.le_refl _) h

theorem exhausted : Alike k size Q Eval.exhausted Eval.exhausted := fun _ _ _ _ => .exhausted

/-- More frames than needed. -/
theorem grow {p : Eval α} {q : Eval β} (h : p.Alike k size Q q) (hs : size ≤ larger) :
    p.Alike k larger Q q := fun m m' hm hl => h m m' hm (Nat.le_trans hs hl)

/-- Some frame is there, the current one. -/
theorem of_pos {p : Eval α} {q : Eval β}
    (h : ∀ n, size ≤ n → 0 < n → p.Alike k n Q q) : p.Alike k size Q q :=
  fun m m' hm hs =>
    h m.scopes.next hs (Nat.zero_lt_of_lt hm.exists_current) m m' hm (Nat.le_refl _)

/-- **One computation after the other.** -/
theorem bind {p : Eval α} {q : Eval β} {l : α → Eval γ} {l' : β → Eval δ}
    (hp : p.Alike k size Q q)
    (hl : ∀ n, size ≤ n → ∀ a b, Q n a b → (l a).Alike k n R (l' b)) :
    (p >>= l).Alike k size R (q >>= l') := by
  intro m m' hm hs
  have hfirst := hp m m' hm hs
  show Outcome.Alike k _ R (Eval.bind p l m) (Eval.bind q l' m')
  unfold Eval.bind
  generalize p m = o at hfirst ⊢
  generalize q m' = o' at hfirst ⊢
  cases hfirst with
  | @done a b n n' hn hgrown hab =>
    have hnext := hl n.scopes.next (Nat.le_trans hs hgrown) a b hab n n' hn (Nat.le_refl _)
    show Outcome.Alike k _ R (l a n) (l' b n')
    -- What the second one finds is what the first one has left.
    generalize l a n = u at hnext ⊢
    generalize l' b n' = u' at hnext ⊢
    cases hnext with
    | done hn hs h => exact .done hn (Nat.le_trans hgrown hs) h
    | failed hn hs h => exact .failed hn (Nat.le_trans hgrown hs) h
    | exhausted => exact .exhausted
  | failed hn hgrown hf => exact .failed hn hgrown hf
  | exhausted => exact .exhausted

theorem ofExcept {r : Except Failure α} {r' : Except Failure β} {S : α → β → Prop}
    (h : Except.Alike k S r r') (hS : ∀ n, size ≤ n → ∀ a b, S a b → Q n a b) :
    (Eval.ofExcept r).Alike k size Q (Eval.ofExcept r') := by
  cases h with
  | ok hab => exact .pure fun n hn => hS n hn _ _ hab
  | error hf => exact .fail hf

theorem relocating {p : Eval α} {q : Eval β} (h : p.Alike k size Q q) (hg : k.moves g)
    (line : Nat) : (Eval.relocating line p).Alike k size Q (Eval.relocating (g line) q) := by
  intro m m' hm hs
  have hend := h m m' hm hs
  unfold Eval.relocating
  generalize p m = o at hend ⊢
  generalize q m' = o' at hend ⊢
  cases hend with
  | done hn hs h => exact .done hn hs h
  | failed hn hs h => exact .failed hn hs (h.relocate hg line)
  | exhausted => exact .exhausted

/-- Failures that are given are like failures. -/
theorem attempt {p : Eval α} {q : Eval β} (h : p.Alike k size Q q) :
    p.attempt.Alike k size (fun n => Except.Alike k (Q n)) q.attempt := by
  intro m m' hm hs
  have hend := h m m' hm hs
  unfold Eval.attempt
  generalize p m = o at hend ⊢
  generalize q m' = o' at hend ⊢
  cases hend with
  | done hn hs h => exact .done hn hs (.ok h)
  | failed hn hs h => exact .done hn hs (.error h)
  | exhausted => exact .exhausted

/-- Computing in corresponding frames. -/
theorem inFrame {p : Eval α} {q : Eval β} (h : p.Alike k size Q q) {f i : Nat}
    (hf : k.frames f i) (hlt : f < size) :
    (Eval.inFrame f p).Alike k size Q (Eval.inFrame i q) := by
  intro m m' hm hs
  have hthere : Machine.Alike k { m with current := f } { m' with current := i } :=
    ⟨hm.scopes, hf, Nat.lt_of_lt_of_le hlt hs, hm.made, hm.readings, hm.output⟩
  -- The frame to come back to is still there.
  have hback : ∀ {n n' : Machine}, n.Alike k n' → m.scopes.next ≤ n.scopes.next →
      Machine.Alike k { n with current := m.current } { n' with current := m'.current } :=
    fun hn hgrown => ⟨hn.scopes, hm.current, Nat.lt_of_lt_of_le hm.exists_current hgrown,
      hn.made, hn.readings, hn.output⟩
  have hend := h _ _ hthere hs
  unfold Eval.inFrame
  dsimp only
  generalize p { m with current := f } = o at hend ⊢
  generalize q { m' with current := i } = o' at hend ⊢
  cases hend with
  | done hn hgrown h => exact .done (hback hn hgrown) hgrown h
  | failed hn hgrown h => exact .failed (hback hn hgrown) hgrown h
  | exhausted => exact .exhausted

end Alike

/-! ## §2. The operations of the machine. -/

/-- Corresponding frames that are there. -/
def SameFrame (k : Likeness) (size f i : Nat) : Prop := k.frames f i ∧ f < size

theorem get_alike (hg : k.moves g) (name : Token) :
    (get name).Alike k size (Value.Alike k) (get (name.renumber g)) := by
  intro m m' hm _
  have hfound := hm.scopes.get? name.lexeme hm.current hm.exists_current
  have hlexeme : (name.renumber g).lexeme = name.lexeme := rfl
  unfold get
  rw [hlexeme]
  generalize m.scopes.get? m.current name.lexeme = o at hfound ⊢
  generalize m'.scopes.get? m'.current name.lexeme = o' at hfound ⊢
  cases hfound with
  | some hv => exact .done hm (Nat.le_refl _) hv
  | none => exact .failed hm (Nat.le_refl _) (.at_token hg Failure.undefined name rfl)

/-- A change to the frames of both machines. -/
theorem change_alike {m m' : Machine} (hm : m.Alike k m') {s s' : Scopes} (hs : s.Alike k s')
    (hnext : m.scopes.next ≤ s.next) {a : α} {b : β} (h : Q s.next a b) :
    Outcome.Alike k m.scopes.next Q (.done a { m with scopes := s })
      (.done b { m' with scopes := s' }) :=
  .done ⟨hs, hm.current, Nat.lt_of_lt_of_le hm.exists_current hnext, hm.made, hm.readings,
    hm.output⟩ hnext h

theorem assign_alike (hg : k.moves g) (name : Token) {v w : Value} (hv : v.Alike k size w) :
    (assign name v).Alike k size (fun _ _ _ => True) (assign (name.renumber g) w) := by
  intro m m' hm hs
  have howner := hm.scopes.owner? name.lexeme hm.current hm.exists_current
  have hlexeme : (name.renumber g).lexeme = name.lexeme := rfl
  unfold assign Scopes.assign
  rw [hlexeme]
  generalize m.scopes.owner? m.current name.lexeme = o at howner ⊢
  generalize m'.scopes.owner? m'.current name.lexeme = o' at howner ⊢
  cases howner with
  | some ho =>
    exact change_alike hm (hm.scopes.define name.lexeme ho.1 (hv.mono hs))
      (Nat.le_of_eq (Scopes.next_define _ _ _ _).symm) trivial
  | none => exact .failed hm (Nat.le_refl _) (.at_token hg Failure.undefined name rfl)

theorem define_alike (name : String) {v w : Value} (hv : v.Alike k size w) :
    (define name v).Alike k size (fun _ _ _ => True) (define name w) := by
  intro m m' hm hs
  exact change_alike hm (hm.scopes.define name hm.current (hv.mono hs))
    (Nat.le_of_eq (Scopes.next_define _ _ _ _).symm) trivial

theorem current_alike : current.Alike k size (SameFrame k) current :=
  fun _ _ hm _ => .done hm (Nat.le_refl _) ⟨hm.current, hm.exists_current⟩

/-- New frames correspond. -/
theorem newFrame_alike {f i : Nat} (hf : SameFrame k size f i) {b b' : Bindings}
    (hb : b.Alike k size b') :
    (newFrame f b).Alike k size (SameFrame k) (newFrame i b') := by
  intro m m' hm hs
  have hframe : Frame.Alike k m.scopes.next m.scopes.next ⟨b, some f⟩ ⟨b', some i⟩ := by
    refine ⟨hb.mono hs, .some hf.1, fun outer ho => ?_, nofun⟩
    rw [← Option.some.inj ho]
    exact Nat.lt_of_lt_of_le hf.2 hs
  have hnext := Scopes.next_push m.scopes ⟨b, some f⟩
  refine change_alike hm (hm.scopes.push hframe) ?_ ⟨hm.scopes.fresh 0, ?_⟩
  · rw [hnext]
    exact Nat.le_succ _
  · rw [hnext]
    exact Nat.lt_succ_self _

theorem newClosure_alike (hg : k.moves g) (name : Option String) (parameters : List Token)
    (body : List Stmt) {f i : Nat} (hf : SameFrame k size f i) :
    (newClosure name parameters body f).Alike k size (Value.Alike k)
      (newClosure name (parameters.map (Token.renumber g)) (Stmt.renumberAll g body) i) := by
  intro m m' hm hs
  have hnames : (parameters.map (Token.renumber g)).map Token.lexeme =
      parameters.map Token.lexeme := by
    rw [List.map_map]
    rfl
  refine .done ⟨hm.scopes, hm.current, hm.exists_current, congrArg (· + 1) hm.made, hm.readings,
    hm.output⟩ (Nat.le_refl _) (.function ?_)
  exact ⟨hm.made, rfl, hnames, ⟨g, hg, rfl⟩, hf.1, Nat.lt_of_lt_of_le hf.2 hs⟩

theorem print_alike {v w : Value} (hv : v.Alike k size w) :
    (print v).Alike k size (fun _ _ _ => True) (print w) := by
  intro m m' hm _
  unfold print
  rw [hv.chunks, hm.output]
  obtain ⟨written, channel⟩ := m.output.writeLine v.chunks
  have hn : Machine.Alike k { m with output := channel } { m' with output := channel } :=
    ⟨hm.scopes, hm.current, hm.exists_current, hm.made, hm.readings, rfl⟩
  cases written with
  | true => exact .done hn (Nat.le_refl _) trivial
  | false => exact .failed hn (Nat.le_refl _) (.refl _)

theorem flush_alike : flush.Alike k size (fun _ _ _ => True) flush := by
  intro m m' hm _
  unfold flush
  rw [hm.output]
  by_cases h : m.output.flushFails = true
  · rw [if_pos h, if_pos h]
    exact .failed hm (Nat.le_refl _) (.refl _)
  · rw [if_neg h, if_neg h]
    exact .done hm (Nat.le_refl _) trivial

theorem readClock_alike (host : Host) :
    (readClock host).Alike k size (fun _ now now' => now' = now) (readClock host) := by
  intro m m' hm _
  refine .done ⟨hm.scopes, hm.current, hm.exists_current, hm.made,
    congrArg (· + 1) hm.readings, hm.output⟩ (Nat.le_refl _) ?_
  rw [hm.readings]

end Eval

/-! ## §3. Host functions. -/

/-- Actions that do the same with like values. -/
inductive Action.Alike (k : Likeness) : Nat → Action → Action → Prop where
  | give {size : Nat} {v w : Value} (h : v.Alike k size w) : Alike k size (.give v) (.give w)
  | raise {size : Nat} {fault other : RuntimeFault}
      (h : Failure.Alike k (.runtime fault) (.runtime other)) :
      Alike k size (.raise fault) (.raise other)
  | abort {size : Nat} {text other : String} (h : Failure.Alike k (.host text) (.host other)) :
      Alike k size (.abort text) (.abort other)
  | readClock {size : Nat} {next next' : Float → Action}
      (h : ∀ now, Alike k size (next now) (next' now)) :
      Alike k size (.readClock next) (.readClock next')
  | call {size : Nat} {c d : Closure} {vs ws : List Value}
      {next next' : Except Failure Value → Action}
      (hc : c.Alike k size d) (hvs : List.Forall₂ (Value.Alike k size) vs ws)
      (h : ∀ n, size ≤ n → ∀ answer answer', Except.Alike k (Value.Alike k n) answer answer' →
        Alike k n (next answer) (next' answer')) :
      Alike k size (.call c vs next) (.call d ws next')

/-- What has come of like calls is handed on. -/
theorem Action.Alike.answer {answer answer' : Except Failure Value}
    (h : Except.Alike k (Value.Alike k size) answer answer') :
    Action.Alike k size (.answer answer) (.answer answer') := by
  cases h with
  | ok hv => exact .give hv
  | @error failure other hf =>
    cases failure with
    | runtime fault =>
      cases other with
      | runtime other => exact .raise hf
      | host text => exact nomatch hf.unlocated
    | host text =>
      cases other with
      | runtime other => exact nomatch hf.unlocated
      | host other => exact .abort hf

/-- A host treats like arguments alike.  There are frames, and the first one, of
the global names, corresponds to itself: a host may call functions of its own in
this frame. -/
def Host.Respects (host : Host) (k : Likeness) : Prop :=
  ∀ (size : Nat) (n : Native) (vs ws : List Value), 0 < size →
    List.Forall₂ (Value.Alike k size) vs ws → Action.Alike k size (host.act n vs) (host.act n ws)

/-- A host that gets at frames only through the functions handed to it and the
global names, and that does not look at lines: it respects every likeness. -/
def Host.Parametric (host : Host) : Prop := ∀ k, host.Respects k

/-- A host function that treats like values alike. -/
def HostFunction.Parametric (fn : HostFunction) : Prop :=
  ∀ (k : Likeness) (size : Nat) (vs ws : List Value), 0 < size →
    List.Forall₂ (Value.Alike k size) vs ws → Action.Alike k size (fn.act vs) (fn.act ws)

theorem Host.parametric_of_functions {host : Host}
    (h : ∀ fn ∈ host.functions, fn.Parametric) : host.Parametric := by
  intro k size n vs ws hpos hvs
  unfold Host.act
  cases hf : host.functions[n.identity]? with
  | none => exact .abort (.refl _)
  | some fn => exact h fn (Array.mem_of_getElem? hf) k size vs ws hpos hvs

namespace HostFunction

theorem clock_parametric : clock.Parametric := by
  refine fun _ _ _ _ _ _ => .readClock fun now => ?_
  by_cases hbefore : now < 0
  · rw [if_pos hbefore]
    exact .abort (.refl _)
  · rw [if_neg hbefore]
    exact .give (.same nofun)

/-- A function that looks at its first argument only, and only at what like
values have in common. -/
theorem parametric_of_head {fn : HostFunction} {first : Value → Action} {none : Action}
    (hact : fn.act = fun | v :: _ => first v | [] => none)
    (hfirst : ∀ (k : Likeness) (size : Nat) (v w : Value), v.Alike k size w →
      Action.Alike k size (first v) (first w))
    (hnone : ∀ (k : Likeness) (size : Nat), Action.Alike k size none none) : fn.Parametric := by
  intro k size vs ws _ hvs
  rw [hact]
  cases hvs with
  | nil => exact hnone k size
  | cons hv _ => exact hfirst k size _ _ hv

theorem inspect_parametric : inspect.Parametric := by
  refine parametric_of_head rfl (fun k size v w hv => ?_) fun _ _ => .give (.same nofun)
  rw [hv.inspect]
  exact .give (.same nofun)

theorem asText_parametric : asText.Parametric := by
  refine parametric_of_head rfl (fun k size v w hv => ?_) fun _ _ => .give (.same nofun)
  rw [hv.text]
  exact .give (.same nofun)

theorem fail_parametric : fail.Parametric := by
  refine parametric_of_head rfl (fun k size v w hv => ?_) fun _ _ => .give (.same nofun)
  rw [hv.text]
  exact .raise (.refl _)

theorem describe_parametric : describe.Parametric := by
  refine parametric_of_head rfl (fun k size v w hv => ?_) fun _ _ => .give (.same nofun)
  rw [hv.arity?, hv.name?]
  cases v.arity? with
  | none => exact .give (.same nofun)
  | some arity => exact .give (.same nofun)

theorem crash_parametric : crash.Parametric := fun _ _ _ _ _ _ => .abort (.refl _)

theorem twice_parametric : twice.Parametric := by
  intro k size vs ws _ hvs
  unfold twice
  dsimp only
  cases hvs with
  | nil => exact .raise (.refl _)
  | @cons v w _ _ hv hvs =>
    cases hv with
    | function _ => exact .raise (.refl _)
    | same _ =>
      cases v with
      | number x =>
        cases hvs with
        | nil => exact .give (.same nofun)
        | cons _ _ => exact .raise (.refl _)
      | _ => exact .raise (.refl _)

/-- A function that is handed over is called alike. -/
theorem apply_parametric : apply.Parametric := by
  intro k size vs ws _ hvs
  unfold apply
  dsimp only
  cases hvs with
  | nil => exact .raise (.refl _)
  | @cons v w _ _ hv hvs =>
    cases hv with
    | same hplain =>
      cases v with
      | function f => exact absurd rfl (hplain f)
      | _ => exact .raise (.refl _)
    | function hf =>
      cases hvs with
      | nil => exact .raise (.refl _)
      | cons hx hvs =>
        cases hvs with
        | nil => exact .call hf (.cons hx .nil) fun _ _ _ _ h => .answer h
        | cons _ _ => exact .raise (.refl _)

/-- A host function that gives the value of a global name. -/
def global (name : String) : HostFunction where
  name := "global"
  arity := 0
  act := fun _ => .call ⟨0, none, [], [.give ⟨.keyword .returnWord, "return", 0⟩
    (some (.name ⟨.identifier, name, 0⟩))], 0⟩ [] .answer

theorem global_parametric (name : String) : (global name).Parametric :=
  fun _ _ _ _ hpos _ => .call (Closure.alike_of_global hpos rfl) .nil fun _ _ _ _ h => .answer h

end HostFunction

/-- The functions of the toolbox treat like values alike. -/
theorem Host.toolbox_functions_parametric (clock : Nat → Float) :
    ∀ fn ∈ (Host.toolbox clock).functions, fn.Parametric := by
  intro fn hfn
  simp only [Host.toolbox, List.mem_toArray, List.mem_cons, List.not_mem_nil, or_false] at hfn
  rcases hfn with rfl | rfl | rfl | rfl | rfl | rfl | rfl | rfl
  · exact HostFunction.clock_parametric
  · exact HostFunction.twice_parametric
  · exact HostFunction.inspect_parametric
  · exact HostFunction.asText_parametric
  · exact HostFunction.fail_parametric
  · exact HostFunction.crash_parametric
  · exact HostFunction.apply_parametric
  · exact HostFunction.describe_parametric

theorem Host.standard_parametric (clock : Nat → Float) : (Host.standard clock).Parametric := by
  apply Host.parametric_of_functions
  intro fn hfn
  have hclock : fn = .clock := by simpa [Host.standard] using hfn
  rw [hclock]
  exact HostFunction.clock_parametric

namespace Eval

variable {host : Host}

/-! ## §4. Combinators. -/

section Combinators

variable {ev : Expr → Eval Value} {ex : Stmt → Eval Signal}

/-- Expressions correspond to those on other lines. -/
def Evaluates (k : Likeness) (ev : Expr → Eval Value) : Prop :=
  ∀ (g : Nat → Nat), k.moves g → ∀ (size : Nat) (e : Expr),
    (ev e).Alike k size (Value.Alike k) (ev (e.renumber g))

/-- Statements correspond to those on other lines. -/
def Executes (k : Likeness) (ex : Stmt → Eval Signal) : Prop :=
  ∀ (g : Nat → Nat), k.moves g → ∀ (size : Nat) (s : Stmt),
    (ex s).Alike k size (Signal.Alike k) (ex (s.renumber g))

theorem values_alike (he : Evaluates k ev) (hg : k.moves g) (size : Nat) (es : List Expr) :
    (values ev es).Alike k size (fun n => List.Forall₂ (Value.Alike k n))
      (values ev (Expr.renumberAll g es)) := by
  induction es generalizing size with
  | nil =>
    rw [Expr.renumberAll]
    exact .pure fun _ _ => .nil
  | cons e es ih =>
    rw [Expr.renumberAll]
    refine (he g hg size e).bind fun n _ v w hv => (ih n).bind fun n' hn vs ws hvs => ?_
    exact .pure fun n'' hn' => .cons (hv.mono (Nat.le_trans hn hn'))
      (hvs.imp fun _ _ h => h.mono hn')

theorem valueOrNil_alike (he : Evaluates k ev) (hg : k.moves g) (size : Nat) (o : Option Expr) :
    (valueOrNil ev o).Alike k size (Value.Alike k) (valueOrNil ev (Expr.renumberOption g o)) := by
  cases o with
  | none => exact .pure fun _ _ => .same nofun
  | some e => exact he g hg size e

theorem sequence_alike (hx : Executes k ex) (hg : k.moves g) (size : Nat) (ss : List Stmt) :
    (sequence ex ss).Alike k size (Signal.Alike k) (sequence ex (Stmt.renumberAll g ss)) := by
  induction ss generalizing size with
  | nil =>
    rw [Stmt.renumberAll]
    exact .pure fun _ _ => .next
  | cons s ss ih =>
    rw [Stmt.renumberAll]
    refine (hx g hg size s).bind fun n _ signal signal' hsignal => ?_
    cases hsignal with
    | next => exact ih n
    | give hv => exact .pure fun n' hn' => .give (hv.mono hn')
    | leave => exact .pure fun _ _ => .leave
    | skip => exact .pure fun _ _ => .skip

theorem doAll_alike (hx : Executes k ex) (hg : k.moves g) (size : Nat) (ss : List Stmt) :
    (doAll ex ss).Alike k size (fun _ _ _ => True) (doAll ex (Stmt.renumberAll g ss)) := by
  induction ss generalizing size with
  | nil =>
    rw [Stmt.renumberAll]
    exact .pure fun _ _ => trivial
  | cons s ss ih =>
    rw [Stmt.renumberAll]
    exact (hx g hg size s).bind fun n _ _ _ _ => ih n

theorem rounds_alike {condition condition' : Eval Value} {body body' : Eval Signal}
    {step step' : Eval Unit} (hc : condition.Alike k size (Value.Alike k) condition')
    (hb : body.Alike k size (Signal.Alike k) body')
    (ht : step.Alike k size (fun _ _ _ => True) step') (bound : Nat) :
    (rounds condition body step bound).Alike k size (Signal.Alike k)
      (rounds condition' body' step' bound) := by
  induction bound with
  | zero => exact .exhausted
  | succ bound ih =>
    refine hc.bind fun n hn v w hv => ?_
    rw [hv.isTruthy]
    by_cases htrue : v.isTruthy = true
    · rw [if_pos htrue, if_pos htrue]
      refine (hb.grow hn).bind fun n' hn' signal signal' hsignal => ?_
      have hmore : size ≤ n' := Nat.le_trans hn hn'
      cases hsignal with
      | next => exact ih.grow hmore
      | give hv => exact .pure fun n'' hn'' => .give (hv.mono hn'')
      | leave => exact .pure fun _ _ => .next
      | skip => exact (ht.grow hmore).bind fun n'' hn'' _ _ _ => ih.grow (Nat.le_trans hmore hn'')
    · rw [if_neg htrue, if_neg htrue]
      exact .pure fun _ _ => .next

/-- The step of a loop is found at the same place on other lines. -/
theorem loopStep_alike (he : Evaluates k ev) (hg : k.moves g) (size : Nat) (increment : Bool)
    (body : Stmt) :
    (loopStep ev increment body).Alike k size (fun _ _ _ => True)
      (loopStep ev increment (body.renumber g)) := by
  unfold loopStep
  cases increment with
  | false => exact .pure fun _ _ => trivial
  | true =>
    cases body with
    | block statements =>
      simp only [Stmt.renumber, Stmt.renumberAll_eq_map, List.getLast?_map, if_true]
      cases statements.getLast? with
      | none => exact .fail (.refl _)
      | some last =>
        cases last with
        | expr value =>
          simp only [Option.map_some, Stmt.renumber]
          exact (he g hg size value).bind fun _ _ _ _ _ => .pure fun _ _ => trivial
        | _ =>
          simp only [Option.map_some, Stmt.renumber]
          exact .fail (.refl _)
    | _ =>
      simp only [Stmt.renumber, if_true]
      exact .fail (.refl _)

/-- **A like function is entered alike:** its new frame corresponds to the new
frame of the other one. -/
theorem enter_alike (hx : Executes k ex) {c d : Closure} (hc : c.Alike k size d)
    {vs ws : List Value} (hvs : List.Forall₂ (Value.Alike k size) vs ws) :
    (enter ex c vs).Alike k size (Value.Alike k) (enter ex d ws) := by
  obtain ⟨g, hg, hbody⟩ := hc.body
  unfold enter
  rw [hc.parameters, hbody]
  refine (newFrame_alike ⟨hc.frame, hc.exists_frame⟩ (.ofLists c.parameters hvs)).bind
    fun n _ f i hf => ?_
  refine ((sequence_alike hx hg n c.body).inFrame hf.1 hf.2).bind fun n' _ _ _ hsignal => ?_
  cases hsignal with
  | give hv => exact .pure fun n'' hn'' => hv.mono hn''
  | next => exact .pure fun _ _ => .same nofun
  | leave => exact .pure fun _ _ => .same nofun
  | skip => exact .pure fun _ _ => .same nofun

theorem perform_alike (hx : Executes k ex) {a a' : Action} (ha : a.Alike k size a') :
    (perform host (enter ex) a).Alike k size (Value.Alike k) (perform host (enter ex) a') := by
  induction ha with
  | give hv => exact .pure fun n hn => hv.mono hn
  | raise h => exact .fail h
  | abort h => exact .fail h
  | readClock _ ih =>
    refine (readClock_alike host).bind fun n hn now now' hnow => ?_
    rw [hnow]
    exact (ih now).grow hn
  | call hc hvs _ ih => exact (enter_alike hx hc hvs).attempt.bind ih

theorem call_alike (hh : host.Respects k) (hx : Executes k ex) (hg : k.moves g) {v w : Value}
    (hv : v.Alike k size w) (paren : Token) {vs ws : List Value}
    (hvs : List.Forall₂ (Value.Alike k size) vs ws) :
    (call host ex v paren vs).Alike k size (Value.Alike k)
      (call host ex w (paren.renumber g) ws) := by
  have hmismatch : ∀ n : Nat, Failure.Alike k (.at paren (.arityMismatch n vs.length))
      (.at (paren.renumber g) (.arityMismatch n vs.length)) :=
    fun n => .at_token hg (Failure.at · (.arityMismatch n vs.length)) paren rfl
  unfold call
  rw [← hvs.length_eq]
  cases hv with
  | @function c d hc =>
    dsimp only
    rw [hc.parameters]
    by_cases hn : vs.length = c.parameters.length
    · rw [if_pos hn, if_pos hn]
      exact enter_alike hx hc hvs
    · rw [if_neg hn, if_neg hn]
      exact .fail (hmismatch _)
  | same hplain =>
    cases v with
    | function c => exact absurd rfl (hplain c)
    | native n =>
      dsimp only
      by_cases hn : vs.length = n.arity
      · rw [if_pos hn, if_pos hn]
        refine Alike.of_pos fun size' hs hpos => ?_
        have hact := hh size' n vs ws hpos (hvs.imp fun _ _ h => h.mono hs)
        exact (perform_alike hx hact).relocating hg paren.line
      · rw [if_neg hn, if_neg hn]
        exact .fail (hmismatch _)
    | _ => exact .fail (.at_token hg (Failure.at · .notCallable) paren rfl)

theorem functionValue_alike (hg : k.moves g) (size : Nat) (name : Option Token)
    (parameters : List Token) (body : List Stmt) :
    (functionValue name parameters body).Alike k size (Value.Alike k)
      (functionValue (name.map (Token.renumber g)) (parameters.map (Token.renumber g))
        (Stmt.renumberAll g body)) := by
  cases name with
  | none =>
    exact current_alike.bind fun n _ f i hf => newClosure_alike hg none parameters body hf
  | some own =>
    refine current_alike.bind fun n _ outer outer' houter => ?_
    refine (newFrame_alike houter .nil).bind fun n' _ f i hf => ?_
    refine (newClosure_alike hg _ parameters body hf).bind fun n'' hn v w hv => ?_
    have hown := (define_alike own.lexeme hv).inFrame hf.1 (Nat.lt_of_lt_of_le hf.2 hn)
    exact hown.bind fun _ hn' _ _ _ => .pure fun _ hn'' => hv.mono (Nat.le_trans hn' hn'')

/-- Whether a left operand decides does not depend on a line. -/
theorem decides_alike (hg : k.moves g) (operator : Token) {v w : Value} (hv : v.Alike k size w) :
    Except.Alike k (fun d d' => d' = d) (decides operator v)
      (decides (operator.renumber g) w) := by
  have hkind : (operator.renumber g).kind = operator.kind := rfl
  unfold decides
  rw [hkind, hv.isTruthy]
  split
  · exact .ok rfl
  · exact .ok rfl
  · exact .error (.at_token hg (fun t => .host ("line " ++ toString t.line ++
      ": invalid logical operator '" ++ t.lexeme ++ "'")) operator rfl)

end Combinators

/-! ## §5. Expressions and statements. -/

/-- All expressions and statements correspond to those on other lines, at one
bound. -/
structure AlikeAt (host : Host) (k : Likeness) (bound : Nat) : Prop where
  evaluate : Evaluates k (evaluate host bound)
  execute : Executes k (execute host bound)

variable {bound : Nat}

/-- One level of an expression. -/
theorem AlikeAt.evaluate_succ (hh : host.Respects k) (ih : AlikeAt host k bound) :
    Evaluates k (Eval.evaluate host (bound + 1)) := by
  intro g hg size e
  have he := ih.evaluate g hg
  cases e with
  | literal value =>
    rw [Expr.renumber, Eval.evaluate]
    exact .pure fun _ _ => .ofLiteral value
  | group inner =>
    rw [Expr.renumber, Eval.evaluate, Eval.evaluate]
    exact he size inner
  | name token =>
    rw [Expr.renumber, Eval.evaluate, Eval.evaluate]
    exact get_alike hg token
  | assign target value =>
    rw [Expr.renumber, Eval.evaluate, Eval.evaluate]
    refine (he size value).bind fun n _ v w hv => ?_
    exact (assign_alike hg target hv).bind fun n' hn _ _ _ =>
      .pure fun n'' hn' => hv.mono (Nat.le_trans hn hn')
  | unary operator operand =>
    rw [Expr.renumber, Eval.evaluate, Eval.evaluate]
    refine (he size operand).bind fun n _ v w hv => ?_
    exact .ofExcept (hv.unary hg operator) fun n' hn _ _ h => h.mono hn
  | binary left operator right =>
    rw [Expr.renumber, Eval.evaluate, Eval.evaluate]
    refine (he size left).bind fun n _ l l' hl => (he n right).bind fun n' hn r r' hr => ?_
    exact .ofExcept ((hl.mono hn).binary hg operator hr) fun n'' hn' _ _ h => h.mono hn'
  | logical left operator right =>
    rw [Expr.renumber, Eval.evaluate, Eval.evaluate]
    refine (he size left).bind fun n _ l l' hl => ?_
    refine (Alike.ofExcept (decides_alike hg operator hl) fun _ _ _ _ h => h).bind
      fun n' hn decided decided' hd => ?_
    rw [hd]
    cases decided with
    | true => exact .pure fun n'' hn' => hl.mono (Nat.le_trans hn hn')
    | false => exact he n' right
  | call callee paren arguments =>
    rw [Expr.renumber, Eval.evaluate, Eval.evaluate]
    refine (he size callee).bind fun n _ f f' hf => ?_
    refine (values_alike ih.evaluate hg n arguments).bind fun n' hn vs ws hvs => ?_
    exact call_alike hh ih.execute hg (hf.mono hn) paren hvs
  | function own parameters body =>
    rw [Expr.renumber, Eval.evaluate, Eval.evaluate]
    exact functionValue_alike hg size own parameters body
  | pipe left operator right =>
    rw [Expr.renumber, Eval.evaluate, Eval.evaluate]
    exact .fail (.at_token hg (fun t => .host ("line " ++ toString t.line ++
      ": pipe reached the evaluator without being desugared")) operator rfl)

/-- One level of a statement. -/
theorem AlikeAt.execute_succ (ih : AlikeAt host k bound) :
    Executes k (Eval.execute host (bound + 1)) := by
  intro g hg size s
  have he := ih.evaluate g hg
  cases s with
  | expr value =>
    rw [Stmt.renumber, Eval.execute, Eval.execute]
    exact (he size value).bind fun _ _ _ _ _ => .pure fun _ _ => .next
  | print value =>
    rw [Stmt.renumber, Eval.execute, Eval.execute]
    refine (he size value).bind fun n _ v w hv => ?_
    exact (print_alike hv).bind fun _ _ _ _ _ => .pure fun _ _ => .next
  | var name initial =>
    rw [Stmt.renumber, Eval.execute, Eval.execute]
    refine (valueOrNil_alike ih.evaluate hg size initial).bind fun n _ v w hv => ?_
    exact (define_alike name.lexeme hv).bind fun _ _ _ _ _ => .pure fun _ _ => .next
  | block body =>
    rw [Stmt.renumber, Eval.execute, Eval.execute]
    refine current_alike.bind fun n _ outer outer' houter => ?_
    refine (newFrame_alike houter .nil).bind fun n' _ f i hf => ?_
    exact (sequence_alike ih.execute hg n' body).inFrame hf.1 hf.2
  | branch condition yes no =>
    rw [Stmt.renumber, Eval.execute.eq_def, Eval.execute.eq_def]
    refine (he size condition).bind fun n _ v w hv => ?_
    rw [hv.isTruthy]
    by_cases htrue : v.isTruthy = true
    · rw [if_pos htrue, if_pos htrue]
      exact ih.execute g hg n yes
    · rw [if_neg htrue, if_neg htrue]
      cases no with
      | none => exact .pure fun _ _ => .next
      | some other => exact ih.execute g hg n other
  | loop condition body increment =>
    rw [Stmt.renumber, Eval.execute, Eval.execute]
    exact rounds_alike (he size condition) (ih.execute g hg size body)
      (loopStep_alike ih.evaluate hg size increment body) bound
  | function name parameters body =>
    rw [Stmt.renumber, Eval.execute, Eval.execute]
    refine current_alike.bind fun n _ f i hf => ?_
    refine (newClosure_alike hg _ parameters body hf).bind fun n' _ v w hv => ?_
    exact (define_alike name.lexeme hv).bind fun _ _ _ _ _ => .pure fun _ _ => .next
  | give keyword value =>
    rw [Stmt.renumber, Eval.execute, Eval.execute]
    refine (valueOrNil_alike ih.evaluate hg size value).bind fun n _ v w hv => ?_
    exact .pure fun n' hn => .give (hv.mono hn)
  | leave keyword =>
    rw [Stmt.renumber, Eval.execute, Eval.execute]
    exact .pure fun _ _ => .leave
  | next keyword =>
    rw [Stmt.renumber, Eval.execute, Eval.execute]
    exact .pure fun _ _ => .skip

/-- **Whatever two machines have in common, running code on both keeps it,** at
every bound. -/
theorem alikeAt (hh : host.Respects k) (bound : Nat) : AlikeAt host k bound := by
  induction bound with
  | zero =>
    constructor
    · intro g hg size e
      rw [Eval.evaluate, Eval.evaluate]
      exact .exhausted
    · intro g hg size s
      rw [Eval.execute, Eval.execute]
      exact .exhausted
  | succ bound ih => exact ⟨ih.evaluate_succ hh, ih.execute_succ⟩

/-- Programs correspond to those on other lines. -/
theorem runProgram_alike (hh : host.Respects k) (hg : k.moves g) (size bound : Nat)
    (program : List Stmt) :
    (runProgram host bound program).Alike k size (fun _ _ _ => True)
      (runProgram host bound (Stmt.renumberAll g program)) := by
  unfold runProgram
  exact (doAll_alike (alikeAt hh bound).execute hg size program).bind
    fun _ _ _ _ _ => flush_alike

/-! ## §6. Runs on closed machines. -/

/-- Any outcome that corresponds to another one is on a closed machine. -/
theorem after_closed {moves : (Nat → Nat) → Prop} {unmoved : moves id} {o : Outcome α}
    {o' : Outcome β} (h : Outcome.Alike (.inPlace moves unmoved) size Q o o') :
    o.After Machine.Closed := by
  cases h with
  | done hm _ _ => exact hm.closed
  | failed hm _ _ => exact hm.closed
  | exhausted => trivial

variable {m : Machine}

/-- **Running a program leaves a closed machine closed,** whatever the outcome is. -/
theorem runProgram_closed {moves : (Nat → Nat) → Prop} {unmoved : moves id}
    (hh : host.Respects (.inPlace moves unmoved)) (hm : m.Closed) (bound : Nat)
    (program : List Stmt) : (runProgram host bound program m).After Machine.Closed := by
  have hrun := runProgram_alike (g := id) hh unmoved 0 bound program
  exact after_closed (hrun m m hm.alike (Nat.zero_le _))

end Eval

end Lox
