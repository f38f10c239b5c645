/-
  Lox.Proofs.Sinks
  ────────────────────────────────
  **OUTPUT THAT MAY FAIL ANYWHERE.**

  A channel with a limit refuses text at the beginning of a line only.  What is
  printed to a file or a pipe can fail at any chunk, with a part of it written,
  and at the end, when it is flushed.  A `Sink` decides that for every chunk, from
  all that has been written before, and `sink.runProgram` runs a program that
  prints into it.

    • The sink that a channel is by itself (`Sink.plain`) makes no difference:
      the run is that of `Eval.runProgram` (`plain_runProgram`).
    • Whatever the sink does, sound values stay sound, and what a sink keeps of
      the output is kept.  A run that breaks off does so because the program went
      wrong, because the sink refuses a chunk of a printed value, or to be flushed,
      in the state in which the run leaves it, or because the clock has just read
      a time before the epoch (`Sink.runProgram_sound`).
-/
import Lox.Proofs.Holding
import Lox.Proofs.Sound

namespace Lox

/-! ## §1. Running into a sink. -/

/-- What takes the printed text, chunk by chunk. It goes by what has been written,
and that grows with every chunk, so it can fail at any of them. -/
structure Sink where
  /-- Whether it takes a chunk, and what has been written after that. -/
  write : Channel → String → Bool × Channel
  /-- Whether it can be flushed. -/
  flushes : Channel → Bool

namespace Sink

open Eval (values valueOrNil sequence rounds loopStep enter perform call functionValue decides get
  assign define current newFrame inFrame newClosure doAll fail ofExcept exhausted)

/-- Write chunks one after the other, as far as they are taken. An empty one does
not even get to the sink. -/
def writeAll (sink : Sink) (c : Channel) : List String → Bool × Channel
  | [] => (true, c)
  | chunk :: rest =>
    if chunk.isEmpty then sink.writeAll c rest
    else match sink.write c chunk with
      | (true, after) => sink.writeAll after rest
      | (false, after) => (false, after)

/-- Print a value on a line. -/
def print (sink : Sink) (value : Value) : Eval Unit := fun m =>
  match sink.writeAll m.output (value.chunks ++ ["\n"]) with
  | (true, channel) => .done () { m with output := channel }
  | (false, channel) =>
    .failed (.host "Failed write program output") { m with output := channel }

/-- Flush what has been printed. -/
def flush (sink : Sink) : Eval Unit := fun m =>
  if sink.flushes m.output then .done () m else .failed (.host "Failed flush program output") m

mutual

/-- The value of an expression. -/
def evaluate (sink : Sink) (host : Host) : (bound : Nat) → Expr → Eval Value
  | 0, _ => exhausted
  | n + 1, e =>
    match e with
    | .literal value => pure (.ofLiteral value)
    | .group inner => sink.evaluate host n inner
    | .name token => get token
    | .assign target value => do
      let v ← sink.evaluate host n value
      assign target v
      return v
    | .unary operator operand => do
      let v ← sink.evaluate host n operand
      ofExcept (v.unary operator)
    | .binary left operator right => do
      let l ← sink.evaluate host n left
      let r ← sink.evaluate host n right
      ofExcept (l.binary operator r)
    | .logical left operator right => do
      let l ← sink.evaluate host n left
      if ← ofExcept (decides operator l) then return l
      else sink.evaluate host n right
    | .call callee paren arguments => do
      let f ← sink.evaluate host n callee
      let given ← values (sink.evaluate host n) arguments
      call host (sink.execute host n) f paren given
    | .function name parameters body => functionValue name parameters body
    | .pipe _ operator _ =>
      fail (.host ("line " ++ toString operator.line ++
        ": pipe reached the evaluator without being desugared"))

/-- Do a statement. -/
def execute (sink : Sink) (host : Host) : (bound : Nat) → Stmt → Eval Signal
  | 0, _ => exhausted
  | n + 1, s =>
    match s with
    | .expr value => do
      let _ ← sink.evaluate host n value
      return .next
    | .print value => do
      sink.print (← sink.evaluate host n value)
      return .next
    | .var name initial => do
      define name.lexeme (← valueOrNil (sink.evaluate host n) initial)
      return .next
    | .block body => do
      let frame ← newFrame (← current) []
      inFrame frame (sequence (sink.execute host n) body)
    | .branch condition yes no => do
      if (← sink.evaluate host n condition).isTruthy then sink.execute host n yes
      else match no with
        | some other => sink.execute host n other
        | none => return .next
    | .loop condition body increment =>
      rounds (sink.evaluate host n condition) (sink.execute host n body)
        (loopStep (sink.evaluate host n) increment body) n
    | .function name parameters body => do
      define name.lexeme (← newClosure (some name.lexeme) parameters body (← current))
      return .next
    | .give _ value => do
      return .give (← valueOrNil (sink.evaluate host n) value)
    | .leave _ => return .leave
    | .next _ => return .skip

end

/-- **Run a program,** and flush what it printed. -/
def runProgram (sink : Sink) (host : Host) (bound : Nat) (program : List Stmt) : Eval Unit := do
  doAll (sink.execute host bound) program
  sink.flush

/-! ## §2. Channels are sinks. -/

/-- The sink that a channel is by itself. -/
def plain : Sink where
  write c chunk := if c.isFull then (false, c) else (true, c.append chunk)
  flushes c := !c.flushFails

theorem plain_write (c : Channel) (chunk : String) :
    plain.write c chunk = if c.isFull then (false, c) else (true, c.append chunk) := rfl

theorem plain_writeAll (c : Channel) (chunks : List String) :
    plain.writeAll c chunks = c.writeAll chunks := by
  induction chunks generalizing c with
  | nil => rfl
  | cons chunk rest ih =>
    unfold writeAll Channel.writeAll Channel.takes
    by_cases hempty : chunk.isEmpty = true
    · -- Nothing is added to what has been written.
      rw [if_pos hempty, hempty, ih, String.isEmpty_iff.1 hempty]
      simp [Channel.append]
    · rw [if_neg hempty, Bool.eq_false_iff.2 hempty, plain_write]
      cases c.isFull with
      | true => rfl
      | false => exact ih (c.append chunk)

theorem plain_print (value : Value) : plain.print value = Eval.print value := by
  funext m
  unfold print Eval.print Channel.writeLine
  rewrite [plain_writeAll]
  rfl

theorem plain_flush : plain.flush = Eval.flush := by
  funext m
  show (if !m.output.flushFails then Outcome.done () m else _) =
    if m.output.flushFails then _ else Outcome.done () m
  cases m.output.flushFails with
  | true => rfl
  | false => rfl

/-- At every bound, expressions and statements do into the plain sink what they
do anyway. -/
theorem plain_at (host : Host) (n : Nat) :
    plain.evaluate host n = Eval.evaluate host n ∧ plain.execute host n = Eval.execute host n := by
  induction n with
  | zero =>
    constructor
    · funext e
      rw [evaluate, Eval.evaluate]
    · funext s
      rw [execute, Eval.execute]
  | succ n ih =>
    constructor
    · funext e
      cases e <;> simp only [evaluate, Eval.evaluate, ih.1, ih.2]
    · funext s
      cases s with
      | branch condition yes no =>
        rw [execute.eq_def, Eval.execute.eq_def]
        dsimp only
        rewrite [ih.1, ih.2]
        rfl
      | _ => simp only [execute, Eval.execute, ih.1, ih.2, plain_print]

theorem plain_runProgram (host : Host) (bound : Nat) (program : List Stmt) :
    plain.runProgram host bound program = Eval.runProgram host bound program := by
  unfold runProgram Eval.runProgram
  rw [(plain_at host bound).2, plain_flush]

/-! ## §3. Why a run breaks off. -/

/-- **Why a sink breaks a run off,** with the text of the failure, in the state in
which the run leaves it: it refuses a chunk of a printed value, or to be
flushed. -/
inductive Fails (sink : Sink) (c : Channel) : String → Prop where
  | write {value : Value} {chunk : String} {before : Channel}
      (hchunk : chunk ∈ value.chunks ++ ["\n"]) (h : sink.write before chunk = (false, c)) :
      Fails sink c "Failed write program output"
  | flush (h : sink.flushes c = false) : Fails sink c "Failed flush program output"

/-- The program, the sink or the clock is to blame for a failure. -/
def Explains (sink : Sink) (host : Host) (m : Machine) : Failure → Prop
  | .runtime _ => True
  | .host text => sink.Fails m.output text ∨ host.ClockFails m.readings text

/-- What holds of the output before a chunk holds after it, taken or not. -/
def Keeps (sink : Sink) (J : Channel → Prop) : Prop :=
  ∀ c chunk, J c → J (sink.write c chunk).2

/-- A computation that keeps values sound, and what holds of the output, whatever
its outcome, and for whose failures the program, the sink or the clock is to
blame. -/
abbrev Sound (sink : Sink) (host : Host) (J : Channel → Prop) {α : Type} (p : Eval α)
    (Q : α → Prop) : Prop :=
  p.Ends (fun m => m.Holds (Value.Sound host) ∧ J m.output)
    (fun failure m => (m.Holds (Value.Sound host) ∧ J m.output) ∧ sink.Explains host m failure) Q

variable {α : Type} {sink : Sink} {host : Host} {J : Channel → Prop} {Q : α → Prop} {v : Value}

/-- What does not blame the host is sound for every sink. -/
theorem Sound.of_keeps {p : Eval α}
    (h : p.Keeps (fun m => m.Holds (Value.Sound host) ∧ J m.output) Failure.OfProgram Q) :
    sink.Sound host J p Q := by
  refine (Eval.keeps_iff_ends.1 h).weaken fun failure m hend => ⟨hend.1, ?_⟩
  cases failure with
  | runtime fault => trivial
  | host text => exact hend.2.elim

/-- So is what moreover prints nothing, if it keeps values sound. -/
theorem Sound.of_quiet {p : Eval α}
    (h : p.Keeps (Machine.Holds (Value.Sound host)) Failure.OfProgram Q)
    (hquiet : ∀ m, (p m).After fun m' => m'.output = m.output) : sink.Sound host J p Q :=
  .of_keeps (h.withOutput hquiet)

theorem Sound.fault (fault : RuntimeFault) :
    sink.Sound host J (fail (.runtime fault) : Eval α) Q :=
  .of_keeps (Eval.Keeps.fail trivial)

theorem Sound.inFrame {p : Eval α} (h : sink.Sound host J p Q) (frame : FrameId) :
    sink.Sound host J (Eval.inFrame frame p) Q :=
  Eval.Ends.inFrame h frame (fun _ _ hm => hm) fun _ _ _ hend => hend

theorem get_sound (name : Token) : sink.Sound host J (Eval.get name) (Value.Sound host) := by
  refine .of_quiet (Eval.get_holds name trivial) fun m => ?_
  unfold Eval.get
  cases m.scopes.get? m.current name.lexeme <;> rfl

theorem assign_sound (name : Token) (hv : v.Sound host) :
    sink.Sound host J (assign name v) fun _ => True := by
  refine .of_quiet (Eval.assign_holds name hv trivial) fun m => ?_
  unfold assign
  rcases m.scopes.assign m.current name.lexeme v with ⟨found, scopes⟩
  cases found <;> rfl

theorem define_sound (name : String) (hv : v.Sound host) :
    sink.Sound host J (define name v) fun _ => True :=
  .of_quiet (Eval.define_holds name hv) fun _ => rfl

theorem current_sound : sink.Sound host J current fun _ => True :=
  .of_quiet Eval.current_holds fun _ => rfl

theorem newFrame_sound (enclosing : FrameId) {b : Bindings} (hb : b.All (Value.Sound host)) :
    sink.Sound host J (newFrame enclosing b) fun _ => True :=
  .of_quiet (Eval.newFrame_holds enclosing hb) fun _ => rfl

/-- A body is stored as it is: this is where the invariant of values comes from. -/
theorem newClosure_sound (name : Option String) (parameters : List Token) {body : List Stmt}
    (hw : Stmt.AllWellFormed .ofFunction body) (hp : Stmt.pipeFree body = true)
    (frame : FrameId) :
    sink.Sound host J (newClosure name parameters body frame) (Value.Sound host) :=
  .of_quiet (Eval.newClosure_holds (fun _ _ => ⟨hw, hp⟩) frame) fun _ => rfl

theorem functionValue_sound (name : Option Token) (parameters : List Token) {body : List Stmt}
    (hw : Stmt.AllWellFormed .ofFunction body) (hp : Stmt.pipeFree body = true) :
    sink.Sound host J (functionValue name parameters body) (Value.Sound host) := by
  refine .of_quiet (Eval.functionValue_holds fun _ _ _ => ⟨hw, hp⟩) fun m => ?_
  cases name <;> rfl

/-- A sink that does not take all chunks has refused one of them. -/
theorem exists_refused {c after : Channel} {chunks : List String}
    (h : sink.writeAll c chunks = (false, after)) :
    ∃ chunk ∈ chunks, ∃ before, sink.write before chunk = (false, after) := by
  induction chunks generalizing c with
  | nil => cases h
  | cons chunk rest ih =>
    unfold writeAll at h
    split at h
    · obtain ⟨refused, hmem, hrefused⟩ := ih h
      exact ⟨refused, .tail _ hmem, hrefused⟩
    · split at h
      · obtain ⟨refused, hmem, hrefused⟩ := ih h
        exact ⟨refused, .tail _ hmem, hrefused⟩
      · next hrefused =>
        cases h
        exact ⟨chunk, .head _, c, hrefused⟩

theorem Keeps.writeAll (hJ : sink.Keeps J) {c : Channel} (hc : J c) (chunks : List String) :
    J (sink.writeAll c chunks).2 := by
  induction chunks generalizing c with
  | nil => exact hc
  | cons chunk rest ih =>
    have hwrite := hJ c chunk hc
    unfold Sink.writeAll
    split
    · exact ih hc
    · rcases hwritten : sink.write c chunk with ⟨taken, after⟩
      rw [hwritten] at hwrite
      cases taken with
      | true => exact ih hwrite
      | false => exact hwrite

theorem print_sound (hJ : sink.Keeps J) (value : Value) :
    sink.Sound host J (sink.print value) fun _ => True := by
  intro m hm
  have houtput := hJ.writeAll hm.2 (value.chunks ++ ["\n"])
  unfold print
  rcases hwritten : sink.writeAll m.output (value.chunks ++ ["\n"]) with ⟨taken, channel⟩
  rw [hwritten] at houtput
  cases taken with
  | true => exact ⟨⟨hm.1, houtput⟩, trivial⟩
  | false =>
    obtain ⟨chunk, hchunk, before, hrefused⟩ := exists_refused hwritten
    exact ⟨⟨hm.1, houtput⟩, .inl (.write hchunk hrefused)⟩

theorem flush_sound : sink.Sound host J sink.flush fun _ => True := by
  intro m hm
  unfold flush
  by_cases hf : sink.flushes m.output = true
  · rw [if_pos hf]
    exact ⟨hm, trivial⟩
  · rw [if_neg hf]
    exact ⟨hm, .inl (.flush (Bool.eq_false_iff.2 hf))⟩

/-! ## §4. Calls. -/

section Calls

variable {ex : Stmt → Eval Signal}

/-- A body that a sound function may have is run soundly. -/
abbrev RunsBodies (sink : Sink) (host : Host) (J : Channel → Prop)
    (ex : Stmt → Eval Signal) : Prop :=
  ∀ ss, Stmt.AllWellFormed .ofFunction ss → Stmt.pipeFree ss = true →
    sink.Sound host J (sequence ex ss) (Signal.All (Value.Sound host))

theorem enter_sound (hx : sink.RunsBodies host J ex) {c : Closure}
    (hc : (Value.function c).Sound host) {vs : List Value} (hvs : ∀ v ∈ vs, v.Sound host) :
    sink.Sound host J (enter ex c vs) (Value.Sound host) := by
  unfold enter
  refine (newFrame_sound c.frame (Bindings.all_ofLists c.parameters hvs)).bind fun frame _ => ?_
  refine (Sound.inFrame (hx c.body hc.1 hc.2) frame).bind fun signal hsignal => ?_
  cases signal with
  | give v => exact .pure hsignal
  | next => exact .pure trivial
  | leave => exact .pure trivial
  | skip => exact .pure trivial

theorem perform_readClock (next : Float → Action) (call : Closure → List Value → Eval Value)
    (m : Machine) :
    perform host call (.readClock next) m =
      perform host call (next (host.clock m.readings)) { m with readings := m.readings + 1 } := rfl

theorem perform_sound (hx : sink.RunsBodies host J ex) {a : Action} (ha : a.Sound host) :
    sink.Sound host J (perform host (enter ex) a) (Value.Sound host) := by
  induction ha with
  | give hv => exact .pure hv
  | raise fault => exact .fault fault
  | readClock hbefore _ ih =>
    intro m hm
    by_cases h : host.clock m.readings < 0
    · -- It breaks off, and this is the last reading.
      rw [perform_readClock, hbefore _ h]
      exact ⟨hm, .inr (.beforeEpoch h)⟩
    · exact ih _ h { m with readings := m.readings + 1 } hm
  | call hc hvs _ _ hbroken ihgiven ihfailed =>
    refine Eval.Ends.handle (enter_sound hx hc hvs) ihgiven fun failure m hend => ?_
    cases failure with
    | runtime fault => exact .inr ⟨hend.1, ihfailed fault⟩
    | host text =>
      rw [hbroken]
      exact .inl rfl

theorem call_sound (hh : host.Sound) (hx : sink.RunsBodies host J ex) {callee : Value}
    (hc : callee.Sound host) (paren : Token) {vs : List Value} (hvs : ∀ v ∈ vs, v.Sound host) :
    sink.Sound host J (call host ex callee paren vs) (Value.Sound host) := by
  unfold call
  cases callee with
  | function c =>
    dsimp only
    split
    · exact enter_sound hx hc hvs
    · exact .fault _
  | native n =>
    dsimp only
    split
    · refine (perform_sound hx (hh.act hc hvs)).relocating paren.line ?_
      -- A fault is moved to the call, a failure of the host is handed on.
      intro failure m hend
      cases failure with
      | runtime fault => exact hend
      | host text => exact hend
    · exact .fault _
  | _ => exact .fault _

end Calls

/-! ## §5. Expressions and statements. -/

variable {n : Nat}

/-- All expressions and statements are sound at a bound. -/
structure SoundAt (sink : Sink) (host : Host) (J : Channel → Prop) (n : Nat) : Prop where
  evaluate : ∀ e : Expr, e.Sound → sink.Sound host J (sink.evaluate host n e) (Value.Sound host)
  execute : ∀ (ctx : Parse.Context) (s : Stmt), s.Sound ctx →
    sink.Sound host J (sink.execute host n s) (Signal.All (Value.Sound host))

theorem SoundAt.runsBodies (ih : SoundAt sink host J n) :
    sink.RunsBodies host J (sink.execute host n) :=
  fun _ hw hp => Eval.sequence_ends fun s hs =>
    ih.execute .ofFunction s (Stmt.sound_of_mem hw hp s hs)

theorem SoundAt.valueOrNil (ih : SoundAt sink host J n) {o : Option Expr}
    (hs : ∀ e, o = some e → e.Sound) :
    sink.Sound host J (Eval.valueOrNil (sink.evaluate host n) o) (Value.Sound host) :=
  Eval.valueOrNil_ends (fun e he => ih.evaluate e (hs e he)) trivial

/-- A loop with a step has one. -/
theorem SoundAt.loopStep (ih : SoundAt sink host J n) {ctx : Parse.Context} {body : Stmt}
    {increment : Bool} (hb : body.Sound ctx)
    (hi : increment = true → body.endsWithStep = true) :
    sink.Sound host J (Eval.loopStep (sink.evaluate host n) increment body) fun _ => True := by
  unfold Eval.loopStep
  cases increment with
  | false => exact .pure trivial
  | true =>
    -- The body is a block of two statements, the second of which is the step.
    have hend := hi rfl
    unfold Stmt.endsWithStep at hend
    split at hend
    · next first value =>
      obtain ⟨hw, hp⟩ := hb
      simp only [Stmt.everyPipe, Stmt.everyPipeAll, Bool.and_eq_true] at hp
      exact (ih.evaluate value ⟨hw.2.1, hp.2.1⟩).bind fun _ _ => .pure trivial
    · exact Bool.noConfusion hend

/-- One level of an expression. -/
theorem SoundAt.evaluate_succ (hh : host.Sound) (ih : SoundAt sink host J n) (e : Expr)
    (he : e.Sound) : sink.Sound host J (sink.evaluate host (n + 1) e) (Value.Sound host) := by
  obtain ⟨hw, hp⟩ := he
  cases e with
  | literal value =>
    rw [Sink.evaluate]
    exact .pure (Value.sound_of_not_callable (by cases value <;> rfl))
  | group inner =>
    rw [Sink.evaluate]
    exact ih.evaluate inner ⟨hw, hp⟩
  | name token =>
    rw [Sink.evaluate]
    exact get_sound token
  | assign target value =>
    rw [Sink.evaluate]
    refine (ih.evaluate value ⟨hw.2, hp⟩).bind fun v hv => ?_
    exact (assign_sound target hv).bind fun _ _ => .pure hv
  | unary operator operand =>
    rw [Sink.evaluate]
    refine (ih.evaluate operand ⟨hw.2, hp⟩).bind fun v _ => ?_
    exact Sound.of_keeps (Value.unary_harmless v hw.1).keeps
  | binary left operator right =>
    simp only [Expr.everyPipe, Bool.and_eq_true] at hp
    rw [Sink.evaluate]
    refine (ih.evaluate left ⟨hw.2.1, hp.1⟩).bind fun l _ => ?_
    refine (ih.evaluate right ⟨hw.2.2, hp.2⟩).bind fun r _ => ?_
    exact Sound.of_keeps (Value.binary_harmless l r hw.1).keeps
  | logical left operator right =>
    simp only [Expr.everyPipe, Bool.and_eq_true] at hp
    rw [Sink.evaluate]
    refine (ih.evaluate left ⟨hw.2.1, hp.1⟩).bind fun l hl => ?_
    refine (Sound.of_keeps (Eval.decides_keeps l hw.1)).bind fun decided _ => ?_
    cases decided with
    | true => exact .pure hl
    | false => exact ih.evaluate right ⟨hw.2.2, hp.2⟩
  | call callee paren arguments =>
    simp only [Expr.everyPipe, Bool.and_eq_true] at hp
    rw [Sink.evaluate]
    refine (ih.evaluate callee ⟨hw.1, hp.1⟩).bind fun f hf => ?_
    have harguments := Eval.values_ends fun e hmem =>
      ih.evaluate e (Expr.sound_of_mem hw.2 hp.2 e hmem)
    exact harguments.bind fun vs hvs => call_sound hh ih.runsBodies hf paren hvs
  | function own parameters body =>
    rw [Sink.evaluate]
    exact functionValue_sound own parameters hw hp
  | pipe left operator right =>
    -- There are no pipes.
    simp [Expr.everyPipe] at hp

/-- One level of a statement. -/
theorem SoundAt.execute_succ (hJ : sink.Keeps J) (ih : SoundAt sink host J n)
    (ctx : Parse.Context) (s : Stmt) (hs : s.Sound ctx) :
    sink.Sound host J (sink.execute host (n + 1) s) (Signal.All (Value.Sound host)) := by
  obtain ⟨hw, hp⟩ := hs
  cases s with
  | expr value =>
    rw [Sink.execute]
    exact (ih.evaluate value ⟨hw, hp⟩).bind fun _ _ => .pure trivial
  | print value =>
    rw [Sink.execute]
    refine (ih.evaluate value ⟨hw, hp⟩).bind fun v _ => ?_
    exact (print_sound hJ v).bind fun _ _ => .pure trivial
  | var name initial =>
    rw [Sink.execute]
    refine (ih.valueOrNil (Expr.sound_of_option hw.2 hp)).bind fun v hv => ?_
    exact (define_sound name.lexeme hv).bind fun _ _ => .pure trivial
  | block body =>
    rw [Sink.execute]
    refine current_sound.bind fun outer _ => ?_
    refine (newFrame_sound outer Bindings.all_nil).bind fun frame _ => ?_
    refine Sound.inFrame (Eval.sequence_ends fun s hmem => ?_) frame
    exact ih.execute ctx s (Stmt.sound_of_mem hw hp s hmem)
  | branch condition yes no =>
    obtain ⟨hc, ⟨-, hy⟩, hn⟩ := hw
    simp only [Stmt.everyPipe, Bool.and_eq_true] at hp
    rw [Sink.execute.eq_def]
    refine (ih.evaluate condition ⟨hc, hp.1.1⟩).bind fun v _ => ?_
    by_cases hv : v.isTruthy = true
    · rw [if_pos hv]
      exact ih.execute ctx yes ⟨hy, hp.1.2⟩
    · rw [if_neg hv]
      cases no with
      | none => exact .pure trivial
      | some other => exact ih.execute ctx other ⟨hn.2, hp.2⟩
  | loop condition body increment =>
    obtain ⟨hc, ⟨-, hb⟩, hi⟩ := hw
    simp only [Stmt.everyPipe, Bool.and_eq_true] at hp
    rw [Sink.execute]
    -- The step is a part of the body, so the body has to be sound for both.
    have hbody : body.Sound ctx.ofLoop := ⟨hb, hp.2⟩
    exact Eval.rounds_ends (ih.evaluate condition ⟨hc, hp.1⟩) (ih.execute ctx.ofLoop body hbody)
      (ih.loopStep hbody hi) n
  | function name parameters body =>
    rw [Sink.execute]
    refine current_sound.bind fun frame _ => ?_
    refine (newClosure_sound _ parameters hw.2 hp frame).bind fun v hv => ?_
    exact (define_sound name.lexeme hv).bind fun _ _ => .pure trivial
  | give keyword value =>
    rw [Sink.execute]
    refine (ih.valueOrNil (Expr.sound_of_option hw.2 hp)).bind fun v hv => ?_
    exact .pure hv
  | leave keyword =>
    rw [Sink.execute]
    exact .pure trivial
  | next keyword =>
    rw [Sink.execute]
    exact .pure trivial

/-- Sound trees are evaluated and executed soundly, at every bound. -/
theorem soundAt (sink : Sink) (hh : host.Sound) (hJ : sink.Keeps J) (n : Nat) :
    SoundAt sink host J n := by
  induction n with
  | zero =>
    constructor
    · intro e _
      rw [Sink.evaluate]
      exact .exhausted
    · intro ctx s _
      rw [Sink.execute]
      exact .exhausted
  | succ n ih => exact ⟨ih.evaluate_succ hh, ih.execute_succ hJ⟩

/-- **A sound program into any sink:** the values in the frames are sound after
it, and if it breaks off, the program, the sink or the clock is to blame. -/
theorem runProgram_sound (sink : Sink) (hh : host.Sound) (hJ : sink.Keeps J) (bound : Nat)
    {program : List Stmt} (hw : Stmt.AllWellFormed .top program)
    (hp : Stmt.pipeFree program = true) :
    sink.Sound host J (sink.runProgram host bound program) fun _ => True := by
  unfold runProgram
  have hall : sink.Sound host J (doAll (sink.execute host bound) program) fun _ => True :=
    Eval.doAll_ends fun s hs =>
      (soundAt sink hh hJ bound).execute .top s (Stmt.sound_of_mem hw hp s hs)
  exact hall.bind fun _ _ => flush_sound

end Sink

end Lox
