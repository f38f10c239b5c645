/-
  Lox.Proofs.Lines.Runs
  ────────────────────────────────
  **THE LINES OF FAULTS AT RUN TIME.**

  A fault of a running program is on the line of a token: of the name, the
  operator or the call that went wrong.  The token may be one of the program that
  runs or one in the body of a function that an earlier program has left in the
  frames.  So fix a property `L` of lines again:

    • if all tokens of a program and of all functions in the frames are on lines
      with `L`, so is every fault of its run, and so are the functions that the
      run leaves behind (`Eval.linesAt`, §2);
    • a host function complains on any line it likes, the line 0 included, but
      the complaint is moved to the call before anybody sees it
      (`Eval.call_lines`).

  With the lines of all sources so far for `L`, this holds of every machine
  between runs and of every session (§3).
-/
import Lox.Proofs.Accounts
import Lox.Proofs.CurrentFrame
import Lox.Proofs.Holding

namespace Lox

variable {L : Nat → Prop} {host : Host}

/-! ## §1. Values, failures and operators. -/

/-- All tokens in the body of a function are on lines with a property. -/
def Value.On (L : Nat → Prop) : Value → Prop
  | .function closure => Stmt.AllOn L closure.body
  | _ => True

/-- A fault of the program is on a line with a property. -/
def Failure.On (L : Nat → Prop) : Failure → Prop
  | .runtime fault => L fault.line
  | .host _ => True

namespace Value

variable {v : Value}

theorem on_of_not_function (h : ∀ c, v ≠ .function c) : v.On L := by
  cases v with
  | function c => exact absurd rfl (h c)
  | _ => trivial

theorem on_of_not_callable (h : v.isCallable = false) : v.On L := by
  apply on_of_not_function
  rintro c rfl
  cases h

/-- An operator that fails does so on its line. -/
theorem onNumbers_error_on {operator : Token} (hl : L operator.line) {left right : Value}
    {result : Float → Float → Value} {failure : Failure}
    (h : onNumbers operator left right result = .error failure) : failure.On L := by
  unfold onNumbers at h
  split at h
  · cases h
  · cases h
    exact hl

theorem binary_error_on {operator : Token} (hl : L operator.line) {left right : Value}
    {failure : Failure} (h : left.binary operator right = .error failure) : failure.On L := by
  unfold binary at h
  split at h
  case h_1 =>
    split at h
    · cases h
    · cases h
    · cases h
      exact hl
  case h_9 => cases h
  case h_10 => cases h
  case h_11 =>
    cases h
    trivial
  all_goals exact onNumbers_error_on hl h

theorem unary_error_on {operator : Token} (hl : L operator.line) {operand : Value}
    {failure : Failure} (h : operand.unary operator = .error failure) : failure.On L := by
  unfold unary at h
  split at h
  · cases h
  · split at h
    · cases h
    · cases h
      exact hl
  · cases h
    trivial

end Value

/-- Only the host is to blame for an `and` or an `or` that is none. -/
theorem Eval.decides_error_on {operator : Token} {left : Value} {failure : Failure}
    (h : Eval.decides operator left = .error failure) : failure.On L := by
  unfold Eval.decides at h
  split at h
  · cases h
  · cases h
  · cases h
    trivial

/-- **The host makes no functions of the program.** Whatever property all other
values have, its functions hand on only values with the property as long as they
are handed such values.  They may complain in any way. -/
def Host.MakesNoFunctions (host : Host) : Prop :=
  ∀ P : Value → Prop, (∀ v, (∀ c, v ≠ .function c) → P v) → host.Handles P

theorem Host.toolbox_makesNoFunctions (clock : Nat → Float) :
    (Host.toolbox clock).MakesNoFunctions := by
  intro P hP
  apply Host.toolbox_handles
  intro v hv
  apply hP
  rintro c rfl
  cases hv

theorem Host.MakesNoFunctions.handles_on (hh : host.MakesNoFunctions) :
    host.Handles (Value.On L) := hh _ fun _ => Value.on_of_not_function

/-! ## §2. Expressions and statements. -/

namespace Eval

variable {α : Type} {ex : Stmt → Eval Signal} {n : Nat}

/-- A computation on machines whose functions are on lines with a property: it
keeps them so, and fails only on such lines. -/
abbrev Lines (L : Nat → Prop) (p : Eval α) (Q : α → Prop) : Prop :=
  p.Keeps (Machine.Holds (Value.On L)) (Failure.On L) Q

/-- What is on lines with the property runs on such lines. -/
abbrev RunsLines (L : Nat → Prop) (ex : Stmt → Eval Signal) : Prop :=
  ∀ s : Stmt, s.On L → Lines L (ex s) (Signal.All (Value.On L))

theorem enter_lines (hx : RunsLines L ex) {c : Closure} (hc : (Value.function c).On L)
    {vs : List Value} (hvs : ∀ v ∈ vs, v.On L) : Lines L (enter ex c vs) (Value.On L) := by
  unfold enter
  refine (newFrame_holds c.frame (Bindings.all_ofLists c.parameters hvs)).bind fun frame _ => ?_
  have hbody : Lines L (sequence ex c.body) (Signal.All (Value.On L)) :=
    sequence_keeps fun s hs => hx s (Stmt.on_of_mem hc s hs)
  refine (hbody.inFrame frame fun _ _ hm => hm).bind fun signal hsignal => ?_
  cases signal with
  | give v => exact Keeps.pure hsignal
  | next => exact Keeps.pure trivial
  | leave => exact Keeps.pure trivial
  | skip => exact Keeps.pure trivial

/-- A host function may fail on any line. -/
theorem perform_lines (hx : RunsLines L ex) {a : Action} (ha : a.Handles (Value.On L)) :
    (perform host (enter ex) a).Keeps (Machine.Holds (Value.On L)) (fun _ => True)
      (Value.On L) := by
  induction ha with
  | give hv => exact Keeps.pure hv
  | raise fault => exact Keeps.fail trivial
  | abort text => exact Keeps.fail trivial
  | readClock _ ih => exact readClock_holds.bind fun now _ => ih now
  | @call c vs next hc hvs _ _ ihgiven ihfailed =>
    have hanswer : (enter ex c vs).attempt.Keeps (Machine.Holds (Value.On L)) (fun _ => True)
        fun answer => ∀ v, answer = .ok v → v.On L :=
      (enter_lines hx hc hvs).attempt (fun v hv w hw => Except.ok.inj hw ▸ hv)
        fun failure _ w hw => nomatch hw
    refine hanswer.bind fun answer hv => ?_
    cases answer with
    | ok v => exact ihgiven v (hv v rfl)
    | error failure => exact ihfailed failure

theorem call_lines (hh : host.Handles (Value.On L)) (hx : RunsLines L ex) {callee : Value}
    (hc : callee.On L) {paren : Token} (hp : L paren.line) {vs : List Value}
    (hvs : ∀ v ∈ vs, v.On L) : Lines L (call host ex callee paren vs) (Value.On L) := by
  unfold call
  cases callee with
  | function c =>
    dsimp only
    split
    · exact enter_lines hx hc hvs
    · exact Keeps.fail hp
  | native n =>
    dsimp only
    split
    · -- Whatever line the host function has chosen is replaced.
      refine (perform_lines hx (hh.act n hvs)).relocating paren.line fun failure _ => ?_
      cases failure with
      | runtime fault => exact hp
      | host text => trivial
    · exact Keeps.fail hp
  | _ => exact Keeps.fail hp

/-- The step of a loop is a statement of its body. -/
theorem loopStep_lines {ev : Expr → Eval Value}
    (he : ∀ e : Expr, e.On L → Lines L (ev e) (Value.On L)) (increment : Bool) {body : Stmt}
    (hb : body.On L) : Lines L (loopStep ev increment body) fun _ => True := by
  unfold loopStep
  cases increment with
  | false => exact Keeps.pure trivial
  | true =>
    cases body with
    | block statements =>
      simp only [if_true]
      cases hlast : statements.getLast? with
      | none => exact Keeps.fail trivial
      | some last =>
        have hon := Stmt.on_of_mem hb last (List.mem_of_getLast? hlast)
        cases last with
        | expr value => exact (he value hon).bind fun _ _ => Keeps.pure trivial
        | _ => exact Keeps.fail trivial
    | _ => exact Keeps.fail trivial

/-- At a bound, trees on lines with a property fail only on such lines. -/
structure LinesAt (L : Nat → Prop) (host : Host) (n : Nat) : Prop where
  evaluate : ∀ e : Expr, e.On L → Lines L (evaluate host n e) (Value.On L)
  execute : RunsLines L (execute host n)

theorem LinesAt.valueOrNil (ih : LinesAt L host n) {o : Option Expr} (ho : Expr.OptionOn L o) :
    Lines L (Eval.valueOrNil (Eval.evaluate host n) o) (Value.On L) :=
  valueOrNil_keeps (fun e he => ih.evaluate e (Expr.on_of_option ho e he)) trivial

/-- One level of an expression. -/
theorem LinesAt.evaluate_succ (hh : host.Handles (Value.On L)) (ih : LinesAt L host n) (e : Expr)
    (he : e.On L) : Lines L (Eval.evaluate host (n + 1) e) (Value.On L) := by
  cases e with
  | literal value =>
    rw [Eval.evaluate]
    exact Keeps.pure (Value.on_of_not_callable (by cases value <;> rfl))
  | group inner =>
    rw [Eval.evaluate]
    exact ih.evaluate inner he
  | name token =>
    rw [Eval.evaluate]
    exact get_holds token he
  | assign target value =>
    rw [Eval.evaluate]
    refine (ih.evaluate value he.2).bind fun v hv => ?_
    exact (assign_holds target hv he.1).bind fun _ _ => Keeps.pure hv
  | unary operator operand =>
    rw [Eval.evaluate]
    refine (ih.evaluate operand he.2).bind fun v _ => ?_
    exact Keeps.ofExcept (fun _ h => Value.on_of_not_callable (Value.unary_plain h))
      fun _ h => Value.unary_error_on he.1 h
  | binary left operator right =>
    rw [Eval.evaluate]
    refine (ih.evaluate left he.2.1).bind fun l _ => ?_
    refine (ih.evaluate right he.2.2).bind fun r _ => ?_
    exact Keeps.ofExcept (fun _ h => Value.on_of_not_callable (Value.binary_plain h))
      fun _ h => Value.binary_error_on he.1 h
  | logical left operator right =>
    rw [Eval.evaluate]
    refine (ih.evaluate left he.2.1).bind fun l hl => ?_
    have hdecides : Lines L (ofExcept (decides operator l)) fun _ => True :=
      Keeps.ofExcept (fun _ _ => trivial) fun _ h => decides_error_on h
    refine hdecides.bind fun decided _ => ?_
    cases decided with
    | true => exact Keeps.pure hl
    | false => exact ih.evaluate right he.2.2
  | call callee paren arguments =>
    rw [Eval.evaluate]
    refine (ih.evaluate callee he.2.1).bind fun f hf => ?_
    have harguments := values_keeps fun e hmem => ih.evaluate e (Expr.on_of_mem he.2.2 e hmem)
    exact harguments.bind fun vs hvs => call_lines hh ih.execute hf he.1 hvs
  | function own parameters body =>
    rw [Eval.evaluate]
    -- The lines of the body go into the frames with the function.
    exact functionValue_holds fun _ _ _ => he.2.2
  | pipe left operator right =>
    rw [Eval.evaluate]
    exact Keeps.fail trivial

/-- One level of a statement. -/
theorem LinesAt.execute_succ (ih : LinesAt L host n) (s : Stmt) (hs : s.On L) :
    Lines L (Eval.execute host (n + 1) s) (Signal.All (Value.On L)) := by
  cases s with
  | expr value =>
    rw [Eval.execute]
    exact (ih.evaluate value hs).bind fun _ _ => Keeps.pure trivial
  | print value =>
    rw [Eval.execute]
    refine (ih.evaluate value hs).bind fun v _ => ?_
    exact (print_holds v trivial).bind fun _ _ => Keeps.pure trivial
  | var name initial =>
    rw [Eval.execute]
    refine (ih.valueOrNil hs.2).bind fun v hv => ?_
    exact (define_holds name.lexeme hv).bind fun _ _ => Keeps.pure trivial
  | block body =>
    rw [Eval.execute]
    refine current_holds.bind fun outer _ => ?_
    refine (newFrame_holds outer Bindings.all_nil).bind fun frame _ => ?_
    have hbody : Lines L (sequence (Eval.execute host n) body) (Signal.All (Value.On L)) :=
      sequence_keeps fun s hmem => ih.execute s (Stmt.on_of_mem hs s hmem)
    exact hbody.inFrame frame fun _ _ hm => hm
  | branch condition yes no =>
    rw [Eval.execute.eq_def]
    refine (ih.evaluate condition hs.1).bind fun v _ => ?_
    by_cases hv : v.isTruthy = true
    · rw [if_pos hv]
      exact ih.execute yes hs.2.1
    · rw [if_neg hv]
      cases no with
      | none => exact Keeps.pure trivial
      | some other => exact ih.execute other hs.2.2
  | loop condition body increment =>
    rw [Eval.execute]
    exact rounds_keeps (ih.evaluate condition hs.1) (ih.execute body hs.2)
      (loopStep_lines ih.evaluate increment hs.2) n
  | function name parameters body =>
    rw [Eval.execute]
    refine current_holds.bind fun frame _ => ?_
    have hnew : Lines L (newClosure (some name.lexeme) parameters body frame) (Value.On L) :=
      newClosure_holds (fun _ _ => hs.2.2) frame
    refine hnew.bind fun v hv => ?_
    exact (define_holds name.lexeme hv).bind fun _ _ => Keeps.pure trivial
  | give keyword value =>
    rw [Eval.execute]
    exact (ih.valueOrNil hs.2).bind fun v hv => Keeps.pure hv
  | leave keyword =>
    rw [Eval.execute]
    exact Keeps.pure trivial
  | next keyword =>
    rw [Eval.execute]
    exact Keeps.pure trivial

/-- **Faults are on the lines of tokens,** at every bound. -/
theorem linesAt (hh : host.Handles (Value.On L)) (n : Nat) : LinesAt L host n := by
  induction n with
  | zero =>
    constructor
    · intro e _
      rw [Eval.evaluate]
      exact Keeps.exhausted
    · intro s _
      rw [Eval.execute]
      exact Keeps.exhausted
  | succ n ih => exact ⟨ih.evaluate_succ hh, ih.execute_succ⟩

theorem runProgram_lines (hh : host.Handles (Value.On L)) (bound : Nat) {program : List Stmt}
    (hp : Stmt.AllOn L program) : Lines L (runProgram host bound program) fun _ => True := by
  have hall : Lines L (doAll (Eval.execute host bound) program) fun _ => True :=
    doAll_keeps fun s hs => (linesAt hh bound).execute s (Stmt.on_of_mem hp s hs)
  exact hall.bind fun _ _ => flush_holds trivial

end Eval

/-! ## §3. Sources run one after the other. -/

/-- A program that has been read from a source, with or without its pipes
expanded. There may have been faults. -/
def ReadFrom (source : String) (program : List Stmt) : Prop :=
  ∃ tokens, scan source = .ok tokens ∧
    (program = (parse tokens).statements ∨ program = (prepare (parse tokens)).statements)

theorem ReadFrom.on {source : String} {program : List Stmt} (h : ReadFrom source program)
    (hL : ∀ line, LineOf source line → L line) : Stmt.AllOn L program := by
  obtain ⟨tokens, hscan, hread⟩ := h
  have hdraft : (parse tokens).On L := parse_on (fun t ht => hL _ (line_of_scan hscan t ht))
    (hL 1 ⟨Nat.le_refl _, Nat.le_add_right _ _⟩)
  rcases hread with rfl | rfl
  · exact hdraft.statements
  · exact hdraft.prepare.statements

/-- What a source is compiled to has been read from it. -/
theorem readFrom_of_compile {source : String} {program : List Stmt}
    (h : (compile source).program = .ok program) : ReadFrom source program := by
  cases hscan : scan source with
  | error faults =>
    rw [compile_eq] at h
    rw [hscan] at h
    cases h
  | ok tokens =>
    rw [(compile_of_scan hscan).2] at h
    split at h
    · cases h
    · exact ⟨tokens, hscan, .inr (Except.ok.inj h).symm⟩

/-- A line of one of some sources. -/
def LineOfAny (sources : List String) (line : Nat) : Prop := ∃ source ∈ sources, LineOf source line

/-- A program that has been read from one of some sources. -/
def ReadFromAny (sources : List String) (program : List Stmt) : Prop :=
  ∃ source ∈ sources, ReadFrom source program

theorem ReadFromAny.on {sources : List String} {program : List Stmt}
    (h : ReadFromAny sources program) : Stmt.AllOn (LineOfAny sources) program := by
  obtain ⟨source, hmem, hread⟩ := h
  exact hread.on fun _ hline => ⟨source, hmem, hline⟩

/-- Between runs of programs from some sources, all functions in the frames are
on lines of these sources. -/
theorem Machine.Idle.holds_on (hh : host.MakesNoFunctions) {sources : List String} {m : Machine}
    (h : m.Idle host (ReadFromAny sources)) : m.Holds (Value.On (LineOfAny sources)) := by
  induction h with
  | start output =>
    refine Scopes.all_empty.push (Bindings.all_ofLists _ fun v hv => ?_)
    -- The first frame binds functions of the host only.
    obtain ⟨i, hi, hvalue⟩ := List.mem_mapIdx.1 hv
    rw [← hvalue]
    trivial
  | given _ native ih => exact Scopes.All.define ih 0 native.name trivial
  | @ran m m' _ bound program hp hm' ih =>
    have hend := (Eval.runProgram_lines hh.handles_on bound hp.on).after ih
    exact hend.machine? hm'

/-- A fault of a run is on a line of some source so far. -/
theorem Machine.Idle.line_of_fault (hh : host.MakesNoFunctions) {sources : List String}
    {m : Machine} (h : m.Idle host (ReadFromAny sources)) {program : List Stmt}
    (hp : ReadFromAny sources program) {bound : Nat} {fault : RuntimeFault} {m' : Machine}
    (hrun : Eval.runProgram host bound program m = .failed (.runtime fault) m') :
    LineOfAny sources fault.line := by
  have hend := Eval.runProgram_lines hh.handles_on bound hp.on m (h.holds_on hh)
  rw [hrun] at hend
  exact hend.2

/-- The sessions that can be reached from a session by running some sources, the
last one of which comes first. -/
inductive Session.After (host : Host) (first : Session) : List String → Session → Prop where
  | start : After host first [] first
  | run {sources : List String} {s : Session} (h : After host first sources s) (bound : Nat)
      (source : String) : After host first (source :: sources) (s.run host bound source).2

namespace Session

variable {s : Session} {bound : Nat} {source : String}

theorem machine_finish (m : Machine) (errors : Channel) (ending : Ending) (journal : Journal) :
    (finish m errors ending journal).2.machine = m := by
  unfold finish
  rcases writeReports errors journal.drain.1 with ⟨taken, after⟩
  cases taken with
  | true => rfl
  | false => rfl

/-- A run ends as it should, unless the diagnostics cannot be written. -/
theorem ending_finish (m : Machine) (errors : Channel) (ending : Ending) (journal : Journal) :
    (finish m errors ending journal).1 = ending ∨
      ∃ text, (finish m errors ending journal).1 = .error (.host text) := by
  unfold finish
  rcases writeReports errors journal.drain.1 with ⟨taken, after⟩
  cases taken with
  | true => exact .inl rfl
  | false => exact .inr ⟨_, rfl⟩

/-- A run leaves the machine alone or runs a program on it. -/
theorem machine_run (host : Host) (bound : Nat) (s : Session) (source : String) :
    (s.run host bound source).2.machine = s.machine ∨
      ∃ program, (compile source).program = .ok program ∧
        (Eval.runProgram host bound program s.machine).machine? =
          some (s.run host bound source).2.machine := by
  rcases run_cases host bound s source with ⟨e, -, hrun⟩ | ⟨program, hp, hran⟩
  · rw [hrun, machine_finish]
    exact .inl rfl
  · rcases hran with ⟨m, hm, hrun⟩ | ⟨fault, m, hm, hrun⟩ | ⟨text, m, hm, hrun⟩ | ⟨-, hrun⟩
    · rw [hrun, machine_finish]
      exact .inr ⟨program, hp, by rw [hm]; rfl⟩
    · rw [hrun, machine_finish]
      exact .inr ⟨program, hp, by rw [hm]; rfl⟩
    · rw [hrun, machine_finish]
      exact .inr ⟨program, hp, by rw [hm]; rfl⟩
    · rw [hrun]
      exact .inl rfl

/-- A fault that a run ends with is one of its program. -/
theorem fault_of_run {fault : RuntimeFault}
    (h : (s.run host bound source).1 = .error (.runtime (.runtime fault))) :
    ∃ program m, (compile source).program = .ok program ∧
      Eval.runProgram host bound program s.machine = .failed (.runtime fault) m := by
  have hending : ∀ {m : Machine} {ending : Ending} {journal : Journal},
      s.run host bound source = finish m s.errors ending journal →
      ending = .error (.runtime (.runtime fault)) := by
    intro m ending journal hrun
    rw [hrun] at h
    rcases ending_finish m s.errors ending journal with hsame | ⟨text, hhost⟩
    · exact hsame ▸ h
    · rw [hhost] at h
      cases h
  rcases run_cases host bound s source with ⟨e, he, hrun⟩ | ⟨program, hp, hran⟩
  · -- What does not compile is refused with another error.
    cases hending hrun
    rcases compile_program_cases source with ⟨_, herror, -⟩ | ⟨_, -, -, herror⟩ | ⟨_, -, -, herror⟩
    · rw [he] at herror
      cases herror
    · rw [he] at herror
      cases herror
    · rw [he] at herror
      cases herror
  · rcases hran with ⟨m, -, hrun⟩ | ⟨fault', m, hm, hrun⟩ | ⟨text, m, -, hrun⟩ | ⟨-, hrun⟩
    · cases hending hrun
    · cases hending hrun
      exact ⟨program, m, hp, hm⟩
    · cases hending hrun
    · rw [hrun] at h
      cases h

/-- The machine of a session is between runs of programs from its sources. -/
theorem After.idle {output errors : Channel} {sources : List String}
    (h : Session.After host (.start host output errors) sources s) :
    s.machine.Idle host (ReadFromAny sources) := by
  induction h with
  | start => exact .start output
  | @run sources s _ bound source ih =>
    have hmore : s.machine.Idle host (ReadFromAny (source :: sources)) :=
      ih.mono fun _ ⟨other, hmem, hread⟩ => ⟨other, .tail _ hmem, hread⟩
    rcases machine_run host bound s source with hsame | ⟨program, hp, hmachine⟩
    · rw [hsame]
      exact hmore
    · exact .ran hmore bound ⟨source, .head _, readFrom_of_compile hp⟩ hmachine

end Session

/-- **Every reported line exists.** The host may complain on any line, as long as
it makes no functions of the program.  Then

  • every fault found in a source, by scanning, by reading or by expanding pipes,
    is on a line of the source;
  • in a session after any runs, every fault that the run of a source ends with is
    on a line of that source or of one run before it;
  • so it is on any machine between runs, if the host has given programs any
    functions and the programs have been read from some sources, with faults or
    without, and with pipes or without.

Lines begin with 1, so the line 0 of a host function is never seen. -/
theorem every_reported_line_exists {host : Host} (hh : host.MakesNoFunctions) :
    (∀ source, ∀ d ∈ (compile source).journal.entries,
      1 ≤ d.line ∧ d.line ≤ 1 + source.toList.count '\n') ∧
    (∀ (output errors : Channel) (sources : List String) (s : Session),
      Session.After host (.start host output errors) sources s →
      ∀ (bound : Nat) (source : String) (fault : RuntimeFault),
        (s.run host bound source).1 = .error (.runtime (.runtime fault)) →
        ∃ other ∈ source :: sources,
          1 ≤ fault.line ∧ fault.line ≤ 1 + other.toList.count '\n') ∧
    ∀ (sources : List String) (m : Machine), m.Idle host (ReadFromAny sources) →
      ∀ (bound : Nat) (program : List Stmt) (fault : RuntimeFault) (m' : Machine),
        ReadFromAny sources program →
        Eval.runProgram host bound program m = .failed (.runtime fault) m' →
        ∃ other ∈ sources, 1 ≤ fault.line ∧ fault.line ≤ 1 + other.toList.count '\n' := by
  refine ⟨line_of_compile, ?_, ?_⟩
  · intro output errors sources s hs bound source fault hfault
    obtain ⟨program, m, hp, hrun⟩ := Session.fault_of_run hfault
    have hidle : s.machine.Idle host (ReadFromAny (source :: sources)) :=
      hs.idle.mono fun _ ⟨other, hmem, hread⟩ => ⟨other, .tail _ hmem, hread⟩
    exact hidle.line_of_fault hh ⟨source, .head _, readFrom_of_compile hp⟩ hrun
  · intro sources m hm bound program fault m' hp hrun
    exact hm.line_of_fault hh hp hrun

/-- A host function complains, on line 0, in a function of an earlier source.  The
line is that of the call, which only the earlier source has. -/
theorem every_reported_line_exists_earlier_source :
    let host := Host.toolbox fun _ => 0
    let first := "\nfun f()\x7bfail(nil);\x7d"
    let s := ((Session.start host .unlimited .unlimited).run host 8 first).2
    (s.run host 8 "f();").1 = .error (.runtime (.runtime ⟨2, .native "nil"⟩)) ∧
      ∃ other ∈ ["f();", first], 1 ≤ 2 ∧ 2 ≤ 1 + other.toList.count '\n' := by
  intro host first s
  have hfault : (s.run host 8 "f();").1 = .error (.runtime (.runtime ⟨2, .native "nil"⟩)) := by
    decide +kernel
  have hlines := every_reported_line_exists (Host.toolbox_makesNoFunctions fun _ => 0)
  exact ⟨hfault, hlines.2.1 .unlimited .unlimited [first] s (.run .start 8 first) 8 "f();"
    ⟨2, .native "nil"⟩ hfault⟩

end Lox
