/-
  Lox.Proofs.ExitStatus
  ────────────────────────────────
  **WHAT STANDS BEHIND AN EXIT STATUS.**

  A command that fails should say why.  The faults of a source are written during
  its run, and an error of the host is written at the end, if it is one that came
  up before the program ran or while faults were written (`RunError.isHost`).  An
  error that the host caused while the program ran is in neither group: nobody
  writes it.

  So let the output fail anywhere, in the run of a source and in all runs before
  it (`Session.Served`), and let the clock read what it wants.  A failing command
  says why, in whole lines that are about its error (`RunError.IsToldBy`), unless
  the output has failed or the clock has; then it says nothing at all.
-/
import Lox.Prompt
import Lox.Proofs.Accounts
import Lox.Proofs.Sinks

namespace Lox

/-! ## §1. Sessions whose output may fail. -/

/-- Run a source that prints into a sink. -/
def Session.runInto (sink : Sink) (host : Host) (bound : Nat) (s : Session) (source : String) :
    Ending × Session :=
  s.runWith (sink.runProgram host bound) source

/-- Into the sink that its channel is, a run is a run. -/
theorem Session.runInto_plain (host : Host) (bound : Nat) (s : Session) (source : String) :
    s.runInto .plain host bound source = s.run host bound source := by
  have hplain : Sink.plain.runProgram host bound = Eval.runProgram host bound :=
    funext (Sink.plain_runProgram host bound)
  rw [run_eq_runWith, ← hplain]
  rfl

/-- The sessions that can be reached from a session by runs, each of which prints
into a sink of its own and ends in any way. -/
inductive Session.Served (host : Host) (first : Session) : Session → Prop where
  | start : Served host first first
  | run {s : Session} (h : Served host first s) (sink : Sink) (bound : Nat) (source : String) :
      Served host first (s.runInto sink host bound source).2

/-- A session that holds sound values, and whose diagnostics are taken. -/
structure Session.Holds (host : Host) (s : Session) : Prop where
  values : s.machine.Holds (Value.Sound host)
  noLimit : s.errors.limit = none

namespace Session

variable {host : Host} {s : Session} {sink : Sink} {bound : Nat} {source : String}

/-- Before the first run there are functions of the host only. -/
theorem start_holds (host : Host) (output : Channel) {errors : Channel}
    (he : errors.limit = none) : (Session.start host output errors).Holds host := by
  -- The frames of the first machine do not depend on where it prints.
  have hsound : (Session.start host .unlimited errors).Sound host := start_sound rfl rfl he
  exact ⟨hsound.machine.values, he⟩

/-- A program that has been compiled is sound for every sink. -/
theorem compiled_sound (hh : host.Sound) {program : List Stmt}
    (hp : (compile source).program = .ok program) (sink : Sink) (bound : Nat) :
    sink.Sound host (fun _ => True) (sink.runProgram host bound program) fun _ => True := by
  have hc := compile_sound source
  unfold Compiled.Sound at hc
  rw [hp] at hc
  exact sink.runProgram_sound hh (fun _ _ _ => trivial) bound hc.1 hc.2

/-- **One run into a sink** leaves a session with sound values. -/
theorem Holds.runInto (hh : host.Sound) (hs : s.Holds host) (sink : Sink) (bound : Nat)
    (source : String) : (s.runInto sink host bound source).2.Holds host := by
  have hfinish : ∀ {m : Machine} (ending : Ending) (journal : Journal),
      m.Holds (Value.Sound host) → (finish m s.errors ending journal).2.Holds host := by
    intro m ending journal hm
    rw [finish_eq_of_no_limit m hs.noLimit]
    exact ⟨hm, hs.noLimit⟩
  unfold Session.runInto
  rcases runWith_cases (sink.runProgram host bound) s source with ⟨e, -, hrun⟩ | ⟨program, hp, hran⟩
  · rw [hrun]
    exact hfinish _ _ hs.values
  · have hend := compiled_sound hh hp sink bound s.machine ⟨hs.values, trivial⟩
    rcases hran with ⟨m, hm, hrun⟩ | ⟨fault, m, hm, hrun⟩ | ⟨text, m, hm, hrun⟩ | ⟨-, hrun⟩
    · rw [hm] at hend
      rw [hrun]
      exact hfinish _ _ hend.1.1
    · rw [hm] at hend
      rw [hrun]
      exact hfinish _ _ hend.1.1
    · rw [hm] at hend
      rw [hrun]
      exact hfinish _ _ hend.1.1
    · rw [hrun]
      exact hs

theorem Served.holds (hh : host.Sound) {output errors : Channel} (he : errors.limit = none)
    (h : Served host (.start host output errors) s) : s.Holds host := by
  induction h with
  | start => exact start_holds host output he
  | run _ sink bound source ih => exact ih.runInto hh sink bound source

/-- The output has failed: the host has broken the program off, and the sink is to
blame. -/
def OutputFailed (sink : Sink) (r : Ending × Session) : Prop :=
  ∃ text, r.1 = .error (.runtime (.host text)) ∧ sink.Fails r.2.machine.output text

/-- The clock has failed: the host has broken the program off, and the last reading
of the clock is to blame. -/
def ClockFailed (host : Host) (r : Ending × Session) : Prop :=
  ∃ text, r.1 = .error (.runtime (.host text)) ∧ host.ClockFails r.2.machine.readings text

/-- Only the output and the clock can be what the host breaks a program off for. -/
theorem BrokeOff.hostFailed {r : Ending × Session}
    (h : BrokeOff (sink.runProgram host bound) s source r) (hh : host.Sound)
    (hs : s.Holds host) : OutputFailed sink r ∨ ClockFailed host r := by
  obtain ⟨program, text, hp, hrun, hending⟩ := h.ending
  have hend := compiled_sound hh hp sink bound s.machine ⟨hs.values, trivial⟩
  rw [hrun] at hend
  exact hend.2.imp (fun hsink => ⟨text, hending, hsink⟩) fun hclock => ⟨text, hending, hclock⟩

end Session

/-! ## §2. What a command says. -/

/-- Run the file at a path, which prints into a sink; its text is missing if it
cannot be read. -/
def Session.runFile (sink : Sink) (host : Host) (bound : Nat) (path : String) (s : Session) :
    Option String → Ending × Session
  | some source => s.runInto sink host bound source
  | none => (.error (.host ("Failed open source file " ++ path)), s)

/-- The command on a file is such a run in a fresh session, with its result. -/
theorem fileResult_eq_runFile (host : Host) (bound : Nat) (path : String)
    (source : Option String) :
    fileResult host bound path source =
      let r := (Session.fresh host).runFile .plain host bound path source
      r.2.result r.1 := by
  cases source with
  | none => rfl
  | some source =>
    dsimp only [Session.runFile]
    rw [Session.runInto_plain]
    rfl

/-- **The lines that are about an error:** the faults that it counts, all of them
and as many, the fault that it is, or its own text. An error that the host caused
while the program ran has none. -/
inductive RunError.IsToldBy (source : Option String) : RunError → String → Prop where
  | faults {e : RunError} {text : String} (hsource : source = some text)
      (hfaulty : staticFaults text ≠ [])
      (hcount : e = .scan (staticFaults text).length ∨ e = .grammar (staticFaults text).length) :
      IsToldBy source e (Diagnostic.report (staticFaults text))
  | fault (fault : RuntimeFault) :
      IsToldBy source (.runtime (.runtime fault)) (Diagnostic.report [.runtime fault])
  | host (text : String) : IsToldBy source (.host text) ((RunError.host text).text ++ "\n")

theorem Diagnostic.lineEnd_mem_report {ds : List Diagnostic} (h : ds ≠ []) :
    '\n' ∈ (Diagnostic.report ds).toList := by
  cases ds with
  | nil => exact absurd rfl h
  | cons d ds => simp [Diagnostic.report, String.join_cons]

/-- There is a whole line at least. -/
theorem RunError.IsToldBy.lineEnd_mem {source : Option String} {e : RunError} {lines : String}
    (h : e.IsToldBy source lines) : '\n' ∈ lines.toList := by
  cases h with
  | faults _ hfaulty _ => exact Diagnostic.lineEnd_mem_report hfaulty
  | fault _ => exact Diagnostic.lineEnd_mem_report (List.cons_ne_nil _ _)
  | host _ => simp

/-- A command that fails has said why, behind what was written before. -/
def Session.SaysWhy (s : Session) (source : Option String) (r : Ending × Session) : Prop :=
  ∃ e lines, r.1 = .error e ∧ e.IsToldBy source lines ∧ '\n' ∈ lines.toList ∧
    (r.2.result r.1).errors = s.errors.text ++ lines

/-! ## §3. Which commands say why. -/

theorem RunError.exitCode_ne_zero (e : RunError) : e.exitCode ≠ 0 := by
  cases e with
  | runtime failure => cases failure <;> exact nofun
  | _ => exact nofun

namespace Session

variable {s : Session} {source : String} {r : Ending × Session} {sink : Sink}

theorem result_exit_eq_zero_iff (s : Session) (ending : Ending) :
    (s.result ending).exit = 0 ↔ ending = .success := by
  cases ending with
  | success => exact iff_of_true rfl rfl
  | error e => exact iff_of_false e.exitCode_ne_zero nofun
  | exhausted => exact iff_of_false nofun nofun

/-- For an error that is told by lines that have been written, there is nothing
more to write. -/
theorem SaysWhy.of_reported {e : RunError} {lines : String} (hending : r.1 = .error e)
    (htold : e.IsToldBy (some source) lines) (hhost : e.isHost = false)
    (herrors : r.2.errors = s.errors.append lines) : s.SaysWhy (some source) r := by
  refine ⟨e, lines, hending, htold, htold.lineEnd_mem, ?_⟩
  rw [hending]
  show r.2.errors.text ++ (if e.isHost then e.text ++ "\n" else "") = _
  rw [hhost, herrors]
  exact String.append_empty

theorem Refused.saysWhy (h : Refused s source r) : s.SaysWhy (some source) r := by
  have hfaulty : staticFaults source ≠ [] := List.ne_nil_of_length_pos h.faulty
  rcases h.ending with ⟨-, hending⟩ | ⟨-, hending⟩
  · exact .of_reported hending (.faults rfl hfaulty (.inl rfl)) rfl h.errors
  · exact .of_reported hending (.faults rfl hfaulty (.inr rfl)) rfl h.errors

theorem WentWrong.saysWhy (h : WentWrong s source r) : s.SaysWhy (some source) r := by
  obtain ⟨fault, hending, herrors⟩ := h.fault
  exact .of_reported hending (.fault fault) rfl herrors

/-- The host has broken the program off, for whatever reason. -/
def Interrupted (r : Ending × Session) : Prop := ∃ text, r.1 = .error (.runtime (.host text))

theorem interrupted_of_failed {host : Host} (h : OutputFailed sink r ∨ ClockFailed host r) :
    Interrupted r := by
  rcases h with ⟨text, hending, -⟩ | ⟨text, hending, -⟩
  · exact ⟨text, hending⟩
  · exact ⟨text, hending⟩

/-- Nobody writes anything more about it. -/
theorem Interrupted.silent (h : Interrupted r) :
    (r.2.result r.1).exit = 74 ∧ (r.2.result r.1).errors = r.2.errors.text := by
  obtain ⟨text, hending⟩ := h
  rw [hending]
  exact ⟨rfl, String.append_empty⟩

/-- No line is about it. -/
theorem Interrupted.not_saysWhy (h : Interrupted r) (source : Option String) :
    ¬s.SaysWhy source r := by
  rintro ⟨e, lines, hending, htold, -⟩
  obtain ⟨text, hfailed⟩ := h
  rw [hfailed] at hending
  cases hending
  cases htold with
  | faults _ _ hcount => exact hcount.elim nofun nofun

/-- **The three ways in which a command comes to an end:** it succeeds, it says
why not, or the output or the clock has failed and nothing has been written. -/
theorem Holds.runFile_cases {host : Host} (hh : host.Sound) (hs : s.Holds host) (sink : Sink)
    (bound : Nat) (path : String) (source : Option String)
    (hend : (s.runFile sink host bound path source).1 ≠ .exhausted) :
    (s.runFile sink host bound path source).1 = .success ∨
      s.SaysWhy source (s.runFile sink host bound path source) ∨
      (OutputFailed sink (s.runFile sink host bound path source) ∨
        ClockFailed host (s.runFile sink host bound path source)) ∧
        (s.runFile sink host bound path source).2.errors = s.errors := by
  cases source with
  | none =>
    have htold : (RunError.host ("Failed open source file " ++ path)).IsToldBy none _ := .host _
    exact .inr (.inl ⟨_, _, rfl, htold, htold.lineEnd_mem, rfl⟩)
  | some source =>
    rcases runWith_accounts (sink.runProgram host bound) hs.noLimit source hend with h | h | h | h
    · exact .inl h.ending
    · exact .inr (.inl h.saysWhy)
    · exact .inr (.inl h.saysWhy)
    · exact .inr (.inr ⟨h.hostFailed hh hs, h.errors⟩)

end Session

/-- **Only a failure of the output or of the clock is passed over in silence.** Take a
session whose diagnostics are all taken, after any runs, in each of which the output
may have failed at any chunk or when it was flushed, with a clock that may read
anything. Run the file at a path into any sink, and let that come to an end.

  • The exit status is 0 exactly if the run succeeds.
  • With any other exit status the command has said why, in lines that are about
    its error, unless the output or the clock has failed.
  • If one of them has failed, the exit status is 74 and nothing is written about
    it, neither by the run nor at the end.

Into the sink that its channel is, the run is that of the session. -/
theorem silent_iff_output_or_clock_failed (clock : Nat → Float) {output errors : Channel}
    (he : errors.limit = none) {s : Session}
    (hs : Session.Served (.standard clock) (.start (.standard clock) output errors) s)
    (sink : Sink) (bound : Nat) (path : String) (source : Option String)
    {r : Ending × Session} (hr : s.runFile sink (.standard clock) bound path source = r)
    (hend : r.1 ≠ .exhausted) :
    ((r.2.result r.1).exit = 0 ↔ r.1 = .success) ∧
      ((r.2.result r.1).exit ≠ 0 → (s.SaysWhy source r ↔
        ¬(Session.OutputFailed sink r ∨ Session.ClockFailed (.standard clock) r))) ∧
      (Session.OutputFailed sink r ∨ Session.ClockFailed (.standard clock) r →
        (r.2.result r.1).exit = 74 ∧ (r.2.result r.1).errors = s.errors.text) ∧
      ∀ text, s.runFile .plain (.standard clock) bound path (some text) =
        s.run (.standard clock) bound text := by
  have hh := Host.standard_sound clock
  have hcases := (hs.holds hh he).runFile_cases hh sink bound path source (hr ▸ hend)
  rw [hr] at hcases
  have hexit := r.2.result_exit_eq_zero_iff r.1
  refine ⟨hexit, fun hfails => ⟨?_, ?_⟩, fun hfailed => ?_, fun text => ?_⟩
  · exact fun hwhy hfailed => (Session.interrupted_of_failed hfailed).not_saysWhy source hwhy
  · intro hserved
    rcases hcases with hsuccess | hwhy | ⟨hfailed, -⟩
    · exact absurd (hexit.2 hsuccess) hfails
    · exact hwhy
    · exact absurd hfailed hserved
  · -- Of the three ways it is the last one, so no diagnostics have been added.
    have hinterrupted := Session.interrupted_of_failed hfailed
    obtain ⟨hstatus, hsilent⟩ := hinterrupted.silent
    rcases hcases with hsuccess | hwhy | ⟨-, herrors⟩
    · rw [hexit.2 hsuccess] at hstatus
      cases hstatus
    · exact absurd hwhy (hinterrupted.not_saysWhy source)
    · rw [herrors] at hsilent
      exact ⟨hstatus, hsilent⟩
  · exact s.runInto_plain (.standard clock) bound text

/-- The output could not be flushed when a function was defined, and fails again
within its name when it is printed. -/
theorem silent_iff_output_or_clock_failed_in_name :
    let host := Host.standard fun _ => 0
    let unflushed : Sink := ⟨fun c chunk => (true, c.append chunk), fun _ => false⟩
    let broken : Sink :=
      ⟨fun c chunk => if chunk = "far" then (false, c.append "f") else (true, c.append chunk),
        fun _ => true⟩
    let s := ((Session.start host .unlimited .unlimited).runInto unflushed host 8
      "fun far()\x7b-nil;\x7d").2
    let r := s.runFile broken host 8 "far.lox" (some "print far;")
    r.2.machine.output.text = "<fn f" ∧
      (Session.OutputFailed broken r ∨ Session.ClockFailed host r) ∧
      (r.2.result r.1).exit = 74 ∧ (r.2.result r.1).errors = s.errors.text := by
  intro host unflushed broken s r
  have hstatus : (r.2.result r.1).exit ≠ 0 := by decide +kernel
  have hends : r.1 ≠ .exhausted := by decide +kernel
  have hempty : (r.2.result r.1).errors.toList = [] := by decide +kernel
  obtain ⟨-, hwhy, hsilent, -⟩ := silent_iff_output_or_clock_failed (fun _ => 0) rfl
    (.run .start unflushed 8 _) broken 8 "far.lox" (some "print far;") rfl hends
  have hfailed : Session.OutputFailed broken r ∨ Session.ClockFailed host r := by
    by_contra hserved
    obtain ⟨e, lines, -, -, hline, herrors⟩ := (hwhy hstatus).2 hserved
    rw [herrors, String.toList_append, List.append_eq_nil_iff] at hempty
    rw [hempty.2] at hline
    cases hline
  exact ⟨by decide +kernel, hfailed, hsilent hfailed⟩

/-- A command can fail without a line about it: nothing can be printed, and nobody
says so. -/
theorem not_every_failure_is_told :
    ¬∀ (output : Channel) (bound : Nat) (source : String),
      let host := Host.standard fun _ => 0
      let r := (Session.start host output .unlimited).run host bound source
      r.1 ≠ .exhausted → (r.2.result r.1).exit ≠ 0 → '\n' ∈ (r.2.result r.1).errors.toList := by
  intro h
  have htold := h ⟨"", 0, some 0, false⟩ 3 "print nil;" (by decide +kernel) (by decide +kernel)
  revert htold
  decide +kernel

-- So it is if the clock of the host reads a time before the epoch.
example :
    let host := Host.standard fun _ => -1
    let r := (Session.fresh host).run host 8 "print clock();"
    (r.2.result r.1).exit = 74 ∧ (r.2.result r.1).errors = "" := by
  decide +kernel

end Lox
