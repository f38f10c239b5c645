/-
  Lox.Proofs.Safety
  ────────────────────────────────
  **NO PROGRAM BREAKS ITS HOST.**

  The evaluator blames the host for a tree that is not sound.  No such tree ever
  gets there, and this includes the bodies of the functions that earlier runs have
  left in the frames.  The invariant of a session:

    • all values in the frames are sound,
    • the channels take everything.

  It holds at the start, a run keeps it, whatever the outcome, as long as the clock
  keeps to times since the epoch (`runProgram_safe`),
  and what a run executes is sound (`compile_sound`).  So it holds in every
  session, and a run that ends does not end with an error of the host
  (`run_never_blames_host`).
-/
import Lox.Proofs.Sinks
import Lox.Proofs.Token.Counter

namespace Lox

/-! ## §1. Channels that take everything. -/

/-- Nothing that is written to a channel fails. -/
structure Channel.Reliable (c : Channel) : Prop where
  noLimit : c.limit = none
  flushes : c.flushFails = false

/-- Writing does not change the limit. -/
theorem Channel.limit_writeAll (c : Channel) (chunks : List String) :
    (c.writeAll chunks).2.limit = c.limit := by
  induction chunks generalizing c with
  | nil => rfl
  | cons chunk rest ih =>
    unfold Channel.writeAll
    split
    · exact ih (c.append chunk)
    · rfl

namespace Sink

/-- A reliable channel stays so. -/
theorem plain_keeps_reliable : plain.Keeps Channel.Reliable := by
  intro c chunk hc
  rw [plain_write]
  split
  · exact hc
  · exact ⟨hc.noLimit, hc.flushes⟩

/-- A reliable channel breaks no run off. -/
theorem plain_not_fails {c : Channel} (hc : c.Reliable) (text : String) : ¬plain.Fails c text := by
  intro h
  cases h with
  | write _ h =>
    rw [plain_write] at h
    split at h
    · next hfull =>
      cases h
      simp [Channel.isFull, hc.noLimit] at hfull
    · cases h
  | flush h =>
    have hflush : (!c.flushFails) = false := h
    rw [hc.flushes] at hflush
    cases hflush

end Sink

/-! ## §2. Runs of sound programs. -/

/-- All values in the frames are sound, and everything can be printed. -/
structure Machine.Sound (host : Host) (m : Machine) : Prop where
  values : m.scopes.All (Value.Sound host)
  noLimit : m.output.limit = none
  flushes : m.output.flushFails = false

/-- **A sound program is run safely:** it keeps machines sound and does not blame
the host. -/
theorem Eval.runProgram_safe {host : Host} (hh : host.Sound) (hclock : host.KeepsTime)
    (bound : Nat) {program : List Stmt} (hw : Stmt.AllWellFormed .top program)
    (hp : Stmt.pipeFree program = true) :
    (runProgram host bound program).Keeps (Machine.Sound host) Failure.OfProgram fun _ => True := by
  intro m hm
  have hrun := Sink.plain.runProgram_sound hh Sink.plain_keeps_reliable bound hw hp m
    ⟨hm.values, hm.noLimit, hm.flushes⟩
  rw [Sink.plain_runProgram] at hrun
  cases h : runProgram host bound program m with
  | done _ m' =>
    rw [h] at hrun
    exact ⟨⟨hrun.1.1, hrun.1.2.noLimit, hrun.1.2.flushes⟩, trivial⟩
  | failed failure m' =>
    rw [h] at hrun
    obtain ⟨⟨hvalues, houtput⟩, hblame⟩ := hrun
    refine ⟨⟨hvalues, houtput.noLimit, houtput.flushes⟩, ?_⟩
    cases failure with
    | runtime fault => trivial
    | host text =>
      rcases hblame with hsink | hread
      · exact Sink.plain_not_fails houtput text hsink
      · exact hclock.not_clockFails hread
  | exhausted => trivial

/-! ## §3. What a run executes. -/

theorem Journal.flagged_reportAll (j : Journal) (ds : List Diagnostic) :
    (j.reportAll ds).flagged = (j.flagged || ds.any Diagnostic.isStatic) := by
  induction ds generalizing j with
  | nil => simp [Journal.reportAll]
  | cons d ds ih =>
    show ((j.report d).reportAll ds).flagged = _
    rw [ih]
    simp [Journal.report, Bool.or_assoc]

/-- A draft that is not flagged has no faults. -/
theorem Draft.faults_eq_nil_of_not_flagged {draft : Draft} (h : draft.journal.flagged = false) :
    draft.faults = [] := by
  unfold Draft.journal at h
  rw [Journal.flagged_reportAll] at h
  cases hf : draft.faults with
  | nil => rfl
  | cons fault faults => simp [hf, Diagnostic.isStatic] at h

/-- Whether the host is blamed for an error. -/
def RunError.blamesHost : RunError → Bool
  | .host _ | .runtime (.host _) => true
  | .scan _ | .grammar _ | .runtime (.runtime _) => false

/-- What compiling a source should come to: a sound program, or an error for
which the host is not to blame. -/
def Compiled.Sound (c : Compiled) : Prop :=
  match c.program with
  | .ok program => Stmt.AllWellFormed .top program ∧ Stmt.pipeFree program = true
  | .error e => e.blamesHost = false

/-- A draft without faults is expanded to a sound program. -/
theorem prepare_sound {draft : Draft} (hw : Stmt.AllWellFormed .top draft.statements)
    (hf : (prepare draft).faults = []) :
    Stmt.AllWellFormed .top (prepare draft).statements ∧
      Stmt.pipeFree (prepare draft).statements = true := by
  -- The faults of the expansion come behind those of reading.
  have hpipes : (expandPipes draft.statements).faults = [] := (List.append_eq_nil_iff.1 hf).2
  have hused := (expandPipes_faults_eq_nil draft.statements).1 hpipes
  show Stmt.AllWellFormed .top (expandPipes draft.statements).statements ∧
    Stmt.pipeFree (expandPipes draft.statements).statements = true
  rw [expandPipes_of_pipesUsed hused]
  exact ⟨Stmt.flatAll_wellFormed _ hw, Stmt.everyPipeAll_flatAll _ _⟩

/-- Reading that does not break off gives a sound program or a fault of the
tokens. -/
theorem Compiled.ofReading_sound {reading : Step (List Stmt)}
    (hb : ∀ text c, reading ≠ .broken text c)
    (hw : Stmt.AllWellFormed .top reading.draft.statements) :
    (Compiled.ofReading reading).Sound := by
  have hreading : Compiled.ofReading reading = ⟨(prepare reading.draft).journal,
      if (prepare reading.draft).journal.flagged then
        .error (.grammar (prepare reading.draft).journal.staticCount)
      else .ok (prepare reading.draft).statements⟩ := by
    cases reading with
    | broken text c => exact absurd rfl (hb text c)
    | _ => rfl
  rw [hreading]
  unfold Compiled.Sound
  by_cases hflag : (prepare reading.draft).journal.flagged = true
  · simp only [hflag, if_true]
    rfl
  · simp only [hflag]
    exact prepare_sound hw (Draft.faults_eq_nil_of_not_flagged (by simpa using hflag))

/-- **Every source is compiled to a sound program, or not at all.** -/
theorem compile_sound (source : String) : (compile source).Sound := by
  rw [compile_eq]
  cases scan source with
  | error faults => rfl
  | ok tokens =>
    exact Compiled.ofReading_sound (readProgram_ne_broken tokens) (parse_wellFormed tokens)

/-! ## §4. Sessions. -/

/-- A session with a sound machine, whose diagnostics are taken. -/
structure Session.Sound (host : Host) (s : Session) : Prop where
  machine : s.machine.Sound host
  noLimit : s.errors.limit = none

/-- Whether a run ends with the blame on the host. -/
def Ending.blamesHost : Ending → Bool
  | .error e => e.blamesHost
  | .success | .exhausted => false

/-- The sessions that can be reached from a session by runs, whatever these end
with. -/
inductive Session.Reachable (host : Host) (first : Session) : Session → Prop where
  | start : Reachable host first first
  | run {s : Session} (h : Reachable host first s) (bound : Nat) (source : String) :
      Reachable host first (s.run host bound source).2

namespace Session

variable {host : Host}

/-- The first machine binds host functions that the host has. -/
theorem start_sound {output errors : Channel} (ho : output.limit = none)
    (hf : output.flushFails = false) (he : errors.limit = none) :
    (Session.start host output errors).Sound host := by
  refine ⟨⟨Scopes.all_empty.push (Bindings.all_ofLists _ ?_), ho, hf⟩, he⟩
  intro v hv
  obtain ⟨i, hi, hvalue⟩ := List.mem_mapIdx.1 hv
  rw [← hvalue]
  show (host.functions[i]?).isSome = true
  -- A host function is bound to its own index in the list of them.
  rw [Array.length_toList] at hi
  rw [Array.getElem?_eq_getElem hi]
  rfl

theorem writeReports_of_no_limit {errors : Channel} (h : errors.limit = none)
    (ds : List Diagnostic) :
    (writeReports errors ds).1 = true ∧ (writeReports errors ds).2.limit = none := by
  induction ds generalizing errors with
  | nil => exact ⟨rfl, h⟩
  | cons d ds ih =>
    have htaken : (errors.writeLine d.chunks).1 = true := Channel.writeAll_of_no_limit h _
    have hlimit : (errors.writeLine d.chunks).2.limit = none := by
      unfold Channel.writeLine
      rw [Channel.limit_writeAll, h]
    unfold writeReports
    rcases hwritten : errors.writeLine d.chunks with ⟨taken, after⟩
    rw [hwritten] at htaken hlimit
    cases htaken
    exact ih hlimit

/-- A run does not blame the host and leaves a sound session. -/
def EndsSoundly (host : Host) (r : Ending × Session) : Prop :=
  r.1.blamesHost = false ∧ r.2.Sound host

/-- Writing the diagnostics of a run changes nothing about it. -/
theorem finish_endsSoundly {m : Machine} (hm : m.Sound host) {errors : Channel}
    (he : errors.limit = none) {ending : Ending} (hb : ending.blamesHost = false)
    (journal : Journal) : EndsSoundly host (finish m errors ending journal) := by
  obtain ⟨htaken, hlimit⟩ := writeReports_of_no_limit he journal.drain.1
  unfold finish
  rcases hwritten : writeReports errors journal.drain.1 with ⟨taken, after⟩
  rw [hwritten] at htaken hlimit
  cases htaken
  exact ⟨hb, hm, hlimit⟩

/-- **One run** of a sound session, whatever it ends with. -/
theorem run_endsSoundly (hh : host.Sound) (hclock : host.KeepsTime) {s : Session}
    (hs : s.Sound host) (bound : Nat) (source : String) : EndsSoundly host (s.run host bound source) := by
  have hc := compile_sound source
  unfold Session.run
  rcases hcompile : compile source with ⟨journal, e | program⟩
  · rw [hcompile] at hc
    have hblame : (Ending.error e).blamesHost = false := hc
    -- Nothing is run, so the machine is the one from before.
    exact finish_endsSoundly hs.machine hs.noLimit hblame journal
  · rw [hcompile] at hc
    have hrun := Eval.runProgram_safe hh hclock bound hc.1 hc.2 s.machine hs.machine
    dsimp only
    cases hp : Eval.runProgram host bound program s.machine with
    | done _ m =>
      rw [hp] at hrun
      exact finish_endsSoundly hrun.1 hs.noLimit rfl journal
    | failed failure m =>
      rw [hp] at hrun
      cases failure with
      | runtime fault => exact finish_endsSoundly hrun.1 hs.noLimit rfl _
      -- The evaluator does not fail on behalf of the host.
      | host text => exact hrun.2.elim
    -- A run that is cut off has not come back, and its session is as before.
    | exhausted => exact ⟨rfl, hs⟩

/-- Every session that is reached from a sound one is sound. -/
theorem Reachable.sound (hh : host.Sound) (hclock : host.KeepsTime) {first s : Session} (h : Reachable host first s)
    (hf : first.Sound host) : s.Sound host := by
  induction h with
  | start => exact hf
  | run _ bound source ih => exact (run_endsSoundly hh hclock ih bound source).2

end Session

/-- **No program breaks its host.** Take a session with channels that never fail
and a clock that never reads a time before the epoch, after any runs, failed or
not.  Whatever source is run then, the run does not end with an error of the host,
neither one of its own nor one that the evaluator raised. -/
theorem run_never_blames_host (clock : Nat → Float) (hclock : ∀ n, ¬clock n < 0)
    {output errors : Channel}
    (ho : output.limit = none) (hf : output.flushFails = false) (he : errors.limit = none)
    {s : Session}
    (hs : Session.Reachable (.standard clock) (.start (.standard clock) output errors) s)
    (bound : Nat) (source : String) :
    (s.run (.standard clock) bound source).1.blamesHost = false := by
  have hh := Host.standard_sound clock
  have hsound := hs.sound hh hclock (Session.start_sound ho hf he)
  exact (Session.run_endsSoundly hh hclock hsound bound source).1

theorem run_never_blames_host_later_call :
    (((Session.start (.standard fun _ => 0) .unlimited .unlimited).run (.standard fun _ => 0) 64
        "fun f(x) \x7b return x |> $ + 1; \x7d f(nil);").2.run (.standard fun _ => 0) 64
      "print f(1);").1.blamesHost = false :=
  run_never_blames_host (fun _ => 0) (fun _ => by decide +kernel) rfl rfl rfl (.run .start 64 _) 64 _

end Lox
