/-
  Lox.Proofs.Accounts
  ────────────────────────────────
  **EVERY FAULT IS ACCOUNTED FOR.**

  A run decides twice whether it may go on, after scanning and before executing,
  and the errors with which it ends carry two counts: the number of faults that
  the scanner has kept and the number of entries that the journal has.  What is
  written is the journal.  The accounts agree:

    • `staticFaults` is the list of all faults that a source has before it is
      run, and it is exactly what compiling the source reports
      (`compile_entries`);
    • a source compiles exactly if there are none, and the error counts them
      otherwise (`compile_program_cases`);
    • a channel without a limit takes the journal whole
      (`Session.finish_eq_of_no_limit`).

  `Session.runWith_cases` says once what a run can do, however programs are
  executed.
-/
import Lox.Proofs.Lines
import Lox.Proofs.Sessions

namespace Lox

/-! ## §1. What a channel takes. -/

namespace Channel

theorem append_append (c : Channel) (a b : String) : (c.append a).append b = c.append (a ++ b) := by
  simp [append, String.append_assoc, Nat.add_assoc]

theorem append_empty (c : Channel) : c.append "" = c := by
  simp [append]

/-- A channel without a limit takes all chunks as one text. -/
theorem writeAll_eq_of_no_limit {c : Channel} (h : c.limit = none) (chunks : List String) :
    c.writeAll chunks = (true, c.append (String.join chunks)) := by
  induction chunks generalizing c with
  | nil =>
    rw [String.join_nil, append_empty]
    rfl
  | cons chunk rest ih =>
    have htakes : c.takes chunk = true := by simp [takes, isFull, h]
    have hrest : (c.append chunk).writeAll rest =
        (true, (c.append chunk).append (String.join rest)) := ih h
    rw [writeAll, if_pos htakes, hrest, append_append, String.join_cons]

end Channel

/-- The text in which diagnostics are written, each behind the other. -/
def Diagnostic.report (ds : List Diagnostic) : String :=
  String.join (ds.map fun d => d.text ++ "\n")

namespace Session

/-- **Diagnostics are written whole,** one after the other. -/
theorem writeReports_eq_of_no_limit {errors : Channel} (h : errors.limit = none)
    (ds : List Diagnostic) :
    writeReports errors ds = (true, errors.append (Diagnostic.report ds)) := by
  induction ds generalizing errors with
  | nil =>
    show _ = (true, errors.append (String.join []))
    rw [String.join_nil, Channel.append_empty]
    rfl
  | cons d ds ih =>
    have hline : errors.writeLine d.chunks = (true, errors.append (d.text ++ "\n")) := by
      unfold Channel.writeLine
      rw [Channel.writeAll_eq_of_no_limit h]
      simp [Diagnostic.text, String.join_append, String.join_cons]
    have hrest : writeReports (errors.append (d.text ++ "\n")) ds =
        (true, (errors.append (d.text ++ "\n")).append (Diagnostic.report ds)) := ih h
    unfold writeReports
    rw [hline]
    dsimp only
    rw [hrest, Channel.append_append]
    simp [Diagnostic.report, String.join_cons]

theorem finish_eq_of_no_limit (m : Machine) {errors : Channel} (h : errors.limit = none)
    (ending : Ending) (journal : Journal) :
    finish m errors ending journal =
      (ending, ⟨m, errors.append (Diagnostic.report journal.entries)⟩) := by
  unfold finish
  rw [show journal.drain.1 = journal.entries from rfl, writeReports_eq_of_no_limit h]

end Session

/-! ## §2. What is found in a source. -/

/-- **The faults of a source before it is run.** A text that cannot be scanned has
the faults of the text only; otherwise they are those of reading its tokens, then
those of expanding the pipes of what has been read. -/
def staticFaults (source : String) : List Diagnostic :=
  match scan source with
  | .error faults => faults.map .scan
  | .ok tokens =>
    ((parse tokens).faults ++ (expandPipes (parse tokens).statements).faults).map .grammar

theorem staticFaults_of_scan_error {source : String} {faults : List ScanFault}
    (h : scan source = .error faults) :
    staticFaults source = faults.map .scan ∧ staticFaults source ≠ [] := by
  have hfaults : staticFaults source = faults.map .scan := by
    unfold staticFaults
    rw [h]
  refine ⟨hfaults, ?_⟩
  rw [hfaults]
  exact fun hnone => (eq_of_scan_error h).2 (List.map_eq_nil_iff.1 hnone)

theorem Draft.entries_journal (draft : Draft) :
    draft.journal.entries = draft.faults.map .grammar := by
  unfold Draft.journal
  rw [Journal.entries_reportAll]
  rfl

/-- All faults of a grammar are counted. -/
theorem Draft.staticCount_journal (draft : Draft) :
    draft.journal.staticCount = draft.journal.entries.length := by
  unfold Journal.staticCount
  rw [draft.entries_journal, List.countP_eq_length]
  intro d hd
  obtain ⟨fault, -, rfl⟩ := List.mem_map.1 hd
  rfl

/-- The flag is set exactly if there are faults. -/
theorem Draft.flagged_journal (draft : Draft) :
    draft.journal.flagged = false ↔ draft.journal.entries = [] := by
  constructor
  · intro h
    rw [draft.entries_journal, draft.faults_eq_nil_of_not_flagged h]
    rfl
  · intro h
    rw [draft.entries_journal, List.map_eq_nil_iff] at h
    unfold Draft.journal
    rw [h]
    rfl

/-- **Compiling reports the faults of the source, and nothing else.** -/
theorem compile_entries (source : String) :
    (compile source).journal.entries = staticFaults source := by
  unfold staticFaults
  cases hscan : scan source with
  | error faults =>
    rw [compile_eq, hscan]
    exact Journal.entries_reportAll .empty (faults.map .scan)
  | ok tokens =>
    rw [(compile_of_scan hscan).1, Draft.entries_journal]
    rfl

/-- **What compiling comes to, by the faults of the source:** a program if there
are none, otherwise an error that counts them. -/
theorem compile_program_cases (source : String) :
    (∃ program, (compile source).program = .ok program ∧ staticFaults source = []) ∨
    (∃ faults, scan source = .error faults ∧ staticFaults source ≠ [] ∧
      (compile source).program = .error (.scan (staticFaults source).length)) ∨
    ∃ tokens, scan source = .ok tokens ∧ staticFaults source ≠ [] ∧
      (compile source).program = .error (.grammar (staticFaults source).length) := by
  cases hscan : scan source with
  | error faults =>
    obtain ⟨hfaults, hsome⟩ := staticFaults_of_scan_error hscan
    refine .inr (.inl ⟨faults, rfl, hsome, ?_⟩)
    rw [hfaults, List.length_map]
    rw [compile_eq, hscan]
  | ok tokens =>
    obtain ⟨hjournal, hprogram⟩ := compile_of_scan hscan
    have hentries := compile_entries source
    rw [hjournal] at hentries
    by_cases hflag : (prepare (parse tokens)).journal.flagged = true
    · rw [if_pos hflag, Draft.staticCount_journal, hentries] at hprogram
      refine .inr (.inr ⟨tokens, rfl, ?_, hprogram⟩)
      intro h
      rw [(Draft.flagged_journal _).2 (hentries.trans h)] at hflag
      cases hflag
    · rw [if_neg hflag] at hprogram
      refine .inl ⟨_, hprogram, ?_⟩
      rw [← hentries, ← Draft.flagged_journal]
      simpa using hflag

/-! ## §3. Runs. -/

namespace Session

/-- Run a source, with some way to execute its program. -/
def runWith (execute : List Stmt → Eval Unit) (s : Session) (source : String) :
    Ending × Session :=
  match compile source with
  | ⟨journal, .error e⟩ => finish s.machine s.errors (.error e) journal
  | ⟨journal, .ok program⟩ =>
    match execute program s.machine with
    | .done _ m => finish m s.errors .success journal
    | .failed (.runtime fault) m =>
      finish m s.errors (.error (.runtime (.runtime fault))) (journal.report (.runtime fault))
    | .failed (.host text) m => finish m s.errors (.error (.runtime (.host text))) journal
    | .exhausted => (.exhausted, s)

theorem run_eq_runWith (host : Host) (bound : Nat) (s : Session) (source : String) :
    s.run host bound source = s.runWith (Eval.runProgram host bound) source := rfl

/-- **What a run can do,** however programs are executed. -/
theorem runWith_cases (execute : List Stmt → Eval Unit) (s : Session) (source : String) :
    (∃ e, (compile source).program = .error e ∧
      s.runWith execute source = finish s.machine s.errors (.error e) (compile source).journal) ∨
    ∃ program, (compile source).program = .ok program ∧
      ((∃ m, execute program s.machine = .done () m ∧
        s.runWith execute source = finish m s.errors .success (compile source).journal) ∨
      (∃ fault m, execute program s.machine = .failed (.runtime fault) m ∧
        s.runWith execute source = finish m s.errors (.error (.runtime (.runtime fault)))
          ((compile source).journal.report (.runtime fault))) ∨
      (∃ text m, execute program s.machine = .failed (.host text) m ∧
        s.runWith execute source =
          finish m s.errors (.error (.runtime (.host text))) (compile source).journal) ∨
      (execute program s.machine = .exhausted ∧ s.runWith execute source = (.exhausted, s))) := by
  unfold runWith
  rcases compile source with ⟨journal, e | program⟩
  · exact .inl ⟨e, rfl, rfl⟩
  · refine .inr ⟨program, rfl, ?_⟩
    dsimp only
    cases execute program s.machine with
    | done _ m => exact .inl ⟨m, rfl, rfl⟩
    | failed failure m =>
      cases failure with
      | runtime fault => exact .inr (.inl ⟨fault, m, rfl, rfl⟩)
      | host text => exact .inr (.inr (.inl ⟨text, m, rfl, rfl⟩))
    | exhausted => exact .inr (.inr (.inr ⟨rfl, rfl⟩))

theorem run_cases (host : Host) (bound : Nat) (s : Session) (source : String) :
    (∃ e, (compile source).program = .error e ∧
      s.run host bound source = finish s.machine s.errors (.error e) (compile source).journal) ∨
    ∃ program, (compile source).program = .ok program ∧
      ((∃ m, Eval.runProgram host bound program s.machine = .done () m ∧
        s.run host bound source = finish m s.errors .success (compile source).journal) ∨
      (∃ fault m, Eval.runProgram host bound program s.machine = .failed (.runtime fault) m ∧
        s.run host bound source = finish m s.errors (.error (.runtime (.runtime fault)))
          ((compile source).journal.report (.runtime fault))) ∨
      (∃ text m, Eval.runProgram host bound program s.machine = .failed (.host text) m ∧
        s.run host bound source =
          finish m s.errors (.error (.runtime (.host text))) (compile source).journal) ∨
      (Eval.runProgram host bound program s.machine = .exhausted ∧
        s.run host bound source = (.exhausted, s))) :=
  runWith_cases (Eval.runProgram host bound) s source

variable {s : Session} {source : String} {r : Ending × Session}

/-- A run that succeeded: nothing has been reported. -/
structure Succeeded (s : Session) (source : String) (r : Ending × Session) : Prop where
  ending : r.1 = .success
  errors : r.2.errors = s.errors
  clean : staticFaults source = []

/-- A source that was not run: its faults have been written and counted, and the
machine is as before, with everything it holds and has printed. -/
structure Refused (s : Session) (source : String) (r : Ending × Session) : Prop where
  faulty : 1 ≤ (staticFaults source).length
  ending : (∃ faults, scan source = .error faults) ∧
      r.1 = .error (.scan (staticFaults source).length) ∨
    (∃ tokens, scan source = .ok tokens) ∧ r.1 = .error (.grammar (staticFaults source).length)
  errors : r.2.errors = s.errors.append (Diagnostic.report (staticFaults source))
  machine : r.2.machine = s.machine

/-- A program that went wrong: its fault has been written, and it is the only
one. -/
structure WentWrong (s : Session) (source : String) (r : Ending × Session) : Prop where
  fault : ∃ fault, r.1 = .error (.runtime (.runtime fault)) ∧
    r.2.errors = s.errors.append (Diagnostic.report [.runtime fault])
  clean : staticFaults source = []

/-- A program that the host has broken off: nothing has been written about it. -/
structure BrokeOff (execute : List Stmt → Eval Unit) (s : Session) (source : String)
    (r : Ending × Session) : Prop where
  ending : ∃ program text, (compile source).program = .ok program ∧
    execute program s.machine = .failed (.host text) r.2.machine ∧
    r.1 = .error (.runtime (.host text))
  errors : r.2.errors = s.errors
  clean : staticFaults source = []

/-- **One run** of a session whose diagnostics are taken, however programs are
executed. -/
theorem runWith_accounts (execute : List Stmt → Eval Unit) (he : s.errors.limit = none)
    (source : String) (hend : (s.runWith execute source).1 ≠ .exhausted) :
    Succeeded s source (s.runWith execute source) ∨ Refused s source (s.runWith execute source) ∨
      WentWrong s source (s.runWith execute source) ∨
      BrokeOff execute s source (s.runWith execute source) := by
  have hentries := compile_entries source
  rcases runWith_cases execute s source with ⟨e, herr, hrun⟩ | ⟨program, hp, hran⟩
  · -- The source is refused; the error is one of the two that count.
    rw [finish_eq_of_no_limit _ he, hentries] at hrun
    rw [hrun]
    rcases compile_program_cases source with ⟨_, hok, -⟩ | ⟨faults, hscan, hsome, herror⟩ |
      ⟨tokens, hscan, hsome, herror⟩
    · rw [herr] at hok
      cases hok
    · rw [herr] at herror
      cases herror
      have hfaulty := List.length_pos_of_ne_nil hsome
      exact .inr (.inl ⟨hfaulty, .inl ⟨⟨faults, hscan⟩, rfl⟩, rfl, rfl⟩)
    · rw [herr] at herror
      cases herror
      have hfaulty := List.length_pos_of_ne_nil hsome
      exact .inr (.inl ⟨hfaulty, .inr ⟨⟨tokens, hscan⟩, rfl⟩, rfl, rfl⟩)
  · -- The source is run, so it has no faults and nothing has been reported yet.
    have hclean : staticFaults source = [] := by
      rcases compile_program_cases source with ⟨_, -, hclean⟩ | ⟨_, -, -, herror⟩ | ⟨_, -, -, herror⟩
      · exact hclean
      · rw [hp] at herror
        cases herror
      · rw [hp] at herror
        cases herror
    have hempty : (compile source).journal.entries = [] := hentries.trans hclean
    rcases hran with ⟨m, -, hrun⟩ | ⟨fault, m, -, hrun⟩ | ⟨text, m, hm, hrun⟩ | ⟨-, hrun⟩
    · rw [finish_eq_of_no_limit m he, hempty] at hrun
      rw [hrun]
      exact .inl ⟨rfl, Channel.append_empty s.errors, hclean⟩
    · have hone : ((compile source).journal.report (.runtime fault)).entries = [.runtime fault] := by
        show (compile source).journal.entries ++ [.runtime fault] = _
        rw [hempty]
        rfl
      rw [finish_eq_of_no_limit m he, hone] at hrun
      rw [hrun]
      exact .inr (.inr (.inl ⟨⟨fault, rfl, rfl⟩, hclean⟩))
    · rw [finish_eq_of_no_limit m he, hempty] at hrun
      rw [hrun]
      exact .inr (.inr (.inr ⟨⟨program, text, hp, hm, rfl⟩, Channel.append_empty s.errors, hclean⟩))
    · rw [hrun] at hend
      exact absurd rfl hend

/-- **One run** of a sound session. -/
theorem run_accounts {host : Host} (hh : host.Sound) (hclock : host.KeepsTime)
    (hs : s.Sound host) (bound : Nat) (source : String)
    (hend : (s.run host bound source).1 ≠ .exhausted) :
    Succeeded s source (s.run host bound source) ∨ Refused s source (s.run host bound source) ∨
      WentWrong s source (s.run host bound source) := by
  have hblame := (run_endsSoundly hh hclock hs bound source).1
  rw [run_eq_runWith] at hend hblame ⊢
  rcases runWith_accounts (Eval.runProgram host bound) hs.noLimit source hend with h | h | h | h
  · exact .inl h
  · exact .inr (.inl h)
  · exact .inr (.inr h)
  · -- The host is not to blame.
    obtain ⟨program, text, -, -, hending⟩ := h.ending
    rw [hending] at hblame
    cases hblame

end Session

/-- **Faults gate a run and are accounted for.** Take a session with channels that
never fail and a clock that never reads a time before the epoch, after any runs,
failed or not.  If the run of a source comes to an end, exactly one of these holds:

  • it succeeds, and nothing is written to the error channel;
  • it ends with an error that counts at least one fault; exactly that many
    diagnostics are written, and the machine is as it was, with all its frames and
    what it has printed;
  • the program goes wrong; exactly that fault is written, and the source has no
    other.

The error is one of scanning exactly if the text cannot be scanned, and then only
the faults of the text are written. -/
theorem run_accounts_for_every_fault (clock : Nat → Float) (hclock : ∀ n, ¬clock n < 0)
    {output errors : Channel} (ho : output.limit = none) (hf : output.flushFails = false)
    (he : errors.limit = none)
    {s : Session}
    (hs : Session.Reachable (.standard clock) (.start (.standard clock) output errors) s)
    {bound : Nat} {source : String} {r : Ending × Session}
    (hr : s.run (.standard clock) bound source = r) (hend : r.1 ≠ .exhausted) :
    (s.Succeeded source r ∨ s.Refused source r ∨ s.WentWrong source r) ∧
      ¬(s.Succeeded source r ∧ s.Refused source r) ∧
      ¬(s.Succeeded source r ∧ s.WentWrong source r) ∧
      ¬(s.Refused source r ∧ s.WentWrong source r) ∧
      ((∃ count, r.1 = .error (.scan count)) ↔ ∃ faults, scan source = .error faults) ∧
      ∀ faults, scan source = .error faults →
        r.2.errors = s.errors.append (Diagnostic.report (faults.map .scan)) := by
  have hh := Host.standard_sound clock
  have hsound := hs.sound hh hclock (Session.start_sound ho hf he)
  have hcases := Session.run_accounts hh hclock hsound bound source (hr ▸ hend)
  rw [hr] at hcases
  -- A text that cannot be scanned has faults, so it is not run.
  have hrefused : ∀ {faults : List ScanFault}, scan source = .error faults →
      s.Refused source r := by
    intro faults hscan
    have hsome := (staticFaults_of_scan_error hscan).2
    rcases hcases with h | h | h
    · exact absurd h.clean hsome
    · exact h
    · exact absurd h.clean hsome
  refine ⟨hcases, ?_, ?_, ?_, ⟨?_, ?_⟩, ?_⟩
  · rintro ⟨hsuccess, hrefused⟩
    have hfaulty := hrefused.faulty
    rw [hsuccess.clean] at hfaulty
    cases hfaulty
  · rintro ⟨hsuccess, hwrong⟩
    obtain ⟨fault, hending, -⟩ := hwrong.fault
    rw [hsuccess.ending] at hending
    cases hending
  · rintro ⟨hrefused, hwrong⟩
    have hfaulty := hrefused.faulty
    rw [hwrong.clean] at hfaulty
    cases hfaulty
  · rintro ⟨count, hcount⟩
    rcases hcases with h | h | h
    · rw [h.ending] at hcount
      cases hcount
    · rcases h.ending with ⟨hscan, -⟩ | ⟨-, hending⟩
      · exact hscan
      · rw [hending] at hcount
        cases hcount
    · obtain ⟨fault, hending, -⟩ := h.fault
      rw [hending] at hcount
      cases hcount
  · rintro ⟨faults, hscan⟩
    rcases (hrefused hscan).ending with ⟨-, hending⟩ | ⟨⟨tokens, hok⟩, -⟩
    · exact ⟨_, hending⟩
    · rw [hscan] at hok
      cases hok
  · intro faults hscan
    rw [(hrefused hscan).errors, (staticFaults_of_scan_error hscan).1]

/-- A function is there when a source with a fault of its grammar and a pipe
without a placeholder is refused. -/
theorem run_accounts_for_every_fault_two_phases :
    let host := Host.standard fun _ => 0
    let s := ((Session.start host .unlimited .unlimited).run host 8 "fun f()\x7b-nil;\x7d").2
    (s.run host 8 "1|>f();var=3;").1 = .error (.grammar 2) ∧
      s.Refused "1|>f();var=3;" (s.run host 8 "1|>f();var=3;") := by
  intro host s
  have hending : (s.run host 8 "1|>f();var=3;").1 = .error (.grammar 2) := by
    decide +kernel
  have hends : (s.run host 8 "1|>f();var=3;").1 ≠ .exhausted := by
    rw [hending]
    exact nofun
  have haccounts := run_accounts_for_every_fault (fun _ => 0) (fun _ => by decide +kernel)
    rfl rfl rfl (.run .start 8 _) rfl hends
  refine ⟨hending, ?_⟩
  rcases haccounts.1 with h | h | h
  · rw [h.ending] at hending
    cases hending
  · exact h
  · obtain ⟨fault, hfault, -⟩ := h.fault
    rw [hending] at hfault
    cases hfault

end Lox
