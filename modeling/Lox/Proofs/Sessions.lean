/-
  Lox.Proofs.Sessions
  ────────────────────────────────
  **A SESSION IS ONE LONG SCRIPT.**

  Run a source and then another one, or run both as one text, the second under
  the first: what is printed is the same, and so is the way it ends.  The stages
  of a run are taken one by one.

    • The tokens of the joined text are those of both, the second ones further
      down (`scan_joined`), so it derives the statements of both; pipes are used
      or not on any line.  Hence it compiles to both programs, one behind the
      other (`Clean.joined`).
    • Doing both programs is doing the second where the first has ended
      (`runProgram_append`).
    • A program on other lines does the same (`runProgram_alike`), failures on
      other lines included.
-/
import Lox.Proofs.Bound
import Lox.Proofs.Grammar.Acceptance
import Lox.Proofs.Likeness.Runs
import Lox.Proofs.Safety
import Lox.Proofs.Token.Joined

namespace Lox

/-! ## §1. Sources that compile. -/

/-- A source that is scanned without faults, derives some statements, and whose
pipes use their left sides. -/
structure Clean (source : String) (ss : List Stmt) : Prop where
  derives : ∃ tokens, scan source = .ok tokens ∧
    Derives (.declarations .top ss) (tokens.takeWhile (!·.isEnd))
  pipes : Stmt.pipesUsed ss = true

/-- Nothing is reported about a clean source. -/
theorem Clean.compile {source : String} {ss : List Stmt} (h : Clean source ss) :
    compile source = ⟨.empty, .ok (Stmt.flatAll ss)⟩ := by
  obtain ⟨tokens, hscan, hderives⟩ := h.derives
  obtain ⟨c, hread, hc⟩ := readProgram_of_derives hderives
  have hprepare : prepare ⟨ss, c.faults⟩ = ⟨Stmt.flatAll ss, []⟩ := by
    unfold prepare
    rw [hc, expandPipes_of_pipesUsed h.pipes]
    rfl
  rw [compile_eq, hscan]
  show Compiled.ofReading (readProgram tokens) = _
  rw [hread]
  show Compiled.mk (prepare ⟨ss, c.faults⟩).journal
    (if (prepare ⟨ss, c.faults⟩).journal.flagged then _
      else .ok (prepare ⟨ss, c.faults⟩).statements) = _
  rw [hprepare]
  rfl

/-- **Only clean sources are compiled to a program.** -/
theorem clean_of_compile {source : String} {program : List Stmt}
    (h : (compile source).program = .ok program) :
    ∃ ss, Clean source ss ∧ program = Stmt.flatAll ss := by
  rw [compile_eq] at h
  cases hscan : scan source with
  | error faults =>
    rw [hscan] at h
    cases h
  | ok tokens =>
    rw [hscan] at h
    obtain ⟨ss, c, hread⟩ := readProgram_ok tokens
    have hprogram : (Compiled.ofReading (readProgram tokens)).program = .ok program := h
    rw [hread] at hprogram
    have hif : (if (prepare ⟨ss, c.faults⟩).journal.flagged then
        Except.error (RunError.grammar (prepare ⟨ss, c.faults⟩).journal.staticCount)
      else .ok (prepare ⟨ss, c.faults⟩).statements) = .ok program := hprogram
    by_cases hflag : (prepare ⟨ss, c.faults⟩).journal.flagged = true
    · rw [if_pos hflag] at hif
      cases hif
    rw [if_neg hflag] at hif
    -- Nothing has been reported, neither by reading nor by expanding.
    have hfaults : c.faults ++ (expandPipes ss).faults = [] :=
      Draft.faults_eq_nil_of_not_flagged (by simpa using hflag)
    obtain ⟨hc, hpipes⟩ := List.append_eq_nil_iff.1 hfaults
    have hused := (expandPipes_faults_eq_nil ss).1 hpipes
    have hstatements : (prepare ⟨ss, c.faults⟩).statements = Stmt.flatAll ss := by
      show (expandPipes ss).statements = _
      rw [expandPipes_of_pipesUsed hused]
    refine ⟨ss, ⟨⟨tokens, hscan, derives_of_readProgram hread hc⟩, hused⟩, ?_⟩
    rw [← hstatements]
    exact (Except.ok.inj hif).symm

theorem Journal.entries_reportAll (j : Journal) (ds : List Diagnostic) :
    (j.reportAll ds).entries = j.entries ++ ds := by
  induction ds generalizing j with
  | nil => exact (List.append_nil _).symm
  | cons d ds ih =>
    show ((j.report d).reportAll ds).entries = _
    rw [ih]
    show (j.entries ++ [d]) ++ ds = _
    rw [List.append_assoc, List.singleton_append]

/-- **A source about which nothing is reported compiles.** -/
theorem exists_program_of_no_diagnostics {source : String}
    (h : (compile source).journal.entries = []) :
    ∃ program, (compile source).program = .ok program := by
  rw [compile_eq] at h ⊢
  cases hscan : scan source with
  | error faults =>
    rw [hscan] at h
    have hfaults : (Journal.empty.reportAll (faults.map .scan)).entries = [] := h
    rw [Journal.entries_reportAll] at hfaults
    -- A scan that fails has found something.
    rw [List.map_eq_nil_iff.1 hfaults] at hscan
    unfold scan at hscan
    dsimp only at hscan
    split at hscan
    · cases hscan
    · next hne => exact absurd (Except.error.inj hscan) hne
  | ok tokens =>
    rw [hscan] at h
    obtain ⟨ss, c, hread⟩ := readProgram_ok tokens
    have hentries : (Compiled.ofReading (readProgram tokens)).journal.entries = [] := h
    show ∃ program, (Compiled.ofReading (readProgram tokens)).program = .ok program
    rw [hread] at hentries ⊢
    have hfaults : (prepare ⟨ss, c.faults⟩).faults = [] := by
      have hreported : (Journal.empty.reportAll
        ((prepare ⟨ss, c.faults⟩).faults.map .grammar)).entries = [] := hentries
      rw [Journal.entries_reportAll] at hreported
      exact List.map_eq_nil_iff.1 hreported
    have hjournal : (prepare ⟨ss, c.faults⟩).journal = .empty := by
      unfold Draft.journal
      rw [hfaults]
      rfl
    refine ⟨(prepare ⟨ss, c.faults⟩).statements, ?_⟩
    show (if (prepare ⟨ss, c.faults⟩).journal.flagged then Except.error _ else _) = _
    rw [hjournal]
    rfl

/-! ## §2. Two sources. -/

theorem Derives.declarations_append {ctx : Parse.Context} {ss us : List Stmt}
    {ts vs : List Token} (h : Derives (.declarations ctx ss) ts)
    (h' : Derives (.declarations ctx us) vs) :
    Derives (.declarations ctx (ss ++ us)) (ts ++ vs) := by
  induction ss generalizing ts with
  | nil =>
    cases h
    exact h'
  | cons s ss ih =>
    cases h with
    | cons hs hss =>
      rw [List.append_assoc]
      exact .cons hs (ih hss)

theorem Stmt.everyPipeAll_append (wanted : Expr → Bool) (ss us : List Stmt) :
    Stmt.everyPipeAll wanted (ss ++ us) =
      (Stmt.everyPipeAll wanted ss && Stmt.everyPipeAll wanted us) := by
  induction ss with
  | nil => rfl
  | cons s ss ih => simp only [List.cons_append, Stmt.everyPipeAll, ih, Bool.and_assoc]

/-- **One clean source under another is clean,** and stands for the statements of
both, those of the second one further down. -/
theorem Clean.joined {first second : String} {ss us : List Stmt} (hf : Clean first ss)
    (hs : Clean second us) :
    Clean (first ++ "\n" ++ second)
      (ss ++ Stmt.renumberAll (· + (lineEnds first.toList + 1)) us) := by
  obtain ⟨ts, hscan, hderives⟩ := hf.derives
  obtain ⟨vs, hscan', hderives'⟩ := hs.derives
  obtain ⟨tokens, htokens, htake⟩ := scan_joined hscan hscan'
  refine ⟨⟨tokens, htokens, ?_⟩, ?_⟩
  · rw [htake]
    exact hderives.declarations_append hderives'.renumber
  · have hpipes := Stmt.everyPipeAll_renumberAll (· + (lineEnds first.toList + 1)) us
    unfold Stmt.pipesUsed
    rw [Stmt.everyPipeAll_append, hpipes, Bool.and_eq_true]
    exact ⟨hf.pipes, hs.pipes⟩

/-- The program of the joined text. -/
theorem compile_joined {first second : String} {p q : List Stmt}
    (hf : (compile first).program = .ok p) (hs : (compile second).program = .ok q) :
    compile first = ⟨.empty, .ok p⟩ ∧ compile second = ⟨.empty, .ok q⟩ ∧
      ∃ g, compile (first ++ "\n" ++ second) = ⟨.empty, .ok (p ++ Stmt.renumberAll g q)⟩ := by
  obtain ⟨ss, hss, rfl⟩ := clean_of_compile hf
  obtain ⟨us, hus, rfl⟩ := clean_of_compile hs
  refine ⟨hss.compile, hus.compile, (· + (lineEnds first.toList + 1)), ?_⟩
  rw [(hss.joined hus).compile, Stmt.flatAll_eq_map, List.map_append, ← Stmt.flatAll_eq_map,
    ← Stmt.flatAll_eq_map, Stmt.flatAll_renumberAll]

/-! ## §3. Two programs. -/

namespace Eval

variable {host : Host} {bound : Nat} {m n : Machine}

theorem doAll_append (execute : Stmt → Eval Signal) (p q : List Stmt) (m : Machine) :
    doAll execute (p ++ q) m = (doAll execute p >>= fun _ => doAll execute q) m := by
  induction p generalizing m with
  | nil => rfl
  | cons s p ih =>
    show Eval.bind (execute s) (fun _ => doAll execute (p ++ q)) m =
      Eval.bind (Eval.bind (execute s) fun _ => doAll execute p) (fun _ => doAll execute q) m
    unfold Eval.bind
    cases execute s m with
    | done signal m' => exact ih m'
    | failed failure m' => rfl
    | exhausted => rfl

/-- Flushing changes nothing. -/
theorem doAll_of_runProgram {p : List Stmt} (h : runProgram host bound p m = .done () n) :
    doAll (execute host bound) p m = .done () n := by
  have hrun : Eval.bind (doAll (execute host bound) p) (fun _ => flush) m = .done () n := h
  unfold Eval.bind at hrun
  cases hp : doAll (execute host bound) p m with
  | done _ m' =>
    rw [hp] at hrun
    have hflush : (if m'.output.flushFails then Outcome.failed _ m' else .done () m') =
      .done () n := hrun
    by_cases hfails : m'.output.flushFails = true
    · rw [if_pos hfails] at hflush
      cases hflush
    · rw [if_neg hfails] at hflush
      exact hflush
  | failed failure m' =>
    rw [hp] at hrun
    cases hrun
  | exhausted =>
    rw [hp] at hrun
    cases hrun

/-- **A program behind one that ends well** is run where that one ends. -/
theorem runProgram_append {p : List Stmt} (q : List Stmt)
    (h : runProgram host bound p m = .done () n) :
    runProgram host bound (p ++ q) m = runProgram host bound q n := by
  show Eval.bind (doAll (execute host bound) (p ++ q)) (fun _ => flush) m =
    Eval.bind (doAll (execute host bound) q) (fun _ => flush) n
  unfold Eval.bind
  have hsplit : doAll (execute host bound) (p ++ q) m = doAll (execute host bound) q n := by
    rw [doAll_append]
    show Eval.bind (doAll (execute host bound) p) (fun _ => doAll (execute host bound) q) m = _
    unfold Eval.bind
    rw [doAll_of_runProgram h]
  rw [hsplit]

/-- **A program behind another one, on other lines,** does what it does after it,
at every bound that is enough for both. -/
theorem runProgram_joined {b b' : Nat} {p q : List Stmt} {g : Nat → Nat} (hh : host.Parametric)
    (hp : runProgram host b p m = .done () n) (hn : n.Closed)
    (hq : runProgram host b' q n ≠ .exhausted) (hb : b ≤ bound) (hb' : b' ≤ bound) :
    Outcome.Alike .onLines n.scopes.next (fun _ _ _ => True) (runProgram host b' q n)
      (runProgram host bound (p ++ Stmt.renumberAll g q) m) := by
  have hends : runProgram host b p m ≠ .exhausted := by
    rw [hp]
    exact nofun
  have hp' : runProgram host bound p m = .done () n := by
    rw [← runProgram_within hb p m hends, hp]
  rw [runProgram_append _ hp', runProgram_within hb' q n hq]
  exact runProgram_alike (hh .onLines) trivial 0 bound q n n hn.alike (Nat.zero_le _)

end Eval

/-! ## §4. Sessions. -/

/-- A session with a closed machine, whose diagnostics are taken. -/
structure Session.Steady (s : Session) : Prop where
  machine : s.machine.Closed
  noLimit : s.errors.limit = none

/-- What a run comes to once its program has an outcome. -/
def Session.Shows (o : Outcome Unit) (r : Ending × Session) : Prop :=
  match o with
  | .done _ m => r.1 = .success ∧ r.2.machine = m
  | .failed failure m => r.1 = .error (.runtime failure) ∧ r.2.machine = m
  | .exhausted => r.1 = .exhausted

namespace Session

variable {host : Host} {s : Session} {source : String} {program : List Stmt}

/-- All diagnostics are written, so a run ends as it should. -/
theorem finish_of_no_limit (m : Machine) {errors : Channel} (he : errors.limit = none)
    (ending : Ending) (journal : Journal) :
    ∃ after, after.limit = none ∧ finish m errors ending journal = (ending, ⟨m, after⟩) := by
  obtain ⟨htaken, hlimit⟩ := writeReports_of_no_limit he journal.drain.1
  unfold finish
  rcases hwritten : writeReports errors journal.drain.1 with ⟨taken, after⟩
  rw [hwritten] at htaken hlimit
  cases htaken
  exact ⟨after, hlimit, rfl⟩

/-- A run of a source that compiles shows the outcome of its program. -/
theorem run_shows (host : Host) (he : s.errors.limit = none)
    (hc : compile source = ⟨.empty, .ok program⟩) (bound : Nat) :
    Shows (Eval.runProgram host bound program s.machine) (s.run host bound source) := by
  unfold Session.run
  rw [hc]
  dsimp only
  cases Eval.runProgram host bound program s.machine with
  | done _ m =>
    obtain ⟨after, -, hfinish⟩ := finish_of_no_limit m he .success .empty
    dsimp only
    rw [hfinish]
    exact ⟨rfl, rfl⟩
  | failed failure m =>
    cases failure with
    | runtime fault =>
      obtain ⟨after, -, hfinish⟩ := finish_of_no_limit m he (.error (.runtime (.runtime fault)))
        (Journal.empty.report (.runtime fault))
      dsimp only
      rw [hfinish]
      exact ⟨rfl, rfl⟩
    | host text =>
      obtain ⟨after, -, hfinish⟩ := finish_of_no_limit m he (.error (.runtime (.host text))) .empty
      dsimp only
      rw [hfinish]
      exact ⟨rfl, rfl⟩
  | exhausted => rfl

/-- A run leaves a steady session behind. -/
theorem run_steady (hh : host.Parametric) (hs : s.Steady) (bound : Nat) (source : String) :
    (s.run host bound source).2.Steady := by
  have hfinish : ∀ {m : Machine} (ending : Ending) (journal : Journal), m.Closed →
      (finish m s.errors ending journal).2.Steady := by
    intro m ending journal hm
    obtain ⟨after, hlimit, hend⟩ := finish_of_no_limit m hs.noLimit ending journal
    rw [hend]
    exact ⟨hm, hlimit⟩
  unfold Session.run
  rcases compile source with ⟨journal, e | program⟩
  · exact hfinish _ _ hs.machine
  · have hclosed := Eval.runProgram_closed (hh .onLines) hs.machine bound program
    dsimp only
    cases hrun : Eval.runProgram host bound program s.machine with
    | done _ m =>
      rw [hrun] at hclosed
      exact hfinish _ _ hclosed
    | failed failure m =>
      rw [hrun] at hclosed
      cases failure with
      | runtime fault => exact hfinish _ _ hclosed
      | host text => exact hfinish _ _ hclosed
    | exhausted => exact hs

theorem Reachable.steady (hh : host.Parametric) {output errors : Channel}
    (he : errors.limit = none) (h : Reachable host (.start host output errors) s) : s.Steady := by
  induction h with
  | start => exact ⟨Machine.start_closed host output, he⟩
  | run _ bound source ih => exact run_steady hh ih bound source

/-- A run that succeeds has run a program to its end. -/
theorem exists_program_of_success (he : s.errors.limit = none) {bound : Nat}
    (h : (s.run host bound source).1 = .success) :
    ∃ program m, (compile source).program = .ok program ∧
      Eval.runProgram host bound program s.machine = .done () m := by
  cases hprogram : (compile source).program with
  | error e =>
    -- A source that does not compile ends with an error.
    obtain ⟨after, -, hfinish⟩ :=
      finish_of_no_limit s.machine he (.error e) (compile source).journal
    have hrun : s.run host bound source =
        finish s.machine s.errors (.error e) (compile source).journal := by
      unfold Session.run
      rcases hcompile : compile source with ⟨journal, program⟩
      rw [hcompile] at hprogram
      cases hprogram
      rfl
    rw [hrun, hfinish] at h
    cases h
  | ok program =>
    obtain ⟨ss, hclean, rfl⟩ := clean_of_compile hprogram
    have hshows := run_shows host he hclean.compile bound
    cases hrun : Eval.runProgram host bound (Stmt.flatAll ss) s.machine with
    | done _ m => exact ⟨Stmt.flatAll ss, m, rfl, hrun⟩
    | failed failure m =>
      rw [hrun] at hshows
      rw [hshows.1] at h
      cases h
    | exhausted =>
      rw [hrun] at hshows
      rw [show (s.run host bound source).1 = .exhausted from hshows] at h
      cases h

theorem Shows.exhausted_iff {o : Outcome Unit} {r : Ending × Session} (h : Shows o r) :
    r.1 = .exhausted ↔ o = .exhausted := by
  cases o with
  | done _ m => simp [h.1]
  | failed failure m => simp [h.1]
  | exhausted => simp [show r.1 = .exhausted from h]

/-- One run prints what another one prints and ends in the same way: with
success, or with a failure of the program that has the same cause. -/
structure Agrees (r r' : Ending × Session) : Prop where
  output : r.2.machine.output = r'.2.machine.output
  success : r.1 = .success ↔ r'.1 = .success
  cause : ∀ fault, r'.1 = .error (.runtime (.runtime fault)) →
    ∃ line, r.1 = .error (.runtime (.runtime ⟨line, fault.cause⟩))

/-- Outcomes that correspond are shown by runs that agree. -/
theorem Shows.agrees {k : Likeness} {size : Nat} {Q : Nat → Unit → Unit → Prop}
    {o o' : Outcome Unit} {r r' : Ending × Session} (ho : Outcome.Alike k size Q o' o)
    (h : Shows o r) (h' : Shows o' r') (hend : o' ≠ .exhausted) : Agrees r r' := by
  cases ho with
  | done hm _ _ =>
    refine ⟨?_, by simp [h.1, h'.1], ?_⟩
    · rw [h.2, h'.2, hm.output]
    · intro fault hfault
      rw [h'.1] at hfault
      cases hfault
  | @failed failure other m m' hm _ hf =>
    refine ⟨?_, by simp [h.1, h'.1], ?_⟩
    · rw [h.2, h'.2, hm.output]
    · intro fault hfault
      rw [h'.1] at hfault
      cases hfault
      have hsame := hf.unlocated
      cases other with
      | host text => cases hsame
      | runtime fault' =>
        refine ⟨fault'.line, ?_⟩
        have hcause : fault'.cause = fault.cause := by
          have heq : RuntimeFault.mk 0 fault'.cause = RuntimeFault.mk 0 fault.cause :=
            Failure.runtime.inj hsame
          exact (RuntimeFault.mk.inj heq).2
        rw [h.1, ← hcause]
  | exhausted => exact absurd rfl hend

end Session

/-- **A session of runs agrees with one script.** Take a session after any runs,
whose diagnostics are always taken, and a host whose functions get at frames only
through their arguments and the global names and do not look at lines.  If one
source is run with success and a second one, which compiles, is run after it and
comes to an end, then the text with the second source under the first comes to an
end too.  Whenever it does, it prints the same and ends in the same way: with
success exactly if the second run does, and with a failure of the program if the
second run does, for the same cause. -/
theorem session_agrees_with_script {host : Host} (hh : host.Parametric) {output errors : Channel}
    (he : errors.limit = none) {s : Session}
    (hs : Session.Reachable host (.start host output errors) s) {first second : String}
    (hclean : (compile second).journal.entries = []) {n n' : Nat}
    (hfirst : (s.run host n first).1 = .success)
    (hsecond : ((s.run host n first).2.run host n' second).1 ≠ .exhausted) :
    (∀ bound, n ≤ bound → n' ≤ bound →
      (s.run host bound (first ++ "\n" ++ second)).1 ≠ .exhausted) ∧
    ∀ bound, (s.run host bound (first ++ "\n" ++ second)).1 ≠ .exhausted →
      Session.Agrees (s.run host bound (first ++ "\n" ++ second))
        ((s.run host n first).2.run host n' second) := by
  have hsteady := hs.steady hh he
  obtain ⟨p, m, hp, hrun⟩ := Session.exists_program_of_success hsteady.noLimit hfirst
  obtain ⟨q, hq⟩ := exists_program_of_no_diagnostics hclean
  obtain ⟨hcp, hcq, g, hjoined⟩ := compile_joined hp hq
  -- The second run begins where the first one has ended.
  have hbetween := Session.run_steady hh hsteady n first
  have hm : (s.run host n first).2.machine = m := by
    have hshows := Session.run_shows host hsteady.noLimit hcp n
    rw [hrun] at hshows
    exact hshows.2
  have hshows' := Session.run_shows host hbetween.noLimit hcq n'
  rw [hm] at hshows'
  have hend : Eval.runProgram host n' q m ≠ .exhausted :=
    fun h => hsecond (hshows'.exhausted_iff.2 h)
  have halike : ∀ {bound : Nat}, n ≤ bound → n' ≤ bound →
      Outcome.Alike .onLines m.scopes.next (fun _ _ _ => True) (Eval.runProgram host n' q m)
        (Eval.runProgram host bound (p ++ Stmt.renumberAll g q) s.machine) :=
    Eval.runProgram_joined hh hrun (hm ▸ hbetween.machine) hend
  have hshows := Session.run_shows host hsteady.noLimit hjoined
  constructor
  · intro bound hn hn' h
    exact hend ((halike hn hn').exhausted_iff.2 ((hshows bound).exhausted_iff.1 h))
  · intro bound hbound
    have hle := Nat.le_max_left n n'
    have hle' := Nat.le_max_right n n'
    -- Whatever the bound was, the outcome is the one at a bound that is enough for both.
    have hunique := Eval.runProgram_unique (fun h => hbound ((hshows bound).exhausted_iff.2 h))
      (fun h => hend ((halike hle hle').exhausted_iff.2 h))
    have hboth := halike hle hle'
    rw [← hunique] at hboth
    exact (hshows bound).agrees hboth hshows' hend

/-- A function of the first source fails when the second one calls it. -/
theorem session_agrees_with_script_later_call :
    let host := Host.standard fun _ => 0
    let s := Session.start host .unlimited .unlimited
    let first := "fun f()\x7b-nil;\x7d"
    let second := "f();"
    (s.run host 8 first).1 = .success ∧
      ((s.run host 8 first).2.run host 8 second).1 ≠ .exhausted ∧
      ∀ bound, (s.run host bound (first ++ "\n" ++ second)).1 ≠ .exhausted →
        Session.Agrees (s.run host bound (first ++ "\n" ++ second))
          ((s.run host 8 first).2.run host 8 second) := by
  intro host s first second
  have hclean : (compile second).journal.entries = [] := by decide +kernel
  have hfirst : (s.run host 8 first).1 = .success := by decide +kernel
  have hsecond : ((s.run host 8 first).2.run host 8 second).1 ≠ .exhausted := by
    decide +kernel
  exact ⟨hfirst, hsecond, (session_agrees_with_script (Host.standard_parametric _) rfl .start hclean
    hfirst hsecond).2⟩

end Lox
