/-
  Lox.Proofs.Pipe.Faults
  ────────────────────────────────
  **EVERY FAULTY PIPE IS REPORTED, ONCE AND IN ORDER.**

  A pipe is FAULTY if its right side has no placeholder of its own.  Expanding a
  program looks at pipes in trees that outer pipes have changed already, and at
  copies of expanded left sides, in which a faulty pipe may have left others
  standing.  Still the faults that it finds are those of the program as written:

      faults of the expansion  =  the faulty pipes of the program, left to right

  as long as no faulty pipe stands in the right side of another one, which is
  left alone and so is not looked into.  Two facts carry this:

    • `mem_pipes_fill`: filling moves pipes about but keeps their right sides,
      so a pipe is faulty before exactly if it is faulty after;
    • what comes out of an expansion has no faulty pipe (`Reports.used`), so the
      copies of a left side add nothing, however many there are.
-/
import Lox.Pipe.Expand

namespace Lox

/-! ## §1. The pipes of a program. -/

/-- A pipe in a tree: its operator and its right side. -/
structure Pipe where
  operator : Token
  right : Expr

/-- Whether the right side of a pipe has no place for the left side. -/
def Pipe.faulty (p : Pipe) : Bool := !p.right.hasOwn

/-- The fault that is reported for a pipe, at its operator. -/
def Pipe.fault (p : Pipe) : SyntaxFault := .at p.operator .missingPlaceholder

mutual

/-- The pipes in an expression from left to right, those in function bodies
included. A pipe comes between those of its two sides. -/
def Expr.pipes : Expr → List Pipe
  | .literal _ | .name _ => []
  | .unary _ inner | .assign _ inner | .group inner => inner.pipes
  | .binary left _ right | .logical left _ right => left.pipes ++ right.pipes
  | .pipe left operator right => left.pipes ++ ⟨operator, right⟩ :: right.pipes
  | .call callee _ arguments => callee.pipes ++ Expr.pipesAll arguments
  | .function _ _ body => Stmt.pipesAll body

/-- The pipes in some expressions. -/
def Expr.pipesAll : List Expr → List Pipe
  | [] => []
  | e :: es => e.pipes ++ Expr.pipesAll es

/-- The pipes in an optional expression. -/
def Expr.pipesOption : Option Expr → List Pipe
  | none => []
  | some e => e.pipes

/-- The pipes in a statement. -/
def Stmt.pipes : Stmt → List Pipe
  | .expr value | .print value => value.pipes
  | .var _ value | .give _ value => Expr.pipesOption value
  | .block body | .function _ _ body => Stmt.pipesAll body
  | .branch condition yes no => condition.pipes ++ yes.pipes ++ Stmt.pipesOption no
  | .loop condition body _ => condition.pipes ++ body.pipes
  | .leave _ | .next _ => []

/-- The pipes in some statements. -/
def Stmt.pipesAll : List Stmt → List Pipe
  | [] => []
  | s :: ss => s.pipes ++ Stmt.pipesAll ss

/-- The pipes in an optional statement. -/
def Stmt.pipesOption : Option Stmt → List Pipe
  | none => []
  | some s => s.pipes

end

/-- **No faulty pipe in the right side of another.** -/
def FaultsApart (ps : List Pipe) : Prop :=
  ∀ p ∈ ps, p.faulty = true → ∀ q ∈ p.right.pipes, q.faulty = false

instance : DecidablePred FaultsApart := fun ps =>
  inferInstanceAs (Decidable (∀ p ∈ ps, p.faulty = true → ∀ q ∈ p.right.pipes, q.faulty = false))

theorem faultsApart_append {ps qs : List Pipe} :
    FaultsApart (ps ++ qs) ↔ FaultsApart ps ∧ FaultsApart qs := by
  unfold FaultsApart
  exact List.forall_mem_append

/-! ## §2. Filling keeps the pipes. -/

mutual

/-- **A pipe of a filled tree** is one of the filling or one of the tree. -/
theorem Expr.mem_pipes_fill {v : Expr} {p : Pipe} :
    (e : Expr) → p ∈ (Expr.fill v e).pipes → p ∈ v.pipes ∨ p ∈ e.pipes
  | .literal _, h | .function _ _ _, h => .inr (by simpa only [Expr.fill] using h)
  | .name token, h => by
    by_cases hd : token.isSymbol .dollar = true
    · rw [Expr.fill, if_pos hd] at h
      exact .inl h
    · rw [Expr.fill, if_neg hd] at h
      exact .inr h
  | .unary _ inner, h | .assign _ inner, h | .group inner, h => by
    simp only [Expr.fill, Expr.pipes] at h ⊢
    exact Expr.mem_pipes_fill inner h
  | .binary left _ right, h | .logical left _ right, h => by
    simp only [Expr.fill, Expr.pipes, List.mem_append] at h ⊢
    rcases h with h | h
    · exact (Expr.mem_pipes_fill left h).imp_right .inl
    · exact (Expr.mem_pipes_fill right h).imp_right .inr
  -- The pipe itself has the right side that it had.
  | .pipe left operator right, h => by
    simp only [Expr.fill, Expr.pipes, List.mem_append] at h ⊢
    rcases h with h | h
    · exact (Expr.mem_pipes_fill left h).imp_right .inl
    · exact .inr (.inr h)
  | .call callee _ arguments, h => by
    simp only [Expr.fill, Expr.pipes, List.mem_append] at h ⊢
    rcases h with h | h
    · exact (Expr.mem_pipes_fill callee h).imp_right .inl
    · exact (Expr.mem_pipesAll_fillAll arguments h).imp_right .inr

theorem Expr.mem_pipesAll_fillAll {v : Expr} {p : Pipe} :
    (es : List Expr) → p ∈ Expr.pipesAll (Expr.fillAll v es) → p ∈ v.pipes ∨ p ∈ Expr.pipesAll es
  | [], h => .inr (by simpa only [Expr.fillAll] using h)
  | e :: es, h => by
    simp only [Expr.fillAll, Expr.pipesAll, List.mem_append] at h ⊢
    rcases h with h | h
    · exact (Expr.mem_pipes_fill e h).imp_right .inl
    · exact (Expr.mem_pipesAll_fillAll es h).imp_right .inr

end

mutual

/-- **A filling without faulty pipes adds none,** at any number of places. -/
theorem Expr.filter_pipes_fill {v : Expr} (hv : v.pipes.filter Pipe.faulty = []) :
    (e : Expr) → (Expr.fill v e).pipes.filter Pipe.faulty = e.pipes.filter Pipe.faulty
  | .literal _ | .function _ _ _ => by simp only [Expr.fill]
  | .name token => by
    by_cases hd : token.isSymbol .dollar = true
    · rw [Expr.fill, if_pos hd, hv]
      rfl
    · rw [Expr.fill, if_neg hd]
  | .unary _ inner | .assign _ inner | .group inner => by
    simp only [Expr.fill, Expr.pipes, Expr.filter_pipes_fill hv inner]
  | .binary left _ right | .logical left _ right => by
    simp only [Expr.fill, Expr.pipes, List.filter_append, Expr.filter_pipes_fill hv left,
      Expr.filter_pipes_fill hv right]
  | .pipe left _ right => by
    simp only [Expr.fill, Expr.pipes, List.filter_append, Expr.filter_pipes_fill hv left]
  | .call callee _ arguments => by
    simp only [Expr.fill, Expr.pipes, List.filter_append, Expr.filter_pipes_fill hv callee,
      Expr.filter_pipesAll_fillAll hv arguments]

theorem Expr.filter_pipesAll_fillAll {v : Expr} (hv : v.pipes.filter Pipe.faulty = []) :
    (es : List Expr) → (Expr.pipesAll (Expr.fillAll v es)).filter Pipe.faulty =
      (Expr.pipesAll es).filter Pipe.faulty
  | [] => by simp only [Expr.fillAll]
  | e :: es => by
    simp only [Expr.fillAll, Expr.pipesAll, List.filter_append, Expr.filter_pipes_fill hv e,
      Expr.filter_pipesAll_fillAll hv es]

end

/-- Filling keeps faulty pipes apart. -/
theorem Expr.faultsApart_fill {v e : Expr} (hv : v.pipes.filter Pipe.faulty = [])
    (he : FaultsApart e.pipes) : FaultsApart (Expr.fill v e).pipes := by
  intro p hp hfaulty
  rcases Expr.mem_pipes_fill e hp with hp | hp
  · exact absurd hfaulty (List.filter_eq_nil_iff.1 hv p hp)
  · exact he p hp hfaulty

/-! ## §3. What an expansion reports. -/

/-- An expansion of a tree with the pipes `source` reports their faults, and no
faulty pipe is among the pipes `result` that it leaves. -/
structure Reports (source : List Pipe) (faults : List SyntaxFault) (result : List Pipe) :
    Prop where
  faults : faults = (source.filter Pipe.faulty).map Pipe.fault
  used : result.filter Pipe.faulty = []

namespace Reports

variable {ps qs ls ms : List Pipe} {fs gs : List SyntaxFault}

theorem nil : Reports [] [] [] := ⟨rfl, rfl⟩

/-- The reports of two parts come one after the other. -/
theorem append (h : Reports ps fs ls) (g : Reports qs gs ms) :
    Reports (ps ++ qs) (fs ++ gs) (ls ++ ms) where
  faults := by rw [List.filter_append, List.map_append, ← h.faults, ← g.faults]
  used := by rw [List.filter_append, h.used, g.used, List.append_nil]

end Reports

/-- A pipe that uses its left side reports what its sides report. -/
theorem Expr.reports_pipe {left right : Expr} {operator : Token} {fs gs : List SyntaxFault}
    {l e : Expr} (own : right.hasOwn = true) (hl : Reports left.pipes fs l.pipes)
    (hr : Reports (Expr.fill l right).pipes gs e.pipes) :
    Reports (Expr.pipe left operator right).pipes (fs ++ gs) e.pipes where
  faults := by
    have hpipe : Pipe.faulty ⟨operator, right⟩ = false := by simp [Pipe.faulty, own]
    rw [hl.faults, hr.faults, Expr.filter_pipes_fill hl.used, Expr.pipes, List.filter_append,
      List.filter_cons_of_neg (by simp [hpipe]), List.map_append]
  used := hr.used

/-- A faulty pipe reports itself behind its left side. What its right side holds
stands in the way of no one else. -/
theorem Expr.reports_faulty {left right : Expr} {operator : Token} {fs : List SyntaxFault}
    {result : List Pipe} (own : right.hasOwn = false) (hl : Reports left.pipes fs result)
    (hr : right.pipes.filter Pipe.faulty = []) :
    Reports (Expr.pipe left operator right).pipes (fs ++ [.at operator .missingPlaceholder])
      right.pipes where
  faults := by
    have hpipe : Pipe.faulty ⟨operator, right⟩ = true := by simp [Pipe.faulty, own]
    rw [hl.faults, Expr.pipes, List.filter_append, List.filter_cons_of_pos hpipe, hr,
      List.map_append]
    rfl
  used := hr

mutual

-- As in the expansion, the induction is by weight.
theorem Expr.expanded_reports (e : Expr) (h : FaultsApart e.pipes) :
    Reports e.pipes e.expanded.faults e.expanded.tree.pipes := by
  match e with
  | .literal value | .name token =>
    rw [Expr.expanded]
    exact .nil
  | .unary operator inner | .assign target inner | .group inner =>
    rw [Expr.expanded]
    exact Expr.expanded_reports inner h
  | .binary left operator right | .logical left operator right =>
    rw [Expr.pipes] at h
    obtain ⟨hl, hr⟩ := faultsApart_append.1 h
    rw [Expr.expanded]
    exact (Expr.expanded_reports left hl).append (Expr.expanded_reports right hr)
  | .pipe left operator right =>
    rw [Expr.pipes] at h
    obtain ⟨hl, hr⟩ := faultsApart_append.1 h
    have hleft := Expr.expanded_reports left hl
    rw [Expr.expanded]
    by_cases own : right.hasOwn = true
    · rw [dif_pos own]
      -- The filled right side is no part of the pipe, but it is lighter.
      have := Expr.weight_fill_lt operator right 1 (left.expanded.light 1)
      have hfilled : FaultsApart (Expr.fill left.expanded.tree right).pipes :=
        Expr.faultsApart_fill hleft.used fun p hp => hr p (.tail _ hp)
      exact Expr.reports_pipe own hleft (Expr.expanded_reports _ hfilled)
    · rw [dif_neg own]
      have hnone : right.hasOwn = false := by simpa using own
      have hright := hr ⟨operator, right⟩ (.head _) (by simp [Pipe.faulty, hnone])
      refine Expr.reports_faulty hnone hleft (List.filter_eq_nil_iff.2 fun q hq => ?_)
      rw [hright q hq]
      exact Bool.false_ne_true
  | .call callee paren arguments =>
    rw [Expr.pipes] at h
    obtain ⟨hc, ha⟩ := faultsApart_append.1 h
    rw [Expr.expanded]
    exact (Expr.expanded_reports callee hc).append (Expr.expandedAll_reports arguments ha)
  | .function own parameters body =>
    rw [Expr.expanded]
    exact Stmt.expandedAll_reports body h
termination_by Expr.weight 1 e
decreasing_by all_goals simp only [Expr.weight] at *; omega

theorem Expr.expandedAll_reports (es : List Expr) (h : FaultsApart (Expr.pipesAll es)) :
    Reports (Expr.pipesAll es) (Expr.expandedAll es).faults
      (Expr.pipesAll (Expr.expandedAll es).trees) := by
  match es with
  | [] =>
    rw [Expr.expandedAll]
    exact .nil
  | e :: es =>
    rw [Expr.pipesAll] at h
    obtain ⟨he, hs⟩ := faultsApart_append.1 h
    rw [Expr.expandedAll]
    exact (Expr.expanded_reports e he).append (Expr.expandedAll_reports es hs)
termination_by Expr.weightAll 1 es
decreasing_by all_goals simp only [Expr.weightAll]; omega

theorem Stmt.expanded_reports (s : Stmt) (h : FaultsApart s.pipes) :
    Reports s.pipes s.expanded.faults s.expanded.tree.pipes := by
  match s with
  | .expr value | .print value | .var name (some value) | .give keyword (some value) =>
    rw [Stmt.expanded]
    exact Expr.expanded_reports value h
  | .var name none | .give keyword none | .leave keyword | .next keyword =>
    rw [Stmt.expanded]
    exact .nil
  | .block body | .function name parameters body =>
    rw [Stmt.expanded]
    exact Stmt.expandedAll_reports body h
  | .branch condition yes none =>
    rw [Stmt.pipes, Stmt.pipesOption, List.append_nil] at h ⊢
    obtain ⟨hc, hy⟩ := faultsApart_append.1 h
    have hboth := (Expr.expanded_reports condition hc).append (Stmt.expanded_reports yes hy)
    rw [← List.append_nil (condition.expanded.tree.pipes ++ yes.expanded.tree.pipes)] at hboth
    rw [Stmt.expanded]
    exact hboth
  | .branch condition yes (some no) =>
    rw [Stmt.pipes, Stmt.pipesOption] at h
    obtain ⟨hboth, hn⟩ := faultsApart_append.1 h
    obtain ⟨hc, hy⟩ := faultsApart_append.1 hboth
    rw [Stmt.expanded]
    exact ((Expr.expanded_reports condition hc).append (Stmt.expanded_reports yes hy)).append
      (Stmt.expanded_reports no hn)
  | .loop condition body increment =>
    rw [Stmt.pipes] at h
    obtain ⟨hc, hb⟩ := faultsApart_append.1 h
    rw [Stmt.expanded]
    exact (Expr.expanded_reports condition hc).append (Stmt.expanded_reports body hb)
termination_by Stmt.weight s
decreasing_by all_goals simp only [Stmt.weight, Expr.weightOption, Stmt.weightOption]; omega

theorem Stmt.expandedAll_reports (ss : List Stmt) (h : FaultsApart (Stmt.pipesAll ss)) :
    Reports (Stmt.pipesAll ss) (Stmt.expandedAll ss).faults
      (Stmt.pipesAll (Stmt.expandedAll ss).trees) := by
  match ss with
  | [] =>
    rw [Stmt.expandedAll]
    exact .nil
  | s :: ss =>
    rw [Stmt.pipesAll] at h
    obtain ⟨hs, hss⟩ := faultsApart_append.1 h
    rw [Stmt.expandedAll]
    exact (Stmt.expanded_reports s hs).append (Stmt.expandedAll_reports ss hss)
termination_by Stmt.weightAll ss
decreasing_by all_goals simp only [Stmt.weightAll]; omega

end

/-! ## §4. Programs. -/

/-- **Every faulty pipe is reported.** If no faulty pipe stands in the right side
of another, then the faults found by expanding a program are those of its faulty
pipes, each one once and at its operator, from left to right. -/
theorem faulty_pipes_are_reported {program : List Stmt}
    (h : FaultsApart (Stmt.pipesAll program)) :
    (expandPipes program).faults =
      ((Stmt.pipesAll program).filter Pipe.faulty).map Pipe.fault :=
  (Stmt.expandedAll_reports program h).faults

/-- `(nil |> (f |> $)) |> g($, $, nil |> h);` with its pipes on the lines 1 to 4:
the first one and the last one are faulty, and the second one is copied twice. -/
def copiedPipes : List Stmt :=
  let pipe (line : Nat) : Token := ⟨.symbol .pipe, "|>", line⟩
  let name (s : String) : Expr := .name ⟨.identifier, s, 1⟩
  let placeholder : Expr := .name ⟨.symbol .dollar, "$", 1⟩
  let inner : Expr := .group (.pipe (name "f") (pipe 2) placeholder)
  [.expr (.pipe (.group (.pipe (.literal .nil) (pipe 1) inner)) (pipe 3)
    (.call (name "g") ⟨.symbol .rightParen, ")", 1⟩
      [placeholder, placeholder, .pipe (.literal .nil) (pipe 4) (name "h")]))]

theorem faulty_pipes_are_reported_copiedPipes :
    FaultsApart (Stmt.pipesAll copiedPipes) ∧
      (expandPipes copiedPipes).faults =
        [⟨1, .atToken "|>", .missingPlaceholder⟩, ⟨4, .atToken "|>", .missingPlaceholder⟩] := by
  have hapart : FaultsApart (Stmt.pipesAll copiedPipes) := by decide
  exact ⟨hapart, faulty_pipes_are_reported hapart⟩

end Lox
