/-
  Lox.Proofs.Pipe.Termination
  ────────────────────────────────
  **EXPANSION ENDS ON EVERY TREE.**

  Expanding a pipe calls for the expansion of its filled right side, which is no
  part of the pipe: it may be larger, and if a faulty pipe has left others
  standing in the left side, it may even have more pipes.  So neither size nor
  the number of pipes explains why this ends; `weight` does, which counts a
  placeholder with the weight of what will stand there.

  `Expr.expandWithin` is the expansion with nothing said about its end, cut off
  at a given depth of calls.  §2 shows that it is not cut off at the depth
  `weight`, and that whenever it is not cut off it gives what `Expr.expanded`
  gives.  In §3 `Calls` is the relation between a tree and the trees for whose
  expansion it calls, with whatever earlier calls returned; every call is for
  something lighter, and by §4 no call is missing.
-/
import Lox.Proofs.Pipe.Faults

namespace Lox

/-! ## §1. Expansion cut off at a depth. -/

/-- Expand trees one after the other, and collect their faults. -/
def expandEach {α : Type} (expand : α → Option (α × List SyntaxFault)) :
    List α → Option (List α × List SyntaxFault)
  | [] => some ([], [])
  | x :: xs => do
    let (y, fs) ← expand x
    let (ys, gs) ← expandEach expand xs
    return (y :: ys, fs ++ gs)

mutual

/-- Expand an expression, with calls nested at most `depth` deep. -/
def Expr.expandWithin : (depth : Nat) → Expr → Option (Expr × List SyntaxFault)
  | 0, _ => none
  | _ + 1, .literal value => some (.literal value, [])
  | _ + 1, .name token => some (.name token, [])
  | d + 1, .unary operator operand => do
    let (x, fs) ← Expr.expandWithin d operand
    return (.unary operator x, fs)
  | d + 1, .binary left operator right => do
    let (l, fs) ← Expr.expandWithin d left
    let (r, gs) ← Expr.expandWithin d right
    return (.binary l operator r, fs ++ gs)
  | d + 1, .logical left operator right => do
    let (l, fs) ← Expr.expandWithin d left
    let (r, gs) ← Expr.expandWithin d right
    return (.logical l operator r, fs ++ gs)
  | d + 1, .pipe left operator right => do
    let (l, fs) ← Expr.expandWithin d left
    if right.hasOwn then
      let (x, gs) ← Expr.expandWithin d (Expr.fill l right)
      return (x, fs ++ gs)
    else return (right, fs ++ [.at operator .missingPlaceholder])
  | d + 1, .call callee paren arguments => do
    let (f, fs) ← Expr.expandWithin d callee
    let (xs, gs) ← expandEach (Expr.expandWithin d) arguments
    return (.call f paren xs, fs ++ gs)
  | d + 1, .assign target value => do
    let (x, fs) ← Expr.expandWithin d value
    return (.assign target x, fs)
  | d + 1, .group inner => do
    let (x, fs) ← Expr.expandWithin d inner
    return (.group x, fs)
  | d + 1, .function own parameters body => do
    let (ss, fs) ← expandEach (Stmt.expandWithin d) body
    return (.function own parameters ss, fs)

/-- Expand a statement, with calls nested at most `depth` deep. -/
def Stmt.expandWithin : (depth : Nat) → Stmt → Option (Stmt × List SyntaxFault)
  | 0, _ => none
  | d + 1, .expr value => do
    let (x, fs) ← Expr.expandWithin d value
    return (.expr x, fs)
  | d + 1, .print value => do
    let (x, fs) ← Expr.expandWithin d value
    return (.print x, fs)
  | _ + 1, .var name none => some (.var name none, [])
  | d + 1, .var name (some initial) => do
    let (x, fs) ← Expr.expandWithin d initial
    return (.var name (some x), fs)
  | d + 1, .block body => do
    let (ss, fs) ← expandEach (Stmt.expandWithin d) body
    return (.block ss, fs)
  | d + 1, .branch condition yes none => do
    let (c, fs) ← Expr.expandWithin d condition
    let (y, gs) ← Stmt.expandWithin d yes
    return (.branch c y none, fs ++ gs)
  | d + 1, .branch condition yes (some no) => do
    let (c, fs) ← Expr.expandWithin d condition
    let (y, gs) ← Stmt.expandWithin d yes
    let (n, hs) ← Stmt.expandWithin d no
    return (.branch c y (some n), fs ++ gs ++ hs)
  | d + 1, .loop condition body increment => do
    let (c, fs) ← Expr.expandWithin d condition
    let (b, gs) ← Stmt.expandWithin d body
    return (.loop c b increment, fs ++ gs)
  | d + 1, .function name parameters body => do
    let (ss, fs) ← expandEach (Stmt.expandWithin d) body
    return (.function name parameters ss, fs)
  | _ + 1, .give keyword none => some (.give keyword none, [])
  | d + 1, .give keyword (some value) => do
    let (x, fs) ← Expr.expandWithin d value
    return (.give keyword (some x), fs)
  | _ + 1, .leave keyword => some (.leave keyword, [])
  | _ + 1, .next keyword => some (.next keyword, [])

end

/-! ## §2. The weight is deep enough. -/

/-- A search finds at most one result, and finds it if the depth is enough. -/
structure Ends {α : Type} (enough : Prop) (found : Option α) (result : α) : Prop where
  only : ∀ r, found = some r → r = result
  reached : enough → found = some result

namespace Ends

variable {α β : Type} {p q : Prop} {found : Option α} {result : α}

theorem pure (result : α) : Ends p (some result) result :=
  ⟨fun _ h => (Option.some.inj h).symm, fun _ => rfl⟩

theorem mono (h : Ends p found result) (hqp : q → p) : Ends q found result :=
  ⟨h.only, fun hq => h.reached (hqp hq)⟩

/-- One search after the other. -/
theorem bind {f : α → Option β} {next : β} (h : Ends p found result)
    (hf : Ends p (f result) next) : Ends p (found >>= f) next where
  only r hr := by
    obtain ⟨a, ha, hfa⟩ := Option.bind_eq_some_iff.1 hr
    rw [h.only a ha] at hfa
    exact hf.only r hfa
  reached hp := by
    rw [h.reached hp]
    exact hf.reached hp

end Ends

/-- What expanding an expression comes to. -/
def Expr.outcome (e : Expr) : Expr × List SyntaxFault := (e.expanded.tree, e.expanded.faults)

/-- What expanding a statement comes to. -/
def Stmt.outcome (s : Stmt) : Stmt × List SyntaxFault := (s.expanded.tree, s.expanded.faults)

theorem Expr.expandEach_ends {d : Nat} (es : List Expr)
    (h : ∀ e : Expr, Ends (Expr.weight 1 e ≤ d) (e.expandWithin d) e.outcome) :
    Ends (Expr.weightAll 1 es ≤ d) (expandEach (Expr.expandWithin d) es)
      ((Expr.expandedAll es).trees, (Expr.expandedAll es).faults) := by
  induction es with
  | nil =>
    rw [Expr.expandedAll]
    exact .pure _
  | cons e es ih =>
    rw [Expr.expandedAll, expandEach]
    have he := (h e).mono (q := Expr.weightAll 1 (e :: es) ≤ d) fun hd => by
      simp only [Expr.weightAll] at hd; omega
    have hs := ih.mono (q := Expr.weightAll 1 (e :: es) ≤ d) fun hd => by
      simp only [Expr.weightAll] at hd; omega
    exact he.bind (hs.bind (.pure _))

theorem Stmt.expandEach_ends {d : Nat} (ss : List Stmt)
    (h : ∀ s : Stmt, Ends (Stmt.weight s ≤ d) (s.expandWithin d) s.outcome) :
    Ends (Stmt.weightAll ss ≤ d) (expandEach (Stmt.expandWithin d) ss)
      ((Stmt.expandedAll ss).trees, (Stmt.expandedAll ss).faults) := by
  induction ss with
  | nil =>
    rw [Stmt.expandedAll]
    exact .pure _
  | cons s ss ih =>
    rw [Stmt.expandedAll, expandEach]
    have hs := (h s).mono (q := Stmt.weightAll (s :: ss) ≤ d) fun hd => by
      simp only [Stmt.weightAll] at hd; omega
    have hss := ih.mono (q := Stmt.weightAll (s :: ss) ≤ d) fun hd => by
      simp only [Stmt.weightAll] at hd; omega
    exact hs.bind (hss.bind (.pure _))

/-- Both searches find at most one result, and find it within the weight. -/
structure EndsAt (d : Nat) : Prop where
  expr (e : Expr) : Ends (Expr.weight 1 e ≤ d) (e.expandWithin d) e.outcome
  stmt (s : Stmt) : Ends (Stmt.weight s ≤ d) (s.expandWithin d) s.outcome

namespace EndsAt

variable {d n : Nat}

/-- A part that is lighter than the whole. -/
theorem part (ih : EndsAt d) (e : Expr) (h : Expr.weight 1 e < n) :
    Ends (n ≤ d + 1) (e.expandWithin d) e.outcome :=
  (ih.expr e).mono fun hn => by omega

theorem partStmt (ih : EndsAt d) (s : Stmt) (h : Stmt.weight s < n) :
    Ends (n ≤ d + 1) (s.expandWithin d) s.outcome :=
  (ih.stmt s).mono fun hn => by omega

theorem parts (ih : EndsAt d) (es : List Expr) (h : Expr.weightAll 1 es < n) :
    Ends (n ≤ d + 1) (expandEach (Expr.expandWithin d) es)
      ((Expr.expandedAll es).trees, (Expr.expandedAll es).faults) :=
  (Expr.expandEach_ends es ih.expr).mono fun hn => by omega

theorem partsStmt (ih : EndsAt d) (ss : List Stmt) (h : Stmt.weightAll ss < n) :
    Ends (n ≤ d + 1) (expandEach (Stmt.expandWithin d) ss)
      ((Stmt.expandedAll ss).trees, (Stmt.expandedAll ss).faults) :=
  (Stmt.expandEach_ends ss ih.stmt).mono fun hn => by omega

theorem expr_succ (ih : EndsAt d) (e : Expr) :
    Ends (Expr.weight 1 e ≤ d + 1) (e.expandWithin (d + 1)) e.outcome := by
  cases e with
  | literal value | name token =>
    rw [Expr.expandWithin, Expr.outcome, Expr.expanded]
    exact .pure _
  | unary operator inner | assign operator inner =>
    rw [Expr.expandWithin, Expr.outcome, Expr.expanded]
    exact (ih.part inner (by simp only [Expr.weight]; omega)).bind (.pure _)
  | group inner =>
    rw [Expr.expandWithin, Expr.outcome, Expr.expanded]
    exact (ih.part inner (by simp only [Expr.weight]; omega)).bind (.pure _)
  | binary left operator right | logical left operator right =>
    rw [Expr.expandWithin, Expr.outcome, Expr.expanded]
    have hl := ih.part left (n := Expr.weight 1 left + Expr.weight 1 right + 1) (by omega)
    have hr := ih.part right (n := Expr.weight 1 left + Expr.weight 1 right + 1) (by omega)
    exact hl.bind (hr.bind (.pure _))
  | pipe left operator right =>
    rw [Expr.expandWithin, Expr.outcome, Expr.expanded]
    refine (ih.part left (by simp only [Expr.weight]; omega)).bind ?_
    by_cases own : right.hasOwn = true
    · rw [dif_pos own]
      simp only [own, if_true]
      -- What the call for the left side returned is no heavier than the left side.
      have hfilled := Expr.weight_fill_lt operator right 1 (left.expanded.light 1)
      exact (ih.part (Expr.fill left.expanded.tree right) hfilled).bind (.pure _)
    · rw [dif_neg own]
      simp only [own]
      exact .pure _
  | call callee paren arguments =>
    rw [Expr.expandWithin, Expr.outcome, Expr.expanded]
    have hc := ih.part callee (n := Expr.weight 1 (.call callee paren arguments))
      (by simp only [Expr.weight]; omega)
    have ha := ih.parts arguments (n := Expr.weight 1 (.call callee paren arguments))
      (by simp only [Expr.weight]; omega)
    exact hc.bind (ha.bind (.pure _))
  | function own parameters body =>
    rw [Expr.expandWithin, Expr.outcome, Expr.expanded]
    exact (ih.partsStmt body (by simp only [Expr.weight]; omega)).bind (.pure _)

theorem stmt_succ (ih : EndsAt d) (s : Stmt) :
    Ends (Stmt.weight s ≤ d + 1) (s.expandWithin (d + 1)) s.outcome := by
  cases s with
  | expr value | print value =>
    rw [Stmt.expandWithin, Stmt.outcome, Stmt.expanded]
    exact (ih.part value (by simp only [Stmt.weight]; omega)).bind (.pure _)
  | var name value | give name value =>
    cases value with
    | none =>
      rw [Stmt.expandWithin, Stmt.outcome, Stmt.expanded]
      exact .pure _
    | some value =>
      rw [Stmt.expandWithin, Stmt.outcome, Stmt.expanded]
      exact (ih.part value (by simp only [Stmt.weight, Expr.weightOption]; omega)).bind (.pure _)
  | block body =>
    rw [Stmt.expandWithin, Stmt.outcome, Stmt.expanded]
    exact (ih.partsStmt body (by simp only [Stmt.weight]; omega)).bind (.pure _)
  | function name parameters body =>
    rw [Stmt.expandWithin, Stmt.outcome, Stmt.expanded]
    exact (ih.partsStmt body (by simp only [Stmt.weight]; omega)).bind (.pure _)
  | branch condition yes no =>
    have hc := ih.part condition (n := Stmt.weight (.branch condition yes no))
      (by simp only [Stmt.weight]; omega)
    have hy := ih.partStmt yes (n := Stmt.weight (.branch condition yes no))
      (by simp only [Stmt.weight]; omega)
    cases no with
    | none =>
      rw [Stmt.expandWithin, Stmt.outcome, Stmt.expanded]
      exact hc.bind (hy.bind (.pure _))
    | some no =>
      have hn := ih.partStmt no (n := Stmt.weight (.branch condition yes (some no)))
        (by simp only [Stmt.weight, Stmt.weightOption]; omega)
      rw [Stmt.expandWithin, Stmt.outcome, Stmt.expanded]
      exact hc.bind (hy.bind (hn.bind (.pure _)))
  | loop condition body increment =>
    rw [Stmt.expandWithin, Stmt.outcome, Stmt.expanded]
    have hc := ih.part condition (n := Stmt.weight (.loop condition body increment))
      (by simp only [Stmt.weight]; omega)
    have hb := ih.partStmt body (n := Stmt.weight (.loop condition body increment))
      (by simp only [Stmt.weight]; omega)
    exact hc.bind (hb.bind (.pure _))
  | leave keyword | next keyword =>
    rw [Stmt.expandWithin, Stmt.outcome, Stmt.expanded]
    exact .pure _

end EndsAt

/-- Every expression weighs something. -/
theorem Expr.weight_pos {n : Nat} (hn : 0 < n) (e : Expr) : 0 < Expr.weight n e := by
  cases e with
  | name token =>
    rw [Expr.weight]
    split <;> omega
  | _ => simp only [Expr.weight]; omega

theorem Stmt.weight_pos (s : Stmt) : 0 < Stmt.weight s := by
  cases s <;> simp only [Stmt.weight] <;> omega

/-- **The weight of a tree is deep enough,** and no other result is ever found. -/
theorem endsAt (d : Nat) : EndsAt d := by
  induction d with
  | zero =>
    have hnone {α : Type} {n : Nat} (hn : 0 < n) (r : α) : Ends (n ≤ 0) none r :=
      ⟨nofun, fun h => by omega⟩
    constructor
    · intro e
      rw [Expr.expandWithin]
      exact hnone (Expr.weight_pos Nat.one_pos e) _
    · intro s
      rw [Stmt.expandWithin]
      exact hnone (Stmt.weight_pos s) _
  | succ d ih => exact ⟨ih.expr_succ, ih.stmt_succ⟩

/-! ## §3. Calls. -/

/-- Some work of the expansion. -/
inductive Task where
  | expr (e : Expr)
  | stmt (s : Stmt)

/-- The parts of a tree that are expanded on their own. The right side of a pipe
is none of them. -/
def Task.parts : Task → List Task
  | .expr (.literal _) | .expr (.name _) => []
  | .expr (.unary _ inner) | .expr (.assign _ inner) | .expr (.group inner) => [.expr inner]
  | .expr (.binary left _ right) | .expr (.logical left _ right) => [.expr left, .expr right]
  | .expr (.pipe left _ _) => [.expr left]
  | .expr (.call callee _ arguments) => .expr callee :: arguments.map .expr
  | .expr (.function _ _ body) => body.map .stmt
  | .stmt (.expr value) | .stmt (.print value) => [.expr value]
  | .stmt (.var _ value) | .stmt (.give _ value) => value.toList.map .expr
  | .stmt (.block body) | .stmt (.function _ _ body) => body.map .stmt
  | .stmt (.branch condition yes no) => .expr condition :: .stmt yes :: no.toList.map .stmt
  | .stmt (.loop condition body _) => [.expr condition, .stmt body]
  | .stmt (.leave _) | .stmt (.next _) => []

/-- The call for the expansion of `e` may return the tree `x`. -/
def Expr.Returns (e x : Expr) : Prop := ∃ d fs, e.expandWithin d = some (x, fs)

/-- **Expanding the second task calls for the first:** for one of its parts, or for
the right side of a pipe, filled with what the call for the left side returned. -/
inductive Calls : Task → Task → Prop where
  | part {x y : Task} (h : x ∈ y.parts) : Calls x y
  | filled {left l right : Expr} {operator : Token} (own : right.hasOwn = true)
      (h : left.Returns l) : Calls (.expr (Expr.fill l right)) (.expr (.pipe left operator right))

/-- What a task may grow to. -/
def Task.weight : Task → Nat
  | .expr e => Expr.weight 1 e
  | .stmt s => Stmt.weight s

theorem Expr.weight_lt_weightAll {e : Expr} {es : List Expr} (h : e ∈ es) :
    Expr.weight 1 e < Expr.weightAll 1 es := by
  induction es with
  | nil => cases h
  | cons f es ih =>
    rw [Expr.weightAll]
    rcases List.mem_cons.1 h with rfl | h
    · omega
    · have := ih h
      omega

theorem Stmt.weight_lt_weightAll {s : Stmt} {ss : List Stmt} (h : s ∈ ss) :
    Stmt.weight s < Stmt.weightAll ss := by
  induction ss with
  | nil => cases h
  | cons t ss ih =>
    rw [Stmt.weightAll]
    rcases List.mem_cons.1 h with rfl | h
    · omega
    · have := ih h
      omega

theorem Task.weight_lt_of_mem_map_expr {x : Task} {es : List Expr} (h : x ∈ es.map Task.expr) :
    x.weight < Expr.weightAll 1 es := by
  obtain ⟨e, he, rfl⟩ := List.mem_map.1 h
  exact Expr.weight_lt_weightAll he

theorem Task.weight_lt_of_mem_map_stmt {x : Task} {ss : List Stmt} (h : x ∈ ss.map Task.stmt) :
    x.weight < Stmt.weightAll ss := by
  obtain ⟨s, hs, rfl⟩ := List.mem_map.1 h
  exact Stmt.weight_lt_weightAll hs

theorem Task.weight_lt_of_mem_parts_expr {x : Task} {e : Expr} (h : x ∈ (Task.expr e).parts) :
    x.weight < Expr.weight 1 e := by
  cases e with
  | literal value | name token => cases h
  | unary operator inner | assign operator inner =>
    obtain rfl := List.mem_singleton.1 h
    simp only [Task.weight, Expr.weight]; omega
  | group inner =>
    obtain rfl := List.mem_singleton.1 h
    simp only [Task.weight, Expr.weight]; omega
  | binary left operator right | logical left operator right =>
    rcases List.mem_cons.1 h with rfl | h
    · simp only [Task.weight, Expr.weight]; omega
    · obtain rfl := List.mem_singleton.1 h
      simp only [Task.weight, Expr.weight]; omega
  | pipe left operator right =>
    obtain rfl := List.mem_singleton.1 h
    simp only [Task.weight, Expr.weight]; omega
  | call callee paren arguments =>
    rcases List.mem_cons.1 h with rfl | h
    · simp only [Task.weight, Expr.weight]; omega
    · have := Task.weight_lt_of_mem_map_expr h
      simp only [Expr.weight]; omega
  | function own parameters body =>
    have := Task.weight_lt_of_mem_map_stmt h
    simp only [Expr.weight]; omega

theorem Task.weight_lt_of_mem_parts_stmt {x : Task} {s : Stmt} (h : x ∈ (Task.stmt s).parts) :
    x.weight < Stmt.weight s := by
  cases s with
  | expr value | print value =>
    obtain rfl := List.mem_singleton.1 h
    simp only [Task.weight, Stmt.weight]; omega
  | var name value | give name value =>
    cases value with
    | none => cases h
    | some value =>
      obtain rfl := List.mem_singleton.1 h
      simp only [Task.weight, Stmt.weight, Expr.weightOption]; omega
  | block body =>
    have := Task.weight_lt_of_mem_map_stmt h
    simp only [Stmt.weight]; omega
  | function name parameters body =>
    have := Task.weight_lt_of_mem_map_stmt h
    simp only [Stmt.weight]; omega
  | branch condition yes no =>
    rcases List.mem_cons.1 h with rfl | h
    · simp only [Task.weight, Stmt.weight]; omega
    rcases List.mem_cons.1 h with rfl | h
    · simp only [Task.weight, Stmt.weight]; omega
    cases no with
    | none => cases h
    | some no =>
      obtain rfl := List.mem_singleton.1 h
      simp only [Task.weight, Stmt.weight, Stmt.weightOption]; omega
  | loop condition body increment =>
    rcases List.mem_cons.1 h with rfl | h
    · simp only [Task.weight, Stmt.weight]; omega
    · obtain rfl := List.mem_singleton.1 h
      simp only [Task.weight, Stmt.weight]; omega
  | leave keyword | next keyword => cases h

/-- **Every call is for something lighter.** -/
theorem Calls.weight_lt {x y : Task} (h : Calls x y) : x.weight < y.weight := by
  cases h with
  | @part x y h =>
    cases y with
    | expr e => exact Task.weight_lt_of_mem_parts_expr h
    | stmt s => exact Task.weight_lt_of_mem_parts_stmt h
  | @filled left l right operator own h =>
    obtain ⟨d, fs, hd⟩ := h
    have hl : l = left.expanded.tree := congrArg Prod.fst (((endsAt d).expr left).only _ hd)
    rw [hl]
    exact Expr.weight_fill_lt operator right 1 (left.expanded.light 1)

/-! ## §4. Being cut off. -/

/-- The expansion of a task is cut off at a depth of calls. -/
def Task.CutOff (d : Nat) : Task → Prop
  | .expr e => e.expandWithin d = none
  | .stmt s => s.expandWithin d = none

/-- If nothing is found, then one of the calls for a task was cut off. -/
def Task.Blames {α : Type} (x : Task) (d : Nat) (found : Option α) : Prop :=
  found = none → ∃ y, Calls y x ∧ y.CutOff d

namespace Task.Blames

variable {α β : Type} {x : Task} {d : Nat}

theorem pure (a : α) : x.Blames d (some a) := nofun

theorem bind {found : Option α} {f : α → Option β} (h : x.Blames d found)
    (hf : ∀ a, found = some a → x.Blames d (f a)) : x.Blames d (found >>= f) := by
  intro hnone
  cases hfound : found with
  | none => exact h hfound
  | some a =>
    rw [hfound] at hnone
    exact hf a hfound hnone

theorem expr {e : Expr} (h : Task.expr e ∈ x.parts) : x.Blames d (e.expandWithin d) :=
  fun hnone => ⟨.expr e, .part h, hnone⟩

theorem stmt {s : Stmt} (h : Task.stmt s ∈ x.parts) : x.Blames d (s.expandWithin d) :=
  fun hnone => ⟨.stmt s, .part h, hnone⟩

theorem each {expand : α → Option (α × List SyntaxFault)} {as : List α}
    (h : ∀ a ∈ as, x.Blames d (expand a)) : x.Blames d (expandEach expand as) := by
  induction as with
  | nil => exact pure _
  | cons a as ih =>
    have hrest := ih fun b hb => h b (.tail _ hb)
    exact (h a (.head _)).bind fun _ _ => hrest.bind fun _ _ => pure _

end Task.Blames

theorem Expr.blames_expandWithin (d : Nat) (e : Expr) :
    (Task.expr e).Blames d (e.expandWithin (d + 1)) := by
  cases e with
  | literal value | name token =>
    rw [Expr.expandWithin]
    exact .pure _
  | unary operator inner | assign operator inner =>
    rw [Expr.expandWithin]
    exact .bind (.expr (.head _)) fun _ _ => .pure _
  | group inner =>
    rw [Expr.expandWithin]
    exact .bind (.expr (.head _)) fun _ _ => .pure _
  | binary left operator right | logical left operator right =>
    rw [Expr.expandWithin]
    exact .bind (.expr (.head _)) fun _ _ => .bind (.expr (.tail _ (.head _))) fun _ _ => .pure _
  | pipe left operator right =>
    rw [Expr.expandWithin]
    refine .bind (.expr (.head _)) fun r hr => ?_
    obtain ⟨l, fs⟩ := r
    by_cases own : right.hasOwn = true
    · simp only [own, if_true]
      -- The call for the filled right side is made with what has just been returned.
      exact .bind (fun hnone => ⟨_, .filled own ⟨d, fs, hr⟩, hnone⟩) fun _ _ => .pure _
    · simp only [own]
      exact .pure _
  | call callee paren arguments =>
    rw [Expr.expandWithin]
    refine .bind (.expr (.head _)) fun _ _ => .bind (.each fun a ha => .expr ?_) fun _ _ => .pure _
    exact .tail _ (List.mem_map_of_mem ha)
  | function own parameters body =>
    rw [Expr.expandWithin]
    exact .bind (.each fun s hs => .stmt (List.mem_map_of_mem hs)) fun _ _ => .pure _

theorem Stmt.blames_expandWithin (d : Nat) (s : Stmt) :
    (Task.stmt s).Blames d (s.expandWithin (d + 1)) := by
  cases s with
  | expr value | print value =>
    rw [Stmt.expandWithin]
    exact .bind (.expr (.head _)) fun _ _ => .pure _
  | var name value | give name value =>
    cases value with
    | none =>
      rw [Stmt.expandWithin]
      exact .pure _
    | some value =>
      rw [Stmt.expandWithin]
      exact .bind (.expr (.head _)) fun _ _ => .pure _
  | block body =>
    rw [Stmt.expandWithin]
    exact .bind (.each fun s hs => .stmt (List.mem_map_of_mem hs)) fun _ _ => .pure _
  | function name parameters body =>
    rw [Stmt.expandWithin]
    exact .bind (.each fun s hs => .stmt (List.mem_map_of_mem hs)) fun _ _ => .pure _
  | branch condition yes no =>
    cases no with
    | none =>
      rw [Stmt.expandWithin]
      exact .bind (.expr (.head _)) fun _ _ => .bind (.stmt (.tail _ (.head _))) fun _ _ => .pure _
    | some no =>
      rw [Stmt.expandWithin]
      exact .bind (.expr (.head _)) fun _ _ => .bind (.stmt (.tail _ (.head _))) fun _ _ =>
        .bind (.stmt (.tail _ (.tail _ (.head _)))) fun _ _ => .pure _
  | loop condition body increment =>
    rw [Stmt.expandWithin]
    exact .bind (.expr (.head _)) fun _ _ => .bind (.stmt (.tail _ (.head _))) fun _ _ => .pure _
  | leave keyword | next keyword =>
    rw [Stmt.expandWithin]
    exact .pure _

/-- **A task is cut off only in a call.** -/
theorem Task.CutOff.exists_call {d : Nat} {x : Task} (h : x.CutOff (d + 1)) :
    ∃ y, Calls y x ∧ y.CutOff d := by
  cases x with
  | expr e => exact Expr.blames_expandWithin d e h
  | stmt s => exact Stmt.blames_expandWithin d s h

/-! ## §5. Termination. -/

/-- `(nil |> (nil |> $)) |> f($, $, $, $)`: the first pipe is faulty and leaves the
second one, of which four copies come to stand where there were three pipes. -/
theorem Calls.exists_larger : ∃ (left l right : Expr) (operator : Token),
    Calls (.expr (Expr.fill l right)) (.expr (.pipe left operator right)) ∧
      sizeOf (Expr.pipe left operator right) < sizeOf (Expr.fill l right) ∧
      (Expr.pipe left operator right).pipes.length < (Expr.fill l right).pipes.length := by
  let pipe : Token := ⟨.symbol .pipe, "|>", 1⟩
  let placeholder : Expr := .name ⟨.symbol .dollar, "$", 1⟩
  let left : Expr := .pipe (.literal .nil) pipe placeholder
  let right : Expr := .call (.name ⟨.identifier, "f", 1⟩) ⟨.symbol .rightParen, ")", 1⟩
    [placeholder, placeholder, placeholder, placeholder]
  refine ⟨.pipe (.literal .nil) pipe left, left, right, pipe, .filled rfl ⟨2, _, rfl⟩, ?_, ?_⟩
  · decide +kernel
  · decide +kernel

/-- **Expansion ends on every tree.** Calls are well founded, and they are all the
calls that are made: an expansion is cut off only in one of them.  This is so though
a call may be for a tree that is larger than the one it is made for and has more
pipes.  No tree is expanded for ever: from some depth on the expansion of an
expression or of a program is not cut off, and comes to what `Expr.expanded` and
`expandPipes` give. -/
theorem expansion_terminates :
    WellFounded Calls ∧
    (∀ (d : Nat) (x : Task), x.CutOff (d + 1) → ∃ y, Calls y x ∧ y.CutOff d) ∧
    (∃ (left l right : Expr) (operator : Token),
      Calls (.expr (Expr.fill l right)) (.expr (.pipe left operator right)) ∧
        sizeOf (Expr.pipe left operator right) < sizeOf (Expr.fill l right) ∧
        (Expr.pipe left operator right).pipes.length < (Expr.fill l right).pipes.length) ∧
    (∀ e : Expr, ∃ depth, ∀ d ≥ depth, e.expandWithin d = some (e.expand, e.pipeFaults)) ∧
    ∀ program : List Stmt, ∃ depth, ∀ d ≥ depth, expandEach (Stmt.expandWithin d) program =
      some ((expandPipes program).statements, (expandPipes program).faults) := by
  refine ⟨?_, fun d x h => h.exists_call, Calls.exists_larger, ?_, ?_⟩
  · exact Subrelation.wf Calls.weight_lt (measure Task.weight).wf
  · intro e
    exact ⟨Expr.weight 1 e, fun d hd => ((endsAt d).expr e).reached hd⟩
  · intro program
    exact ⟨Stmt.weightAll program,
      fun d hd => (Stmt.expandEach_ends program (endsAt d).stmt).reached hd⟩

end Lox
