/-
  Lox.Proofs.Loops
  ────────────────────────────────
  **WHAT A `for` LOOP IS LOWERED TO.**

  There is no `for` in the trees.  A loop `for (first; condition; step) body` is
  read as

      { first; while (condition) { body; step; } }

  and a `continue` in the body would pass over the step.  So the step is written
  once and found in two places: in the block around the body when a round ends
  there, and behind that block when a round ends early.  The frames differ; the
  frame of the inner block is one that a loop does not have.

  `Eval.forLoop` runs a loop as it is written, with one step at the end of each
  round and without the inner frame.  It does the same as the tree:

    • the machine's loop with the step in both places makes one step per round
      (`rounds_thenStep`), whatever the step is;
    • a statement of the grammar declares nothing in the frame it is executed in
      (`Derives.declares_eq_nil`), so the inner frame stays one in between;
    • and frames in between make no difference (`Lox.Proofs.Folding.Runs`).

  Bounds are in the way, as the tree is deeper than the loop.  §4 brings all parts
  to one bound.
-/
import Lox.Pipe.Expand
import Lox.Proofs.Bound
import Lox.Proofs.Folding.Runs
import Lox.Proofs.Grammar.Soundness

namespace Lox

open Parse (Context lowerFor)

/-! ## §1. Loops as they are written. -/

/-- A loop `for (first; condition; step) body`. -/
structure ForLoop where
  first : Option Stmt
  condition : Option Expr
  step : Option Expr
  body : Stmt

namespace ForLoop

/-- The tree that is read from a loop. -/
def tree (l : ForLoop) : Stmt := lowerFor l.first l.condition l.step l.body

/-- What is repeated in the tree: the body, and the step behind it if there is one. -/
def round (l : ForLoop) : Stmt :=
  match l.step with
  | some step => .block [l.body, .expr step]
  | none => l.body

/-- A loop with the pipes of its parts expanded. -/
def expand (l : ForLoop) : ForLoop :=
  ⟨l.first.map Stmt.expand, l.condition.map Expr.expand, l.step.map Expr.expand, l.body.expand⟩

/-- Tokens from which a loop is read. -/
inductive Written (ctx : Context) (d : Bool) : ForLoop → List Token → Prop where
  | intro {k l r semi : Token} {ts us vs ws : List Token} {first : Option Stmt}
      {condition step : Option Expr} {body : Stmt} (hk : k.isKeyword .forWord = true)
      (hl : l.isSymbol .leftParen = true) (hf : Derives (.first first) ts)
      (hc : Derives (.clause condition) us) (hs : semi.isSymbol .semicolon = true)
      (ht : Derives (.clause step) vs) (hr : r.isSymbol .rightParen = true)
      (hb : Derives (.statement ctx.ofLoop d body) ws) :
      Written ctx d ⟨first, condition, step, body⟩
        (k :: l :: (ts ++ (us ++ semi :: (vs ++ r :: ws))))

end ForLoop

/-- **The statements that begin with `for` are the trees of loops.** -/
theorem derives_for_iff {ctx : Context} {d : Bool} {s : Stmt} {k : Token} {ts : List Token}
    (hk : k.isKeyword .forWord = true) :
    Derives (.statement ctx d s) (k :: ts) ↔
      ∃ l : ForLoop, l.Written ctx d (k :: ts) ∧ l.tree = s := by
  constructor
  · intro h
    have hword : ∀ w, w ≠ .forWord → k.isKeyword w = true → False := by
      intro w hw hk'
      have := (kind_of_isKeyword hk).symm.trans (kind_of_isKeyword hk')
      cases this
      exact hw rfl
    generalize hts : k :: ts = us at h
    cases h with
    | forLoop hk' hl hf hc hs ht hr hb hs' =>
      exact ⟨⟨_, _, _, _⟩, .intro hk' hl hf hc hs ht hr hb, lowered_iff.1 hs'⟩
    | leave hk' | next hk' | branch hk' | branchElse hk' | whileLoop hk' | print hk' | give hk' =>
      cases hts
      exact (hword _ (by decide) hk').elim
    | scope hb =>
      cases hb with
      | block hl hb hr =>
        cases hts
        rw [Token.isKeyword, kind_of_isSymbol hl] at hk
        cases hk
    | expr he hs =>
      have hopens := head?_any_append [‹Token›] (he.opens _ rfl)
      rw [← hts] at hopens
      rw [Token.isKeyword_of_opensExpression hopens (by decide)] at hk
      cases hk
  · rintro ⟨l, hl, rfl⟩
    cases hl with
    | intro hk hl hf hc hs ht hr hb => exact .forLoop hk hl hf hc hs ht hr hb (lowered_iff.2 rfl)

/-- **Wherever a `for` is read without a fault, a loop is written.** -/
theorem Parse.exists_written {n k : Nat} (hn : 5 * k + 4 ≤ n) {ctx : Context} {c c' : Cursor}
    (hc : c.Ready k) (hfor : c.peek.isKeyword .forWord = true) {s : Stmt}
    (h : Parse.statement n ctx c = .ok s c') (hfaults : c'.faults = c.faults) :
    ∃ (l : ForLoop) (d : Bool) (ts : List Token),
      l.Written ctx d ts ∧ l.tree = s ∧ c.rest = ts ++ c'.rest := by
  have hread := (Parse.readers n).statement k ctx hn c hc
  unfold Parse.Reads at hread
  rw [h] at hread
  obtain ⟨ts, fs, hmoves, hne, -, hder⟩ := hread
  have hnone : fs = [] := List.append_right_eq_self.1 (hmoves.faults.symm.trans hfaults)
  obtain ⟨d, hd, -⟩ := hder hnone
  cases ts with
  | nil => exact absurd rfl hne
  | cons t ts =>
    have hpeek : c.peek = t := by
      unfold Cursor.peek
      rw [hmoves.rest]
      rfl
    rw [hpeek] at hfor
    obtain ⟨l, hl, htree⟩ := (derives_for_iff hfor).1 hd
    exact ⟨l, d, t :: ts, hl, htree, hmoves.rest⟩

/-- Expanding the pipes of a loop's tree expands those of its parts. -/
theorem ForLoop.expand_tree (l : ForLoop) : l.tree.expand = l.expand.tree := by
  obtain ⟨first, condition, step, body⟩ := l
  have hcondition : (condition.getD (.literal (.bool true))).expand =
      (condition.map Expr.expand).getD (.literal (.bool true)) := by
    cases condition with
    | none =>
      rw [Option.getD_none, Expr.expand, Expr.expanded]
      rfl
    | some e => rfl
  have hloop : (lowerFor none condition step body).expand =
      lowerFor none (condition.map Expr.expand) (step.map Expr.expand) body.expand := by
    cases step with
    | none =>
      rw [lowerFor, Stmt.expand, Stmt.expanded]
      show Stmt.loop (condition.getD _).expand body.expand false = _
      rw [hcondition]
      rfl
    | some e =>
      rw [lowerFor, Stmt.expand, Stmt.expanded, Stmt.expanded, Stmt.expandedAll, Stmt.expandedAll,
        Stmt.expandedAll, Stmt.expanded]
      show Stmt.loop (condition.getD _).expand (.block [body.expand, .expr e.expand]) true = _
      rw [hcondition]
      rfl
  cases first with
  | none => exact hloop
  | some s =>
    show (Stmt.block [s, lowerFor none condition step body]).expand =
      .block [s.expand,
        lowerFor none (condition.map Expr.expand) (step.map Expr.expand) body.expand]
    rw [Stmt.expand, Stmt.expanded, Stmt.expandedAll, Stmt.expandedAll, Stmt.expandedAll, ← hloop]
    rfl

/-! ## §2. What the parts declare. -/

/-- The names that the tree of a phrase declares, if the phrase is a statement. -/
def Phrase.declares : Phrase → List String
  | .statement _ _ s => s.declares
  | _ => []

/-- **A statement of the grammar declares nothing** in the frame in which it is
executed: its declarations stand in blocks and functions. -/
theorem Derives.declares_eq_nil {φ : Phrase} {ts : List Token} (h : Derives φ ts) :
    φ.declares = [] := by
  induction h with
  | forLoop _ _ _ _ _ _ _ _ hs' _ _ _ hb =>
    cases hs' with
    | plain => exact hb
    | stepped => rfl
    | started => rfl
  | branch _ _ _ _ _ _ hy =>
    show Stmt.declares _ ++ [] = []
    rw [List.append_nil]
    exact hy
  | branchElse _ _ _ _ _ _ _ _ hy hn => exact List.append_eq_nil_iff.2 ⟨hy, hn⟩
  | whileLoop _ _ _ _ _ _ hb => exact hb
  | _ => rfl

/-- Expanding pipes changes no declaration. -/
theorem Stmt.declares_expand : (s : Stmt) → s.expand.declares = s.declares
  | .branch condition yes none => by
    rw [Stmt.expand, Stmt.expanded]
    show yes.expand.declares ++ [] = yes.declares ++ []
    rw [Stmt.declares_expand yes]
  | .branch condition yes (some no) => by
    rw [Stmt.expand, Stmt.expanded]
    show yes.expand.declares ++ no.expand.declares = yes.declares ++ no.declares
    rw [Stmt.declares_expand yes, Stmt.declares_expand no]
  | .loop condition body increment => by
    rw [Stmt.expand, Stmt.expanded]
    exact Stmt.declares_expand body
  | .var name none | .var name (some value) | .give keyword none | .give keyword (some value)
  | .expr value | .print value | .block body | .function name parameters body | .leave keyword
  | .next keyword => by
    rw [Stmt.expand, Stmt.expanded]
    rfl

/-- Whether a statement is a variable declaration or an expression. -/
def Stmt.isFirst : Stmt → Bool
  | .var _ _ | .expr _ => true
  | _ => false

theorem Stmt.isFirst_expand {s : Stmt} (h : s.isFirst = true) : s.expand.isFirst = true := by
  cases s with
  | var name initial =>
    cases initial <;> rw [Stmt.expand, Stmt.expanded] <;> rfl
  | expr value =>
    rw [Stmt.expand, Stmt.expanded]
    rfl
  | _ => cases h

theorem Derives.isFirst {s : Stmt} {ts : List Token} (h : Derives (.first (some s)) ts) :
    s.isFirst = true := by
  cases h with
  | firstVariable hk hs => cases hs <;> rfl
  | firstExpression => rfl

namespace ForLoop.Written

variable {ctx : Context} {d : Bool} {l : ForLoop} {ts : List Token}

/-- The body of a loop declares nothing. -/
theorem declares_body (h : l.Written ctx d ts) : l.expand.body.declares = [] := by
  cases h with
  | @intro _ _ _ _ _ _ _ _ _ _ _ body _ _ _ _ _ _ _ hb =>
    exact body.declares_expand.trans hb.declares_eq_nil

/-- A loop begins with a variable declaration or an expression, if with anything. -/
theorem isFirst (h : l.Written ctx d ts) {s : Stmt} (hs : l.expand.first = some s) :
    s.isFirst = true := by
  obtain ⟨written, hfirst, rfl⟩ := Option.map_eq_some_iff.1 hs
  cases h with
  | intro _ _ hf =>
    cases hfirst
    exact Stmt.isFirst_expand hf.isFirst

end ForLoop.Written

namespace Eval

/-! ## §3. Running a loop as it is written. -/

variable {α β : Type}

theorem bind_pure_eval (p : Eval α) : Eval.bind p Eval.pure = p := by
  funext m
  unfold Eval.bind
  cases p m <;> rfl

theorem bind_assoc_eval {γ : Type} (p : Eval α) (f : α → Eval β) (g : β → Eval γ) :
    Eval.bind (Eval.bind p f) g = Eval.bind p fun a => Eval.bind (f a) g := by
  funext m
  cases h : p m <;> simp only [Eval.bind, h]

/-- Computations follow the laws of monads. -/
instance : LawfulMonad Eval :=
  LawfulMonad.mk' Eval bind_pure_eval (fun _ _ => rfl) bind_assoc_eval

/-- The value of a condition; true if there is none. -/
def conditionOf (evaluate : Expr → Eval Value) : Option Expr → Eval Value
  | some e => evaluate e
  | none => pure (.bool true)

/-- Make a step, if there is one. -/
def stepOf (evaluate : Expr → Eval Value) : Option Expr → Eval Unit
  | some e => do
    let _ ← evaluate e
    return ()
  | none => pure ()

/-- Begin with a statement in a frame of its own, if there is one. -/
def startedBy (execute : Stmt → Eval Signal) (first : Option Stmt) (p : Eval Signal) :
    Eval Signal :=
  match first with
  | some s => inNewFrame do
    let _ ← execute s
    p
  | none => p

/-- Repeat a body and a step while a condition holds. The step is made after each
round that comes to its end or is ended by `continue`. -/
def forRounds (condition : Eval Value) (body : Eval Signal) (step : Eval Unit) :
    (bound : Nat) → Eval Signal
  | 0 => exhausted
  | n + 1 => do
    if (← condition).isTruthy then
      match ← body with
      | .leave => return .next
      | .give value => return .give value
      | .next | .skip =>
        step
        forRounds condition body step n
    else return .next

/-- **Run a `for` loop as it is written.** -/
def forLoop (host : Host) (bound : Nat) (l : ForLoop) : Eval Signal :=
  startedBy (execute host bound) l.first
    (forRounds (conditionOf (evaluate host bound) l.condition) (execute host bound l.body)
      (stepOf (evaluate host bound) l.step) bound)

/-- A body with a step at its end. -/
def thenStep (body : Eval Signal) (step : Eval Unit) : Eval Signal := do
  match ← body with
  | .next =>
    step
    return .next
  | signal => return signal

/-- **A step at the end of the body that is made up for after a `continue` is one
step per round.** -/
theorem rounds_thenStep (condition : Eval Value) (body : Eval Signal) (step : Eval Unit)
    (bound : Nat) :
    rounds condition (thenStep body step) step bound = forRounds condition body step bound := by
  induction bound with
  | zero => rfl
  | succ bound ih =>
    refine bind_congr fun v => ?_
    by_cases htrue : v.isTruthy = true
    · rw [if_pos htrue, if_pos htrue, thenStep, bind_assoc]
      refine bind_congr fun signal => ?_
      -- After `next` the step has been made in the body, after `skip` the loop makes it.
      cases signal with
      | next => simp only [bind_assoc, pure_bind, ← ih, thenStep]
      | give value => rfl
      | leave => rfl
      | skip => simp only [pure_bind, ← ih, thenStep]
    · rw [if_neg htrue, if_neg htrue]

theorem thenStep_pure (body : Eval Signal) : thenStep body (pure ()) = body := by
  calc thenStep body (pure ())
      = body >>= pure := bind_congr fun signal => by cases signal <;> rfl
    _ = body := bind_pure body

/-! ## §4. One bound for all parts. -/

section Lowered

variable {host : Host} {ev ev' : Expr → Eval Value} {ex ex' : Stmt → Eval Signal}

/-- A round of the tree of a loop. -/
def loweredRound (evaluate : Expr → Eval Value) (execute : Stmt → Eval Signal) (l : ForLoop) :
    Eval Signal :=
  match l.step with
  | some e => inNewFrame (thenStep (execute l.body) (stepOf evaluate (some e)))
  | none => execute l.body

/-- The rounds of the tree of a loop, with one bound for all parts. -/
def loweredRounds (host : Host) (bound : Nat) (l : ForLoop) : Eval Signal :=
  rounds (conditionOf (evaluate host bound) l.condition)
    (loweredRound (evaluate host bound) (execute host bound) l)
    (stepOf (evaluate host bound) l.step) bound

/-- What the tree of a loop does, with one bound for all parts. -/
def loweredLoop (host : Host) (bound : Nat) (l : ForLoop) : Eval Signal :=
  startedBy (execute host bound) l.first (loweredRounds host bound l)

theorem inNewFrame_within {p q : Eval α} (h : p.Within q) :
    (inNewFrame p).Within (inNewFrame q) :=
  (Within.refl _).bind fun _ => (Within.refl _).bind fun frame => h.inFrame frame

theorem conditionOf_within (he : ∀ e, (ev e).Within (ev' e)) (condition : Option Expr) :
    (conditionOf ev condition).Within (conditionOf ev' condition) := by
  cases condition with
  | none => exact .refl _
  | some e => exact he e

theorem stepOf_within (he : ∀ e, (ev e).Within (ev' e)) (step : Option Expr) :
    (stepOf ev step).Within (stepOf ev' step) := by
  cases step with
  | none => exact .refl _
  | some e => exact (he e).bind fun _ => .refl _

theorem thenStep_within {body body' : Eval Signal} {step step' : Eval Unit}
    (hb : body.Within body') (ht : step.Within step') :
    (thenStep body step).Within (thenStep body' step') := by
  refine hb.bind fun signal => ?_
  cases signal with
  | next => exact ht.bind fun _ => .refl _
  | _ => exact .refl _

theorem startedBy_within (hs : ∀ s, (ex s).Within (ex' s)) (first : Option Stmt)
    {p q : Eval Signal} (h : p.Within q) :
    (startedBy ex first p).Within (startedBy ex' first q) := by
  cases first with
  | none => exact h
  | some s => exact inNewFrame_within ((hs s).bind fun _ => h)

theorem forLoop_within {n n' : Nat} (hn : n ≤ n') (l : ForLoop) :
    (forLoop host n l).Within (forLoop host n' l) := by
  have h := withinAt host hn
  unfold forLoop
  rw [← rounds_thenStep, ← rounds_thenStep]
  have hcondition := conditionOf_within h.evaluate l.condition
  have hstep := stepOf_within h.evaluate l.step
  have hround := thenStep_within (h.execute l.body) hstep
  exact startedBy_within h.execute l.first (rounds_within hcondition hround hstep hn)

theorem sequence_singleton (ex : Stmt → Eval Signal) (s : Stmt) : sequence ex [s] = ex s := by
  calc sequence ex [s]
      = ex s >>= pure := bind_congr fun signal => by cases signal <;> rfl
    _ = ex s := bind_pure (ex s)

/-- The first statement of a loop gives no signal to look at. -/
theorem sequence_first {s : Stmt} (hs : s.isFirst = true) (n : Nat) (loop : Stmt) :
    sequence (execute host (n + 1)) [s, loop] =
      (do let _ ← execute host (n + 1) s; execute host (n + 1) loop) := by
  unfold sequence
  rw [sequence_singleton]
  cases s with
  | var name initial =>
    rw [Eval.execute]
    simp only [bind_assoc, pure_bind]
  | expr value =>
    rw [Eval.execute]
    simp only [bind_assoc, pure_bind]
  | _ => cases hs

/-- The block around the body and the step. -/
theorem execute_round (n : Nat) (step : Expr) (body : Stmt) :
    execute host (n + 2) (.block [body, .expr step]) =
      inNewFrame (thenStep (execute host (n + 1) body) (stepOf (evaluate host n) (some step))) := by
  have hstep : execute host (n + 1) (.expr step) =
      (do stepOf (evaluate host n) (some step); return .next) := by
    rw [Eval.execute]
    simp only [stepOf, bind_assoc, pure_bind]
  rw [Eval.execute]
  unfold sequence
  rw [sequence_singleton, hstep]
  rfl

/-- The loop of a tree, with its parts where they stand. -/
theorem execute_loop (n : Nat) (l : ForLoop) :
    execute host (n + 2) (lowerFor none l.condition l.step l.body) =
      rounds (conditionOf (evaluate host (n + 1)) l.condition)
        (execute host (n + 1) l.round) (stepOf (evaluate host (n + 1)) l.step) (n + 1) := by
  have hcondition : evaluate host (n + 1) (l.condition.getD (.literal (.bool true))) =
      conditionOf (evaluate host (n + 1)) l.condition := by
    cases l.condition with
    | none =>
      rw [Option.getD_none, Eval.evaluate]
      rfl
    | some e => rfl
  rw [← hcondition]
  unfold lowerFor ForLoop.round
  dsimp only
  rw [Eval.execute]
  cases l.step <;> rfl

theorem round_within {n N : Nat} (hn : n + 2 ≤ N) (l : ForLoop) :
    (execute host (n + 2) l.round).Within (loweredRound (evaluate host N) (execute host N) l) := by
  unfold ForLoop.round loweredRound
  cases l.step with
  | none => exact (withinAt host hn).execute l.body
  | some step =>
    have hbody := (withinAt host (show n + 1 ≤ N by omega)).execute l.body
    have hstep := stepOf_within (withinAt host (show n ≤ N by omega)).evaluate (some step)
    dsimp only
    rw [execute_round]
    exact inNewFrame_within (thenStep_within hbody hstep)

theorem within_round (n : Nat) (l : ForLoop) :
    (loweredRound (evaluate host n) (execute host n) l).Within (execute host (n + 2) l.round) := by
  unfold ForLoop.round loweredRound
  cases l.step with
  | none => exact (withinAt host (show n ≤ n + 2 by omega)).execute l.body
  | some step =>
    have hbody := (withinAt host (show n ≤ n + 1 by omega)).execute l.body
    dsimp only
    rw [execute_round]
    exact inNewFrame_within (thenStep_within hbody (.refl _))

theorem loop_within {n N : Nat} (hn : n + 3 ≤ N) (l : ForLoop) :
    (execute host (n + 3) (lowerFor none l.condition l.step l.body)).Within
      (loweredRounds host N l) := by
  have h := withinAt host (show n + 2 ≤ N by omega)
  rw [execute_loop]
  exact rounds_within (conditionOf_within h.evaluate l.condition) (round_within (by omega) l)
    (stepOf_within h.evaluate l.step) (by omega)

theorem within_loop (n : Nat) (l : ForLoop) :
    (loweredRounds host n l).Within
      (execute host (n + 3) (lowerFor none l.condition l.step l.body)) := by
  have h := withinAt host (show n ≤ n + 2 by omega)
  rw [execute_loop]
  exact rounds_within (conditionOf_within h.evaluate l.condition) (within_round n l)
    (stepOf_within h.evaluate l.step) (by omega)

/-- The tree of a loop that begins with a statement. -/
theorem execute_started {l : ForLoop} {s : Stmt} (hfirst : l.first = some s)
    (hs : s.isFirst = true) (n : Nat) :
    execute host (n + 4) l.tree = startedBy (execute host (n + 3)) l.first
      (execute host (n + 3) (lowerFor none l.condition l.step l.body)) := by
  unfold ForLoop.tree
  rw [hfirst]
  show execute host (n + 4) (.block [s, lowerFor none l.condition l.step l.body]) = _
  rw [Eval.execute, sequence_first hs]
  rfl

/-- **The tree of a loop does what its parts do at one bound,** a larger one. -/
theorem tree_within {l : ForLoop} (hfirst : ∀ s, l.first = some s → s.isFirst = true) (n : Nat) :
    (execute host (n + 4) l.tree).Within (loweredLoop host (n + 4) l) := by
  unfold loweredLoop
  cases hl : l.first with
  | none =>
    unfold ForLoop.tree
    rw [hl]
    exact loop_within (Nat.le_refl _) l
  | some s =>
    rw [execute_started hl (hfirst s hl), hl]
    exact startedBy_within (withinAt host (Nat.le_succ _)).execute (some s)
      (loop_within (Nat.le_succ _) l)

/-- And what its parts do at one bound the tree does at a larger one. -/
theorem within_tree {l : ForLoop} (hfirst : ∀ s, l.first = some s → s.isFirst = true) (n : Nat) :
    (loweredLoop host n l).Within (execute host (n + 4) l.tree) := by
  unfold loweredLoop
  cases hl : l.first with
  | none =>
    have hmore := (withinAt host (Nat.le_succ (n + 3))).execute
      (lowerFor none l.condition l.step l.body)
    unfold ForLoop.tree
    rw [hl]
    exact (within_loop n l).trans hmore
  | some s =>
    rw [execute_started hl (hfirst s hl), hl]
    exact startedBy_within (withinAt host (show n ≤ n + 3 by omega)).execute (some s)
      (within_loop n l)

end Lowered

/-! ## §5. The inner frame makes no difference. -/

section Folded

variable {host : Host} {ev : Expr → Eval Value} {ex : Stmt → Eval Signal} {F : Folding}
  {f g : FrameId}

theorem conditionOf_folds (he : EvaluatesFolded ev) (F : Folding) (f g : FrameId)
    (condition : Option Expr) :
    (conditionOf ev condition).Folds F f g SameValue (conditionOf ev condition) := by
  cases condition with
  | none => exact .pure fun _ _ => .same nofun
  | some e => exact he F f g e

theorem stepOf_folds (he : EvaluatesFolded ev) (F : Folding) (f g : FrameId) (step : Option Expr) :
    (stepOf ev step).Folds F f g (fun _ _ _ => True) (stepOf ev step) := by
  cases step with
  | none => exact .pure fun _ _ => trivial
  | some e => exact (he F f g e).bind fun _ _ _ _ _ => .pure fun _ _ => trivial

theorem thenStep_folds {body body' : Eval Signal} {step step' : Eval Unit}
    (hb : body.Folds F f g SameSignal body') (ht : step.Folds F f g (fun _ _ _ => True) step') :
    (thenStep body step).Folds F f g SameSignal (thenStep body' step') := by
  refine hb.bind fun G hG signal signal' hsignal => ?_
  cases hsignal with
  | next => exact (ht.grow hG).bind fun _ _ _ _ _ => .pure fun _ _ => .next
  | give hv => exact .pure fun H hH => .give (hv.mono hH.at)
  | leave => exact .pure fun _ _ => .leave
  | skip => exact .pure fun _ _ => .skip

/-- A round of the tree is the body and then the step, whether or not there is a
frame around them. -/
theorem loweredRound_folds (he : EvaluatesFolded ev) (hx : ExecutesFolded ex) {l : ForLoop}
    (hbody : l.body.declares = []) (F : Folding) (f g : FrameId) :
    (loweredRound ev ex l).Folds F f g SameSignal (thenStep (ex l.body) (stepOf ev l.step)) := by
  unfold loweredRound
  cases l.step with
  | none =>
    -- Without a step there is no block, and so no frame.
    show (ex l.body).Folds F f g SameSignal (thenStep (ex l.body) (pure ()))
    rw [thenStep_pure]
    exact hx F f g l.body (.inl hbody)
  | some e =>
    refine inserted_folds fun G _ i _ => ?_
    exact thenStep_folds (hx G i g l.body (.inl hbody)) (stepOf_folds he G i g (some e))

theorem loweredLoop_folds (hh : host.IgnoresFrames) {l : ForLoop} (hbody : l.body.declares = [])
    (F : Folding) (f g : FrameId) (n : Nat) :
    (loweredLoop host n l).Folds F f g SameSignal (forLoop host n l) := by
  have h := foldsAt hh n
  have hrounds : ∀ (F : Folding) (f g : FrameId), (loweredRounds host n l).Folds F f g SameSignal
      (forRounds (conditionOf (evaluate host n) l.condition) (execute host n l.body)
        (stepOf (evaluate host n) l.step) n) := by
    intro F f g
    rw [← rounds_thenStep]
    exact rounds_folds (conditionOf_folds h.evaluate F f g l.condition)
      (loweredRound_folds h.evaluate h.execute hbody F f g)
      (stepOf_folds h.evaluate F f g l.step) n
  unfold loweredLoop forLoop startedBy
  cases l.first with
  | none => exact hrounds F f g
  | some s =>
    -- The first statement may declare a name, but in frames that are paired.
    refine inNewFrame_folds fun G _ i j hown => ?_
    exact (h.execute G i j s (.inr hown)).bind fun H _ _ _ _ => hrounds H i j

end Folded

end Eval

/-! ## §6. The tree of a loop does what the loop says. -/

/-- **The same outcome up to frames in between,** for code that was started on the
machine `m`. The frames of `m` are all still there, each paired with itself. -/
def Outcome.SameFrom (m : Machine) (o o' : Outcome Signal) : Prop :=
  ∃ F : Folding, (∀ f, f < m.scopes.next → F.own f f) ∧
    Outcome.Folds F m.current m.current Eval.SameSignal o o'

theorem Machine.Closed.sameFrom {m : Machine} (hm : m.Closed) {p q : Eval Signal}
    (h : ∀ F f g, p.Folds F f g Eval.SameSignal q) : Outcome.SameFrom m (p m) (q m) :=
  ⟨.same m.scopes.next (Nat.zero_lt_of_lt hm.current), fun _ hf => ⟨rfl, hf⟩,
    h _ m.current m.current _ (.refl _) m m hm.folds⟩

/-- The machine on which the body of a loop with a step begins, in the inner
frame. -/
def Machine.inner (m : Machine) : Machine :=
  { m with scopes := m.scopes.push ⟨[], some m.current⟩, current := m.scopes.next }

/-- **A name means the same in the inner frame and in the frame of the loop** after
code that declares nothing. -/
theorem owner?_inner {host : Host} {m : Machine} (hm : m.Closed) {s : Stmt} (hs : s.declares = [])
    (n : Nat) :
    (Eval.execute host n s m.inner).After fun m' =>
      ∀ name, m'.scopes.owner? m.inner.current name = m'.scopes.owner? m.current name := by
  have hdeclares := (Eval.declaresAt host n).execute s m.inner
  rw [hs] at hdeclares
  refine hdeclares.mono fun m' hm' name => ?_
  obtain ⟨after, hafter, henclosing, hbinds⟩ :=
    hm'.sameNames m.scopes.next ⟨[], some m.current⟩ (m.scopes.getElem?_push_next _)
  -- The frame still binds nothing, so the search goes on in the one around it.
  have hnone : after.binds name = false := hbinds name
  show m'.scopes.owner? m.scopes.next name = _
  rw [Scopes.owner?, hafter]
  simp only [hnone, henclosing, Bool.false_eq_true, if_false, hm.current, if_true]

/-- **The tree of a `for` loop does what the loop says.** Take a `for` loop of the
grammar, with any of its clauses left out, and any machine that code comes to run
on.  Executing the tree that is read from the loop comes to an end if and only if
running the loop as it is written does.  Both then print the same and end with the
same signal or the same failure, and in all frames from before every name has the
same value, where functions may differ by frames that bind nothing between them and
the frame in which they were made.  Wherever the step is made, in the frame of the
inner block or in that of the loop, its names belong to the same frames. -/
theorem for_tree_does_what_the_loop_says {host : Host} (hh : host.IgnoresFrames) {ctx : Context}
    {d : Bool} {l : ForLoop} {ts : List Token} (hl : l.Written ctx d ts) {m : Machine}
    (hm : m.Reachable host) :
    ((∃ n, Eval.execute host n l.tree.expand m ≠ .exhausted) ↔
      ∃ n, Eval.forLoop host n l.expand m ≠ .exhausted) ∧
    (∀ n n', Eval.execute host n l.tree.expand m ≠ .exhausted →
      Eval.forLoop host n' l.expand m ≠ .exhausted →
      Outcome.SameFrom m (Eval.execute host n l.tree.expand m)
        (Eval.forLoop host n' l.expand m)) ∧
    ∀ n, (Eval.execute host n l.body.expand m.inner).After fun m' =>
      ∀ name, m'.scopes.owner? m.inner.current name = m'.scopes.owner? m.current name := by
  have hclosed := hm.closed hh.confined
  have hbody := hl.declares_body
  have hfirst : ∀ s, l.expand.first = some s → s.isFirst = true := fun _ => hl.isFirst
  rw [l.expand_tree]
  have hsame : ∀ n, Outcome.SameFrom m (Eval.loweredLoop host n l.expand m)
      (Eval.forLoop host n l.expand m) :=
    fun n => hclosed.sameFrom fun F f g => Eval.loweredLoop_folds hh hbody F f g n
  -- What the tree does at some bound is done by the parts at one bound, a larger one.
  have hparts : ∀ n, Eval.execute host n l.expand.tree m ≠ .exhausted →
      Eval.execute host n l.expand.tree m = Eval.loweredLoop host (n + 4) l.expand m := by
    intro n hend
    have hmore := (Eval.withinAt host (Nat.le_add_right n 4)).execute l.expand.tree
    exact (hmore.trans (Eval.tree_within hfirst n)) m hend
  have hends : ∀ n, Eval.execute host n l.expand.tree m ≠ .exhausted →
      Eval.forLoop host (n + 4) l.expand m ≠ .exhausted := by
    intro n hend
    rw [hparts n hend] at hend
    obtain ⟨F, -, hfolds⟩ := hsame (n + 4)
    exact fun h => hend (hfolds.exhausted_iff.2 h)
  refine ⟨⟨fun ⟨n, hend⟩ => ⟨n + 4, hends n hend⟩, ?_⟩, ?_, owner?_inner hclosed hbody⟩
  · rintro ⟨n, hend⟩
    obtain ⟨F, -, hfolds⟩ := hsame n
    have hlowered : Eval.loweredLoop host n l.expand m ≠ .exhausted :=
      fun h => hend (hfolds.exhausted_iff.1 h)
    refine ⟨n + 4, ?_⟩
    rw [← Eval.within_tree hfirst n m hlowered]
    exact hlowered
  · intro n n' hend hend'
    -- The loop as it is written has one outcome, whatever the bound.
    have hunique : Eval.forLoop host (n + 4) l.expand m = Eval.forLoop host n' l.expand m := by
      rcases Nat.le_total (n + 4) n' with hn | hn
      · exact Eval.forLoop_within hn l.expand m (hends n hend)
      · exact (Eval.forLoop_within hn l.expand m hend').symm
    rw [hparts n hend, ← hunique]
    exact hsame (n + 4)

/-- An operand of some level is one of all levels above. -/
theorem Derives.ladder_of_unary {e : Expr} {ts : List Token} (h : Derives (.unary e) ts)
    (ls : List Level) : Derives (.ladder ls e) ts := by
  induction ls with
  | nil => exact .tightest h
  | cons l ls ih => exact .tighter ih

/-- Two atoms that are compared. -/
theorem Atom.derives_equality {t operator u : Token} {l r : Expr} (hl : Atom t l)
    (ho : Level.equality.accepts operator = true) (hr : Atom u r) :
    Derives (.expression (.binary l operator r)) [t, operator, u] := by
  have operand : ∀ {t : Token} {e : Expr}, Atom t e → Derives (.unary e) [t] :=
    fun h => .operand (.callee (.atom h))
  have hleft := (operand hl).ladder_of_unary [.equality, .comparison, .sum, .product]
  have hright := (operand hr).ladder_of_unary [.comparison, .sum, .product]
  exact .ladder (.tighter (.tighter (.tighter (.chained hleft ho hright))))

/-- The loop `for (var f; f != true; f = f != nil) if (f == nil) continue; else
print f;` goes through `nil`, `false` and `true`.  The first round is ended by
`continue`, the second one comes to its end. -/
def switchLoop : ForLoop :=
  let f : Token := ⟨.identifier, "f", 1⟩
  let differs : Token := ⟨.symbol .bangEqual, "!=", 1⟩
  let same : Token := ⟨.symbol .equalEqual, "==", 1⟩
  { first := some (.var f none)
    condition := some (.binary (.name f) differs (.literal (.bool true)))
    step := some (.assign f (.binary (.name f) differs (.literal .nil)))
    body := .branch (.binary (.name f) same (.literal .nil))
      (.next ⟨.keyword .continueWord, "continue", 1⟩) (some (.print (.name f))) }

theorem switchLoop_written : ∃ ts, switchLoop.Written .top false ts := by
  let f : Token := ⟨.identifier, "f", 1⟩
  have word (k : Keyword) : Token.isKeyword k ⟨.keyword k, k.text, 1⟩ = true := decide_eq_true rfl
  have mark (s : Symbol) : Token.isSymbol s ⟨.symbol s, s.text, 1⟩ = true := decide_eq_true rfl
  have hname : Atom f (.name f) := .name rfl
  have hnil : Atom ⟨.keyword .nilWord, "nil", 1⟩ (.literal .nil) := .nil rfl
  have hyes : Atom ⟨.keyword .trueWord, "true", 1⟩ (.literal (.bool true)) := .yes rfl
  have hfirst : Derives (.first switchLoop.first) _ :=
    .firstVariable (word .varWord) (.uninitialized rfl (mark .semicolon))
  have hcondition : Derives (.clause switchLoop.condition) _ :=
    .clause (hname.derives_equality rfl hyes)
  have hstep : Derives (.clause switchLoop.step) _ :=
    .clause (.assign rfl (mark .equal) (hname.derives_equality rfl hnil))
  have hprinted : Derives (.expression (.name f)) [f] :=
    .ladder (Derives.ladder_of_unary (.operand (.callee (.atom hname))) Level.all)
  have hbody : Derives (.statement Context.top.ofLoop false switchLoop.body) _ :=
    .branchElse (word .ifWord) (mark .leftParen) (hname.derives_equality rfl hnil)
      (mark .rightParen) (.next (word .continueWord) rfl (mark .semicolon)) (word .elseWord)
      (.print (word .printWord) hprinted (mark .semicolon))
  exact ⟨_, .intro (word .forWord) (mark .leftParen) hfirst hcondition (mark .semicolon) hstep
    (mark .rightParen) hbody⟩

/-- The tree of the loop makes one step in either frame. -/
theorem for_tree_does_what_the_loop_says_switch :
    let host := Host.toolbox fun _ => 0
    let m := Machine.start host .unlimited
    (Eval.execute host 20 switchLoop.tree.expand m).machine?.map (·.output.text) =
        some "false\n" ∧
      Outcome.SameFrom m (Eval.execute host 20 switchLoop.tree.expand m)
        (Eval.forLoop host 20 switchLoop.expand m) := by
  intro host m
  obtain ⟨ts, hwritten⟩ := switchLoop_written
  have hsays := for_tree_does_what_the_loop_says (Host.toolbox_ignoresFrames fun _ => 0) hwritten
    (.start .unlimited)
  have hend : Eval.execute host 20 switchLoop.tree.expand m ≠ .exhausted := by decide +kernel
  have hend' : Eval.forLoop host 20 switchLoop.expand m ≠ .exhausted := by decide +kernel
  exact ⟨by decide +kernel, hsays.2.1 20 20 hend hend'⟩

end Lox
