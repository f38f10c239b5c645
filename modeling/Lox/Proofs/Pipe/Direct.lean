/-
  Lox.Proofs.Pipe.Direct
  ────────────────────────────────
  **PIPES WITHOUT EXPANSION.**

  A second evaluator, which takes pipes as they stand:

    • to evaluate `left |> right`, evaluate `right` with `left` put aside;
    • to evaluate a placeholder, evaluate the left side that was put aside last,
      in the frame that is current now, with the ones put aside before it;
    • a function body starts with no left sides, so a placeholder in it that is
      on the right of no pipe there is looked up by its name: on a machine whose
      frames do not bind it, it is an undefined variable (`evaluate_placeholder`).

  All else is done as by `Eval`.  A program and its expansion then do the same,
  step by step and at every bound (`runProgram_expandPipes`): they print the same
  text, end with the same outcome and leave the same values behind, except that
  the functions made on the way have expanded bodies in one of the two runs.
-/
import Lox.Proofs.Bodies
import Lox.Proofs.Bound
import Lox.Proofs.Names
import Lox.Proofs.Pipe.Flatten

namespace Lox

/-! ## §1. Evaluation with left sides put aside. -/

namespace Direct

open Eval

/-- The size of an expression and the left sides put aside for it. -/
@[simp] noncomputable def load : List Expr → Nat
  | [] => 0
  | e :: es => sizeOf e + load es

mutual

/-- The value of an expression on the right of some pipes, whose left sides have
been put aside, the innermost one first. -/
def evaluate (host : Host) (bound : Nat) (lefts : List Expr) (e : Expr) : Eval Value :=
  match bound, e with
  | 0, _ => exhausted
  | _ + 1, .literal value => pure (.ofLiteral value)
  | n + 1, .group inner => evaluate host n lefts inner
  | n + 1, .name token =>
    if token.isSymbol .dollar then
      match lefts with
      | left :: outer => evaluate host (n + 1) outer left
      | [] => get token
    else get token
  | n + 1, .assign target value => do
    let v ← evaluate host n lefts value
    assign target v
    return v
  | n + 1, .unary operator operand => do
    let v ← evaluate host n lefts operand
    ofExcept (v.unary operator)
  | n + 1, .binary left operator right => do
    let l ← evaluate host n lefts left
    let r ← evaluate host n lefts right
    ofExcept (l.binary operator r)
  | n + 1, .logical left operator right => do
    let l ← evaluate host n lefts left
    if ← ofExcept (decides operator l) then return l
    else evaluate host n lefts right
  | n + 1, .call callee paren arguments => do
    let f ← evaluate host n lefts callee
    let given ← values (evaluate host n lefts) arguments
    call host (execute host n) f paren given
  | _ + 1, .function name parameters body => functionValue name parameters body
  -- A pipe is no level of its own: its right side keeps the bound.
  | n + 1, .pipe left _ right => evaluate host (n + 1) (left :: lefts) right
termination_by (bound, load (e :: lefts))

/-- Do a statement. -/
def execute (host : Host) (bound : Nat) (s : Stmt) : Eval Signal :=
  match bound, s with
  | 0, _ => exhausted
  | n + 1, .expr value => do
    let _ ← evaluate host n [] value
    return .next
  | n + 1, .print value => do
    print (← evaluate host n [] value)
    return .next
  | n + 1, .var name initial => do
    define name.lexeme (← valueOrNil (evaluate host n []) initial)
    return .next
  | n + 1, .block body => do
    let frame ← newFrame (← current) []
    inFrame frame (sequence (execute host n) body)
  | n + 1, .branch condition yes no => do
    if (← evaluate host n [] condition).isTruthy then execute host n yes
    else match no with
      | some other => execute host n other
      | none => return .next
  | n + 1, .loop condition body increment =>
    rounds (evaluate host n [] condition) (execute host n body)
      (loopStep (evaluate host n []) increment body) n
  | _ + 1, .function name parameters body => do
    define name.lexeme (← newClosure (some name.lexeme) parameters body (← current))
    return .next
  | n + 1, .give _ value => do
    return .give (← valueOrNil (evaluate host n []) value)
  | _ + 1, .leave _ => return .leave
  | _ + 1, .next _ => return .skip
termination_by (bound, 0)

end

/-- Run a program with its pipes as they stand. -/
def runProgram (host : Host) (bound : Nat) (program : List Stmt) : Eval Unit := do
  doAll (execute host bound) program
  flush

/-- **A placeholder on the right of no pipe is an undefined variable** on every machine
whose frames do not bind it. -/
theorem evaluate_placeholder (host : Host) (n : Nat) {token : Token} {m : Machine}
    (h : token.isSymbol .dollar = true)
    (hm : ∀ frame ∈ m.scopes.frames, frame.binds token.lexeme = false) :
    evaluate host (n + 1) [] (.name token) m = .failed (.undefined token) m := by
  rw [evaluate, if_pos h]
  unfold Eval.get
  rw [m.scopes.get?_eq_none m.current hm]

/-! ## §2. Left sides put in. -/

/-- The expansion of an expression whose left sides have been put aside. -/
def close : List Expr → Expr → Expr
  | [], e => e.flat
  | left :: outer, e => Expr.fill (close outer left) e.flat

theorem close_placeholder {token : Token} (h : token.isSymbol .dollar = true) (left : Expr)
    (outer : List Expr) : close (left :: outer) (.name token) = close outer left := by
  simp only [close, Expr.flat, Expr.fill, h, if_true]

/-- **Putting a left side aside and putting it in later is expanding the pipe.** -/
theorem close_pipe (lefts : List Expr) (left : Expr) (operator : Token) (right : Expr) :
    close lefts (.pipe left operator right) = close (left :: lefts) right := by
  cases lefts with
  | nil => simp only [close, Expr.flat]
  | cons outermost outer => simp only [close, Expr.flat, Expr.fill_fill]

/-! Nothing else is touched by the left sides, but for the parts. -/

theorem close_literal (lefts : List Expr) (value : Literal) :
    close lefts (.literal value) = .literal value := by
  cases lefts <;> simp only [close, Expr.flat, Expr.fill]

theorem close_name {token : Token} (h : token.isSymbol .dollar = false) (lefts : List Expr) :
    close lefts (.name token) = .name token := by
  cases lefts <;> simp only [close, Expr.flat, Expr.fill, h, Bool.false_eq_true, if_false]

theorem close_group (lefts : List Expr) (inner : Expr) :
    close lefts (.group inner) = .group (close lefts inner) := by
  cases lefts <;> simp only [close, Expr.flat, Expr.fill]

theorem close_assign (lefts : List Expr) (target : Token) (value : Expr) :
    close lefts (.assign target value) = .assign target (close lefts value) := by
  cases lefts <;> simp only [close, Expr.flat, Expr.fill]

theorem close_unary (lefts : List Expr) (operator : Token) (operand : Expr) :
    close lefts (.unary operator operand) = .unary operator (close lefts operand) := by
  cases lefts <;> simp only [close, Expr.flat, Expr.fill]

theorem close_binary (lefts : List Expr) (left : Expr) (operator : Token) (right : Expr) :
    close lefts (.binary left operator right) =
      .binary (close lefts left) operator (close lefts right) := by
  cases lefts <;> simp only [close, Expr.flat, Expr.fill]

theorem close_logical (lefts : List Expr) (left : Expr) (operator : Token) (right : Expr) :
    close lefts (.logical left operator right) =
      .logical (close lefts left) operator (close lefts right) := by
  cases lefts <;> simp only [close, Expr.flat, Expr.fill]

theorem close_call (lefts : List Expr) (callee : Expr) (paren : Token) (arguments : List Expr) :
    close lefts (.call callee paren arguments) =
      .call (close lefts callee) paren (arguments.map (close lefts)) := by
  cases lefts with
  | nil => simp only [close, Expr.flat, Expr.flatAll_eq_map]
  | cons left outer =>
    simp only [close, Expr.flat, Expr.fill, Expr.flatAll_eq_map, Expr.fillAll_eq_map, List.map_map]
    rfl

theorem close_function (lefts : List Expr) (own : Option Token) (parameters : List Token)
    (body : List Stmt) :
    close lefts (.function own parameters body) =
      .function own parameters (Stmt.flatAll body) := by
  cases lefts <;> simp only [close, Expr.flat, Expr.fill]

/-! ## §3. Both evaluators side by side. -/

section Simulation

variable {host : Host}

/-- A computation of an expression or a statement, and the one of its expansion. -/
abbrev Mirrored (p q : Eval Value) : Prop :=
  p.Mirrors Stmt.flatAll (Value.mapBody Stmt.flatAll) q

/-- The step of a loop is found at the same place of the expanded body. -/
theorem loopStep_mirrors {ev ev' : Expr → Eval Value}
    (he : ∀ e, Mirrored (ev e) (ev' e.flat)) (increment : Bool) (body : Stmt) :
    (loopStep ev increment body).Mirrors Stmt.flatAll id (loopStep ev' increment body.flat) := by
  unfold loopStep
  cases increment with
  | false => exact .pure ()
  | true =>
    cases body with
    | block statements =>
      simp only [Stmt.flat, Stmt.flatAll_eq_map, List.getLast?_map, if_true]
      cases statements.getLast? with
      | none => exact .fail _
      | some last =>
        cases last with
        | expr value =>
          simp only [Option.map_some, Stmt.flat]
          exact (he value).bind fun _ => .pure ()
        | _ =>
          simp only [Option.map_some, Stmt.flat]
          exact .fail _
    | _ =>
      simp only [Stmt.flat, if_true]
      exact .fail _

mutual

/-- **An expression with left sides put aside does what its expansion does,** at
every bound. -/
theorem evaluate_mirrors (hh : host.IgnoresBodies) (bound : Nat) (lefts : List Expr) (e : Expr) :
    Mirrored (evaluate host bound lefts e) (Eval.evaluate host bound (close lefts e)) := by
  match bound, e with
  | 0, e =>
    rw [evaluate, Eval.evaluate]
    exact .exhausted
  | n + 1, .literal value =>
    rw [evaluate, close_literal, Eval.evaluate]
    have hvalue := Mirrors.pure (f := Stmt.flatAll) (g := Value.mapBody Stmt.flatAll)
      (Value.ofLiteral value)
    rwa [Value.mapBody_ofLiteral] at hvalue
  | n + 1, .group inner =>
    rw [evaluate, close_group, Eval.evaluate]
    exact evaluate_mirrors hh n lefts inner
  | n + 1, .name token =>
    by_cases h : token.isSymbol .dollar = true
    -- A placeholder on the right of no pipe is looked up by its name in both.
    · match lefts with
      | [] =>
        rw [evaluate, if_pos h, close, Expr.flat, Eval.evaluate]
        exact get_mirrors token
      | left :: outer =>
        -- The left side is evaluated under the left sides outside of it.
        rw [evaluate, if_pos h, close_placeholder h]
        exact evaluate_mirrors hh (n + 1) outer left
    · have hname := close_name (by simpa using h) lefts
      have heval : evaluate host (n + 1) lefts (.name token) = get token := by
        cases lefts <;> rw [evaluate, if_neg h]
      rw [heval, hname, Eval.evaluate]
      exact get_mirrors token
  | n + 1, .assign target value =>
    rw [evaluate, close_assign, Eval.evaluate]
    refine (evaluate_mirrors hh n lefts value).bind fun v => ?_
    exact (assign_mirrors target v).bind fun _ => .pure v
  | n + 1, .unary operator operand =>
    rw [evaluate, close_unary, Eval.evaluate]
    refine (evaluate_mirrors hh n lefts operand).bind fun v => ?_
    rw [Value.unary_mapBody]
    exact .ofExcept _
  | n + 1, .binary left operator right =>
    rw [evaluate, close_binary, Eval.evaluate]
    refine (evaluate_mirrors hh n lefts left).bind fun l => ?_
    refine (evaluate_mirrors hh n lefts right).bind fun r => ?_
    rw [Value.binary_mapBody]
    exact .ofExcept _
  | n + 1, .logical left operator right =>
    rw [evaluate, close_logical, Eval.evaluate]
    refine (evaluate_mirrors hh n lefts left).bind fun l => ?_
    rw [decides_mapBody]
    have hdecides : (Eval.ofExcept (decides operator l)).Mirrors Stmt.flatAll id
        (Eval.ofExcept ((decides operator l).map id)) := .ofExcept _
    rw [Except.map_id] at hdecides
    refine hdecides.bind fun decided => ?_
    cases decided with
    | true => exact .pure l
    | false => exact evaluate_mirrors hh n lefts right
  | n + 1, .call callee paren arguments =>
    rw [evaluate, close_call, Eval.evaluate]
    refine (evaluate_mirrors hh n lefts callee).bind fun f => ?_
    refine (values_mirrors (fun e => evaluate_mirrors hh n lefts e) arguments).bind fun vs => ?_
    -- A called body runs under no left sides, with one bound for both evaluators.
    refine call_mirrors hh (fun ss => ?_) f paren vs
    rw [Stmt.flatAll_eq_map]
    exact sequence_mirrors (fun s => execute_mirrors hh n s) ss
  | n + 1, .function own parameters body =>
    rw [evaluate, close_function, Eval.evaluate]
    -- The one evaluator stores the body as it stands and the other one flattened.
    exact functionValue_mirrors own parameters body
  | n + 1, .pipe left operator right =>
    -- The bound stays, and the pipe is gone from what is left to do.
    rw [evaluate, close_pipe]
    exact evaluate_mirrors hh (n + 1) (left :: lefts) right
termination_by (bound, load (e :: lefts))

/-- **A statement does what its expansion does,** at every bound. -/
theorem execute_mirrors (hh : host.IgnoresBodies) (bound : Nat) (s : Stmt) :
    (execute host bound s).Mirrors Stmt.flatAll (Signal.mapBody Stmt.flatAll)
      (Eval.execute host bound s.flat) := by
  match bound, s with
  | 0, s =>
    rw [execute, Eval.execute]
    exact .exhausted
  | n + 1, .expr value =>
    rw [execute, Stmt.flat, Eval.execute]
    exact (evaluate_mirrors hh n [] value).bind fun _ => .pure Signal.next
  | n + 1, .print value =>
    rw [execute, Stmt.flat, Eval.execute]
    refine (evaluate_mirrors hh n [] value).bind fun v => ?_
    exact (print_mirrors v).bind fun _ => .pure Signal.next
  | n + 1, .var name initial =>
    rw [execute, Stmt.flat, Eval.execute, Expr.flatOption_eq_map]
    refine (valueOrNil_mirrors (fun e => evaluate_mirrors hh n [] e) initial).bind fun v => ?_
    exact (define_mirrors name.lexeme v).bind fun _ => .pure Signal.next
  | n + 1, .block body =>
    rw [execute, Stmt.flat, Eval.execute, Stmt.flatAll_eq_map]
    refine current_mirrors.bind fun outer => (newFrame_mirrors outer []).bind fun frame => ?_
    exact (sequence_mirrors (fun s => execute_mirrors hh n s) body).inFrame frame
  | n + 1, .branch condition yes none =>
    rw [execute, Stmt.flat, Stmt.flatOption, Eval.execute]
    refine (evaluate_mirrors hh n [] condition).bind fun v => ?_
    rw [Value.isTruthy_mapBody]
    by_cases hv : v.isTruthy = true
    · rw [if_pos hv, if_pos hv]
      exact execute_mirrors hh n yes
    · rw [if_neg hv, if_neg hv]
      exact .pure Signal.next
  | n + 1, .branch condition yes (some no) =>
    rw [execute, Stmt.flat, Stmt.flatOption, Eval.execute]
    refine (evaluate_mirrors hh n [] condition).bind fun v => ?_
    rw [Value.isTruthy_mapBody]
    by_cases hv : v.isTruthy = true
    · rw [if_pos hv, if_pos hv]
      exact execute_mirrors hh n yes
    · rw [if_neg hv, if_neg hv]
      exact execute_mirrors hh n no
  | n + 1, .loop condition body increment =>
    rw [execute, Stmt.flat, Eval.execute]
    exact rounds_mirrors (evaluate_mirrors hh n [] condition) (execute_mirrors hh n body)
      (loopStep_mirrors (fun e => evaluate_mirrors hh n [] e) increment body) n
  | n + 1, .function name parameters body =>
    rw [execute, Stmt.flat, Eval.execute]
    refine current_mirrors.bind fun frame => ?_
    refine (newClosure_mirrors _ parameters body frame).bind fun v => ?_
    exact (define_mirrors name.lexeme v).bind fun _ => .pure Signal.next
  | n + 1, .give keyword value =>
    rw [execute, Stmt.flat, Eval.execute, Expr.flatOption_eq_map]
    refine (valueOrNil_mirrors (fun e => evaluate_mirrors hh n [] e) value).bind fun v => ?_
    exact .pure (Signal.give v)
  | n + 1, .leave keyword =>
    rw [execute, Stmt.flat, Eval.execute]
    exact .pure Signal.leave
  | n + 1, .next keyword =>
    rw [execute, Stmt.flat, Eval.execute]
    exact .pure Signal.skip
termination_by (bound, 0)

end

/-- A program does what its flat form does. -/
theorem runProgram_mirrors (hh : host.IgnoresBodies) (bound : Nat) (program : List Stmt) :
    (runProgram host bound program).Mirrors Stmt.flatAll id
      (Eval.runProgram host bound (Stmt.flatAll program)) := by
  unfold runProgram Eval.runProgram
  rw [Stmt.flatAll_eq_map]
  exact (doAll_mirrors (fun s => execute_mirrors hh bound s) program).bind fun _ => flush_mirrors

end Simulation

end Direct

/-! ## §4. Programs. -/

/-- A value whose body, if it is a function of the program, has no pipes. -/
def Value.PipeFree : Value → Prop
  | .function closure => Stmt.pipeFree closure.body = true
  | _ => True

/-- A machine that holds no pipes is not changed by flattening them. -/
theorem Machine.mapBodies_flatAll {m : Machine} (h : m.scopes.All Value.PipeFree) :
    m.mapBodies Stmt.flatAll = m := by
  have hvalues : m.scopes.All fun v => v.mapBody Stmt.flatAll = v := by
    intro frame hframe p hp
    have hfree := h frame hframe p hp
    cases hv : p.2 with
    | function c =>
      rw [hv] at hfree
      exact congrArg (fun b => Value.function { c with body := b })
        (Stmt.flatAll_of_pipeFree c.body hfree)
    | _ => rfl
  exact congrArg (fun s => { m with scopes := s }) (Scopes.mapBodies_eq_self hvalues)

/-- Both runs at one bound. -/
theorem runProgram_expandPipes_at {host : Host} (hh : host.IgnoresBodies) {program : List Stmt}
    (hp : Stmt.pipesUsed program = true) {m : Machine} (hm : m.scopes.All Value.PipeFree)
    (bound : Nat) :
    Eval.runProgram host bound (expandPipes program).statements m =
      (Direct.runProgram host bound program m).mapBodies Stmt.flatAll id := by
  have hmirrors := Direct.runProgram_mirrors hh bound program m
  rw [Machine.mapBodies_flatAll hm] at hmirrors
  rw [expandPipes_of_pipesUsed hp]
  exact hmirrors

/-- **Expansion preserves meaning.** Take a program in which every pipe has a
placeholder for its left side, and a machine whose functions have no pipes.
Running the expanded program and running the program with its pipes as they stand
come to the same: the same text is printed, the outcome is the same, failures and
their lines included, and the same values are left behind, but for the bodies of
functions, which the first run holds expanded.  At every bound either both end or
neither does, and if both end it does not matter at which bounds. -/
theorem runProgram_expandPipes {host : Host} (hh : host.IgnoresBodies) {program : List Stmt}
    (hp : Stmt.pipesUsed program = true) {m : Machine} (hm : m.scopes.All Value.PipeFree) :
    (∀ bound, Eval.runProgram host bound (expandPipes program).statements m =
      (Direct.runProgram host bound program m).mapBodies Stmt.flatAll id) ∧
    (∀ bound bound', Eval.runProgram host bound (expandPipes program).statements m ≠ .exhausted →
      Direct.runProgram host bound' program m ≠ .exhausted →
      Eval.runProgram host bound (expandPipes program).statements m =
        (Direct.runProgram host bound' program m).mapBodies Stmt.flatAll id) := by
  have hat := runProgram_expandPipes_at hh hp hm
  refine ⟨hat, ?_⟩
  intro bound bound' hend hend'
  have hend'' : Eval.runProgram host bound' (expandPipes program).statements m ≠ .exhausted := by
    rw [hat bound']
    exact Outcome.mapBodies_ne_exhausted hend'
  calc Eval.runProgram host bound (expandPipes program).statements m
      = Eval.runProgram host bound' (expandPipes program).statements m :=
        Eval.runProgram_unique hend hend''
    _ = (Direct.runProgram host bound' program m).mapBodies Stmt.flatAll id := hat bound'

/-- A machine on which `fun f(a, b) { return a; }` has been run. -/
def machineWithF : Machine where
  scopes := ⟨#[⟨[("f", .function ⟨0, some "f", ["a", "b"],
    [.give ⟨.keyword .returnWord, "return", 1⟩ (some (.name ⟨.identifier, "a", 1⟩))], 0⟩)], none⟩]⟩
  current := 0
  made := 1
  readings := 0
  output := .unlimited

theorem runProgram_expandPipes_nestedPipes :
    (Host.standard fun _ => 0).IgnoresBodies ∧ Stmt.pipesUsed nestedPipes = true ∧
      machineWithF.scopes.All Value.PipeFree ∧
      Eval.runProgram (Host.standard fun _ => 0) 8 (expandPipes nestedPipes).statements
          machineWithF =
        (Direct.runProgram (Host.standard fun _ => 0) 9 nestedPipes machineWithF).mapBodies
          Stmt.flatAll id := by
  have hhost := Host.standard_ignoresBodies fun _ => 0
  have hbodies : machineWithF.scopes.All Value.PipeFree := by
    simp [Scopes.All, Bindings.All, machineWithF, Value.PipeFree, Stmt.pipeFree,
      Stmt.everyPipeAll, Stmt.everyPipe, Expr.everyPipeOption, Expr.everyPipe]
  have hused : Stmt.pipesUsed nestedPipes = true := rfl
  obtain ⟨hat, hends⟩ := runProgram_expandPipes hhost hused hbodies
  -- The expanded program is evaluated, the other one ends because this one does.
  have hend : Eval.runProgram (Host.standard fun _ => 0) 8 (expandPipes nestedPipes).statements
      machineWithF ≠ .exhausted := by
    rw [expandPipes_of_pipesUsed hused]
    decide +kernel
  have hend' : Direct.runProgram (Host.standard fun _ => 0) 9 nestedPipes machineWithF ≠
      .exhausted := by
    intro h
    have hlarger := Eval.runProgram_within (by decide : 8 ≤ 9) _ machineWithF hend
    rw [hat 9, h] at hlarger
    exact hend hlarger
  exact ⟨hhost, hused, hbodies, hends 8 9 hend hend'⟩

end Lox
