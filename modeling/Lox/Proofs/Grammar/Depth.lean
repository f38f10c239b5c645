/-
  Lox.Proofs.Grammar.Depth
  ────────────────────────────────
  **READING WITH A COUNT OF FUNCTIONS.**

  Whether a `return` may stand somewhere can be told in two ways.  Either every
  reader is told whether it is in a function, or one number, kept beside the
  cursor, counts the functions around it: it goes up before the body of a
  function and down behind it.  A number that is kept can get out of step, for
  the reader of a body may end at a fault as well as with a value, and reading
  goes on behind the fault.

  `Counted α` is a reader that keeps such a number, and §2 and §3 give the whole
  grammar in this form.  `Counts d q p` says that at the depth `d` the reader `q`
  does what `p` does and ends at the depth `d` again, whatever the outcome is.
  §4 and §5 show it of every reader: the number is never out of step, and
  counting reads what being told reads.
-/
import Lox.Proofs.Grammar.Soundness

namespace Lox

open Parse (Context)

/-! ## §1. Readers that count. -/

/-- A reader that keeps the number of functions around the cursor. -/
def Counted (α : Type) : Type := (depth : Nat) → Cursor → Step α × Nat

namespace Counted

variable {α β : Type}

protected def pure (a : α) : Counted α := fun d c => (.ok a c, d)

/-- One reader after the other; a reader that gets stuck is the last one, and
the number stays as it left it. -/
protected def bind (p : Counted α) (f : α → Counted β) : Counted β := fun d c =>
  match p d c with
  | (.ok a c', d') => f a d' c'
  | (.stuck fault c', d') => (.stuck fault c', d')
  | (.broken text c', d') => (.broken text c', d')
  | (.exhausted, d') => (.exhausted, d')

instance : Monad Counted where
  pure := Counted.pure
  bind := Counted.bind

/-- A reader that has nothing to do with functions. -/
instance : MonadLift Parse Counted where
  monadLift p := fun d c => (p c, d)

/-- The number of functions around the cursor. -/
def depth : Counted Nat := fun d c => (.ok d c, d)

/-- Read in one function more. The number goes down again behind it, whatever
the outcome is. -/
def deeper (p : Counted α) : Counted α := fun d c =>
  let (step, d') := p (d + 1) c
  (step, d' - 1)

/-- Read, and get over a fault. Nothing is done about the number here. -/
def recovering (p : Counted α) : Counted (Option α) := fun d c =>
  let (step, d') := p d c
  (Parse.recovering (fun _ => step) c, d')

/-- The bound on repetitions is reached. -/
def exhausted : Counted α := fun d _ => (.exhausted, d)

def unlessAt (absent : Token → Bool) (p : Counted α) : Counted (Option α) := do
  if ← Parse.check absent then return none else some <$> p

def afterMark (mark : Token → Bool) (p : Counted α) : Counted (Option α) := do
  if ← Parse.accept mark then some <$> p else return none

def listUnlessAt (absent : Token → Bool) (p : Counted (List α)) : Counted (List α) := do
  if ← Parse.check absent then return [] else p

/-! ## §2. The productions of the grammar. -/

def chain (l : Level) (operand : Counted Expr) : (bound : Nat) → (left : Expr) → Counted Expr
  | 0, _ => exhausted
  | n + 1, left => do
    if l.accepts (← Parse.peek) then
      let operator ← Parse.advance
      let right ← operand
      chain l operand n (l.join left operator right)
    else return left

def ladder (operand : Counted Expr) (bound : Nat) : List Level → Counted Expr
  | [] => operand
  | l :: tighter => do
    let left ← ladder operand bound tighter
    chain l (ladder operand bound tighter) bound left

def separated (item : Counted α) (excess : SyntaxCause) : (bound count : Nat) → Counted (List α)
  | 0, _ => exhausted
  | n + 1, count => do
    Parse.noteExcess count excess
    let first ← item
    if ← Parse.accept (·.isSymbol .comma) then
      return first :: (← separated item excess n (count + 1))
    else return [first]

def arguments (expression : Counted Expr) (bound : Nat) : Counted (List Expr) :=
  listUnlessAt (·.isSymbol .rightParen)
    (separated expression (.tooManyArguments Parse.maxArity) bound 0)

def calls (expression : Counted Expr) : (bound : Nat) → (callee : Expr) → Counted Expr
  | 0, _ => exhausted
  | n + 1, callee => do
    if ← Parse.accept (·.isSymbol .leftParen) then
      let given ← arguments expression n
      let paren ← Parse.expect (·.isSymbol .rightParen) "Expect ')' after arguments."
      calls expression n (.call callee paren given)
    else return callee

def declarations (declaration : Counted (Option Stmt)) (stop : Token → Bool) :
    (bound : Nat) → Counted (List Stmt)
  | 0 => exhausted
  | n + 1 => do
    if ← Parse.check (!stop ·) then
      let first ← declaration
      let others ← declarations declaration stop n
      return first.toList ++ others
    else return []

def block (declaration : Counted (Option Stmt)) (bound : Nat) : Counted (List Stmt) := do
  let body ← declarations declaration (·.isSymbol .rightBrace) bound
  let _ ← Parse.expect (·.isSymbol .rightBrace) "Expect '\x7d' after block."
  return body

/-- Read the parameters and the body of a function. The body is one function
deeper, the parameters are not. -/
def function (declaration : Counted (Option Stmt)) (bound : Nat) (after : String) :
    Counted (List Token × List Stmt) := do
  let _ ← Parse.expect (·.isSymbol .leftParen) ("Expect '(' after " ++ after ++ ".")
  let names ← Parse.parameters bound
  let _ ← Parse.expect (·.isSymbol .rightParen) "Expect ')' after parameters."
  let _ ← Parse.expect (·.isSymbol .leftBrace) "Expect '\x7b' before function body."
  return (names, ← deeper (block declaration bound))

def varDeclaration (expression : Counted Expr) : Counted Stmt := do
  let name ← Parse.expect Token.isIdentifier "Expect variable name."
  let initial ← afterMark (·.isSymbol .equal) expression
  let _ ← Parse.expect (·.isSymbol .semicolon) "Expect ';' after variable declaration."
  return .var name initial

def expressionStatement (expression : Counted Expr) : Counted Stmt := do
  let value ← expression
  let _ ← Parse.expect (·.isSymbol .semicolon) "Expect ';' after expression."
  return .expr value

def printStatement (expression : Counted Expr) : Counted Stmt := do
  let value ← expression
  let _ ← Parse.expect (·.isSymbol .semicolon) "Expect ';' after value."
  return .print value

/-- Read a return statement, which has to be in some function. -/
def returnStatement (expression : Counted Expr) : Counted Stmt := do
  let keyword ← Parse.advance
  Parse.require (0 < (← depth)) keyword .topLevelReturn
  let value ← unlessAt (·.isSymbol .semicolon) expression
  let _ ← Parse.expect (·.isSymbol .semicolon) "Expect ';' after return value."
  return .give keyword value

def branchStatement (expression : Counted Expr) (statement : Counted Stmt) : Counted Stmt := do
  let _ ← Parse.expect (·.isSymbol .leftParen) "Expect '(' after 'if'."
  let condition ← expression
  let _ ← Parse.expect (·.isSymbol .rightParen) "Expect ')' after if condition."
  let yes ← statement
  let no ← afterMark (·.isKeyword .elseWord) statement
  return .branch condition yes no

def whileStatement (expression : Counted Expr) (body : Counted Stmt) : Counted Stmt := do
  let _ ← Parse.expect (·.isSymbol .leftParen) "Expect '(' after 'while'."
  let condition ← expression
  let _ ← Parse.expect (·.isSymbol .rightParen) "Expect ')' after condition."
  return .loop condition (← body) false

def firstClause (expression : Counted Expr) : Counted (Option Stmt) := do
  if ← Parse.accept (·.isSymbol .semicolon) then return none
  else if ← Parse.accept (·.isKeyword .varWord) then some <$> varDeclaration expression
  else some <$> expressionStatement expression

def forStatement (expression : Counted Expr) (body : Counted Stmt) : Counted Stmt := do
  let _ ← Parse.expect (·.isSymbol .leftParen) "Expect '(' after 'for'."
  let first ← firstClause expression
  let condition ← unlessAt (·.isSymbol .semicolon) expression
  let _ ← Parse.expect (·.isSymbol .semicolon) "Expect ';' after loop condition."
  let step ← unlessAt (·.isSymbol .rightParen) expression
  let _ ← Parse.expect (·.isSymbol .rightParen) "Expect ')' after for clauses."
  return Parse.lowerFor first condition step (← body)

/-! ## §3. The readers that refer to themselves. -/

mutual

def expression : (bound : Nat) → Counted Expr
  | 0 => exhausted
  | n + 1 => do
    let left ← ladder (unary n) n Level.all
    if (← Parse.peek).isSymbol .equal then
      let equals ← Parse.advance
      let value ← expression n
      match left.target? with
      | some target => return .assign target value
      | none =>
        Parse.report equals .invalidAssignmentTarget
        return left
    else return left

def unary : (bound : Nat) → Counted Expr
  | 0 => exhausted
  | n + 1 => do
    let t ← Parse.peek
    if t.isSymbol .bang || t.isSymbol .minus then
      let operator ← Parse.advance
      return .unary operator (← unary n)
    else calls (expression n) n (← primary n)

def primary : (bound : Nat) → Counted Expr
  | 0 => exhausted
  | n + 1 => do
    let t ← Parse.peek
    if t.isAtom then Parse.atom (← Parse.advance)
    else if t.isSymbol .leftParen then
      let _ ← Parse.advance
      let inner ← expression n
      let _ ← Parse.expect (·.isSymbol .rightParen) "Expect ')' after expression."
      return .group inner
    else if t.isKeyword .funWord then
      let _ ← Parse.advance
      let name ← Parse.ownName
      let (names, body) ← function (declaration n false) n
        (if name.isSome then "function name" else "'fun'")
      return .function name names body
    else Parse.fail t .expectedExpression

/-- Read a statement. Whether it is in a loop is told, whether it is in a
function is counted. -/
def statement : (bound : Nat) → (inLoop : Bool) → Counted Stmt
  | 0, _ => exhausted
  | n + 1, inLoop => do
    match (← Parse.peek).kind with
    | .keyword .breakWord | .keyword .continueWord => Parse.jumpStatement inLoop
    | .keyword .forWord =>
      let _ ← Parse.advance
      forStatement (expression n) (statement n true)
    | .keyword .ifWord =>
      let _ ← Parse.advance
      branchStatement (expression n) (statement n inLoop)
    | .keyword .whileWord =>
      let _ ← Parse.advance
      whileStatement (expression n) (statement n true)
    | .keyword .printWord =>
      let _ ← Parse.advance
      printStatement (expression n)
    | .keyword .returnWord => returnStatement (expression n)
    | .symbol .leftBrace =>
      let _ ← Parse.advance
      .block <$> block (declaration n inLoop) n
    | _ => expressionStatement (expression n)

def declaration : (bound : Nat) → (inLoop : Bool) → Counted (Option Stmt)
  | 0, _ => exhausted
  | n + 1, inLoop => recovering do
    if ← Parse.atFunctionDeclaration then
      let _ ← Parse.advance
      let name ← Parse.expect Token.isIdentifier "Expect function name."
      let (names, body) ← function (declaration n false) n "function name"
      return .function name names body
    else if ← Parse.accept (·.isKeyword .varWord) then varDeclaration (expression n)
    else statement n inLoop

end

/-- Read a whole program. -/
def program (bound : Nat) : Counted (List Stmt) :=
  declarations (declaration bound false) (fun _ => false) bound

/-! ## §4. Counting reads the same. -/

/-- **A reader that counts does what a reader without a count does,** and leaves
the depth as it found it, whatever the outcome is. -/
def Counts (d : Nat) (q : Counted α) (p : Parse α) : Prop := ∀ c, q d c = (p c, d)

namespace Counts

variable {d : Nat} {q q' : Counted α} {p p' : Parse α}

theorem pure (a : α) : Counts d (Pure.pure a) (Pure.pure a) := fun _ => rfl

theorem lift (p : Parse α) : Counts d (liftM p) p := fun _ => rfl

theorem exhausted : Counts d (Counted.exhausted : Counted α) Parse.exhausted := fun _ => rfl

/-- **One reader after the other.** -/
theorem bind {g : α → Counted β} {f : α → Parse β} (h : Counts d q p)
    (hf : ∀ a, Counts d (g a) (f a)) : Counts d (q >>= g) (p >>= f) := by
  intro c
  show Counted.bind q g d c = (Parse.bind p f c, d)
  unfold Counted.bind Parse.bind
  rw [h c]
  cases p c with
  | ok a c' => exact hf a c'
  | stuck fault c' => rfl
  | broken text c' => rfl
  | exhausted => rfl

theorem map (f : α → β) (h : Counts d q p) : Counts d (f <$> q) (f <$> p) :=
  h.bind fun a => pure (f a)

theorem ite {holds : Prop} [Decidable holds] (h : Counts d q p) (h' : Counts d q' p') :
    Counts d (if holds then q else q') (if holds then p else p') := by
  by_cases hh : holds
  · rw [if_pos hh, if_pos hh]
    exact h
  · rw [if_neg hh, if_neg hh]
    exact h'

/-- The number is looked at. -/
theorem depth {g : Nat → Counted α} (h : Counts d (g d) p) :
    Counts d (Counted.depth >>= g) p := h

/-- **The number goes up and down again.** -/
theorem deeper (h : Counts (d + 1) q p) : Counts d (Counted.deeper q) p := by
  intro c
  unfold Counted.deeper
  rw [h c]
  rfl

theorem recovering (h : Counts d q p) : Counts d (Counted.recovering q) (Parse.recovering p) := by
  intro c
  unfold Counted.recovering
  rw [h c]
  rfl

theorem unlessAt (absent : Token → Bool) (h : Counts d q p) :
    Counts d (Counted.unlessAt absent q) (Parse.unlessAt absent p) :=
  (lift _).bind fun _ => ite (pure none) (h.map some)

theorem afterMark (mark : Token → Bool) (h : Counts d q p) :
    Counts d (Counted.afterMark mark q) (Parse.afterMark mark p) :=
  (lift _).bind fun _ => ite (h.map some) (pure none)

theorem listUnlessAt (absent : Token → Bool) {q : Counted (List α)} {p : Parse (List α)}
    (h : Counts d q p) :
    Counts d (Counted.listUnlessAt absent q) (Parse.listUnlessAt absent p) :=
  (lift _).bind fun _ => ite (pure []) h

end Counts

section Productions

variable {d : Nat} {e : Counted Expr} {e' : Parse Expr} {s : Counted Stmt} {s' : Parse Stmt}
  {declare : Counted (Option Stmt)} {declare' : Parse (Option Stmt)}

theorem chain_counts (he : Counts d e e') (l : Level) (n : Nat) (left : Expr) :
    Counts d (chain l e n left) (Parse.chain l e' n left) := by
  induction n generalizing left with
  | zero => exact .exhausted
  | succ n ih =>
    refine (Counts.lift _).bind fun _ => .ite ?_ (.pure left)
    exact (Counts.lift _).bind fun _ => he.bind fun _ => ih _

theorem ladder_counts (he : Counts d e e') (n : Nat) (levels : List Level) :
    Counts d (ladder e n levels) (Parse.ladder e' n levels) := by
  induction levels with
  | nil => exact he
  | cons l tighter ih => exact ih.bind fun left => chain_counts ih l n left

theorem separated_counts {q : Counted α} {p : Parse α} (h : Counts d q p) (excess : SyntaxCause)
    (n count : Nat) :
    Counts d (separated q excess n count) (Parse.separated p excess n count) := by
  induction n generalizing count with
  | zero => exact .exhausted
  | succ n ih =>
    refine (Counts.lift _).bind fun _ => h.bind fun first => ?_
    refine (Counts.lift _).bind fun _ => .ite ?_ (.pure [first])
    exact (ih (count + 1)).bind fun others => .pure (first :: others)

theorem arguments_counts (he : Counts d e e') (n : Nat) :
    Counts d (arguments e n) (Parse.arguments e' n) :=
  (separated_counts he _ n 0).listUnlessAt _

theorem calls_counts (he : Counts d e e') (n : Nat) (callee : Expr) :
    Counts d (calls e n callee) (Parse.calls e' n callee) := by
  induction n generalizing callee with
  | zero => exact .exhausted
  | succ n ih =>
    refine (Counts.lift _).bind fun _ => .ite ?_ (.pure callee)
    exact (arguments_counts he n).bind fun _ => (Counts.lift _).bind fun _ => ih _

theorem declarations_counts (hd : Counts d declare declare') (stop : Token → Bool) (n : Nat) :
    Counts d (declarations declare stop n) (Parse.declarations declare' stop n) := by
  induction n with
  | zero => exact .exhausted
  | succ n ih =>
    refine (Counts.lift _).bind fun _ => .ite ?_ (.pure [])
    exact hd.bind fun _ => ih.bind fun _ => .pure _

theorem block_counts (hd : Counts d declare declare') (n : Nat) :
    Counts d (block declare n) (Parse.block declare' n) :=
  (declarations_counts hd _ n).bind fun body => (Counts.lift _).bind fun _ => .pure body

/-- The declarations of a body are read at the next depth. -/
theorem function_counts (hd : Counts (d + 1) declare declare') (n : Nat) (after : String) :
    Counts d (function declare n after) (Parse.function declare' n after) := by
  refine (Counts.lift _).bind fun _ => (Counts.lift _).bind fun names => ?_
  refine (Counts.lift _).bind fun _ => (Counts.lift _).bind fun _ => ?_
  exact (block_counts hd n).deeper.bind fun body => .pure (names, body)

theorem varDeclaration_counts (he : Counts d e e') :
    Counts d (varDeclaration e) (Parse.varDeclaration e') :=
  (Counts.lift _).bind fun _ => (he.afterMark _).bind fun _ => (Counts.lift _).bind fun _ =>
    .pure _

theorem expressionStatement_counts (he : Counts d e e') :
    Counts d (expressionStatement e) (Parse.expressionStatement e') :=
  he.bind fun _ => (Counts.lift _).bind fun _ => .pure _

theorem printStatement_counts (he : Counts d e e') :
    Counts d (printStatement e) (Parse.printStatement e') :=
  he.bind fun _ => (Counts.lift _).bind fun _ => .pure _

/-- A statement is in a function if the number is not zero. -/
theorem returnStatement_counts (he : Counts d e e') :
    Counts d (returnStatement e) (Parse.returnStatement (0 < d) e') := by
  refine (Counts.lift _).bind fun _ => .depth ?_
  refine (Counts.lift _).bind fun _ => (he.unlessAt _).bind fun _ => ?_
  exact (Counts.lift _).bind fun _ => .pure _

theorem branchStatement_counts (he : Counts d e e') (hs : Counts d s s') :
    Counts d (branchStatement e s) (Parse.branchStatement e' s') := by
  refine (Counts.lift _).bind fun _ => he.bind fun _ => (Counts.lift _).bind fun _ => ?_
  exact hs.bind fun _ => (hs.afterMark _).bind fun _ => .pure _

theorem whileStatement_counts (he : Counts d e e') (hs : Counts d s s') :
    Counts d (whileStatement e s) (Parse.whileStatement e' s') := by
  refine (Counts.lift _).bind fun _ => he.bind fun _ => (Counts.lift _).bind fun _ => ?_
  exact hs.bind fun _ => .pure _

theorem firstClause_counts (he : Counts d e e') :
    Counts d (firstClause e) (Parse.firstClause e') := by
  refine (Counts.lift _).bind fun _ => .ite (.pure none) ?_
  refine (Counts.lift _).bind fun _ => .ite ?_ ?_
  · exact (varDeclaration_counts he).map some
  · exact (expressionStatement_counts he).map some

theorem forStatement_counts (he : Counts d e e') (hs : Counts d s s') :
    Counts d (forStatement e s) (Parse.forStatement e' s') := by
  refine (Counts.lift _).bind fun _ => (firstClause_counts he).bind fun _ => ?_
  refine (he.unlessAt _).bind fun _ => (Counts.lift _).bind fun _ => ?_
  refine (he.unlessAt _).bind fun _ => (Counts.lift _).bind fun _ => ?_
  exact hs.bind fun _ => .pure _

end Productions

/-! ## §5. Every reader counts right. -/

/-- The context that a reader at a depth is told. -/
def context (inLoop : Bool) (d : Nat) : Context := ⟨inLoop, 0 < d⟩

/-- The readers that refer to themselves, with one bound, at one depth. -/
structure Readers (n d : Nat) : Prop where
  expression : Counts d (expression n) (Parse.expression n)
  unary : Counts d (unary n) (Parse.unary n)
  primary : Counts d (primary n) (Parse.primary n)
  statement : ∀ inLoop, Counts d (statement n inLoop) (Parse.statement n (context inLoop d))
  declaration : ∀ inLoop, Counts d (declaration n inLoop) (Parse.declaration n (context inLoop d))

namespace Readers

variable {n d : Nat}

theorem step_expression (ih : Readers n d) :
    Counts d (Counted.expression (n + 1)) (Parse.expression (n + 1)) := by
  rw [Counted.expression, Parse.expression]
  refine (ladder_counts ih.unary n _).bind fun left => ?_
  refine (Counts.lift _).bind fun _ => .ite ?_ (.pure left)
  refine (Counts.lift _).bind fun equals => ih.expression.bind fun value => ?_
  cases left.target? with
  | some target => exact .pure _
  | none => exact (Counts.lift _).bind fun _ => .pure left

theorem step_unary (ih : Readers n d) :
    Counts d (Counted.unary (n + 1)) (Parse.unary (n + 1)) := by
  rw [Counted.unary, Parse.unary]
  refine (Counts.lift _).bind fun _ => .ite ?_ ?_
  · exact (Counts.lift _).bind fun _ => ih.unary.bind fun _ => .pure _
  · exact ih.primary.bind fun callee => calls_counts ih.expression n callee

/-- The body of a function is outside of all loops and one function deeper. -/
theorem function_body (ih : Readers n (d + 1)) (after : String) :
    Counts d (Counted.function (Counted.declaration n false) n after)
      (Parse.function (Parse.declaration n .ofFunction) n after) :=
  function_counts (ih.declaration false) n after

theorem step_primary (ih : ∀ d, Readers n d) :
    Counts d (Counted.primary (n + 1)) (Parse.primary (n + 1)) := by
  rw [Counted.primary, Parse.primary]
  refine (Counts.lift _).bind fun t => .ite ?_ (.ite ?_ (.ite ?_ ?_))
  · exact (Counts.lift _).bind fun _ => .lift _
  · exact (Counts.lift _).bind fun _ => (ih d).expression.bind fun _ => (Counts.lift _).bind
      fun _ => .pure _
  · refine (Counts.lift _).bind fun _ => (Counts.lift _).bind fun name => ?_
    exact ((ih (d + 1)).function_body _).bind fun _ => .pure _
  · exact .lift _

theorem step_statement (ih : Readers n d) (inLoop : Bool) :
    Counts d (Counted.statement (n + 1) inLoop)
      (Parse.statement (n + 1) (context inLoop d)) := by
  rw [Counted.statement, Parse.statement]
  have hexpression := expressionStatement_counts ih.expression
  refine (Counts.lift _).bind fun t => ?_
  cases t.kind with
  | keyword k =>
    cases k with
    | breakWord | continueWord => exact .lift _
    | forWord =>
      exact (Counts.lift _).bind fun _ => forStatement_counts ih.expression (ih.statement true)
    | ifWord =>
      exact (Counts.lift _).bind fun _ =>
        branchStatement_counts ih.expression (ih.statement inLoop)
    | whileWord =>
      exact (Counts.lift _).bind fun _ => whileStatement_counts ih.expression (ih.statement true)
    | printWord => exact (Counts.lift _).bind fun _ => printStatement_counts ih.expression
    | returnWord => exact returnStatement_counts ih.expression
    | _ => exact hexpression
  | symbol s =>
    cases s with
    | leftBrace =>
      exact (Counts.lift _).bind fun _ => (block_counts (ih.declaration inLoop) n).map _
    | _ => exact hexpression
  | _ => exact hexpression

theorem step_declaration (ih : ∀ d, Readers n d) (inLoop : Bool) :
    Counts d (Counted.declaration (n + 1) inLoop)
      (Parse.declaration (n + 1) (context inLoop d)) := by
  rw [Counted.declaration, Parse.declaration]
  refine .recovering ((Counts.lift _).bind fun _ => .ite ?_ ?_)
  · refine (Counts.lift _).bind fun _ => (Counts.lift _).bind fun name => ?_
    exact ((ih (d + 1)).function_body _).bind fun _ => .pure _
  · refine (Counts.lift _).bind fun _ => .ite ?_ ?_
    · exact varDeclaration_counts (ih d).expression
    · exact (ih d).statement inLoop

end Readers

/-- **Every reader counts right,** at every bound and every depth. -/
theorem readers (n d : Nat) : Readers n d := by
  induction n generalizing d with
  | zero =>
    constructor
    · rw [expression, Parse.expression]
      exact .exhausted
    · rw [unary, Parse.unary]
      exact .exhausted
    · rw [primary, Parse.primary]
      exact .exhausted
    · intro inLoop
      rw [statement, Parse.statement]
      exact .exhausted
    · intro inLoop
      rw [declaration, Parse.declaration]
      exact .exhausted
  | succ n ih =>
    exact ⟨(ih d).step_expression, (ih d).step_unary, Readers.step_primary ih,
      (ih d).step_statement, Readers.step_declaration ih⟩

/-- **Every reader leaves the depth as it found it,** with a value and at a fault:
those that refer to themselves, and the productions made of them. -/
structure Balanced (n d : Nat) : Prop extends Readers n d where
  ladder : ∀ levels, Counts d (ladder (Counted.unary n) n levels)
    (Parse.ladder (Parse.unary n) n levels)
  arguments : Counts d (arguments (Counted.expression n) n)
    (Parse.arguments (Parse.expression n) n)
  calls : ∀ callee, Counts d (calls (Counted.expression n) n callee)
    (Parse.calls (Parse.expression n) n callee)
  block : ∀ inLoop, Counts d (block (Counted.declaration n inLoop) n)
    (Parse.block (Parse.declaration n (context inLoop d)) n)
  function : ∀ after, Counts d (function (Counted.declaration n false) n after)
    (Parse.function (Parse.declaration n .ofFunction) n after)
  varDeclaration : Counts d (varDeclaration (Counted.expression n))
    (Parse.varDeclaration (Parse.expression n))
  expressionStatement : Counts d (expressionStatement (Counted.expression n))
    (Parse.expressionStatement (Parse.expression n))
  printStatement : Counts d (printStatement (Counted.expression n))
    (Parse.printStatement (Parse.expression n))
  returnStatement : Counts d (returnStatement (Counted.expression n))
    (Parse.returnStatement (0 < d) (Parse.expression n))
  branchStatement : ∀ inLoop,
    Counts d (branchStatement (Counted.expression n) (Counted.statement n inLoop))
      (Parse.branchStatement (Parse.expression n) (Parse.statement n (context inLoop d)))
  whileStatement : Counts d (whileStatement (Counted.expression n) (Counted.statement n true))
    (Parse.whileStatement (Parse.expression n) (Parse.statement n (context true d)))
  forStatement : Counts d (forStatement (Counted.expression n) (Counted.statement n true))
    (Parse.forStatement (Parse.expression n) (Parse.statement n (context true d)))

theorem balanced (n d : Nat) : Balanced n d :=
  have here := readers n d
  { here with
    ladder := ladder_counts here.unary n
    arguments := arguments_counts here.expression n
    calls := calls_counts here.expression n
    block := fun inLoop => block_counts (here.declaration inLoop) n
    function := (readers n (d + 1)).function_body
    varDeclaration := varDeclaration_counts here.expression
    expressionStatement := expressionStatement_counts here.expression
    printStatement := printStatement_counts here.expression
    returnStatement := returnStatement_counts here.expression
    branchStatement := fun inLoop => branchStatement_counts here.expression (here.statement inLoop)
    whileStatement := whileStatement_counts here.expression (here.statement true)
    forStatement := forStatement_counts here.expression (here.statement true) }

/-- A program is read outside of all functions. -/
theorem program_counts (n : Nat) : Counts 0 (program n) (Parse.program n) :=
  declarations_counts ((readers n 0).declaration false) _ n

end Counted

/-- **What is read is well formed, and the depth is never out of step.** Every
list of tokens, faulty or not, is read to its end, and the statements that come
out are well formed.  Reading with a count of functions gives the same, ends
outside of all functions, and none of its readers ends at another depth than the
one it began at. -/
theorem every_reading_is_well_formed (tokens : List Token) :
    (∃ c, readProgram tokens = .ok (parse tokens).statements c) ∧
      Stmt.AllWellFormed .top (parse tokens).statements ∧
      Counted.program (readingBound tokens) 0 (Cursor.start tokens) = (readProgram tokens, 0) ∧
      ∀ n d, Counted.Balanced n d := by
  obtain ⟨ss, c, hread⟩ := readProgram_ok tokens
  have hparse : (parse tokens).statements = ss := by
    unfold parse
    rw [hread]
    rfl
  refine ⟨⟨c, ?_⟩, parse_wellFormed tokens, Counted.program_counts _ _, Counted.balanced⟩
  rw [hparse]
  exact hread

end Lox
