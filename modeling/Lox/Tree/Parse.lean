/-
  Lox.Tree.Parse
  ────────────────────────────────
  **FROM TOKENS TO TREES.**

      program     → declaration*
      declaration → "fun" IDENT function | "var" IDENT ( "=" expression )? ";"
                  | statement
      function    → "(" ( IDENT ( "," IDENT )* )? ")" block
      statement   → "print" expression ";" | block | "if" … | "while" … | "for" …
                  | "return" expression? ";" | "break" ";" | "continue" ";"
                  | expression ";"
      expression  → IDENT "=" expression | ladder
      ladder      → or, and, |>, equality, comparison, sum, product: each a chain
                    of operands of the next level, grouped to the left
      unary       → ( "!" | "-" ) unary | primary ( "(" arguments? ")" )*
      primary     → literal | IDENT | "$" | "(" expression ")" | "fun" IDENT? function

  Each production is a reader that takes the readers of its parts; the five
  readers that refer to themselves are tied together at the end.  Their bound
  drops with every level of nesting, and a chain or list may be as long as the
  bound of the level it is on, so the bound taken from the number of tokens is
  never reached.
-/
import Lox.Tree.Cursor
import Lox.Tree.Draft

namespace Lox

/-! ## §1. Chains of operators. -/

/-- The levels of binary operators. -/
inductive Level where
  | disjunction | conjunction | piping | equality | comparison | sum | product
  deriving Repr, DecidableEq

namespace Level

/-- The levels, the loosest one first. -/
def all : List Level :=
  [disjunction, conjunction, piping, equality, comparison, sum, product]

/-- Whether a token is an operator of a level. -/
def accepts (l : Level) (t : Token) : Bool :=
  match l, t.kind with
  | disjunction, .keyword .orWord => true
  | conjunction, .keyword .andWord => true
  | piping, .symbol .pipe => true
  | equality, .symbol .bangEqual | equality, .symbol .equalEqual => true
  | comparison, .symbol .greater | comparison, .symbol .greaterEqual
  | comparison, .symbol .less | comparison, .symbol .lessEqual => true
  | sum, .symbol .minus | sum, .symbol .plus => true
  | product, .symbol .slash | product, .symbol .star => true
  | _, _ => false

/-- The tree of an operator of a level. -/
def join : Level → Expr → Token → Expr → Expr
  | disjunction | conjunction => .logical
  | piping => .pipe
  | _ => .binary

end Level

namespace Parse

/-- Read further operands of a chain whose first part is `left`. -/
def chain (l : Level) (operand : Parse Expr) : (bound : Nat) → (left : Expr) → Parse Expr
  | 0, _ => exhausted
  | n + 1, left => do
    if l.accepts (← peek) then
      let operator ← advance
      let right ← operand
      chain l operand n (l.join left operator right)
    else return left

/-- Read an expression of the first of some levels, each made of operands of
the next one. -/
def ladder (operand : Parse Expr) (bound : Nat) : List Level → Parse Expr
  | [] => operand
  | l :: tighter => do
    let left ← ladder operand bound tighter
    chain l (ladder operand bound tighter) bound left

/-! ## §2. Calls and functions. -/

/-- The most parameters or arguments a function can have. -/
def maxArity : Nat := 255

/-- Note that there are more than the most, if `count` have been read before. -/
def noteExcess (count : Nat) (cause : SyntaxCause) : Parse Unit := do
  if maxArity ≤ count then report (← peek) cause

/-- Read items with commas between them; `count` have been read before. -/
def separated {α : Type} (item : Parse α) (excess : SyntaxCause) :
    (bound count : Nat) → Parse (List α)
  | 0, _ => exhausted
  | n + 1, count => do
    -- Too many items are noted one by one, and all of them are read.
    noteExcess count excess
    let first ← item
    if ← accept (·.isSymbol .comma) then
      return first :: (← separated item excess n (count + 1))
    else return [first]

/-- Read the arguments of a call, up to the closing parenthesis. -/
def arguments (expression : Parse Expr) (bound : Nat) : Parse (List Expr) :=
  listUnlessAt (·.isSymbol .rightParen)
    (separated expression (.tooManyArguments maxArity) bound 0)

/-- Read the calls that follow a callee. -/
def calls (expression : Parse Expr) : (bound : Nat) → (callee : Expr) → Parse Expr
  | 0, _ => exhausted
  | n + 1, callee => do
    if ← accept (·.isSymbol .leftParen) then
      let given ← arguments expression n
      let paren ← expect (·.isSymbol .rightParen) "Expect ')' after arguments."
      calls expression n (.call callee paren given)
    else return callee

/-- Read the parameters of a function, up to the closing parenthesis. -/
def parameters (bound : Nat) : Parse (List Token) :=
  listUnlessAt (·.isSymbol .rightParen)
    (separated (expect Token.isIdentifier "Expect parameter name.")
      (.tooManyParameters maxArity) bound 0)

/-- Read declarations until the end or a token at which to stop. Those with a
fault in them are left out. -/
def declarations (declaration : Parse (Option Stmt)) (stop : Token → Bool) :
    (bound : Nat) → Parse (List Stmt)
  | 0 => exhausted
  | n + 1 => do
    if ← check (!stop ·) then
      let first ← declaration
      let others ← declarations declaration stop n
      return first.toList ++ others
    else return []

/-- Read the declarations of a block and the brace that closes it. -/
def block (declaration : Parse (Option Stmt)) (bound : Nat) : Parse (List Stmt) := do
  let body ← declarations declaration (·.isSymbol .rightBrace) bound
  let _ ← expect (·.isSymbol .rightBrace) "Expect '\x7d' after block."
  return body

/-- Read the parameters and the body of a function. -/
def function (declaration : Parse (Option Stmt)) (bound : Nat) (after : String) :
    Parse (List Token × List Stmt) := do
  let _ ← expect (·.isSymbol .leftParen) ("Expect '(' after " ++ after ++ ".")
  let names ← parameters bound
  let _ ← expect (·.isSymbol .rightParen) "Expect ')' after parameters."
  let _ ← expect (·.isSymbol .leftBrace) "Expect '\x7b' before function body."
  return (names, ← block declaration bound)

/-! ## §3. Statements. -/

/-- Read the rest of a variable declaration. -/
def varDeclaration (expression : Parse Expr) : Parse Stmt := do
  let name ← expect Token.isIdentifier "Expect variable name."
  let initial ← afterMark (·.isSymbol .equal) expression
  let _ ← expect (·.isSymbol .semicolon) "Expect ';' after variable declaration."
  return .var name initial

/-- Read an expression and its semicolon. -/
def expressionStatement (expression : Parse Expr) : Parse Stmt := do
  let value ← expression
  let _ ← expect (·.isSymbol .semicolon) "Expect ';' after expression."
  return .expr value

/-- Read the rest of a print statement. -/
def printStatement (expression : Parse Expr) : Parse Stmt := do
  let value ← expression
  let _ ← expect (·.isSymbol .semicolon) "Expect ';' after value."
  return .print value

/-- Read a `break` or a `continue`. -/
def jumpStatement (inLoop : Bool) : Parse Stmt := do
  let keyword ← advance
  -- The keyword has been read, so a recovery begins behind it.
  require inLoop keyword (.outsideLoop keyword.lexeme)
  let _ ← expect (·.isSymbol .semicolon) ("Expect ';' after '" ++ keyword.lexeme ++ "'.")
  return if keyword.isKeyword .breakWord then .leave keyword else .next keyword

/-- Read a return statement. -/
def returnStatement (inFunction : Bool) (expression : Parse Expr) : Parse Stmt := do
  let keyword ← advance
  require inFunction keyword .topLevelReturn
  let value ← unlessAt (·.isSymbol .semicolon) expression
  let _ ← expect (·.isSymbol .semicolon) "Expect ';' after return value."
  return .give keyword value

/-- Read the rest of a conditional statement. -/
def branchStatement (expression : Parse Expr) (statement : Parse Stmt) : Parse Stmt := do
  let _ ← expect (·.isSymbol .leftParen) "Expect '(' after 'if'."
  let condition ← expression
  let _ ← expect (·.isSymbol .rightParen) "Expect ')' after if condition."
  let yes ← statement
  let no ← afterMark (·.isKeyword .elseWord) statement
  return .branch condition yes no

/-- Read the rest of a `while` loop. -/
def whileStatement (expression : Parse Expr) (body : Parse Stmt) : Parse Stmt := do
  let _ ← expect (·.isSymbol .leftParen) "Expect '(' after 'while'."
  let condition ← expression
  let _ ← expect (·.isSymbol .rightParen) "Expect ')' after condition."
  return .loop condition (← body) false

/-- The tree of a `for` loop: the first statement, then a loop whose body is
followed by the step. -/
def lowerFor (first : Option Stmt) (condition step : Option Expr) (body : Stmt) : Stmt :=
  let round := match step with
    | some value => .block [body, .expr value]
    | none => body
  let loop := .loop (condition.getD (.literal (.bool true))) round step.isSome
  match first with
  | some start => .block [start, loop]
  | none => loop

/-- Read the first clause of a `for` loop and the semicolon that ends it. -/
def firstClause (expression : Parse Expr) : Parse (Option Stmt) := do
  if ← accept (·.isSymbol .semicolon) then return none
  -- A `var` is looked for only if the clause is not empty.
  else if ← accept (·.isKeyword .varWord) then some <$> varDeclaration expression
  else some <$> expressionStatement expression

/-- Read the rest of a `for` loop. -/
def forStatement (expression : Parse Expr) (body : Parse Stmt) : Parse Stmt := do
  let _ ← expect (·.isSymbol .leftParen) "Expect '(' after 'for'."
  let first ← firstClause expression
  let condition ← unlessAt (·.isSymbol .semicolon) expression
  let _ ← expect (·.isSymbol .semicolon) "Expect ';' after loop condition."
  let step ← unlessAt (·.isSymbol .rightParen) expression
  let _ ← expect (·.isSymbol .rightParen) "Expect ')' after for clauses."
  return lowerFor first condition step (← body)

/-- Where a statement stands. -/
structure Context where
  /-- In the body of a loop of the same function. -/
  inLoop : Bool
  /-- In the body of a function. -/
  inFunction : Bool
  deriving Repr, DecidableEq

/-- Outside of all loops and functions. -/
def Context.top : Context := ⟨false, false⟩

/-- In the body of a function. -/
def Context.ofFunction : Context := ⟨false, true⟩

/-- In the body of a loop. -/
def Context.ofLoop (c : Context) : Context := { c with inLoop := true }

/-! ## §4. The readers that refer to themselves. -/

/-- Whether the tokens at the cursor begin the declaration of a function. -/
def atFunctionDeclaration : Parse Bool := fun c =>
  .ok (match c.rest with
    | t :: u :: _ => t.isKeyword .funWord && u.isIdentifier
    | _ => false) c

/-- Read the name of a function expression, if it has one. -/
def ownName : Parse (Option Token) := do
  if ← check Token.isIdentifier then some <$> advance else return none

/-- The expression of a token that has been read as one. -/
def atom (t : Token) : Parse Expr :=
  match Expr.ofToken? t with
  | some e => pure e
  | none => abort (Expr.refusal t)

mutual

/-- Read an expression. -/
def expression : (bound : Nat) → Parse Expr
  | 0 => exhausted
  | n + 1 => do
    let left ← ladder (unary n) n Level.all
    if (← peek).isSymbol .equal then
      let equals ← advance
      -- The value is read before the target is judged, so its faults come first.
      let value ← expression n
      match left.target? with
      | some target => return .assign target value
      | none =>
        report equals .invalidAssignmentTarget
        return left
    else return left

/-- Read the operand of a binary operator. -/
def unary : (bound : Nat) → Parse Expr
  | 0 => exhausted
  | n + 1 => do
    let t ← peek
    if t.isSymbol .bang || t.isSymbol .minus then
      let operator ← advance
      return .unary operator (← unary n)
    else calls (expression n) n (← primary n)

/-- Read the innermost part of an expression. -/
def primary : (bound : Nat) → Parse Expr
  | 0 => exhausted
  | n + 1 => do
    let t ← peek
    if t.isAtom then atom (← advance)
    else if t.isSymbol .leftParen then
      let _ ← advance
      let inner ← expression n
      let _ ← expect (·.isSymbol .rightParen) "Expect ')' after expression."
      return .group inner
    else if t.isKeyword .funWord then
      let _ ← advance
      let name ← ownName
      let (names, body) ← function (declaration n .ofFunction) n
        (if name.isSome then "function name" else "'fun'")
      return .function name names body
    else fail t .expectedExpression

/-- Read a statement. -/
def statement : (bound : Nat) → Context → Parse Stmt
  | 0, _ => exhausted
  | n + 1, ctx => do
    match (← peek).kind with
    | .keyword .breakWord | .keyword .continueWord => jumpStatement ctx.inLoop
    | .keyword .forWord =>
      let _ ← advance
      forStatement (expression n) (statement n ctx.ofLoop)
    | .keyword .ifWord =>
      let _ ← advance
      branchStatement (expression n) (statement n ctx)
    | .keyword .whileWord =>
      let _ ← advance
      whileStatement (expression n) (statement n ctx.ofLoop)
    | .keyword .printWord =>
      let _ ← advance
      printStatement (expression n)
    | .keyword .returnWord => returnStatement ctx.inFunction (expression n)
    | .symbol .leftBrace =>
      let _ ← advance
      .block <$> block (declaration n ctx) n
    | _ => expressionStatement (expression n)

/-- Read a declaration, and get over a fault in it. -/
def declaration : (bound : Nat) → Context → Parse (Option Stmt)
  | 0, _ => exhausted
  | n + 1, ctx => recovering do
    -- Without a name, `fun` begins an expression statement.
    if ← atFunctionDeclaration then
      let _ ← advance
      let name ← expect Token.isIdentifier "Expect function name."
      let (names, body) ← function (declaration n .ofFunction) n "function name"
      return .function name names body
    else if ← accept (·.isKeyword .varWord) then varDeclaration (expression n)
    else statement n ctx

end

/-! ## §5. Programs. -/

/-- Read a whole program. -/
def program (bound : Nat) : Parse (List Stmt) :=
  declarations (declaration bound .top) (fun _ => false) bound

end Parse

/-- A bound on repetitions and nesting that no list of tokens reaches. -/
def readingBound (tokens : List Token) : Nat := 16 * (tokens.length + 1)

/-- Read a program from its tokens, and say how that ends. -/
def readProgram (tokens : List Token) : Step (List Stmt) :=
  Parse.program (readingBound tokens) (Cursor.start tokens)

/-- The draft that reading a program leaves behind. -/
def Step.draft : Step (List Stmt) → Draft
  | .ok statements c => ⟨statements, c.faults⟩
  | .stuck fault c => ⟨[], c.faults ++ [fault]⟩
  | .broken _ c => ⟨[], c.faults⟩
  | .exhausted => ⟨[], []⟩

/-- **The draft of a program from its tokens.** Only the tokens before the first
end count; a declaration with a fault in it is left out of the draft. -/
def parse (tokens : List Token) : Draft := (readProgram tokens).draft

end Lox
