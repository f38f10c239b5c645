/-
  Lox.Proofs.Grammar.Indexed
  ────────────────────────────────
  **READING BY INDEX.**

  A cursor holds the tokens that are ahead, so there is always one to look at.  A
  reader may as well hold all of the tokens and the index of the next one.  Then
  the index has to stay among the tokens, and looking where there is no token is
  an outcome of its own, which no reader gets over.

  `Indexed α` is a reader of this kind, and §3 and §4 give the whole grammar in
  this form.  The index is moved in two places only: `advance` goes on by one
  token, but not past one for the end, and `resume` skips to where a statement
  may begin.
-/
import Lox.Tree.Parse

namespace Lox

open Parse (Context)

/-! ## §1. Tokens and positions. -/

/-- The tokens with one for the end behind them, unless the last one is one. -/
def terminated (tokens : List Token) : List Token :=
  if tokens.getLast?.any Token.isEnd then tokens
  else tokens ++ [⟨.endOfInput, "", (tokens.getLast?.map Token.line).getD 1⟩]

/-- The index of the first token for the end. -/
def endIndex (tokens : List Token) : Nat := tokens.findIdx Token.isEnd

/-- The tokens up to the first one for the end, and this one. -/
def upToEnd (tokens : List Token) : List Token := tokens.take (endIndex tokens + 1)

/-- The position of a reader that has all of the tokens. -/
structure Position where
  /-- The index of the next token. -/
  index : Nat
  /-- The faults found so far, the first one first. -/
  faults : List SyntaxFault

/-- How a reader by index ends. -/
inductive Reached (α : Type) where
  /-- With a value. -/
  | ok (value : α) (position : Position)
  /-- At a fault that it cannot get over. -/
  | stuck (fault : SyntaxFault) (position : Position)
  /-- With a failure of its own, for which the tokens are not to blame. -/
  | broken (text : String) (position : Position)
  /-- At the bound on its repetitions. -/
  | exhausted
  /-- At an index at which there is no token to look at. -/
  | outside

/-- A reader that has all of the tokens and the index of the next one. -/
def Indexed (α : Type) : Type := (tokens : List Token) → Position → Reached α

namespace Indexed

variable {α β : Type}

protected def pure (a : α) : Indexed α := fun _ p => .ok a p

/-- One reader after the other; a reader that gets stuck is the last one. -/
protected def bind (q : Indexed α) (g : α → Indexed β) : Indexed β := fun v p =>
  match q v p with
  | .ok a p' => g a v p'
  | .stuck fault p' => .stuck fault p'
  | .broken text p' => .broken text p'
  | .exhausted => .exhausted
  | .outside => .outside

instance : Monad Indexed where
  pure := Indexed.pure
  bind := Indexed.bind

/-! ## §2. Looking, moving and recovery. -/

/-- The token at the index, which has to be there. -/
def peek : Indexed Token := fun v p =>
  match v[p.index]? with
  | some t => .ok t p
  | none => .outside

/-- Whether the token at the index is one for the end. -/
def atEnd : Indexed Bool := Token.isEnd <$> peek

/-- Go on to the next index, whatever is there. -/
def move : Indexed Unit := fun _ p => .ok () { p with index := p.index + 1 }

/-- Read one token. The index stays at a token for the end. -/
def advance : Indexed Token := do
  let t ← peek
  -- There may be tokens behind the end, but none of them is ever read.
  if ← atEnd then return t
  else
    move
    return t

/-- Whether the token at the index is as wanted. -/
def check (wanted : Token → Bool) : Indexed Bool := do
  if ← atEnd then return false else return wanted (← peek)

/-- Whether there is a token at the next index, and it is as wanted. -/
def checkNext (wanted : Token → Bool) : Indexed Bool := fun v p =>
  .ok (v[p.index + 1]?.any wanted) p

def accept (wanted : Token → Bool) : Indexed Bool := do
  if ← check wanted then
    let _ ← advance
    return true
  else return false

/-- Note a fault and go on. -/
def note (fault : SyntaxFault) : Indexed Unit := fun _ p =>
  .ok () { p with faults := p.faults ++ [fault] }

def report (t : Token) (cause : SyntaxCause) : Indexed Unit := note (.at t cause)

def fail (t : Token) (cause : SyntaxCause) : Indexed α := fun _ p => .stuck (.at t cause) p

def abort (text : String) : Indexed α := fun _ p => .broken text p

def exhausted : Indexed α := fun _ _ => .exhausted

def require (holds : Bool) (t : Token) (cause : SyntaxCause) : Indexed Unit :=
  if holds then pure () else fail t cause

def expect (wanted : Token → Bool) (complaint : String) : Indexed Token := do
  if ← check wanted then advance
  else fail (← peek) (.expected complaint)

def unlessAt (absent : Token → Bool) (q : Indexed α) : Indexed (Option α) := do
  if ← check absent then return none else some <$> q

def afterMark (mark : Token → Bool) (q : Indexed α) : Indexed (Option α) := do
  if ← accept mark then some <$> q else return none

def listUnlessAt (absent : Token → Bool) (q : Indexed (List α)) : Indexed (List α) := do
  if ← check absent then return [] else q

/-- The token before an index. -/
def previous (v : List Token) : Nat → Option Token
  | 0 => none
  | i + 1 => v[i]?

/-- The first index from `i` on at which a statement may begin: after a semicolon,
at a word that begins a statement, or at the end. There is none if the tokens
run out before. -/
def resumption (v : List Token) (i : Nat) : Option Nat :=
  if h : i < v.length then
    -- The token before is the last one that has been skipped.
    if v[i].isEnd || (previous v i).any (·.isSymbol .semicolon) || v[i].startsStatement then some i
    else resumption v (i + 1)
  else none
termination_by v.length - i

/-- Go on to the next place where a statement may begin. -/
def resume : Indexed Unit := fun v p =>
  match resumption v p.index with
  | some i => .ok () { p with index := i }
  | none => .outside

/-- Skip at least one token, up to the next place where a statement may begin. -/
def synchronize : Indexed Unit := do
  let _ ← advance
  resume

/-- Read, and get over a fault: note it and skip to the next statement. -/
def recovering (q : Indexed α) : Indexed (Option α) := fun v p =>
  match q v p with
  | .ok a p' => .ok (some a) p'
  | .stuck fault p' => (do note fault; synchronize; return none : Indexed (Option α)) v p'
  -- A look at no token is not a fault of the tokens, and nothing gets over it.
  | .broken text p' => .broken text p'
  | .exhausted => .exhausted
  | .outside => .outside

/-! ## §3. The productions of the grammar. -/

def chain (l : Level) (operand : Indexed Expr) : (bound : Nat) → (left : Expr) → Indexed Expr
  | 0, _ => exhausted
  | n + 1, left => do
    if l.accepts (← peek) then
      let operator ← advance
      let right ← operand
      chain l operand n (l.join left operator right)
    else return left

def ladder (operand : Indexed Expr) (bound : Nat) : List Level → Indexed Expr
  | [] => operand
  | l :: tighter => do
    let left ← ladder operand bound tighter
    chain l (ladder operand bound tighter) bound left

def noteExcess (count : Nat) (cause : SyntaxCause) : Indexed Unit := do
  if Parse.maxArity ≤ count then report (← peek) cause

def separated (item : Indexed α) (excess : SyntaxCause) : (bound count : Nat) → Indexed (List α)
  | 0, _ => exhausted
  | n + 1, count => do
    noteExcess count excess
    let first ← item
    if ← accept (·.isSymbol .comma) then
      return first :: (← separated item excess n (count + 1))
    else return [first]

def arguments (expression : Indexed Expr) (bound : Nat) : Indexed (List Expr) :=
  listUnlessAt (·.isSymbol .rightParen)
    (separated expression (.tooManyArguments Parse.maxArity) bound 0)

def calls (expression : Indexed Expr) : (bound : Nat) → (callee : Expr) → Indexed Expr
  | 0, _ => exhausted
  | n + 1, callee => do
    if ← accept (·.isSymbol .leftParen) then
      let given ← arguments expression n
      let paren ← expect (·.isSymbol .rightParen) "Expect ')' after arguments."
      calls expression n (.call callee paren given)
    else return callee

def parameters (bound : Nat) : Indexed (List Token) :=
  listUnlessAt (·.isSymbol .rightParen)
    (separated (expect Token.isIdentifier "Expect parameter name.")
      (.tooManyParameters Parse.maxArity) bound 0)

/-- Read declarations until the end or a token at which to stop. -/
def declarations (declaration : Indexed (Option Stmt)) (stop : Token → Bool) :
    (bound : Nat) → Indexed (List Stmt)
  | 0 => exhausted
  | n + 1 => do
    if ← check (!stop ·) then
      let first ← declaration
      let others ← declarations declaration stop n
      return first.toList ++ others
    else return []

def block (declaration : Indexed (Option Stmt)) (bound : Nat) : Indexed (List Stmt) := do
  let body ← declarations declaration (·.isSymbol .rightBrace) bound
  let _ ← expect (·.isSymbol .rightBrace) "Expect '\x7d' after block."
  return body

def function (declaration : Indexed (Option Stmt)) (bound : Nat) (after : String) :
    Indexed (List Token × List Stmt) := do
  let _ ← expect (·.isSymbol .leftParen) ("Expect '(' after " ++ after ++ ".")
  let names ← parameters bound
  let _ ← expect (·.isSymbol .rightParen) "Expect ')' after parameters."
  let _ ← expect (·.isSymbol .leftBrace) "Expect '\x7b' before function body."
  return (names, ← block declaration bound)

def varDeclaration (expression : Indexed Expr) : Indexed Stmt := do
  let name ← expect Token.isIdentifier "Expect variable name."
  let initial ← afterMark (·.isSymbol .equal) expression
  let _ ← expect (·.isSymbol .semicolon) "Expect ';' after variable declaration."
  return .var name initial

def expressionStatement (expression : Indexed Expr) : Indexed Stmt := do
  let value ← expression
  let _ ← expect (·.isSymbol .semicolon) "Expect ';' after expression."
  return .expr value

def printStatement (expression : Indexed Expr) : Indexed Stmt := do
  let value ← expression
  let _ ← expect (·.isSymbol .semicolon) "Expect ';' after value."
  return .print value

def jumpStatement (inLoop : Bool) : Indexed Stmt := do
  let keyword ← advance
  require inLoop keyword (.outsideLoop keyword.lexeme)
  let _ ← expect (·.isSymbol .semicolon) ("Expect ';' after '" ++ keyword.lexeme ++ "'.")
  return if keyword.isKeyword .breakWord then .leave keyword else .next keyword

def returnStatement (inFunction : Bool) (expression : Indexed Expr) : Indexed Stmt := do
  let keyword ← advance
  require inFunction keyword .topLevelReturn
  let value ← unlessAt (·.isSymbol .semicolon) expression
  let _ ← expect (·.isSymbol .semicolon) "Expect ';' after return value."
  return .give keyword value

def branchStatement (expression : Indexed Expr) (statement : Indexed Stmt) : Indexed Stmt := do
  let _ ← expect (·.isSymbol .leftParen) "Expect '(' after 'if'."
  let condition ← expression
  let _ ← expect (·.isSymbol .rightParen) "Expect ')' after if condition."
  let yes ← statement
  let no ← afterMark (·.isKeyword .elseWord) statement
  return .branch condition yes no

def whileStatement (expression : Indexed Expr) (body : Indexed Stmt) : Indexed Stmt := do
  let _ ← expect (·.isSymbol .leftParen) "Expect '(' after 'while'."
  let condition ← expression
  let _ ← expect (·.isSymbol .rightParen) "Expect ')' after condition."
  return .loop condition (← body) false

def firstClause (expression : Indexed Expr) : Indexed (Option Stmt) := do
  if ← accept (·.isSymbol .semicolon) then return none
  else if ← accept (·.isKeyword .varWord) then some <$> varDeclaration expression
  else some <$> expressionStatement expression

def forStatement (expression : Indexed Expr) (body : Indexed Stmt) : Indexed Stmt := do
  let _ ← expect (·.isSymbol .leftParen) "Expect '(' after 'for'."
  let first ← firstClause expression
  let condition ← unlessAt (·.isSymbol .semicolon) expression
  let _ ← expect (·.isSymbol .semicolon) "Expect ';' after loop condition."
  let step ← unlessAt (·.isSymbol .rightParen) expression
  let _ ← expect (·.isSymbol .rightParen) "Expect ')' after for clauses."
  return Parse.lowerFor first condition step (← body)

/-! ## §4. The readers that refer to themselves. -/

/-- Whether the tokens at the index begin the declaration of a function. The one
behind the first is looked at only if the first is not the end. -/
def atFunctionDeclaration : Indexed Bool := do
  if ← check (·.isKeyword .funWord) then checkNext Token.isIdentifier else return false

def ownName : Indexed (Option Token) := do
  if ← check Token.isIdentifier then some <$> advance else return none

def atom (t : Token) : Indexed Expr :=
  match Expr.ofToken? t with
  | some e => pure e
  | none => abort (Expr.refusal t)

mutual

def expression : (bound : Nat) → Indexed Expr
  | 0 => exhausted
  | n + 1 => do
    let left ← ladder (unary n) n Level.all
    if (← peek).isSymbol .equal then
      let equals ← advance
      let value ← expression n
      match left.target? with
      | some target => return .assign target value
      | none =>
        report equals .invalidAssignmentTarget
        return left
    else return left

def unary : (bound : Nat) → Indexed Expr
  | 0 => exhausted
  | n + 1 => do
    let t ← peek
    if t.isSymbol .bang || t.isSymbol .minus then
      let operator ← advance
      return .unary operator (← unary n)
    else calls (expression n) n (← primary n)

def primary : (bound : Nat) → Indexed Expr
  | 0 => exhausted
  | n + 1 => do
    let t ← peek
    if t.isAtom then atom (← advance)
    else if t.isSymbol .leftParen then
      let _ ← advance
      let inner ← expression n
      let _ ← expect (·.isSymbol .rightParen) "Expect ')' after expression."
      return .group inner
    else if t.isKeyword .funWord then
      let _ ← advance
      let name ← ownName
      let (names, body) ← function (declaration n .ofFunction) n
        (if name.isSome then "function name" else "'fun'")
      return .function name names body
    else fail t .expectedExpression

def statement : (bound : Nat) → Context → Indexed Stmt
  | 0, _ => exhausted
  | n + 1, ctx => do
    match (← peek).kind with
    | .keyword .breakWord | .keyword .continueWord => jumpStatement ctx.inLoop
    | .keyword .forWord =>
      let _ ← advance
      forStatement (expression n) (statement n ctx.ofLoop)
    | .keyword .ifWord =>
      let _ ← advance
      branchStatement (expression n) (statement n ctx)
    | .keyword .whileWord =>
      let _ ← advance
      whileStatement (expression n) (statement n ctx.ofLoop)
    | .keyword .printWord =>
      let _ ← advance
      printStatement (expression n)
    | .keyword .returnWord => returnStatement ctx.inFunction (expression n)
    | .symbol .leftBrace =>
      let _ ← advance
      .block <$> block (declaration n ctx) n
    | _ => expressionStatement (expression n)

/-- Read a declaration, and get over a fault in it. -/
def declaration : (bound : Nat) → Context → Indexed (Option Stmt)
  | 0, _ => exhausted
  | n + 1, ctx => recovering do
    if ← atFunctionDeclaration then
      let _ ← advance
      let name ← expect Token.isIdentifier "Expect function name."
      let (names, body) ← function (declaration n .ofFunction) n "function name"
      return .function name names body
    else if ← accept (·.isKeyword .varWord) then varDeclaration (expression n)
    else statement n ctx

end

/-- Read a whole program. -/
def program (bound : Nat) : Indexed (List Stmt) :=
  declarations (declaration bound .top) (fun _ => false) bound

/-- A reader that gives a value hands it on. -/
theorem bind_ok {q : Indexed α} {g : α → Indexed β} {v : List Token} {p p' : Position} {a : α}
    (h : q v p = .ok a p') : (q >>= g) v p = g a v p' := by
  show Indexed.bind q g v p = g a v p'
  unfold Indexed.bind
  rw [h]

/-- One step of skipping. -/
theorem resumption_eq {v : List Token} {i : Nat} {t : Token} (h : v[i]? = some t) :
    resumption v i =
      if t.isEnd || (previous v i).any (·.isSymbol .semicolon) || t.startsStatement then some i
      else resumption v (i + 1) := by
  obtain ⟨hlt, rfl⟩ := List.getElem?_eq_some_iff.1 h
  rw [resumption, dif_pos hlt]

end Indexed

end Lox
