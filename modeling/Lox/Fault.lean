/-
  Lox.Fault
  ────────────────────────────────
  **WHAT CAN BE WRONG WITH A PROGRAM.**

  Three kinds of faults: text that is no token, tokens that are no program, and
  programs that go wrong while they run.  Each has a cause and a place.  The
  wording of a fault is kept as the list of chunks in which it is written, fixed
  words and inserted values apart: a channel that stops accepting text stops
  between two chunks.
-/
import Lox.Token

namespace Lox

/-! ## §1. Faults of the text. -/

/-- Why a piece of text is no token. -/
inductive ScanCause where
  /-- A block comment without an end. -/
  | unterminatedComment
  /-- A character that begins no token. -/
  | unexpectedCharacter (c : Char)
  /-- A string without a closing quote. -/
  | unterminatedString
  deriving Repr, DecidableEq

/-- A fault of the text and the line it is on. -/
structure ScanFault where
  line : Nat
  cause : ScanCause
  deriving Repr, DecidableEq

/-- The wording of a cause. -/
def ScanCause.chunks : ScanCause → List String
  | unterminatedComment => ["Unterminated block comment."]
  | unexpectedCharacter c => ["Unexpected character '", String.ofList [c], "'."]
  | unterminatedString => ["Unterminated string."]

/-- The wording of a fault of the text. -/
def ScanFault.chunks (f : ScanFault) : List String :=
  ["[line ", toString f.line, "] Error: "] ++ f.cause.chunks

/-! ## §2. Faults of the grammar. -/

/-- Why a run of tokens is no program. -/
inductive SyntaxCause where
  /-- No expression begins here. -/
  | expectedExpression
  /-- A required token is missing; the text says which. -/
  | expected (text : String)
  /-- Only a name can be assigned to. -/
  | invalidAssignmentTarget
  /-- A function has too many parameters. -/
  | tooManyParameters (limit : Nat)
  /-- A call has too many arguments. -/
  | tooManyArguments (limit : Nat)
  /-- `break` or `continue` outside of a loop. -/
  | outsideLoop (word : String)
  /-- `return` outside of a function. -/
  | topLevelReturn
  /-- The right side of a pipe does not use the left side. -/
  | missingPlaceholder
  deriving Repr, DecidableEq

/-- Where a fault of the grammar was found. -/
inductive Place where
  /-- At the end of the input. -/
  | atEnd
  /-- At a token with this text. -/
  | atToken (lexeme : String)
  deriving Repr, DecidableEq

/-- A fault of the grammar, its line and its place. -/
structure SyntaxFault where
  line : Nat
  place : Place
  cause : SyntaxCause
  deriving Repr, DecidableEq

/-- A fault found at a token. -/
def SyntaxFault.at (t : Token) (cause : SyntaxCause) : SyntaxFault where
  line := t.line
  place := if t.isEnd then .atEnd else .atToken t.lexeme
  cause := cause

/-- The wording of a cause. -/
def SyntaxCause.chunks : SyntaxCause → List String
  | expectedExpression => ["Expect expression."]
  | expected text => [text]
  | invalidAssignmentTarget => ["Invalid assignment target."]
  | tooManyParameters limit => ["Can't have more than ", toString limit, " parameters."]
  | tooManyArguments limit => ["Can't have more than ", toString limit, " arguments."]
  | outsideLoop word => ["Can't use '", word, "' outside of a loop."]
  | topLevelReturn => ["Can't return from top-level code."]
  | missingPlaceholder =>
    ["Right-hand side of '|>' must contain at least one '$' placeholder."]

/-- The wording of a place. -/
def Place.text : Place → String
  | atEnd => " at end"
  | atToken lexeme => " at '" ++ lexeme ++ "'"

/-- The wording of a fault of the grammar. -/
def SyntaxFault.chunks (f : SyntaxFault) : List String :=
  ["[line ", toString f.line, "] Error", f.place.text, ": "] ++ f.cause.chunks

/-! ## §3. Faults of a running program. -/

/-- Why a program cannot go on. -/
inductive RuntimeCause where
  /-- The operand of a sign is not a number. -/
  | operandMustBeNumber
  /-- An operand of arithmetic or of a comparison is not a number. -/
  | operandsMustBeNumbers
  /-- The operands of `+` are neither two numbers nor two strings. -/
  | invalidAddition
  /-- No frame in scope binds the name. -/
  | undefinedVariable (name : String)
  /-- What is called is not callable. -/
  | notCallable
  /-- A call with the wrong number of arguments. -/
  | arityMismatch (expected got : Nat)
  /-- A complaint of a host function. -/
  | native (text : String)
  deriving Repr, DecidableEq

/-- A fault of a running program and the line it is on. -/
structure RuntimeFault where
  line : Nat
  cause : RuntimeCause
  deriving Repr, DecidableEq

/-- The wording of a cause. -/
def RuntimeCause.chunks : RuntimeCause → List String
  | operandMustBeNumber => ["Operand must be a number."]
  | operandsMustBeNumbers => ["Operands must be numbers."]
  | invalidAddition => ["Operands must be two numbers or two strings."]
  | undefinedVariable name => ["Undefined variable '", name, "'."]
  | notCallable => ["Can only call functions and classes."]
  | arityMismatch expected got =>
    ["Expected ", toString expected, " arguments but got ", toString got, "."]
  | native text => [text]

/-- The wording of a fault of a running program: its cause, then its line. -/
def RuntimeFault.chunks (f : RuntimeFault) : List String :=
  f.cause.chunks ++ ["\n[line ", toString f.line, "]"]

/-- The text of a fault of a running program. -/
def RuntimeFault.text (f : RuntimeFault) : String := String.join f.chunks

/-! ## §4. Runs that break off. -/

/-- Why a run breaks off. -/
inductive Failure where
  /-- The program went wrong. -/
  | runtime (fault : RuntimeFault)
  /-- The host went wrong: a channel is broken, or a tree is none that reading
  a program gives. -/
  | host (text : String)
  deriving Repr, DecidableEq

/-- The text of a failure. -/
def Failure.text : Failure → String
  | runtime fault => fault.text
  | host text => text

/-- A failure of the program at a token. -/
def Failure.at (t : Token) (cause : RuntimeCause) : Failure := .runtime ⟨t.line, cause⟩

/-- The failure for want of a frame that binds a name. -/
def Failure.undefined (name : Token) : Failure := .at name (.undefinedVariable name.lexeme)

/-- Move a failure of the program to another line. -/
def Failure.relocate (line : Nat) : Failure → Failure
  | runtime fault => .runtime { fault with line := line }
  | host text => .host text

end Lox
