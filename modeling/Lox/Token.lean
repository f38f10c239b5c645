/-
  Lox.Token
  ────────────────────────────────
  **THE WORDS OF A PROGRAM.**

  A token is a kind together with the text it was read from and the line on
  which that text ends.  Punctuation and reserved words are kinds of their own
  with a fixed text; identifiers, strings and numbers vary, and the last two
  carry their value.  Blanks, line ends and comments are kinds too, which a
  scan leaves out.
-/
import Lox.Number.Text
import Lox.Text.Quoted

namespace Lox

/-! ## §1. Punctuation. -/

/-- The punctuation and operators of the language. -/
inductive Symbol where
  | leftParen | rightParen | leftBrace | rightBrace
  | comma | dot | minus | plus | semicolon | slash | star
  | bang | bangEqual | equal | equalEqual
  | greater | greaterEqual | less | lessEqual
  /-- The pipe `|>`. -/
  | pipe
  /-- The placeholder `$` of a pipe. -/
  | dollar
  deriving Repr, DecidableEq

namespace Symbol

/-- The text of a symbol. -/
def text : Symbol → String
  | leftParen => "("
  | rightParen => ")"
  | leftBrace => "\x7b"
  | rightBrace => "\x7d"
  | comma => ","
  | dot => "."
  | minus => "-"
  | plus => "+"
  | semicolon => ";"
  | slash => "/"
  | star => "*"
  | bang => "!"
  | bangEqual => "!="
  | equal => "="
  | equalEqual => "=="
  | greater => ">"
  | greaterEqual => ">="
  | less => "<"
  | lessEqual => "<="
  | pipe => "|>"
  | dollar => "$"

/-- The name under which a symbol is listed. -/
def name : Symbol → String
  | leftParen => "LeftParen"
  | rightParen => "RightParen"
  | leftBrace => "LeftBrace"
  | rightBrace => "RightBrace"
  | comma => "Comma"
  | dot => "Dot"
  | minus => "Minus"
  | plus => "Plus"
  | semicolon => "Semicolon"
  | slash => "Slash"
  | star => "Star"
  | bang => "Bang"
  | bangEqual => "BangEqual"
  | equal => "Equal"
  | equalEqual => "EqualEqual"
  | greater => "Greater"
  | greaterEqual => "GreaterEqual"
  | less => "Less"
  | lessEqual => "LessEqual"
  | pipe => "PipeGreater"
  | dollar => "Dollar"

/-- Every symbol. -/
def all : List Symbol :=
  [leftParen, rightParen, leftBrace, rightBrace, comma, dot, minus, plus, semicolon, slash, star,
   bang, bangEqual, equal, equalEqual, greater, greaterEqual, less, lessEqual, pipe, dollar]

end Symbol

/-! ## §2. Reserved words. -/

/-- The reserved words of the language. `class`, `super` and `this` are
reserved and begin no construct. -/
inductive Keyword where
  | andWord | breakWord | classWord | continueWord | elseWord | falseWord
  | forWord | funWord | ifWord | nilWord | orWord | printWord
  | returnWord | superWord | thisWord | trueWord | varWord | whileWord
  deriving Repr, DecidableEq

namespace Keyword

/-- The text of a reserved word. -/
def text : Keyword → String
  | andWord => "and"
  | breakWord => "break"
  | classWord => "class"
  | continueWord => "continue"
  | elseWord => "else"
  | falseWord => "false"
  | forWord => "for"
  | funWord => "fun"
  | ifWord => "if"
  | nilWord => "nil"
  | orWord => "or"
  | printWord => "print"
  | returnWord => "return"
  | superWord => "super"
  | thisWord => "this"
  | trueWord => "true"
  | varWord => "var"
  | whileWord => "while"

/-- The name under which a reserved word is listed. -/
def name : Keyword → String
  | andWord => "And"
  | breakWord => "Break"
  | classWord => "Class"
  | continueWord => "Continue"
  | elseWord => "Else"
  | falseWord => "False"
  | forWord => "For"
  | funWord => "Fun"
  | ifWord => "If"
  | nilWord => "Nil"
  | orWord => "Or"
  | printWord => "Print"
  | returnWord => "Return"
  | superWord => "Super"
  | thisWord => "This"
  | trueWord => "True"
  | varWord => "Var"
  | whileWord => "While"

/-- Every reserved word. -/
def all : List Keyword :=
  [andWord, breakWord, classWord, continueWord, elseWord, falseWord, forWord, funWord, ifWord,
   nilWord, orWord, printWord, returnWord, superWord, thisWord, trueWord, varWord, whileWord]

/-- The reserved word with this text, if there is one. -/
def ofText? (s : String) : Option Keyword := all.find? (·.text = s)

/-- Every reserved word is known by its text. -/
theorem ofText?_text (k : Keyword) : ofText? k.text = some k := by
  cases k <;> decide

/-- Whether a word begins a statement or a declaration; reading resumes before
such a word after a syntax error. -/
def startsStatement : Keyword → Bool
  | classWord | funWord | varWord | forWord | ifWord | whileWord | printWord | returnWord => true
  | _ => false

end Keyword

/-! ## §3. Tokens. -/

/-- The kinds of tokens. -/
inductive TokenKind where
  /-- Punctuation or an operator. -/
  | symbol (s : Symbol)
  /-- A reserved word. -/
  | keyword (k : Keyword)
  /-- A name. -/
  | identifier
  /-- A string literal with its value. -/
  | string (value : String)
  /-- A number literal with its value. -/
  | number (value : Float)
  /-- A space, a tab or a carriage return. -/
  | blank
  /-- A line end. -/
  | newLine
  /-- A comment. -/
  | comment
  /-- The end of the input. -/
  | endOfInput
  deriving Repr

namespace TokenKind

/-- The name under which a kind is listed, without its value. -/
def name : TokenKind → String
  | symbol s => s.name
  | keyword k => k.name
  | identifier => "Identifier"
  | string _ => "StringLiteral"
  | number _ => "NumberLiteral"
  | blank => "EmptyChar"
  | newLine => "NewLine"
  | comment => "Comment"
  | endOfInput => "Eof"

/-- The kinds that carry no value. -/
def plain : List TokenKind :=
  Symbol.all.map symbol ++ Keyword.all.map keyword ++
    [identifier, blank, newLine, comment, endOfInput]

/-- The kind without a value that is listed under this name, if there is one. -/
def ofName? (s : String) : Option TokenKind := plain.find? (·.name = s)

/-- The kind as inspection shows it: its name, with its value if it has one. -/
def inspect : TokenKind → String
  | string value => "StringLiteral(" ++ Text.quoted value ++ ")"
  | number value => "NumberLiteral(" ++ Number.exactText value ++ ")"
  | kind => kind.name

/-- Whether a kind only separates other tokens. -/
def isIgnored : TokenKind → Bool
  | blank | newLine | comment => true
  | _ => false

/-- Whether two kinds are the same. Numbers are compared by value, so a number
that is not equal to itself is not the same kind as itself. -/
def same : TokenKind → TokenKind → Bool
  | symbol s, symbol t => s = t
  | keyword k, keyword l => k = l
  | identifier, identifier => true
  | string v, string w => v = w
  | number v, number w => v == w
  | blank, blank => true
  | newLine, newLine => true
  | comment, comment => true
  | endOfInput, endOfInput => true
  | _, _ => false

end TokenKind

/-- A token: its kind, the text it was read from, and the line on which that
text ends. -/
structure Token where
  kind : TokenKind
  lexeme : String
  line : Nat
  deriving Repr

namespace Token

/-- Whether a token is this symbol. -/
def isSymbol (s : Symbol) (t : Token) : Bool :=
  match t.kind with
  | .symbol u => u = s
  | _ => false

/-- Whether a token is this reserved word. -/
def isKeyword (k : Keyword) (t : Token) : Bool :=
  match t.kind with
  | .keyword l => l = k
  | _ => false

/-- Whether a token is a name. -/
def isIdentifier (t : Token) : Bool :=
  match t.kind with
  | .identifier => true
  | _ => false

/-- Whether a token marks the end of the input. -/
def isEnd (t : Token) : Bool :=
  match t.kind with
  | .endOfInput => true
  | _ => false

/-- Whether a token begins a statement. -/
def startsStatement (t : Token) : Bool :=
  match t.kind with
  | .keyword k => k.startsStatement
  | _ => false

/-- Whether two tokens agree in kind, text and line. -/
def same (t u : Token) : Bool :=
  t.kind.same u.kind && t.lexeme = u.lexeme && t.line = u.line

/-- A token as a listing shows it. -/
def listing (t : Token) : String :=
  t.kind.inspect ++ " " ++ t.lexeme ++ " (line " ++ toString t.line ++ ")"

/-- A token as inspection shows it. -/
def inspect (t : Token) : String :=
  "Token \x7b type: " ++ t.kind.inspect ++ ", lexeme: " ++ Text.quoted t.lexeme ++
    ", line: " ++ toString t.line ++ " \x7d"

end Token

end Lox
