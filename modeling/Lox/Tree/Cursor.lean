/-
  Lox.Tree.Cursor
  ────────────────────────────────
  **READING TOKENS ONE BY ONE.**

  A cursor is what is left to read, the token for the end, and the faults found
  so far.  A reader of type `Parse α` moves the cursor and either gives a value
  or gets stuck at a fault; stuck readers are picked up again by `recovering`,
  which notes the fault and skips to where a statement may begin.  A reader that
  breaks off is not picked up.  Readers that repeat something have a bound on
  their repetitions, and running into it is an outcome of its own.
-/
import Lox.Fault
import Lox.Tree

namespace Lox

/-! ## §1. Cursors and readers. -/

/-- The position of a reader in the tokens. -/
structure Cursor where
  /-- The tokens not yet read, up to the end. -/
  rest : List Token
  /-- The token for the end. -/
  finish : Token
  /-- The faults found so far, the first one first. -/
  faults : List SyntaxFault

/-- The cursor before some tokens. The first token for the end is the end; if
there is none, the end is on the line of the last token. -/
def Cursor.start (tokens : List Token) : Cursor where
  rest := tokens.takeWhile (!·.isEnd)
  finish := (tokens.find? Token.isEnd).getD
    ⟨.endOfInput, "", (tokens.getLast?.map Token.line).getD 1⟩
  faults := []

/-- The token at a cursor. -/
def Cursor.peek (c : Cursor) : Token := c.rest.head?.getD c.finish

/-- How a reader ends. -/
inductive Step (α : Type) where
  /-- With a value. -/
  | ok (value : α) (cursor : Cursor)
  /-- At a fault that it cannot get over. -/
  | stuck (fault : SyntaxFault) (cursor : Cursor)
  /-- With a failure of its own, for which the tokens are not to blame. -/
  | broken (text : String) (cursor : Cursor)
  /-- At the bound on its repetitions. -/
  | exhausted

/-- A reader of tokens. -/
def Parse (α : Type) : Type := Cursor → Step α

namespace Parse

variable {α β : Type}

@[always_inline, inline]
protected def pure (a : α) : Parse α := fun c => .ok a c

/-- One reader after the other; a reader that gets stuck is the last one. -/
@[always_inline, inline]
protected def bind (p : Parse α) (f : α → Parse β) : Parse β := fun c =>
  match p c with
  | .ok a c' => f a c'
  | .stuck fault c' => .stuck fault c'
  | .broken text c' => .broken text c'
  | .exhausted => .exhausted

@[always_inline]
instance : Monad Parse where
  pure := Parse.pure
  bind := Parse.bind

/-! ## §2. Looking and moving. -/

/-- The token at the cursor. -/
@[inline] def peek : Parse Token := fun c => .ok c.peek c

/-- Read one token. At the end this is the token for the end, again and again. -/
@[inline] def advance : Parse Token := fun c => .ok c.peek { c with rest := c.rest.tail }

/-- Whether the token at the cursor is as wanted. -/
@[inline] def check (wanted : Token → Bool) : Parse Bool := fun c =>
  .ok (c.rest.head?.any wanted) c

/-- Read the token at the cursor if it is as wanted. -/
def accept (wanted : Token → Bool) : Parse Bool := do
  if ← check wanted then
    let _ ← advance
    return true
  else return false

/-- Note a fault at a token and go on. -/
def report (t : Token) (cause : SyntaxCause) : Parse Unit := fun c =>
  .ok () { c with faults := c.faults ++ [.at t cause] }

/-- Get stuck at a token. -/
def fail (t : Token) (cause : SyntaxCause) : Parse α := fun c => .stuck (.at t cause) c

/-- Break off. -/
def abort (text : String) : Parse α := fun c => .broken text c

/-- Get stuck at a token unless something holds. -/
def require (holds : Bool) (t : Token) (cause : SyntaxCause) : Parse Unit :=
  if holds then pure () else fail t cause

/-- Read the token at the cursor, which has to be as wanted. -/
def expect (wanted : Token → Bool) (complaint : String) : Parse Token := do
  if ← check wanted then advance
  else fail (← peek) (.expected complaint)

/-- Read something, unless the token at the cursor says that there is nothing. -/
def unlessAt (absent : Token → Bool) (p : Parse α) : Parse (Option α) := do
  if ← check absent then return none else some <$> p

/-- Read something if a mark announces it. -/
def afterMark (mark : Token → Bool) (p : Parse α) : Parse (Option α) := do
  if ← accept mark then some <$> p else return none

/-- Read a list, unless the token at the cursor says that it is empty. -/
def listUnlessAt (absent : Token → Bool) (p : Parse (List α)) : Parse (List α) := do
  if ← check absent then return [] else p

/-- The bound on repetitions is reached. -/
def exhausted : Parse α := fun _ => .exhausted

/-! ## §3. Recovery. -/

/-- What is left once the tokens after `last` have been skipped up to the next
place where a statement may begin: after a semicolon, or before a word that
begins a statement. -/
def skipAfter (last : Token) : List Token → List Token
  | [] => []
  | t :: rest =>
    if last.isSymbol .semicolon || t.startsStatement then t :: rest else skipAfter t rest

/-- Skip at least one token, up to the next place where a statement may begin. -/
def skipToStatement : List Token → List Token
  | [] => []
  | t :: rest => skipAfter t rest

/-- Read, and get over a fault: note it and skip to the next statement. -/
def recovering (p : Parse α) : Parse (Option α) := fun c =>
  match p c with
  | .ok a c' => .ok (some a) c'
  | .stuck fault c' =>
    .ok none { c' with rest := skipToStatement c'.rest, faults := c'.faults ++ [fault] }
  -- Only faults of the tokens are got over.
  | .broken text c' => .broken text c'
  | .exhausted => .exhausted

end Parse

end Lox
