/-
  Lox.Channel
  ────────────────────────────────
  **WHERE TEXT GOES, AND WHEN IT NO LONGER CAN.**

  A channel takes text chunk by chunk.  It may be limited to a number of lines:
  once it has taken that many line ends, every further chunk is refused, so a
  text may break off between two of its chunks.  It may also fail when it is
  flushed.
-/

namespace Lox

/-- A channel for text. -/
structure Channel where
  /-- What it has taken and nobody has collected yet. -/
  text : String
  /-- How many line ends it has taken in all. -/
  lines : Nat
  /-- How many line ends it takes, if there is a limit. -/
  limit : Option Nat
  /-- Whether it cannot be flushed. -/
  flushFails : Bool
  deriving Repr

namespace Channel

/-- A channel that never fails. -/
def unlimited : Channel := ⟨"", 0, none, false⟩

/-- Whether a channel refuses text. -/
def isFull (c : Channel) : Bool := c.limit.any (· ≤ c.lines)

/-- Whether a channel takes a chunk; an empty one is never refused. -/
def takes (c : Channel) (chunk : String) : Bool := chunk.isEmpty || !c.isFull

/-- A channel after it has taken a chunk. -/
def append (c : Channel) (chunk : String) : Channel :=
  { c with text := c.text ++ chunk, lines := c.lines + chunk.toList.count '\n' }

/-- Write chunks one after the other, as far as they are taken, and say whether
all of them were. -/
def writeAll (c : Channel) : List String → Bool × Channel
  | [] => (true, c)
  | chunk :: rest => if c.takes chunk then (c.append chunk).writeAll rest else (false, c)

/-- A channel without a limit takes everything. -/
theorem writeAll_of_no_limit {c : Channel} (h : c.limit = none) (chunks : List String) :
    (c.writeAll chunks).1 = true := by
  induction chunks generalizing c with
  | nil => rfl
  | cons chunk rest ih =>
    have takes : c.takes chunk = true := by simp [takes, isFull, h]
    rw [writeAll, if_pos takes]
    exact ih h

/-- Write chunks and a line end. -/
def writeLine (c : Channel) (chunks : List String) : Bool × Channel :=
  c.writeAll (chunks ++ ["\n"])

/-- Collect what a channel has taken. -/
def collect (c : Channel) : String × Channel := (c.text, { c with text := "" })

end Channel

end Lox
