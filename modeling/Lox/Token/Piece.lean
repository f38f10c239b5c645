/-
  Lox.Token.Piece
  ────────────────────────────────
  **CUTTING A TEXT INTO PIECES.**

  `cut` takes the first piece off a text that begins with a given character:
  the longest token that starts there, a blank, a comment, or a stretch that is
  no token.  Nothing is lost on the way: the piece followed by what is left is
  the text again (`text_append_rest`), and a piece is never empty, which is why
  cutting a whole text comes to an end.
-/
import Lox.Fault

namespace Lox

/-! ## §1. Character classes. -/

/-- The symbols of one character that begin no longer token. -/
def Symbol.single? (c : Char) : Option Symbol :=
  match c with
  | '(' => some .leftParen
  | ')' => some .rightParen
  | '\x7b' => some .leftBrace
  | '\x7d' => some .rightBrace
  | ',' => some .comma
  | '.' => some .dot
  | '-' => some .minus
  | '+' => some .plus
  | ';' => some .semicolon
  | '*' => some .star
  | '$' => some .dollar
  | _ => none

/-- The symbols that a following `=` makes longer: alone and with it. -/
def Symbol.extensible? (c : Char) : Option (Symbol × Symbol) :=
  match c with
  | '!' => some (.bang, .bangEqual)
  | '=' => some (.equal, .equalEqual)
  | '<' => some (.less, .lessEqual)
  | '>' => some (.greater, .greaterEqual)
  | _ => none

/-- The characters that separate tokens on one line. -/
def isBlankChar (c : Char) : Bool := c = ' ' || c = '\r' || c = '\t'

/-- The characters that begin a word: an ASCII letter or an underscore. -/
def isWordStart (c : Char) : Bool := c.isAlpha || c = '_'

/-- The characters that continue a word. -/
def isWordChar (c : Char) : Bool := c.isAlphanum || c = '_'

/-! ## §2. Pieces. -/

/-- What a piece of a text is. -/
inductive Shape where
  /-- A token, possibly one that is left out of a scan. -/
  | token (kind : TokenKind)
  /-- A stretch that is no token. -/
  | fault (cause : ScanCause)
  deriving Repr

/-- The first piece of a text and what is left after it. -/
structure Cut where
  shape : Shape
  text : List Char
  rest : List Char
  deriving Repr

namespace Cut

/-- The kind of a word: reserved, or a name. -/
def wordKind (text : List Char) : TokenKind :=
  match Keyword.ofText? (String.ofList text) with
  | some k => .keyword k
  | none => .identifier

/-- A word: its first character and all word characters that follow. -/
def word (c : Char) (cs : List Char) : Cut :=
  let text := c :: cs.takeWhile isWordChar
  ⟨.token (wordKind text), text, cs.dropWhile isWordChar⟩

/-- A number: digits, and a point with more digits if digits follow the point. -/
def number (c : Char) (cs : List Char) : Cut :=
  let whole := c :: cs.takeWhile Char.isDigit
  match cs.dropWhile Char.isDigit with
  | '.' :: d :: rest =>
    if d.isDigit then
      let fraction := d :: rest.takeWhile Char.isDigit
      ⟨.token (.number (Number.ofDecimal whole fraction)), whole ++ '.' :: fraction,
        rest.dropWhile Char.isDigit⟩
    else ⟨.token (.number (Number.ofDecimal whole [])), whole, '.' :: d :: rest⟩
  | rest => ⟨.token (.number (Number.ofDecimal whole [])), whole, rest⟩

/-- A string: everything up to the next quote. -/
def string (cs : List Char) : Cut :=
  let body := cs.takeWhile (· ≠ '"')
  match cs.dropWhile (· ≠ '"') with
  | [] => ⟨.fault .unterminatedString, '"' :: body, []⟩
  | quote :: rest => ⟨.token (.string (String.ofList body)), '"' :: body ++ [quote], rest⟩

/-- The text up to and with the first `*/`, and what follows; all of the text
if there is none. -/
def throughClose : List Char → Bool × List Char × List Char
  | [] => (false, [], [])
  | '*' :: '/' :: rest => (true, ['*', '/'], rest)
  | c :: cs =>
    let (closed, text, rest) := throughClose cs
    (closed, c :: text, rest)

/-- A slash, or a comment that it begins. -/
def slash (cs : List Char) : Cut :=
  match cs with
  | '/' :: _ => ⟨.token .comment, '/' :: cs.takeWhile (· ≠ '\n'), cs.dropWhile (· ≠ '\n')⟩
  | '*' :: after =>
    let (closed, text, rest) := throughClose after
    ⟨if closed then .token .comment else .fault .unterminatedComment, '/' :: '*' :: text, rest⟩
  | _ => ⟨.token (.symbol .slash), ['/'], cs⟩

/-- A pipe, or a bar that begins none. -/
def bar (cs : List Char) : Cut :=
  match cs with
  | '>' :: rest => ⟨.token (.symbol .pipe), ['|', '>'], rest⟩
  | _ => ⟨.fault (.unexpectedCharacter '|'), ['|'], cs⟩

/-- A symbol that a following `=` makes longer. -/
def extensible (c : Char) (short long : Symbol) (cs : List Char) : Cut :=
  match cs with
  | '=' :: rest => ⟨.token (.symbol long), [c, '='], rest⟩
  | _ => ⟨.token (.symbol short), [c], cs⟩

/-- A piece of one character. -/
def single (c : Char) (shape : Shape) (cs : List Char) : Cut := ⟨shape, [c], cs⟩

end Cut

/-- **The first piece** of the text that begins with `c` and goes on with `cs`. -/
def cut (c : Char) (cs : List Char) : Cut :=
  match Symbol.single? c, Symbol.extensible? c with
  | some s, _ => .single c (.token (.symbol s)) cs
  | none, some (short, long) => .extensible c short long cs
  | none, none =>
    if c = '|' then .bar cs
    else if c = '/' then .slash cs
    else if c = '"' then .string cs
    else if c = '\n' then .single c (.token .newLine) cs
    else if isBlankChar c then .single c (.token .blank) cs
    else if c.isDigit then .number c cs
    else if isWordStart c then .word c cs
    else .single c (.fault (.unexpectedCharacter c)) cs

/-! ## §3. Nothing is lost. -/

namespace Cut

/-- The piece and the rest make up the text. -/
def Splits (k : Cut) (c : Char) (cs : List Char) : Prop := k.text ++ k.rest = c :: cs

theorem word_splits (c : Char) (cs : List Char) : (word c cs).Splits c cs := by
  simp [Splits, word]

theorem number_splits (c : Char) (cs : List Char) : (number c cs).Splits c cs := by
  have whole := List.takeWhile_append_dropWhile (p := Char.isDigit) (l := cs)
  unfold number Splits
  split
  · next d rest after =>
    rw [after] at whole
    split <;> simp [whole]
  · simp [whole]

theorem string_splits (cs : List Char) : (string cs).Splits '"' cs := by
  have all := List.takeWhile_append_dropWhile (p := fun c => decide (c ≠ '"')) (l := cs)
  unfold string Splits
  split <;> next after => rw [after] at all; simpa using all

theorem throughClose_append (cs : List Char) :
    (throughClose cs).2.1 ++ (throughClose cs).2.2 = cs := by
  fun_induction throughClose cs with
  | case1 => rfl
  | case2 => rfl
  | case3 c cs _ closed text rest h ih => simp_all

theorem slash_splits (cs : List Char) : (slash cs).Splits '/' cs := by
  unfold slash Splits
  split
  · simp
  · simp [throughClose_append]
  · rfl

theorem bar_splits (cs : List Char) : (bar cs).Splits '|' cs := by
  unfold bar Splits
  split <;> rfl

theorem extensible_splits (c : Char) (short long : Symbol) (cs : List Char) :
    (extensible c short long cs).Splits c cs := by
  unfold extensible Splits
  split <;> rfl

theorem single_splits (c : Char) (shape : Shape) (cs : List Char) :
    (single c shape cs).Splits c cs := rfl

end Cut

/-- **Nothing is lost:** the first piece followed by the rest is the text. -/
theorem text_append_rest (c : Char) (cs : List Char) :
    (cut c cs).text ++ (cut c cs).rest = c :: cs := by
  unfold cut
  split
  · exact Cut.single_splits ..
  · exact Cut.extensible_splits ..
  · split
    · next h => subst h; exact Cut.bar_splits cs
    split
    · next h => subst h; exact Cut.slash_splits cs
    split
    · next h => subst h; exact Cut.string_splits cs
    split
    · exact Cut.single_splits ..
    split
    · exact Cut.single_splits ..
    split
    · exact Cut.number_splits ..
    split
    · exact Cut.word_splits ..
    · exact Cut.single_splits ..

/-- A piece is never empty. -/
theorem text_ne_nil (c : Char) (cs : List Char) : (cut c cs).text ≠ [] := by
  unfold cut Cut.single Cut.extensible Cut.bar Cut.slash Cut.string Cut.number Cut.word
  repeat' split
  all_goals simp

/-- What is left after the first piece is shorter than the text. -/
theorem rest_length_lt (c : Char) (cs : List Char) :
    (cut c cs).rest.length < (c :: cs).length := by
  have whole := congrArg List.length (text_append_rest c cs)
  have some := List.length_pos_iff.2 (text_ne_nil c cs)
  rw [List.length_append] at whole
  omega

end Lox
