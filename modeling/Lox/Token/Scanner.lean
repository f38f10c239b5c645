/-
  Lox.Token.Scanner
  ────────────────────────────────
  **THE SCANNER AND ITS COUNTERS.**

  A scanner reads a text character by character and looks at most two of them
  ahead.  It counts lines as it goes: at a line end between tokens, at one in a
  string, and at one in a block comment.  Nothing else that it reads has line
  ends, and a line comment stops in front of its own.  Faults are counted apart
  from the list of them.

  Behind every lexeme a scanner is where the first piece of the text ends, on
  the line of that piece (`next_eq`).  So it gets on with every lexeme, and a
  scan comes to an end.
-/
import Lox.Token.Scan

namespace Lox

/-- A scanner in the middle of a text. -/
structure Scanner where
  /-- What has been read of the lexeme at hand, the last character first. -/
  read : List Char
  /-- What is ahead. -/
  rest : List Char
  /-- The line that the scanner is on. -/
  line : Nat
  deriving Repr

namespace Scanner

/-! ## §1. Reading a lexeme. -/

/-- Why a scanner gives no token. -/
inductive Stop where
  /-- The text has a fault. -/
  | fault (fault : ScanFault)
  /-- The scanner itself is broken. -/
  | broken (text : String)
  deriving Repr

/-- What a lexeme is, and the scanner behind it. -/
abbrev Lexed := Except Stop TokenKind × Scanner

/-- The lexeme at hand. -/
def lexeme (s : Scanner) : List Char := s.read.reverse

/-- The next character. -/
def peek (s : Scanner) : Option Char := s.rest.head?

/-- The character after the next one. -/
def peekSecond (s : Scanner) : Option Char := s.rest[1]?

/-- Read the next character, if there is one. -/
def advance (s : Scanner) : Option Char × Scanner :=
  match s.rest with
  | [] => (none, s)
  | c :: cs => (some c, ⟨c :: s.read, cs, s.line⟩)

/-- Read the next character if it is the expected one. -/
def matchNext (expected : Char) (s : Scanner) : Bool × Scanner :=
  if s.peek = some expected then (true, s.advance.2) else (false, s)

/-- Read on while the characters belong to a class. -/
def skipWhile (p : Char → Bool) (s : Scanner) : Scanner := go s.read s.rest
where
  go (read : List Char) : List Char → Scanner
    | [] => ⟨read, [], s.line⟩
    | c :: cs => if p c then go (c :: read) cs else ⟨read, c :: cs, s.line⟩

/-- Read on up to a quote and count the line ends on the way. -/
def toQuote (s : Scanner) : Scanner := go s.line s.read s.rest
where
  go (line : Nat) (read : List Char) : List Char → Scanner
    | [] => ⟨read, [], line⟩
    | c :: cs =>
      if c = '"' then ⟨read, c :: cs, line⟩
      else go (if c = '\n' then line + 1 else line) (c :: read) cs

/-- Read a string whose first quote has been read. -/
def string (s : Scanner) : Lexed :=
  let s := s.toQuote
  match s.peek with
  | none => (.error (.fault ⟨s.line, .unterminatedString⟩), s)
  | some _ =>
    let s := s.advance.2
    (.ok (.string (String.ofList s.lexeme.tail.dropLast)), s)

/-- Read a block comment whose mark has been read, and count its line ends. -/
def blockComment (s : Scanner) : Lexed := go s.line s.read s.rest
where
  go (line : Nat) (read : List Char) : List Char → Lexed
    | [] => (.error (.fault ⟨line, .unterminatedComment⟩), ⟨read, [], line⟩)
    | '*' :: '/' :: cs => (.ok .comment, ⟨'/' :: '*' :: read, cs, line⟩)
    | c :: cs => go (if c = '\n' then line + 1 else line) (c :: read) cs

/-- Go on after a slash. -/
def slash (s : Scanner) : Lexed :=
  match s.matchNext '/' with
  | (true, s) => (.ok .comment, s.skipWhile (· ≠ '\n'))
  | (false, s) =>
    match s.matchNext '*' with
    | (true, s) => s.blockComment
    | (false, s) => (.ok (.symbol .slash), s)

/-- Whether a point with a digit behind it comes next. -/
def atFraction (s : Scanner) : Bool := s.peek = some '.' && s.peekSecond.any Char.isDigit

/-- Read a number whose first digit has been read. -/
def number (s : Scanner) : Lexed :=
  let s := s.skipWhile Char.isDigit
  let s := if s.atFraction then s.advance.2.skipWhile Char.isDigit else s
  match Number.ofText? s.lexeme with
  | some x => (.ok (.number x), s)
  | none => (.error (.broken "Failed to parse number literal"), s)

/-- Read a word whose first character has been read. -/
def word (s : Scanner) : Lexed :=
  let s := s.skipWhile isWordChar
  (.ok (Cut.wordKind s.lexeme), s)

/-- Go on after a bar. -/
def bar (s : Scanner) : Lexed :=
  match s.matchNext '>' with
  | (true, s) => (.ok (.symbol .pipe), s)
  | (false, s) => (.error (.fault ⟨s.line, .unexpectedCharacter '|'⟩), s)

/-- Go on after a symbol that a following `=` makes longer. -/
def extensible (short long : Symbol) (s : Scanner) : Lexed :=
  match s.matchNext '=' with
  | (true, s) => (.ok (.symbol long), s)
  | (false, s) => (.ok (.symbol short), s)

/-- Go on after the first character of a lexeme. -/
def after (c : Char) (s : Scanner) : Lexed :=
  match Symbol.single? c, Symbol.extensible? c with
  | some symbol, _ => (.ok (.symbol symbol), s)
  | none, some (short, long) => s.extensible short long
  | none, none =>
    if c = '|' then s.bar
    else if c = '/' then s.slash
    else if isBlankChar c then (.ok .blank, s)
    else if c = '\n' then (.ok .newLine, { s with line := s.line + 1 })
    else if c = '"' then s.string
    else if c.isDigit then s.number
    else if isWordStart c then s.word
    else (.error (.fault ⟨s.line, .unexpectedCharacter c⟩), s)

/-- **Read the next lexeme.** -/
def next (s : Scanner) : Lexed :=
  match s.advance with
  | (none, s) => (.error (.broken "Unexpected EOF"), s)
  | (some c, s) => s.after c

/-! ## §2. Behind a lexeme. -/

/-- What a piece comes to if it begins on a line. -/
def ofCut (line : Nat) (k : Cut) : Lexed :=
  let last := line + lineEnds k.text
  (match k.shape with
    | .token kind => .ok kind
    | .fault cause => .error (.fault ⟨last, cause⟩),
   ⟨k.text.reverse, k.rest, last⟩)

section Readers

variable {p : Char → Bool} {c : Char} {cs text rest : List Char} {line ends : Nat}

theorem ofCut_token (h : lineEnds text = ends) (kind : TokenKind) :
    ofCut line ⟨.token kind, text, rest⟩ = (.ok kind, ⟨text.reverse, rest, line + ends⟩) := by
  rw [← h]
  rfl

theorem ofCut_fault (h : lineEnds text = ends) (cause : ScanCause) :
    ofCut line ⟨.fault cause, text, rest⟩ =
      (.error (.fault ⟨line + ends, cause⟩), ⟨text.reverse, rest, line + ends⟩) := by
  rw [← h]
  rfl

/-- A counter that moves at line ends counts them. -/
theorem line_add_lineEnds (line : Nat) (c : Char) (cs : List Char) :
    (if c = '\n' then line + 1 else line) + lineEnds cs = line + lineEnds (c :: cs) := by
  unfold lineEnds
  rw [List.count_cons]
  simp only [beq_iff_eq]
  split <;> omega

theorem matchNext_cons (c : Char) (read cs : List Char) (line : Nat) :
    matchNext c ⟨read, c :: cs, line⟩ = (true, ⟨c :: read, cs, line⟩) := if_pos rfl

theorem matchNext_of_ne {s : Scanner} (h : ∀ cs, s.rest = c :: cs → False) :
    s.matchNext c = (false, s) := by
  refine if_neg fun hpeek => ?_
  obtain ⟨cs, hcs⟩ := List.head?_eq_some_iff.1 hpeek
  exact h cs hcs

theorem skipWhile_eq (read : List Char) :
    skipWhile p ⟨read, cs, line⟩ =
      ⟨(cs.takeWhile p).reverse ++ read, cs.dropWhile p, line⟩ := by
  suffices h : ∀ s : Scanner, skipWhile.go p s read cs =
      ⟨(cs.takeWhile p).reverse ++ read, cs.dropWhile p, s.line⟩ from h _
  intro s
  induction cs generalizing read with
  | nil => rfl
  | cons c cs ih =>
    rw [skipWhile.go]
    split
    · next hc => rw [ih, List.takeWhile_cons_of_pos hc, List.dropWhile_cons_of_pos hc]; simp
    · next hc => rw [List.takeWhile_cons_of_neg hc, List.dropWhile_cons_of_neg hc]; rfl

theorem toQuote_go (line : Nat) (read : List Char) :
    toQuote.go line read cs =
      ⟨(cs.takeWhile (· ≠ '"')).reverse ++ read, cs.dropWhile (· ≠ '"'),
        line + lineEnds (cs.takeWhile (· ≠ '"'))⟩ := by
  induction cs generalizing line read with
  | nil => rfl
  | cons c cs ih =>
    rw [toQuote.go]
    split
    · next hc => simp [hc, lineEnds]
    · next hc => simp [ih, hc, line_add_lineEnds]

theorem blockComment_go (line : Nat) (read : List Char) :
    blockComment.go line read cs =
      let (closed, text, rest) := Cut.throughClose cs
      (if closed then .ok .comment
        else .error (.fault ⟨line + lineEnds text, .unterminatedComment⟩),
       ⟨text.reverse ++ read, rest, line + lineEnds text⟩) := by
  fun_induction Cut.throughClose cs generalizing line read with
  | case1 => rfl
  | case2 rest => rfl
  | case3 c cs hmark closed text rest h ih =>
    rw [blockComment.go, ih]
    · simp [h, line_add_lineEnds]
    · exact hmark

/-! Each way to go on gives what the piece comes to. -/

theorem word_eq (hc : c ≠ '\n') : word ⟨[c], cs, line⟩ = ofCut line (.word c cs) := by
  have hline : lineEnds (c :: cs.takeWhile isWordChar) = 0 := by
    rw [lineEnds_cons_of_ne hc, lineEnds_takeWhile (by decide)]
  unfold word Cut.word
  rw [skipWhile_eq, ofCut_token hline]
  simp [lexeme]

/-! A number is read to its end, and its text is one that can be parsed. -/

theorem all_digits (hc : c.isDigit = true) (cs : List Char) :
    (c :: cs.takeWhile Char.isDigit).all Char.isDigit = true := by
  rw [List.all_cons, hc, List.all_takeWhile]
  rfl

theorem lineEnds_digits (hc : c.isDigit = true) (cs : List Char) :
    lineEnds (c :: cs.takeWhile Char.isDigit) = 0 := by
  have hne : c ≠ '\n' := by
    rintro rfl
    cases hc
  rw [lineEnds_cons_of_ne hne, lineEnds_takeWhile (by decide)]

theorem number_whole (hc : c.isDigit = true)
    (hrest : ∀ d rest, cs.dropWhile Char.isDigit = '.' :: d :: rest → d.isDigit = false) :
    number ⟨[c], cs, line⟩ =
      ofCut line ⟨.token (.number (Number.ofDecimal (c :: cs.takeWhile Char.isDigit) [])),
        c :: cs.takeWhile Char.isDigit, cs.dropWhile Char.isDigit⟩ := by
  -- Either no point follows, or no digit follows it.
  have hends : ∀ read, atFraction ⟨read, cs.dropWhile Char.isDigit, line⟩ = false := by
    intro read
    unfold atFraction peek peekSecond
    match h : cs.dropWhile Char.isDigit with
    | [] => rfl
    | [_] => exact Bool.and_false _
    | point :: d :: rest =>
      by_cases hpoint : point = '.'
      · subst hpoint
        exact hrest d rest h
      · simp [hpoint]
  rw [ofCut_token (lineEnds_digits hc cs)]
  simp [number, skipWhile_eq, hends, lexeme, Number.ofText?_digits (all_digits hc cs)]

theorem number_point {d : Char} {rest : List Char} (hc : c.isDigit = true)
    (hdrop : cs.dropWhile Char.isDigit = '.' :: d :: rest) (hd : d.isDigit = true) :
    let whole := c :: cs.takeWhile Char.isDigit
    let fraction := d :: rest.takeWhile Char.isDigit
    number ⟨[c], cs, line⟩ =
      ofCut line ⟨.token (.number (Number.ofDecimal whole fraction)), whole ++ '.' :: fraction,
        rest.dropWhile Char.isDigit⟩ := by
  have hparsed := Number.ofText?_point (all_digits hc cs) nofun (all_digits hd rest)
  have hline : lineEnds (c :: cs.takeWhile Char.isDigit ++
      '.' :: d :: rest.takeWhile Char.isDigit) = 0 := by
    rw [lineEnds_append, lineEnds_digits hc, lineEnds_cons_of_ne (by decide), lineEnds_digits hd]
  intro whole fraction
  rw [ofCut_token hline]
  rw [List.cons_append] at hparsed
  simp [number, skipWhile_eq, atFraction, peek, peekSecond, advance, hdrop, hd, lexeme,
    hparsed, whole, fraction]

theorem number_eq (hc : c.isDigit = true) :
    number ⟨[c], cs, line⟩ = ofCut line (.number c cs) := by
  fun_cases Cut.number c cs with
  | case1 whole d rest hdrop hd fraction => exact number_point hc hdrop hd
  | case2 whole d rest hdrop hd =>
    rw [← hdrop]
    refine number_whole hc fun d' rest' h => ?_
    rw [hdrop] at h
    obtain ⟨rfl, -⟩ := List.cons.inj (List.cons.inj h).2
    exact Bool.eq_false_iff.2 hd
  | case3 whole hno => exact number_whole hc fun d rest h => (hno d rest h).elim

theorem string_eq : string ⟨['"'], cs, line⟩ = ofCut line (.string cs) := by
  unfold string toQuote
  rw [toQuote_go]
  unfold Cut.string
  cases h : cs.dropWhile (· ≠ '"') with
  | nil => simp [peek, ofCut, lineEnds_cons_of_ne]
  | cons quote rest =>
    -- The scanner passes the quote that ends the string without a look at it.
    have hquote : quote = '"' := by
      have hhead := List.head?_dropWhile_not (fun c => decide (c ≠ '"')) cs
      rw [h] at hhead
      simpa using hhead
    have hline : lineEnds ('"' :: cs.takeWhile (· ≠ '"') ++ [quote]) =
        lineEnds (cs.takeWhile (· ≠ '"')) := by
      rw [lineEnds_append, hquote, lineEnds_cons_of_ne (by decide)]
      rfl
    dsimp only
    rw [ofCut_token hline]
    simp [peek, advance, lexeme]

theorem slash_eq : slash ⟨['/'], cs, line⟩ = ofCut line (.slash cs) := by
  fun_cases Cut.slash cs with
  | case1 cs =>
    -- The comment stops in front of the line end, which will be counted on its own.
    have hline : lineEnds ('/' :: ('/' :: cs).takeWhile (· ≠ '\n')) = 0 := by
      rw [lineEnds_cons_of_ne (by decide), lineEnds_takeWhile (by decide)]
    unfold slash
    rw [matchNext_cons, ofCut_token hline]
    dsimp only
    rw [skipWhile_eq]
    simp
  | case2 after closed text rest h =>
    have hline : lineEnds ('/' :: '*' :: text) = lineEnds text := by
      rw [lineEnds_cons_of_ne (by decide), lineEnds_cons_of_ne (by decide)]
    unfold slash
    rw [matchNext_of_ne (by simp)]
    dsimp only
    rw [matchNext_cons]
    dsimp only [blockComment]
    rw [blockComment_go, h]
    cases closed with
    | true => simp [ofCut_token hline]
    | false => simp [ofCut_fault hline]
  | case3 cs hline hblock =>
    unfold slash
    rw [matchNext_of_ne hline]
    dsimp only
    rw [matchNext_of_ne hblock]
    rfl

theorem bar_eq : bar ⟨['|'], cs, line⟩ = ofCut line (.bar cs) := by
  unfold bar
  fun_cases Cut.bar cs with
  | case1 rest =>
    rw [matchNext_cons]
    rfl
  | case2 cs hother =>
    rw [matchNext_of_ne hother]
    rfl

theorem extensible_eq (hc : c ≠ '\n') (short long : Symbol) :
    extensible short long ⟨[c], cs, line⟩ = ofCut line (.extensible c short long cs) := by
  have hline : lineEnds [c] = 0 := lineEnds_cons_of_ne hc []
  have hlong : lineEnds [c, '='] = 0 := lineEnds_cons_of_ne hc ['=']
  unfold extensible
  fun_cases Cut.extensible c short long cs with
  | case1 rest =>
    rw [matchNext_cons, ofCut_token hlong]
    rfl
  | case2 cs hother =>
    rw [matchNext_of_ne hother, ofCut_token hline]
    rfl

theorem single_token_eq (hc : c ≠ '\n') (kind : TokenKind) :
    (.ok kind, ⟨[c], cs, line⟩) = ofCut line (.single c (.token kind) cs) :=
  (ofCut_token (lineEnds_cons_of_ne hc []) kind).symm

theorem single_fault_eq (hc : c ≠ '\n') (cause : ScanCause) :
    (.error (.fault ⟨line, cause⟩), ⟨[c], cs, line⟩) =
      ofCut line (.single c (.fault cause) cs) :=
  (ofCut_fault (lineEnds_cons_of_ne hc []) cause).symm

theorem after_eq (c : Char) (cs : List Char) (line : Nat) :
    after c ⟨[c], cs, line⟩ = ofCut line (cut c cs) := by
  -- A line end is the one lexeme of one character that moves the counter.
  by_cases hnewLine : c = '\n'
  · subst hnewLine
    rfl
  by_cases hquote : c = '"'
  · subst hquote
    exact string_eq
  unfold after cut
  cases hsingle : Symbol.single? c with
  | some symbol => exact single_token_eq hnewLine (.symbol symbol)
  | none =>
    cases hlong : Symbol.extensible? c with
    | some pair => exact extensible_eq hnewLine ..
    | none =>
      dsimp only
      split
      · next h =>
        subst h
        exact bar_eq
      split
      · next h =>
        subst h
        exact slash_eq
      split
      · exact single_token_eq hnewLine .blank
      split
      · next h => exact number_eq h
      split
      · exact word_eq hnewLine
      · exact single_fault_eq hnewLine (.unexpectedCharacter c)

/-- **Behind the next lexeme** a scanner is where the first piece of the text ends, on
the line of that piece. -/
theorem next_eq (c : Char) (cs : List Char) (line : Nat) :
    next ⟨[], c :: cs, line⟩ = ofCut line (cut c cs) := after_eq c cs line

end Readers

theorem next_rest_length_lt (c : Char) (cs : List Char) (line : Nat) :
    (next ⟨[], c :: cs, line⟩).2.rest.length < (c :: cs).length := by
  rw [next_eq]
  exact rest_length_lt c cs

end Scanner

/-! ## §3. The scan of a text. -/

/-- What a scan comes to. -/
inductive Scanned where
  /-- The tokens of a text without faults. -/
  | tokens (tokens : List Token)
  /-- The faults of a text, and their number. -/
  | faults (faults : List ScanFault) (count : Nat)
  /-- A broken scanner, and the faults reported up to there. -/
  | broken (faults : List ScanFault) (text : String)
  deriving Repr

namespace Scanner

/-- The token of a lexeme that has been read, unless it only separates others. -/
def token? (kind : TokenKind) (s : Scanner) : Option Token :=
  if kind.isIgnored then none else some ⟨kind, String.ofList s.lexeme, s.line⟩

/-- The end of a text, with its tokens or its faults. -/
def close (tokens : List Token) (faults : List ScanFault) (count line : Nat) : Scanned :=
  if count ≠ 0 then .faults faults count else .tokens (tokens ++ [⟨.endOfInput, "", line⟩])

/-- Go on with a scan: the tokens and the faults so far are given with the last one
first, and the faults with their number. -/
def scanFrom (tokens : List Token) (faults : List ScanFault) (count line : Nat) :
    List Char → Scanned
  | [] => close tokens.reverse faults.reverse count line
  | c :: cs =>
    let lexed := next ⟨[], c :: cs, line⟩
    match lexed.1 with
    | .ok kind =>
      scanFrom ((lexed.2.token? kind).toList ++ tokens) faults count lexed.2.line lexed.2.rest
    | .error (.fault fault) =>
      scanFrom tokens (fault :: faults) (count + 1) lexed.2.line lexed.2.rest
    | .error (.broken text) => .broken faults.reverse text
termination_by cs => cs.length
decreasing_by all_goals exact next_rest_length_lt c cs line

end Scanner

/-- **The scan of a text,** character by character, from line 1 on. -/
def scanTokens (source : String) : Scanned := Scanner.scanFrom [] [] 0 1 source.toList

end Lox
