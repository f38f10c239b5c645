/-
  Lox.Proofs.Token.Spelling
  ────────────────────────────────
  **WHAT IS WRITTEN IS READ BACK.**

  `Spells` says how a token is written: symbols, words and numbers as `Lexeme` has
  them, a string as its value between quotes.  Tokens that are written one after
  the other with whitespace between them are found again, in order and with their
  values.

  The reason is the same for all kinds of tokens.  No symbol, word or number has
  whitespace in it, so none that begins at the place of a token goes on past the
  whitespace behind it, and the token is the longest one (`longest_of_apart`).  A
  string ends at its quote, whatever follows.
-/
import Lox.Proofs.Token.Lexemes

namespace Lox

/-! ## §1. Spellings and whitespace. -/

/-- Whitespace: a blank or a line end. -/
def isSpace (c : Char) : Bool := isBlankChar c || c = '\n'

/-- A text of whitespace only, possibly empty. -/
def AllSpace (cs : List Char) : Prop := ∀ c ∈ cs, isSpace c = true

instance (cs : List Char) : Decidable (AllSpace cs) :=
  List.decidableBAll (fun c => isSpace c = true) cs

/-- **How tokens are written.** -/
inductive Spells : TokenKind → List Char → Prop where
  /-- A symbol or a reserved word by its own text, a name that is not reserved, or a
  number by its digits. -/
  | lexeme {kind : TokenKind} {text : List Char} (h : Lexeme kind text) : Spells kind text
  /-- A string by its value between quotes. -/
  | string {body : List Char} (h : '"' ∉ body) :
      Spells (.string (String.ofList body)) ('"' :: (body ++ ['"']))

/-- A token as it is written, without the line it is on. -/
structure Spelled where
  kind : TokenKind
  lexeme : String
  spells : Spells kind lexeme.toList

/-- Tokens one after the other, each with what is written behind it, and what is
written in front of all of them. -/
def written (lead : String) (items : List (Spelled × String)) : String :=
  lead ++ String.join (items.map fun item => item.1.lexeme ++ item.2)

/-- What a token is read as, its line apart. -/
def Token.reading (t : Token) : TokenKind × String := (t.kind, t.lexeme)

/-! ## §2. One token. -/

section OneToken

variable {c : Char} {kind : TokenKind} {text rest : List Char}

theorem isWordChar_of_isWordStart (h : isWordStart c = true) : isWordChar c = true := by
  unfold isWordStart at h
  unfold isWordChar Char.isAlphanum
  grind

theorem isWordChar_of_isDigit (h : c.isDigit = true) : isWordChar c = true := by
  unfold isWordChar Char.isAlphanum
  rw [h, Bool.or_true, Bool.true_or]

theorem isSpace_of_isWordChar (h : isWordChar c = true) : isSpace c = false := by
  by_contra hspace
  have hspace := Bool.of_not_eq_false hspace
  simp only [isSpace, isBlankChar, Bool.or_eq_true, decide_eq_true_eq] at hspace
  rcases hspace with ((rfl | rfl) | rfl) | rfl <;> exact absurd h (by decide)

theorem Digits.isSpace_of_mem {ds : List Char} (h : Digits ds) : ∀ c ∈ ds, isSpace c = false :=
  fun c hc => isSpace_of_isWordChar (isWordChar_of_isDigit (h.2 c hc))

/-- **No symbol, word or number has whitespace in it.** -/
theorem Lexeme.isSpace_of_mem (h : Lexeme kind text) : ∀ c ∈ text, isSpace c = false := by
  cases h with
  | symbol s =>
    have hall : s.text.toList.all (!isSpace ·) = true := by cases s <;> decide
    simpa using hall
  | keyword k =>
    have hall : k.text.toList.all (!isSpace ·) = true := by cases k <;> decide
    simpa using hall
  | identifier hc hcs hname =>
    refine List.forall_mem_cons.2 ⟨isSpace_of_isWordChar (isWordChar_of_isWordStart hc), ?_⟩
    exact fun d hd => isSpace_of_isWordChar (hcs d hd)
  | whole hds => exact hds.isSpace_of_mem
  | decimal hds hfs =>
    exact List.forall_mem_append.2
      ⟨hds.isSpace_of_mem, List.forall_mem_cons.2 ⟨by decide, hfs.isSpace_of_mem⟩⟩

/-- What stands behind a token: whitespace, or nothing more. -/
def Apart (rest : List Char) : Prop := ∀ c, rest.head? = some c → isSpace c = true

/-- **Where whitespace follows, a symbol, word or number is the longest one.** -/
theorem longest_of_apart (h : Apart rest) (text : List Char) : Longest text rest := by
  intro kind longer hlonger hbefore
  -- One that were longer would have the whitespace in it.
  have hstops : Stops (fun c => !isSpace c) rest := fun c hc => by simp [h c hc]
  refine length_le_of_stops (fun d hd => ?_) hbefore hstops
  rw [hlonger.isSpace_of_mem d hd]
  rfl

/-- **A token that is written with whitespace behind it stands there.** -/
theorem Spells.stands (h : Spells kind text) (hrest : Apart rest) :
    Stands (.token kind) text rest := by
  cases h with
  | lexeme h =>
    refine .lexeme h (longest_of_apart hrest text) fun _ => ⟨fun hhead => ?_, fun hhead => ?_⟩
    · exact absurd (hrest _ hhead) (by decide)
    · exact absurd (hrest _ hhead) (by decide)
  | string h => exact .string rest h

theorem Spells.not_ignored (h : Spells kind text) : kind.isIgnored = false := by
  cases h with
  | lexeme h => cases h <;> rfl
  | string h => rfl

/-- A piece that stands in front of a text is its first one. -/
theorem Stands.piecesFrom_append {shape : Shape} (h : Stands shape text rest) (line : Nat) :
    piecesFrom line (text ++ rest) =
      ⟨shape, text, line + lineEnds text⟩ :: piecesFrom (line + lineEnds text) rest :=
  (Divides.cons h (piecesFrom_divides _ rest)).eq_piecesFrom.symm

end OneToken

/-! ## §3. All tokens. -/

/-- **Pieces that are read as these tokens,** without a fault. -/
structure ReadAs (ps : List Piece) (readings : List (TokenKind × String)) : Prop where
  faults : ps.filterMap Piece.fault? = []
  tokens : (ps.filterMap Piece.token?).map Token.reading = readings

theorem readAs_nil : ReadAs [] [] := ⟨rfl, rfl⟩

section AllTokens

variable {p : Piece} {ps : List Piece} {readings : List (TokenKind × String)}

theorem ReadAs.ignored {kind : TokenKind} (h : ReadAs ps readings) (hshape : p.shape = .token kind)
    (hkind : kind.isIgnored = true) : ReadAs (p :: ps) readings := by
  have htoken : p.token? = none := by
    unfold Piece.token?
    rw [hshape]
    exact if_pos hkind
  have hfault : p.fault? = none := by
    unfold Piece.fault?
    rw [hshape]
  exact ⟨by rw [List.filterMap_cons_none hfault, h.faults],
    by rw [List.filterMap_cons_none htoken, h.tokens]⟩

theorem ReadAs.token {kind : TokenKind} {lexeme : String} (h : ReadAs ps readings)
    (hshape : p.shape = .token kind) (hkind : kind.isIgnored = false)
    (hlexeme : lexeme = String.ofList p.text) : ReadAs (p :: ps) ((kind, lexeme) :: readings) := by
  have htoken : p.token? = some ⟨kind, lexeme, p.line⟩ :=
    Piece.token?_eq_some_iff.2 ⟨hshape, hkind, hlexeme, rfl⟩
  have hfault : p.fault? = none := by
    unfold Piece.fault?
    rw [hshape]
  exact ⟨by rw [List.filterMap_cons_none hfault, h.faults],
    by rw [List.filterMap_cons_some htoken, List.map_cons, h.tokens]; rfl⟩

/-- Whitespace is read as nothing. -/
theorem readAs_space {gap rest : List Char} (hgap : AllSpace gap)
    (h : ∀ line, ReadAs (piecesFrom line rest) readings) (line : Nat) :
    ReadAs (piecesFrom line (gap ++ rest)) readings := by
  induction gap generalizing line with
  | nil => exact h line
  | cons c gap ih =>
    have hrest := fun line => ih (fun d hd => hgap d (.tail _ hd)) line
    have hc := hgap c (.head _)
    unfold isSpace at hc
    rcases Bool.or_eq_true _ _ ▸ hc with hblank | hline
    · have hpieces := (Stands.blank (gap ++ rest) hblank).piecesFrom_append line
      rw [List.cons_append, ← List.singleton_append, hpieces]
      exact (hrest _).ignored rfl rfl
    · obtain rfl := of_decide_eq_true hline
      have hpieces := (Stands.newLine (gap ++ rest)).piecesFrom_append line
      rw [List.cons_append, ← List.singleton_append, hpieces]
      exact (hrest _).ignored rfl rfl

/-- A token with something apart behind it is read as itself. -/
theorem readAs_token (t : Spelled) {rest : List Char} (hrest : Apart rest)
    (h : ∀ line, ReadAs (piecesFrom line rest) readings) (line : Nat) :
    ReadAs (piecesFrom line (t.lexeme.toList ++ rest)) ((t.kind, t.lexeme) :: readings) := by
  rw [(t.spells.stands hrest).piecesFrom_append line]
  exact (h _).token rfl t.spells.not_ignored String.ofList_toList.symm

end AllTokens

/-- Whitespace that is not empty keeps what follows apart, and so does the end. -/
theorem apart_append {gap rest : List Char} (hgap : AllSpace gap) (h : gap = [] → rest = []) :
    Apart (gap ++ rest) := by
  intro c hc
  cases gap with
  | nil =>
    rw [h rfl] at hc
    cases hc
  | cons d gap =>
    obtain rfl := Option.some.inj hc
    exact hgap d (.head _)

/-- **Tokens with whitespace between them are read as themselves.** -/
theorem readAs_items {items : List (Spelled × String)}
    (hspace : ∀ item ∈ items, AllSpace item.2.toList)
    (hapart : ∀ item ∈ items.dropLast, item.2 ≠ "") (line : Nat) :
    ReadAs (piecesFrom line (items.flatMap fun item => item.1.lexeme.toList ++ item.2.toList))
      (items.map fun item => (item.1.kind, item.1.lexeme)) := by
  induction items generalizing line with
  | nil =>
    rw [List.flatMap_nil, piecesFrom]
    exact readAs_nil
  | cons item items ih =>
    have hgap := hspace item (.head _)
    have hlater : ∀ i ∈ items.dropLast, i.2 ≠ "" := by
      intro i hi
      cases items with
      | nil => cases hi
      | cons j items => exact hapart i (.tail _ hi)
    have hitems := ih (fun i hi => hspace i (.tail _ hi)) hlater
    rw [List.flatMap_cons, List.append_assoc]
    refine readAs_token item.1 (apart_append hgap fun hnil => ?_) (readAs_space hgap hitems) line
    -- Only behind the last token there may be nothing.
    cases items with
    | nil => rfl
    | cons j items => exact absurd (String.toList_eq_nil_iff.1 hnil) (hapart item (.head _))

theorem toList_written (lead : String) (items : List (Spelled × String)) :
    (written lead items).toList =
      lead.toList ++ items.flatMap fun item => item.1.lexeme.toList ++ item.2.toList := by
  simp [written, List.flatMap_map]

/-- **What is written is read back.** Tokens are written one after the other, each as
`Spells` says, with whitespace that is not empty between them and any whitespace at
both ends. Then a scan succeeds, and gives just these kinds, with their values, and
texts in order, and the end behind them. -/
theorem scan_written {lead : String} {items : List (Spelled × String)}
    (hlead : AllSpace lead.toList) (hspace : ∀ item ∈ items, AllSpace item.2.toList)
    (hapart : ∀ item ∈ items.dropLast, item.2 ≠ "") :
    ∃ tokens, scan (written lead items) = .ok tokens ∧
      tokens.map Token.reading =
        items.map (fun item => (item.1.kind, item.1.lexeme)) ++ [(.endOfInput, "")] := by
  have hread := readAs_space hlead (readAs_items hspace hapart) 1
  rw [← toList_written] at hread
  refine ⟨_, scan_eq_ok_iff.2 ⟨hread.faults, rfl⟩, ?_⟩
  rw [List.map_append]
  exact congrArg (· ++ _) hread.tokens

/-- A reserved word, a string over two lines with another one in it, a symbol that
could be shorter and a number with a fraction. -/
def mixedItems : List (Spelled × String) :=
  [(⟨.keyword .whileWord, "while", .lexeme (.keyword .whileWord)⟩, "\t"),
    (⟨.string "é\nand", "\"é\nand\"",
      .string (by decide : '"' ∉ ['é', '\n', 'a', 'n', 'd'])⟩, " "),
    (⟨.symbol .lessEqual, "<=", .lexeme (.symbol .lessEqual)⟩, "\r\n"),
    (⟨.number (Number.ofDecimal ['3'] ['1', '4']), "3.14", .lexeme (.decimal
      ⟨by decide, by simp⟩ (⟨by decide, by simp⟩ : Digits ['1', '4']))⟩, "")]

theorem scan_written_mixed :
    ∃ tokens, scan "\nwhile\t\"é\nand\" <=\r\n3.14" = .ok tokens ∧
      tokens.map Token.reading =
        [(.keyword .whileWord, "while"), (.string "é\nand", "\"é\nand\""),
          (.symbol .lessEqual, "<="), (.number (Number.ofDecimal ['3'] ['1', '4']), "3.14"),
          (.endOfInput, "")] := by
  have hwritten : written "\n" mixedItems = "\nwhile\t\"é\nand\" <=\r\n3.14" := by decide
  rw [← hwritten]
  exact @scan_written "\n" mixedItems (by decide) (by decide) (by decide)

end Lox
