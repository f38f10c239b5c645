/-
  Lox.Proofs.Token.Places
  ────────────────────────────────
  **THE LINE OF EVERY TOKEN AND EVERY FAULT.**

  A place in a text is told by the text in front of it.  What a piece is depends
  on what follows it, but a piece that may stand before a text may stand before
  the beginning of that text, too (`Stands.of_isPrefix`).  So the text up to the
  end of a piece is cut into the same pieces (`piecesFrom_front`), and scanning it
  gives the tokens and the faults found so far: this is how the place of a token
  is pinned down without a word about pieces.

  The scanner counts lines as it reads, and wherever it is, its counter is one
  more than the number of line ends behind it.  This is the line of a token.  For
  a stray character, which is no line end itself, these are the line ends in front
  of it; a string or comment that is never closed goes on to the end of the text,
  so for these it is the last line.
-/
import Lox.Proofs.Lines
import Lox.Proofs.Token.Counter

namespace Lox

/-! ## §1. The front of a text. -/

section Front

variable {shape : Shape} {text rest front : List Char} {line : Nat} {p : Piece}
  {ps qs : List Piece} {cs : List Char}

/-- **A piece that stands before a text stands before any beginning of it.** -/
theorem Stands.of_isPrefix (h : Stands shape text rest) (hfront : front <+: rest) :
    Stands shape text front := by
  -- What follows begins with the same character, or there is nothing.
  have hhead : ∀ c, front.head? = some c → rest.head? = some c := by
    intro c hc
    obtain ⟨after, rfl⟩ := hfront
    rw [List.head?_append, hc]
    rfl
  cases h with
  | lexeme h hlongest hcomment =>
    refine .lexeme h (fun kind longer hlonger hbefore => ?_) fun hslash => ?_
    · exact hlongest kind longer hlonger
        (hbefore.trans ((List.prefix_append_right_inj text).2 hfront))
    · obtain ⟨hline, hblock⟩ := hcomment hslash
      exact ⟨fun hc => hline (hhead _ hc), fun hc => hblock (hhead _ hc)⟩
  | blank rest hc => exact .blank front hc
  | newLine rest => exact .newLine front
  | lineComment hbody hrest => exact .lineComment hbody fun c hc => hrest c (hhead c hc)
  | blockComment rest hbody => exact .blockComment front hbody
  | string rest hbody => exact .string front hbody
  | openString hbody =>
    rw [List.prefix_nil.1 hfront]
    exact .openString hbody
  | openComment hbody =>
    rw [List.prefix_nil.1 hfront]
    exact .openComment hbody
  | loneBar hrest => exact .loneBar fun hc => hrest (hhead _ hc)
  | stray rest hc => exact .stray front hc

/-- **The place of a piece:** it stands behind the pieces in front of it, and its line
is counted by the line ends up to its end. -/
theorem Divides.place (h : Divides line cs (ps ++ p :: qs)) :
    ∃ after, cs = ps.flatMap Piece.text ++ p.text ++ after ∧ Stands p.shape p.text after ∧
      p.line = line + lineEnds (ps.flatMap Piece.text ++ p.text) := by
  induction ps generalizing line cs with
  | nil =>
    cases h with
    | cons hstands hrest => exact ⟨_, rfl, hstands, rfl⟩
  | cons q ps ih =>
    cases h with
    | cons hstands hrest =>
      obtain ⟨after, rfl, hafter, hline⟩ := ih hrest
      refine ⟨after, by simp, hafter, ?_⟩
      rw [hline, List.flatMap_cons, List.append_assoc, Nat.add_assoc, ← lineEnds_append]

/-- The first pieces of a division divide the front of the text. -/
theorem Divides.of_append (h : Divides line cs (ps ++ qs)) :
    Divides line (ps.flatMap Piece.text) ps ∧ ps.flatMap Piece.text <+: cs := by
  induction ps generalizing line cs with
  | nil => exact ⟨.nil line, List.nil_prefix⟩
  | cons p ps ih =>
    cases h with
    | cons hstands hrest =>
      obtain ⟨hdivides, hfront⟩ := ih hrest
      exact ⟨.cons (hstands.of_isPrefix hfront) hdivides,
        (List.prefix_append_right_inj _).2 hfront⟩

/-- **The text up to the end of a piece is cut into the pieces up to this one.** -/
theorem piecesFrom_front (h : piecesFrom line cs = ps ++ qs) :
    piecesFrom line (ps.flatMap Piece.text) = ps := by
  have hdivides := piecesFrom_divides line cs
  rw [h] at hdivides
  exact hdivides.of_append.1.eq_piecesFrom.symm

/-- What a piece contributes comes behind what the pieces in front of it contribute. -/
theorem exists_piece {α : Type} {f : Piece → Option α} {i : Nat} {a : α}
    (h : (ps.filterMap f)[i]? = some a) :
    ∃ before p after, ps = before ++ p :: after ∧ f p = some a ∧
      before.filterMap f = (ps.filterMap f).take i ∧
      (before ++ [p]).filterMap f = (ps.filterMap f).take (i + 1) := by
  obtain ⟨hi, ha⟩ := List.getElem?_eq_some_iff.1 h
  have hsplit := (List.take_append_drop i (ps.filterMap f)).symm
  rw [List.drop_eq_getElem_cons hi, ha] at hsplit
  obtain ⟨first, rest, hps, hfirst, hrest⟩ := List.filterMap_eq_append_iff.1 hsplit
  obtain ⟨skipped, p, after, rfl, hskipped, hp, -⟩ := List.filterMap_eq_cons_iff.1 hrest
  have hbefore : (first ++ skipped).filterMap f = (ps.filterMap f).take i := by
    rw [List.filterMap_append, hfirst, List.filterMap_eq_nil_iff.2 hskipped, List.append_nil]
  refine ⟨first ++ skipped, p, after, by rw [hps, List.append_assoc], hp, hbefore, ?_⟩
  rw [List.filterMap_append, hbefore, List.filterMap_cons_some hp, List.take_add_one, h]
  rfl

end Front

/-! ## §2. Tokens and faults. -/

/-- The faults that the scanner finds in a text. -/
def faultsIn (cs : List Char) : List ScanFault :=
  match scanTokens (String.ofList cs) with
  | .tokens _ => []
  | .faults faults _ => faults
  | .broken faults _ => faults

theorem faultsIn_eq (cs : List Char) : faultsIn cs = (piecesFrom 1 cs).filterMap Piece.fault? := by
  unfold faultsIn
  rw [scanTokens_eq]
  cases h : scan (String.ofList cs) with
  | ok tokens =>
    have hnone := (scan_eq_ok_iff.1 h).1
    unfold pieces at hnone
    rw [String.toList_ofList] at hnone
    exact hnone.symm
  | error faults =>
    have hall := (eq_of_scan_error h).1
    unfold pieces at hall
    rw [String.toList_ofList] at hall
    exact hall

/-- **A token of a text, at its place:** the text in front of it scans to the tokens
before it, and the text up to its end to one token more. -/
structure TokenAt (source : String) (words : List Token) (i : Nat) (t : Token)
    (before after : List Char) : Prop where
  text : source.toList = before ++ t.lexeme.toList ++ after
  earlier : scanTokens (String.ofList before) =
    .tokens (words.take i ++ [endToken (String.ofList before)])
  through : scanTokens (String.ofList (before ++ t.lexeme.toList)) =
    .tokens (words.take (i + 1) ++ [endToken (String.ofList (before ++ t.lexeme.toList))])

/-- **A fault of a text, at its place:** the text in front of it has the faults before
it, and the text up to its end has one more. -/
structure FaultAt (source : String) (faults : List ScanFault) (i : Nat)
    (before stretch after : List Char) : Prop where
  text : source.toList = before ++ stretch ++ after
  earlier : faultsIn before = faults.take i
  through : faultsIn (before ++ stretch) = faults.take (i + 1)

section Places

variable {source : String} {ps qs : List Piece} {p : Piece} {i : Nat}

theorem pieces_front (h : pieces source = ps ++ qs) :
    pieces (String.ofList (ps.flatMap Piece.text)) = ps := by
  unfold pieces
  rw [String.toList_ofList]
  exact piecesFrom_front h

/-- The place of a piece of a whole text. -/
theorem pieces_place (h : pieces source = ps ++ p :: qs) :
    ∃ after, source.toList = ps.flatMap Piece.text ++ p.text ++ after ∧
      Stands p.shape p.text after ∧ p.line = 1 + lineEnds (ps.flatMap Piece.text ++ p.text) := by
  have hdivides := piecesFrom_divides 1 source.toList
  rw [show piecesFrom 1 source.toList = _ from h] at hdivides
  exact hdivides.place

/-- The front of a text without faults has none, and the tokens of its pieces. -/
theorem scanTokens_front (h : pieces source = ps ++ qs)
    (hclean : (pieces source).filterMap Piece.fault? = []) :
    scanTokens (String.ofList (ps.flatMap Piece.text)) =
      .tokens
        (ps.filterMap Piece.token? ++ [endToken (String.ofList (ps.flatMap Piece.text))]) := by
  rw [h, List.filterMap_append] at hclean
  have hnone := (List.append_eq_nil_iff.1 hclean).1
  exact scanTokens_eq_tokens_iff.2
    (scan_eq_ok_iff.2 ⟨by rw [pieces_front h, hnone], by rw [pieces_front h]⟩)

/-- The faults of the front of a text are those of its pieces. -/
theorem faultsIn_front (h : pieces source = ps ++ qs) :
    faultsIn (ps.flatMap Piece.text) = ps.filterMap Piece.fault? := by
  rw [faultsIn_eq, piecesFrom_front h]

/-- **The line of a token is the one on which its text ends.** -/
theorem line_of_token {words : List Token} {t : Token}
    (h : scan source = .ok (words ++ [endToken source])) (ht : words[i]? = some t) :
    ∃ before after, TokenAt source words i t before after ∧
      t.line = 1 + lineEnds (before ++ t.lexeme.toList) := by
  obtain ⟨hclean, hwords⟩ := scan_eq_ok_iff.1 h
  obtain rfl := List.append_cancel_right hwords
  obtain ⟨ps, p, qs, hpieces, hp, hearlier, hthrough⟩ := exists_piece ht
  obtain ⟨after, hsource, -, hends⟩ := pieces_place hpieces
  obtain ⟨-, -, hlexeme, hline⟩ := Piece.token?_eq_some_iff.1 hp
  have htext : t.lexeme.toList = p.text := by rw [hlexeme, String.toList_ofList]
  have hfront : ps.flatMap Piece.text ++ p.text = (ps ++ [p]).flatMap Piece.text := by simp
  refine ⟨ps.flatMap Piece.text, after, ⟨?_, ?_, ?_⟩, ?_⟩
  · rw [htext, hsource]
  · rw [← hearlier]
    exact scanTokens_front hpieces hclean
  · rw [htext, hfront, ← hthrough]
    exact scanTokens_front (hpieces.trans (List.append_cons ..)) hclean
  · rw [hline, hends, htext]

/-- **What the cause of a fault says about its place and its line:** a stray character
is on the line that it stands on, and what is never closed goes on to the last line. -/
def ScanFault.Fits (f : ScanFault) (source : String) (before stretch after : List Char) : Prop :=
  match f.cause with
  | .unexpectedCharacter c => stretch = [c] ∧ f.line = 1 + lineEnds before
  | .unterminatedString | .unterminatedComment => after = [] ∧ f.line = 1 + lineEnds source.toList

theorem Stands.fits {line : Nat} {cause : ScanCause} {before stretch after : List Char}
    (h : Stands (.fault cause) stretch after) (hsource : source.toList = before ++ stretch ++ after)
    (hline : line = 1 + lineEnds (before ++ stretch)) :
    ScanFault.Fits ⟨line, cause⟩ source before stretch after := by
  cases h with
  | openString hbody => exact ⟨rfl, by rw [hline, hsource, List.append_nil]⟩
  | openComment hbody => exact ⟨rfl, by rw [hline, hsource, List.append_nil]⟩
  | loneBar hrest => exact ⟨rfl, by rw [hline, lineEnds_append]; rfl⟩
  | @stray c rest hc =>
    have hne : '\n' ∉ [c] := fun hmem => hc (.inr (.inl (List.mem_singleton.1 hmem).symm))
    have hzero : lineEnds [c] = 0 := List.count_eq_zero.2 hne
    exact ⟨rfl, by rw [hline, lineEnds_append, hzero]; rfl⟩

/-- **The line of a fault is the one that its cause says.** -/
theorem line_of_fault {faults : List ScanFault} {f : ScanFault}
    (h : scan source = .error faults) (hf : faults[i]? = some f) :
    ∃ before stretch after, FaultAt source faults i before stretch after ∧
      f.Fits source before stretch after := by
  obtain ⟨rfl, -⟩ := eq_of_scan_error h
  obtain ⟨ps, p, qs, hpieces, hp, hearlier, hthrough⟩ := exists_piece hf
  obtain ⟨after, hsource, hstands, hends⟩ := pieces_place hpieces
  obtain ⟨hshape, hline⟩ := Piece.fault?_eq_some_iff.1 hp
  have hfront : ps.flatMap Piece.text ++ p.text = (ps ++ [p]).flatMap Piece.text := by simp
  refine ⟨ps.flatMap Piece.text, p.text, after, ⟨hsource, ?_, ?_⟩, ?_⟩
  · rw [← hearlier]
    exact faultsIn_front hpieces
  · rw [hfront, ← hthrough]
    exact faultsIn_front (hpieces.trans (List.append_cons ..))
  · rw [hshape] at hstands
    exact hstands.fits hsource (hline.trans hends)

end Places

/-- **Line numbers are exact.** For every text:

  • a scan that succeeds ends with a token on line 1 plus the number of all line
    ends, and each token before it, at its place in the text, is on line 1 plus the
    number of line ends in front of the end of its lexeme;
  • a fault that a scan finds, at its place in the text, is on line 1 plus the number
    of line ends in front of it if it is a stray character, and on line 1 plus the
    number of all line ends if it is a string or a comment that is never closed; and
    every fault is counted once;
  • there is no other outcome: the scanner is never broken. -/
theorem line_numbers_are_exact (source : String) :
    (∀ tokens, scanTokens source = .tokens tokens →
      ∃ words, tokens = words ++ [⟨.endOfInput, "", 1 + lineEnds source.toList⟩] ∧
        ∀ (i : Nat) (t : Token), words[i]? = some t →
          ∃ before after, TokenAt source words i t before after ∧
            t.line = 1 + lineEnds (before ++ t.lexeme.toList)) ∧
    (∀ faults count, scanTokens source = .faults faults count →
      count = faults.length ∧ ∀ (i : Nat) (f : ScanFault), faults[i]? = some f →
        ∃ before stretch after, FaultAt source faults i before stretch after ∧
          f.Fits source before stretch after) ∧
    ∀ faults text, scanTokens source ≠ .broken faults text := by
  refine ⟨fun tokens h => ?_, fun faults count h => ?_, scanTokens_ne_broken source⟩
  · have hscan := scanTokens_eq_tokens_iff.1 h
    obtain ⟨-, htokens⟩ := scan_eq_ok_iff.1 hscan
    rw [htokens] at hscan
    exact ⟨_, htokens, fun i t ht => line_of_token hscan ht⟩
  · obtain ⟨hscan, hcount⟩ := scanTokens_eq_faults_iff.1 h
    exact ⟨hcount, fun i f hf => line_of_fault hscan hf⟩

-- A string over two lines is on its last line, and a line end in a comment counts once.
example : (match scanTokens "a\n/* x\ny */ b\n\"s\nt\" c" with
    | .tokens tokens => tokens.map Token.line
    | _ => []) = [1, 3, 5, 5, 5] := by
  decide +kernel

end Lox
