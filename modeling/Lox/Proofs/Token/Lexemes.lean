/-
  Lox.Proofs.Token.Lexemes
  ────────────────────────────────
  **THE LONGEST TOKEN, AND NOTHING LOST.**

  `Lexeme` lists the texts of symbols, words and numbers, and `Stands` says what a
  piece of a text may be, with an eye on what follows it: a symbol, a word or a
  number is the longest one that begins there, a comment and a string end at the
  first mark that ends them, and a stretch is a fault only for one of four
  reasons.  None of the rules says how a piece is found.

  They leave no choice: at every place of every text exactly one of them applies,
  and `cut` takes the piece that it allows (`stands_iff`).  So the pieces of a
  text are the one way to divide it by the rules, and what a scan gives or reports
  is read off from them.
-/
import Lox.Proofs.Sessions
import Lox.Proofs.Token.Joined
import Mathlib.Data.List.TakeWhile

namespace Lox

/-! ## §1. The rules. -/

/-- One digit or more. -/
def Digits (ds : List Char) : Prop := ds ≠ [] ∧ ∀ d ∈ ds, d.isDigit = true

/-- **The texts of symbols, words and numbers.** A word is reserved if the table
has it, and a name otherwise. -/
inductive Lexeme : TokenKind → List Char → Prop where
  | symbol (s : Symbol) : Lexeme (.symbol s) s.text.toList
  | keyword (k : Keyword) : Lexeme (.keyword k) k.text.toList
  | identifier {c : Char} {cs : List Char} (hc : isWordStart c = true)
      (hcs : ∀ d ∈ cs, isWordChar d = true) (hname : ∀ k : Keyword, k.text.toList ≠ c :: cs) :
      Lexeme .identifier (c :: cs)
  | whole {ds : List Char} (hds : Digits ds) : Lexeme (.number (Number.ofDecimal ds [])) ds
  | decimal {ds fs : List Char} (hds : Digits ds) (hfs : Digits fs) :
      Lexeme (.number (Number.ofDecimal ds fs)) (ds ++ '.' :: fs)

/-- No symbol, word or number that begins here is longer. -/
def Longest (text rest : List Char) : Prop :=
  ∀ kind longer, Lexeme kind longer → longer <+: text ++ rest → longer.length ≤ text.length

/-- A character begins a piece that is no fault. -/
def Begins (c : Char) : Prop :=
  isBlankChar c = true ∨ c = '\n' ∨ c = '"' ∨ ∃ kind cs, Lexeme kind (c :: cs)

/-- **What a piece may be,** with a text behind it. -/
inductive Stands : Shape → List Char → List Char → Prop where
  /-- The longest symbol, word or number; a slash only where it begins no comment. -/
  | lexeme {kind : TokenKind} {text rest : List Char} (h : Lexeme kind text)
      (hlongest : Longest text rest)
      (hcomment : text = ['/'] → rest.head? ≠ some '/' ∧ rest.head? ≠ some '*') :
      Stands (.token kind) text rest
  | blank {c : Char} (rest : List Char) (hc : isBlankChar c = true) :
      Stands (.token .blank) [c] rest
  | newLine (rest : List Char) : Stands (.token .newLine) ['\n'] rest
  /-- Up to the next line end, which is not part of it. -/
  | lineComment {body rest : List Char} (hbody : '\n' ∉ body)
      (hrest : ∀ c, rest.head? = some c → c = '\n') :
      Stands (.token .comment) ('/' :: '/' :: body) rest
  /-- Up to and with the first `*/`. -/
  | blockComment {body : List Char} (rest : List Char) (hbody : ¬ ['*', '/'] <:+: body) :
      Stands (.token .comment) ('/' :: '*' :: (body ++ ['*', '/'])) rest
  /-- Up to and with the next quote; its value is what stands between the quotes. -/
  | string {body : List Char} (rest : List Char) (hbody : '"' ∉ body) :
      Stands (.token (.string (String.ofList body))) ('"' :: (body ++ ['"'])) rest
  | openString {body : List Char} (hbody : '"' ∉ body) :
      Stands (.fault .unterminatedString) ('"' :: body) []
  | openComment {body : List Char} (hbody : ¬ ['*', '/'] <:+: body) :
      Stands (.fault .unterminatedComment) ('/' :: '*' :: body) []
  | loneBar {rest : List Char} (hrest : rest.head? ≠ some '>') :
      Stands (.fault (.unexpectedCharacter '|')) ['|'] rest
  | stray {c : Char} (rest : List Char) (hc : ¬ Begins c) :
      Stands (.fault (.unexpectedCharacter c)) [c] rest

/-- **A division of a text into pieces** by the rules, from a line on. -/
inductive Divides : Nat → List Char → List Piece → Prop where
  | nil (line : Nat) : Divides line [] []
  | cons {line : Nat} {shape : Shape} {text rest : List Char} {ps : List Piece}
      (h : Stands shape text rest) (hrest : Divides (line + lineEnds text) rest ps) :
      Divides line (text ++ rest) (⟨shape, text, line + lineEnds text⟩ :: ps)

theorem Lexeme.ne_nil {kind : TokenKind} {text : List Char} (h : Lexeme kind text) :
    text ≠ [] := by
  cases h with
  | symbol s => cases s <;> decide
  | keyword k => cases k <;> decide
  | identifier hc hcs hname => exact nofun
  | whole hds => exact hds.1
  | decimal hds hfs => simp

theorem Stands.ne_nil {shape : Shape} {text rest : List Char} (h : Stands shape text rest) :
    text ≠ [] := by
  cases h with
  | lexeme h => exact h.ne_nil
  | _ => exact nofun

/-! ## §2. Stretches of characters. -/

section Stretches

variable {p : Char → Bool} {body rest more : List Char}

/-- A class of characters stops at a rest that does not begin with one of them. -/
def Stops (p : Char → Bool) (rest : List Char) : Prop := ∀ d, rest.head? = some d → p d = false

theorem stops_dropWhile (p : Char → Bool) (cs : List Char) : Stops p (cs.dropWhile p) := by
  intro d hd
  have hhead := List.head?_dropWhile_not p cs
  rw [hd] at hhead
  exact hhead

theorem takeWhile_of_stops (h : ∀ d ∈ body, p d = true) (hrest : Stops p rest) :
    (body ++ rest).takeWhile p = body := by
  rw [List.takeWhile_append_of_pos h]
  cases rest with
  | nil => exact List.append_nil body
  | cons d rest => simp [hrest d rfl]

theorem dropWhile_of_stops (h : ∀ d ∈ body, p d = true) (hrest : Stops p rest) :
    (body ++ rest).dropWhile p = rest := by
  rw [List.dropWhile_append_of_pos h]
  cases rest with
  | nil => rfl
  | cons d rest => simp [hrest d rfl]

theorem stops_cons {c : Char} (hc : p c = false) (rest : List Char) : Stops p (c :: rest) := by
  intro d hd
  rw [← Option.some.inj hd]
  exact hc

/-- A stretch of one class and what follows it are determined by the text. -/
theorem append_inj_of_stops {es after : List Char} (hbody : ∀ d ∈ body, p d = true)
    (hes : ∀ d ∈ es, p d = true) (hrest : Stops p rest) (hafter : Stops p after)
    (h : body ++ rest = es ++ after) : body = es ∧ rest = after := by
  refine ⟨?_, ?_⟩
  · rw [← takeWhile_of_stops hbody hrest, h, takeWhile_of_stops hes hafter]
  · rw [← dropWhile_of_stops hbody hrest, h, dropWhile_of_stops hes hafter]

/-- A stretch up to a mark stops at the mark. -/
theorem stops_ne_iff {x : Char} :
    Stops (fun c => decide (c ≠ x)) rest ↔ ∀ c, rest.head? = some c → c = x := by
  refine forall₂_congr fun c _ => ?_
  rw [decide_eq_false_iff_not, not_not]

theorem not_mem_takeWhile_ne (x : Char) (cs : List Char) : x ∉ cs.takeWhile (· ≠ x) := by
  intro h
  have hclass := List.mem_takeWhile_imp h
  exact absurd rfl (of_decide_eq_true hclass)

theorem ne_of_not_mem {x : Char} (h : x ∉ body) : ∀ d ∈ body, decide (d ≠ x) = true := by
  intro d hd
  refine decide_eq_true ?_
  rintro rfl
  exact h hd

/-- A stretch of one class is no longer than the text up to where the class stops. -/
theorem length_le_of_stops (h : ∀ d ∈ more, p d = true) (hmore : more <+: body ++ rest)
    (hrest : Stops p rest) : more.length ≤ body.length := by
  by_contra hlt
  have hbody : body <+: more :=
    List.prefix_of_prefix_length_le (List.prefix_append body rest) hmore (by omega)
  obtain ⟨after, rfl⟩ := hbody
  obtain ⟨d, after, rfl⟩ : ∃ d after', after = d :: after' := by
    refine List.exists_cons_of_ne_nil fun hnil => hlt ?_
    rw [hnil, List.append_nil]
  have hhead : rest.head? = some d := by
    obtain ⟨rest', rfl⟩ := (List.prefix_append_right_inj body).1 hmore
    rfl
  have hd : p d = true := h d (List.mem_append_right body (.head _))
  rw [hrest d hhead] at hd
  cases hd

end Stretches

/-! ## §3. Texts of tokens. -/

section Lexemes

variable {kind : TokenKind} {c d : Char} {cs ds fs text rest more : List Char}

/-- Only texts that begin with the same character compete. -/
theorem longest_cons (h : ∀ kind more, Lexeme kind (c :: more) → more <+: cs ++ rest →
    more.length ≤ cs.length) : Longest (c :: cs) rest := by
  intro kind longer hlonger hbefore
  cases longer with
  | nil => exact Nat.zero_le _
  | cons d more =>
    obtain ⟨rfl, hmore⟩ := List.cons_prefix_cons.1 hbefore
    exact Nat.succ_le_succ (h kind more hlonger hmore)

/-- A longest text does not go on with a character that would make it longer. -/
theorem Longest.stops {p : Char → Bool} (h : Longest text rest)
    (hlonger : ∀ d, p d = true → ∃ kind, Lexeme kind (text ++ [d])) : Stops p rest := by
  intro d hd
  by_contra hp
  obtain ⟨kind, hkind⟩ := hlonger d (Bool.of_not_eq_false hp)
  obtain ⟨after, rfl⟩ := List.head?_eq_some_iff.1 hd
  have hlength := h kind (text ++ [d]) hkind ⟨after, by simp⟩
  rw [List.length_append, List.length_singleton] at hlength
  omega

theorem Keyword.text_eq_of_ofText? {s : String} {k : Keyword} (h : Keyword.ofText? s = some k) :
    k.text = s := of_decide_eq_true (List.find?_some h :)

theorem Keyword.text_word (k : Keyword) (h : k.text.toList = c :: cs) :
    isWordStart c = true ∧ ∀ d ∈ cs, isWordChar d = true := by
  have hword : (isWordStart c && cs.all isWordChar) = true := by
    cases k <;> (simp [text] at h; obtain ⟨rfl, rfl⟩ := h; rfl)
  rw [Bool.and_eq_true, List.all_eq_true] at hword
  exact hword

theorem Symbol.text_plain (s : Symbol) (h : s.text.toList = c :: cs) :
    isWordStart c = false ∧ c.isDigit = false := by
  cases s <;> (simp [text] at h; obtain ⟨rfl, rfl⟩ := h; decide)

theorem isDigit_of_wordStart (h : isWordStart c = true) : c.isDigit = false := by
  by_cases hc : c = '_'
  · subst hc
    rfl
  · have hword : isWordStart c = ((decide (c.val ≥ 'A'.val ∧ c.val ≤ 'Z'.val) ||
        (decide (c.val ≥ 'a'.val) && decide (c.val ≤ 'z'.val))) || decide (c = '_')) := rfl
    simp [hword, UInt32.le_iff_toNat_le, hc] at h
    simp [Char.isDigit, UInt32.le_iff_toNat_le]
    omega

theorem Digits.cons (h : Digits ds) : ∃ c cs, ds = c :: cs ∧ c.isDigit = true := by
  obtain ⟨c, cs, rfl⟩ := List.exists_cons_of_ne_nil h.1
  exact ⟨c, cs, rfl, h.2 c (.head _)⟩

theorem Digits.concat (h : Digits ds) (hd : d.isDigit = true) : Digits (ds ++ [d]) := by
  refine ⟨by simp, fun e he => ?_⟩
  rcases List.mem_append.1 he with he | he
  · exact h.2 e he
  · rw [List.mem_singleton.1 he]
    exact hd

theorem Digits.append_head? (h : Digits ds) (rest : List Char) :
    ∃ c, (ds ++ rest).head? = some c ∧ c.isDigit = true := by
  obtain ⟨c, cs, rfl, hc⟩ := h.cons
  exact ⟨c, rfl, hc⟩

theorem digits_takeWhile (hc : c.isDigit = true) (cs : List Char) :
    Digits (c :: cs.takeWhile Char.isDigit) := by
  refine ⟨nofun, fun d hd => ?_⟩
  rcases List.mem_cons.1 hd with rfl | hd
  · exact hc
  · exact List.mem_takeWhile_imp hd

/-! ### Words. -/

/-- A word has the kind that the table says. -/
theorem lexeme_word (hc : isWordStart c = true) (hcs : ∀ d ∈ cs, isWordChar d = true) :
    Lexeme (Cut.wordKind (c :: cs)) (c :: cs) := by
  unfold Cut.wordKind
  split
  · next k hk =>
    have htext : k.text.toList = c :: cs := by
      rw [Keyword.text_eq_of_ofText? hk, String.toList_ofList]
    exact htext ▸ .keyword k
  · next hnone =>
    refine .identifier hc hcs fun k hk => ?_
    rw [← hk, String.ofList_toList, Keyword.ofText?_text] at hnone
    cases hnone

/-- **What begins with a character:** words, numbers and symbols have their first
characters to themselves. -/
theorem Lexeme.inversion (h : Lexeme kind (c :: cs)) :
    (isWordStart c = true ∧ kind = Cut.wordKind (c :: cs) ∧ ∀ d ∈ cs, isWordChar d = true) ∨
      (c.isDigit = true ∧ (Digits (c :: cs) ∧ kind = .number (Number.ofDecimal (c :: cs) []) ∨
        ∃ ds fs, Digits ds ∧ Digits fs ∧ c :: cs = ds ++ '.' :: fs ∧
          kind = .number (Number.ofDecimal ds fs))) ∨
      ∃ s : Symbol, kind = .symbol s ∧ s.text.toList = c :: cs := by
  generalize htext : c :: cs = text at h ⊢
  cases h with
  | symbol s => exact .inr (.inr ⟨s, rfl, rfl⟩)
  | keyword k =>
    obtain ⟨hc, hcs⟩ := k.text_word htext.symm
    refine .inl ⟨hc, ?_, hcs⟩
    unfold Cut.wordKind
    rw [String.ofList_toList, Keyword.ofText?_text]
  | identifier hc hcs hname =>
    obtain ⟨rfl, rfl⟩ := List.cons.inj htext
    refine .inl ⟨hc, ?_, hcs⟩
    unfold Cut.wordKind
    split
    · next k hk =>
      refine absurd ?_ (hname k)
      rw [Keyword.text_eq_of_ofText? hk, String.toList_ofList]
    · rfl
  | whole hds => exact .inr (.inl ⟨hds.2 c (htext ▸ .head _), .inl ⟨hds, rfl⟩⟩)
  | decimal hds hfs =>
    obtain ⟨e, he, hdigit⟩ := hds.append_head? _
    rw [← htext] at he
    obtain rfl := Option.some.inj he
    exact .inr (.inl ⟨hdigit, .inr ⟨_, _, hds, hfs, rfl, rfl⟩⟩)

theorem Lexeme.word (h : Lexeme kind (c :: cs)) (hc : isWordStart c = true) :
    kind = Cut.wordKind (c :: cs) ∧ ∀ d ∈ cs, isWordChar d = true := by
  rcases h.inversion with ⟨-, hword⟩ | ⟨hdigit, -⟩ | ⟨s, -, hs⟩
  · exact hword
  · rw [isDigit_of_wordStart hc] at hdigit
    cases hdigit
  · rw [(s.text_plain hs).1] at hc
    cases hc

theorem Lexeme.number (h : Lexeme kind (c :: cs)) (hc : c.isDigit = true) :
    Digits (c :: cs) ∧ kind = .number (Number.ofDecimal (c :: cs) []) ∨
      ∃ ds fs, Digits ds ∧ Digits fs ∧ c :: cs = ds ++ '.' :: fs ∧
        kind = .number (Number.ofDecimal ds fs) := by
  rcases h.inversion with ⟨hword, -⟩ | ⟨-, hnumber⟩ | ⟨s, -, hs⟩
  · rw [isDigit_of_wordStart hword] at hc
    cases hc
  · exact hnumber
  · rw [(s.text_plain hs).2] at hc
    cases hc

theorem Lexeme.symbol_of_text {s : Symbol} (h : Lexeme kind (c :: cs))
    (hs : s.text.toList = c :: more) :
    ∃ u : Symbol, kind = .symbol u ∧ u.text.toList = c :: cs := by
  have hplain := s.text_plain hs
  rcases h.inversion with ⟨hword, -⟩ | ⟨hdigit, -⟩ | hsymbol
  · rw [hplain.1] at hword
    cases hword
  · rw [hplain.2] at hdigit
    cases hdigit
  · exact hsymbol

/-- **A word is longest** where no character of a word follows. -/
theorem longest_word_iff (hc : isWordStart c = true) (hcs : ∀ d ∈ cs, isWordChar d = true) :
    Longest (c :: cs) rest ↔ Stops isWordChar rest := by
  constructor
  · intro h
    refine h.stops fun d hd => ⟨_, lexeme_word hc fun e he => ?_⟩
    rcases List.mem_append.1 he with he | he
    · exact hcs e he
    · rw [List.mem_singleton.1 he]
      exact hd
  · intro hrest
    refine longest_cons fun kind more hmore hbefore => ?_
    exact length_le_of_stops (hmore.word hc).2 hbefore hrest

/-! ### Numbers. -/

/-- A point with a digit behind it. -/
def PointDigit (rest : List Char) : Prop := ∃ d after, rest = '.' :: d :: after ∧ d.isDigit = true

theorem stops_point (fs : List Char) : Stops Char.isDigit ('.' :: fs) := stops_cons rfl fs

/-- **A whole number is longest** where neither a digit nor a fraction follows. -/
theorem longest_whole_iff (hds : Digits ds) :
    Longest ds rest ↔ Stops Char.isDigit rest ∧ ¬ PointDigit rest := by
  constructor
  · intro h
    refine ⟨h.stops fun d hd => ⟨_, .whole (hds.concat hd)⟩, ?_⟩
    · rintro ⟨d, after, rfl, hd⟩
      have hlonger : Lexeme _ (ds ++ ['.', d]) :=
        .decimal hds ⟨nofun, fun e he => List.mem_singleton.1 he ▸ hd⟩
      have hlength := h _ _ hlonger ⟨after, by simp⟩
      simp only [List.length_append, List.length_cons, List.length_nil] at hlength
      omega
  · rintro ⟨hstop, hpoint⟩ kind longer hlonger hbefore
    obtain ⟨c, cs, rfl, hc⟩ := hds.cons
    cases longer with
    | nil => exact Nat.zero_le _
    | cons d more =>
      obtain ⟨rfl, -⟩ := List.cons_prefix_cons.1 hbefore
      rcases hlonger.number hc with ⟨hmore, -⟩ | ⟨es, fs, hes, hfs, htext, -⟩
      · exact length_le_of_stops hmore.2 hbefore hstop
      · rw [htext] at hbefore
        obtain ⟨after, hafter⟩ := hbefore
        rw [List.append_assoc] at hafter
        obtain ⟨-, hrest⟩ := append_inj_of_stops hes.2 hds.2 (stops_point _) hstop hafter
        obtain ⟨f, fs, rfl, hf⟩ := hfs.cons
        exact absurd ⟨f, _, hrest.symm, hf⟩ hpoint

/-- **A number with a fraction is longest** where no digit follows. -/
theorem longest_decimal_iff (hds : Digits ds) (hfs : Digits fs) :
    Longest (ds ++ '.' :: fs) rest ↔ Stops Char.isDigit rest := by
  constructor
  · intro h
    refine h.stops fun d hd => ⟨.number (Number.ofDecimal ds (fs ++ [d])), ?_⟩
    rw [List.append_assoc]
    exact .decimal hds (hfs.concat hd)
  · intro hstop kind longer hlonger hbefore
    obtain ⟨c, cs, rfl, hc⟩ := hds.cons
    rw [List.append_assoc] at hbefore
    cases longer with
    | nil => exact Nat.zero_le _
    | cons d more =>
      obtain ⟨rfl, -⟩ := List.cons_prefix_cons.1 hbefore
      rcases hlonger.number hc with ⟨hmore, -⟩ | ⟨es, gs, hes, hgs, htext, -⟩
      · have hlength := length_le_of_stops hmore.2 hbefore (stops_point _)
        rw [List.length_append]
        omega
      · rw [htext] at hbefore ⊢
        obtain ⟨after, hafter⟩ := hbefore
        rw [List.append_assoc] at hafter
        obtain ⟨rfl, hrest⟩ := append_inj_of_stops hes.2 hds.2 (stops_point _) (stops_point _) hafter
        have hfraction : gs <+: fs ++ rest := ⟨after, (List.cons.inj hrest).2⟩
        have hlength := length_le_of_stops hgs.2 hfraction hstop
        simp only [List.length_append, List.length_cons]
        omega

/-! ### Symbols. -/

/-- Where a symbol that begins with a character can end, and which characters
begin one. -/
theorem Symbol.text_cons {s : Symbol} (h : s.text.toList = c :: more) :
    (Symbol.single? c = some s ∧ more = []) ∨
      (∃ short long, Symbol.extensible? c = some (short, long) ∧
        (s = short ∧ more = [] ∨ s = long ∧ more = ['='])) ∨
      (c = '|' ∧ more = ['>']) ∨ (c = '/' ∧ more = []) := by
  cases s <;> (simp [text] at h; obtain ⟨rfl, rfl⟩ := h; simp [single?, extensible?])

theorem Symbol.single?_text {s : Symbol} (h : Symbol.single? c = some s) :
    s.text.toList = [c] := by
  unfold single? at h
  split at h <;> cases h <;> rfl

theorem Symbol.extensible?_text {short long : Symbol}
    (h : Symbol.extensible? c = some (short, long)) :
    short.text.toList = [c] ∧ long.text.toList = [c, '='] := by
  unfold extensible? at h
  split at h <;> cases h <;> exact ⟨rfl, rfl⟩

/-- **A symbol is longest** where nothing follows that would make it longer. -/
theorem longest_symbol {s : Symbol} (hs : s.text.toList = c :: cs)
    (h : ∀ u : Symbol, ∀ more, u.text.toList = c :: more → more <+: cs ++ rest →
      more.length ≤ cs.length) : Longest (c :: cs) rest := by
  refine longest_cons fun kind more hmore hbefore => ?_
  obtain ⟨u, -, hu⟩ := hmore.symbol_of_text hs
  exact h u more hu hbefore

end Lexemes

/-! ## §4. The end of a comment. -/

section Comments

variable {body cs : List Char}

/-- A text with an end of a comment in it has a first one. -/
theorem first_close (cs : List Char) :
    (∃ body rest, cs = body ++ '*' :: '/' :: rest ∧ ¬ ['*', '/'] <:+: body) ∨
      ¬ ['*', '/'] <:+: cs := by
  induction cs with
  | nil => exact .inr fun h => absurd (List.infix_nil.1 h) nofun
  | cons c cs ih =>
    by_cases hclose : ['*', '/'] <+: c :: cs
    · obtain ⟨rest, hrest⟩ := hclose
      exact .inl ⟨[], rest, hrest.symm, fun h => absurd (List.infix_nil.1 h) nofun⟩
    rcases ih with ⟨body, rest, rfl, hbody⟩ | hopen
    · refine .inl ⟨c :: body, rest, rfl, fun h => ?_⟩
      rcases List.infix_cons_iff.1 h with h | h
      · exact hclose (h.trans ⟨'*' :: '/' :: rest, rfl⟩)
      · exact hbody h
    · refine .inr fun h => ?_
      rcases List.infix_cons_iff.1 h with h | h
      · exact hclose h
      · exact hopen h

theorem throughClose_cons {c : Char} (h : ¬ ['*', '/'] <+: c :: cs) :
    Cut.throughClose (c :: cs) = ((Cut.throughClose cs).1, c :: (Cut.throughClose cs).2.1,
      (Cut.throughClose cs).2.2) := by
  rw [Cut.throughClose]
  rintro rest rfl rfl
  exact h ⟨rest, rfl⟩

theorem throughClose_closed (h : ¬ ['*', '/'] <:+: body) (rest : List Char) :
    Cut.throughClose (body ++ '*' :: '/' :: rest) = (true, body ++ ['*', '/'], rest) := by
  induction body with
  | nil => rfl
  | cons c body ih =>
    have hnot : ¬ ['*', '/'] <+: c :: (body ++ '*' :: '/' :: rest) := by
      rintro ⟨after, hafter⟩
      obtain ⟨rfl, hrest⟩ := List.cons.inj hafter
      cases body with
      | nil => exact absurd (List.cons.inj hrest).1 (by decide)
      | cons d body =>
        obtain ⟨rfl, -⟩ := List.cons.inj hrest
        exact h ⟨[], body, rfl⟩
    rw [List.cons_append, throughClose_cons hnot, ih fun hb => h (List.infix_cons hb)]
    rfl

theorem throughClose_open (h : ¬ ['*', '/'] <:+: cs) :
    Cut.throughClose cs = (false, cs, []) := by
  induction cs with
  | nil => rfl
  | cons c cs ih =>
    rw [throughClose_cons fun hc => h hc.isInfix, ih fun hc => h (List.infix_cons hc)]

end Comments

/-! ## §5. The first piece. -/

/-- A piece that the rules allow. -/
def Cut.Allowed (k : Cut) : Prop := Stands k.shape k.text k.rest

section FirstPiece

variable {c : Char} {cs : List Char}

theorem single_allowed {s : Symbol} (h : Symbol.single? c = some s) (cs : List Char) :
    (Cut.single c (.token (.symbol s)) cs).Allowed := by
  have htext := Symbol.single?_text h
  have hlexeme : Lexeme (.symbol s) [c] := htext ▸ .symbol s
  have hbar : c ≠ '|' ∧ c ≠ '/' ∧ Symbol.extensible? c = none := by
    unfold Symbol.single? at h
    split at h <;> cases h <;> decide
  refine .lexeme hlexeme (longest_symbol htext fun u more hu _ => ?_) fun hslash => ?_
  · rcases Symbol.text_cons hu with ⟨-, rfl⟩ | ⟨short, long, hext, -⟩ | ⟨hc, -⟩ | ⟨-, rfl⟩
    · exact Nat.le_refl _
    · rw [hbar.2.2] at hext
      cases hext
    · exact absurd hc hbar.1
    · exact Nat.le_refl _
  · exact absurd (List.cons.inj hslash).1 hbar.2.1

theorem extensible_allowed {short long : Symbol}
    (h : Symbol.extensible? c = some (short, long)) (cs : List Char) :
    (Cut.extensible c short long cs).Allowed := by
  obtain ⟨hshort, hlong⟩ := Symbol.extensible?_text h
  have hne : c ≠ '|' ∧ c ≠ '/' ∧ Symbol.single? c = none := by
    unfold Symbol.extensible? at h
    split at h <;> cases h <;> decide
  -- A symbol that begins like this one ends here or with the next `=`.
  have hmore : ∀ (u : Symbol) more, u.text.toList = c :: more → more = [] ∨ more = ['='] := by
    intro u more hu
    rcases Symbol.text_cons hu with
      ⟨-, hnil⟩ | ⟨-, -, -, ⟨-, hnil⟩ | ⟨-, heq⟩⟩ | ⟨hc, -⟩ | ⟨-, hnil⟩
    · exact .inl hnil
    · exact .inl hnil
    · exact .inr heq
    · exact absurd hc hne.1
    · exact .inl hnil
  unfold Cut.extensible
  split
  · next rest =>
    refine .lexeme (hlong ▸ .symbol long) (longest_symbol hlong fun u more hu _ => ?_) nofun
    rcases hmore u more hu with rfl | rfl
    · exact Nat.zero_le _
    · exact Nat.le_refl _
  · next hrest =>
    refine .lexeme (hshort ▸ .symbol short) (longest_symbol hshort fun u more hu hbefore => ?_)
      fun hslash => absurd (List.cons.inj hslash).1 hne.2.1
    rcases hmore u more hu with rfl | rfl
    · exact Nat.le_refl _
    · obtain ⟨after, hafter⟩ := hbefore
      exact absurd hafter.symm (hrest after)

theorem bar_allowed (cs : List Char) : (Cut.bar cs).Allowed := by
  unfold Cut.bar
  split
  · next rest =>
    have htext : Symbol.pipe.text.toList = ['|', '>'] := rfl
    refine .lexeme (.symbol .pipe) (longest_symbol htext fun u more hu _ => ?_) nofun
    rcases Symbol.text_cons hu with ⟨-, rfl⟩ | ⟨_, _, hext, -⟩ | ⟨-, rfl⟩ | ⟨-, rfl⟩
    · exact Nat.zero_le _
    · cases hext
    · exact Nat.le_refl _
    · exact Nat.zero_le _
  · next hrest =>
    refine .loneBar fun h => ?_
    obtain ⟨rest, hcs⟩ := List.head?_eq_some_iff.1 h
    exact hrest rest hcs

theorem slash_allowed (cs : List Char) : (Cut.slash cs).Allowed := by
  unfold Cut.slash
  split
  · next rest =>
    exact .lineComment (not_mem_takeWhile_ne '\n' rest)
      (stops_ne_iff.1 (stops_dropWhile _ ('/' :: rest)))
  · next after =>
    rcases first_close after with ⟨body, rest, rfl, hbody⟩ | hopen
    · rw [throughClose_closed hbody]
      exact .blockComment rest hbody
    · rw [throughClose_open hopen]
      exact .openComment hopen
  · next hline hblock =>
    have htext : Symbol.slash.text.toList = ['/'] := rfl
    refine .lexeme (.symbol .slash) (longest_symbol htext fun u more hu _ => ?_) fun _ => ?_
    · rcases Symbol.text_cons hu with ⟨-, rfl⟩ | ⟨_, _, hext, -⟩ | ⟨hc, -⟩ | ⟨-, rfl⟩
      · exact Nat.le_refl _
      · cases hext
      · exact absurd hc (by decide)
      · exact Nat.le_refl _
    · refine ⟨fun h => ?_, fun h => ?_⟩
      · obtain ⟨rest, hcs⟩ := List.head?_eq_some_iff.1 h
        exact hline rest hcs
      · obtain ⟨rest, hcs⟩ := List.head?_eq_some_iff.1 h
        exact hblock rest hcs

theorem string_allowed (cs : List Char) : (Cut.string cs).Allowed := by
  have hbody := not_mem_takeWhile_ne '"' cs
  have hclose := stops_ne_iff.1 (stops_dropWhile (fun c => decide (c ≠ '"')) cs)
  unfold Cut.string
  split
  · exact .openString hbody
  · next quote rest hrest =>
    obtain rfl : quote = '"' := hclose quote (by rw [hrest]; rfl)
    exact .string rest hbody

theorem word_allowed (hc : isWordStart c = true) (cs : List Char) : (Cut.word c cs).Allowed := by
  have hword : ∀ d ∈ cs.takeWhile isWordChar, isWordChar d = true := fun d hd =>
    List.mem_takeWhile_imp hd
  refine .lexeme (lexeme_word hc hword) ((longest_word_iff hc hword).2 (stops_dropWhile _ _)) ?_
  intro hslash
  rw [(List.cons.inj hslash).1] at hc
  exact absurd hc (by decide)

theorem number_allowed (hc : c.isDigit = true) (cs : List Char) : (Cut.number c cs).Allowed := by
  have hslash : ∀ {text : List Char}, c :: text ≠ ['/'] := by
    intro text h
    rw [(List.cons.inj h).1] at hc
    exact absurd hc (by decide)
  have hwhole := digits_takeWhile hc cs
  have hstops := stops_dropWhile Char.isDigit cs
  unfold Cut.number
  split
  · next d rest hrest =>
    by_cases hd : d.isDigit = true
    · rw [if_pos hd]
      have hfraction := digits_takeWhile hd rest
      exact .lexeme (.decimal hwhole hfraction)
        ((longest_decimal_iff hwhole hfraction).2 (stops_dropWhile _ _)) fun h => absurd h hslash
    · rw [if_neg hd]
      refine .lexeme (.whole hwhole) ((longest_whole_iff hwhole).2 ⟨stops_point _, ?_⟩)
        fun h => absurd h hslash
      rintro ⟨e, after, heq, he⟩
      obtain ⟨rfl, -⟩ := List.cons.inj (List.cons.inj heq).2
      exact hd he
  · next hrest =>
    refine .lexeme (.whole hwhole) ((longest_whole_iff hwhole).2 ⟨hstops, ?_⟩)
      fun h => absurd h hslash
    rintro ⟨e, after, heq, -⟩
    exact hrest e after heq

/-- A character that begins nothing else is a stray one. -/
theorem not_begins (hsingle : Symbol.single? c = none) (hext : Symbol.extensible? c = none)
    (hbar : c ≠ '|') (hslash : c ≠ '/') (hquote : c ≠ '"') (hline : c ≠ '\n')
    (hblank : ¬ isBlankChar c = true) (hdigit : ¬ c.isDigit = true)
    (hword : ¬ isWordStart c = true) : ¬ Begins c := by
  rintro (h | h | h | ⟨kind, cs, h⟩)
  · exact hblank h
  · exact hline h
  · exact hquote h
  · rcases h.inversion with ⟨h, -⟩ | ⟨h, -⟩ | ⟨s, -, hs⟩
    · exact hword h
    · exact hdigit h
    · rcases Symbol.text_cons hs with ⟨h, -⟩ | ⟨_, _, h, -⟩ | ⟨h, -⟩ | ⟨h, -⟩
      · rw [hsingle] at h
        cases h
      · rw [hext] at h
        cases h
      · exact hbar h
      · exact hslash h

/-- **The first piece is one that the rules allow.** -/
theorem cut_allowed (c : Char) (cs : List Char) : (cut c cs).Allowed := by
  unfold cut
  split
  · next s hsingle => exact single_allowed hsingle cs
  · next short long _ hext => exact extensible_allowed hext cs
  · next hsingle hext =>
    split
    · exact bar_allowed cs
    split
    · exact slash_allowed cs
    split
    · exact string_allowed cs
    split
    · next hline =>
      subst hline
      exact .newLine cs
    split
    · next hblank => exact .blank cs hblank
    split
    · next hdigit => exact number_allowed hdigit cs
    split
    · next hword => exact word_allowed hword cs
    · next hbar hslash hquote hline hblank hdigit hword =>
      exact .stray cs (not_begins hsingle hext hbar hslash hquote hline hblank hdigit hword)

/-! ### No other piece is allowed. -/

/-- A character that begins a symbol, a string or a separator. -/
def Special (c : Char) : Prop :=
  (∃ s : Symbol, s.text.toList.head? = some c) ∨ c = '"' ∨ c = '\n' ∨ isBlankChar c = true

theorem Special.plain (h : Special c) : isWordStart c = false ∧ c.isDigit = false := by
  rcases h with ⟨s, hs⟩ | rfl | rfl | h
  · obtain ⟨more, hmore⟩ := List.head?_eq_some_iff.1 hs
    exact s.text_plain hmore
  · decide
  · decide
  · simp only [isBlankChar, Bool.or_eq_true, decide_eq_true_eq] at h
    rcases h with (rfl | rfl) | rfl <;> decide

theorem Special.begins (h : Special c) : Begins c := by
  rcases h with ⟨s, hs⟩ | h | h | h
  · obtain ⟨more, hmore⟩ := List.head?_eq_some_iff.1 hs
    exact .inr (.inr (.inr ⟨.symbol s, more, hmore ▸ .symbol s⟩))
  · exact .inr (.inr (.inl h))
  · exact .inr (.inl h)
  · exact .inl h

/-- Other characters begin a number, a word or nothing. -/
theorem cut_of_not_special (h : ¬ Special c) (cs : List Char) :
    cut c cs = if c.isDigit then .number c cs else if isWordStart c then .word c cs
      else .single c (.fault (.unexpectedCharacter c)) cs := by
  have hsingle : Symbol.single? c = none := by
    cases hc : Symbol.single? c with
    | none => rfl
    | some s => exact absurd (.inl ⟨s, by rw [Symbol.single?_text hc]; rfl⟩) h
  have hext : Symbol.extensible? c = none := by
    cases hc : Symbol.extensible? c with
    | none => rfl
    | some pair => exact absurd (.inl ⟨pair.1, by rw [(Symbol.extensible?_text hc).1]; rfl⟩) h
  have hbar : c ≠ '|' := fun hc => h (.inl ⟨.pipe, hc ▸ rfl⟩)
  have hslash : c ≠ '/' := fun hc => h (.inl ⟨.slash, hc ▸ rfl⟩)
  have hquote : c ≠ '"' := fun hc => h (.inr (.inl hc))
  have hline : c ≠ '\n' := fun hc => h (.inr (.inr (.inl hc)))
  have hblank : ¬ isBlankChar c = true := fun hc => h (.inr (.inr (.inr hc)))
  unfold cut
  rw [hsingle, hext]
  dsimp only
  rw [if_neg hbar, if_neg hslash, if_neg hquote, if_neg hline, if_neg hblank]

theorem cut_word (h : isWordStart c = true) (cs : List Char) : cut c cs = .word c cs := by
  have hspecial : ¬ Special c := fun hc => by simp [hc.plain] at h
  rw [cut_of_not_special hspecial, isDigit_of_wordStart h, if_neg nofun, if_pos h]

theorem cut_digit (h : c.isDigit = true) (cs : List Char) : cut c cs = .number c cs := by
  have hspecial : ¬ Special c := fun hc => by simp [hc.plain] at h
  rw [cut_of_not_special hspecial, if_pos h]

theorem cut_stray (h : ¬ Begins c) (cs : List Char) :
    cut c cs = .single c (.fault (.unexpectedCharacter c)) cs := by
  have hdigit : ¬ c.isDigit = true := by
    intro hc
    have hone : Digits [c] := ⟨nofun, fun d hd => List.mem_singleton.1 hd ▸ hc⟩
    exact h (.inr (.inr (.inr ⟨_, [], .whole hone⟩)))
  have hword : ¬ isWordStart c = true := fun hc =>
    h (.inr (.inr (.inr ⟨_, [], lexeme_word hc nofun⟩)))
  rw [cut_of_not_special fun hc => h hc.begins, if_neg hdigit, if_neg hword]

theorem cut_extensible {short long : Symbol} (h : Symbol.extensible? c = some (short, long))
    (cs : List Char) : cut c cs = .extensible c short long cs := by
  have hsingle : Symbol.single? c = none := by
    unfold Symbol.extensible? at h
    split at h <;> cases h <;> rfl
  unfold cut
  rw [hsingle, h]

variable {rest : List Char}

/-- A longest word is the first piece. -/
theorem cut_longest_word {kind : TokenKind} (hc : isWordStart c = true)
    (h : Lexeme kind (c :: cs)) (hlongest : Longest (c :: cs) rest) :
    cut c (cs ++ rest) = ⟨.token kind, c :: cs, rest⟩ := by
  obtain ⟨rfl, hcs⟩ := h.word hc
  have hstops := (longest_word_iff hc hcs).1 hlongest
  rw [cut_word hc]
  unfold Cut.word
  rw [takeWhile_of_stops hcs hstops, dropWhile_of_stops hcs hstops]

/-- A longest number is the first piece. -/
theorem cut_longest_number {kind : TokenKind} (hc : c.isDigit = true)
    (h : Lexeme kind (c :: cs)) (hlongest : Longest (c :: cs) rest) :
    cut c (cs ++ rest) = ⟨.token kind, c :: cs, rest⟩ := by
  rw [cut_digit hc]
  unfold Cut.number
  rcases h.number hc with ⟨hds, rfl⟩ | ⟨ds, fs, hds, hfs, htext, rfl⟩
  · obtain ⟨hstops, hpoint⟩ := (longest_whole_iff hds).1 hlongest
    have hcs : ∀ d ∈ cs, d.isDigit = true := fun d hd => hds.2 d (.tail _ hd)
    rw [takeWhile_of_stops hcs hstops, dropWhile_of_stops hcs hstops]
    split
    · next d after =>
      rw [if_neg fun hd => hpoint ⟨d, after, rfl, hd⟩]
    · rfl
  · obtain ⟨e, es, rfl, -⟩ := hds.cons
    obtain ⟨f, gs, rfl, hf⟩ := hfs.cons
    have hstops := (longest_decimal_iff hds hfs).1 (htext ▸ hlongest)
    rw [List.cons_append] at htext
    obtain ⟨rfl, rfl⟩ := List.cons.inj htext
    have hes : ∀ d ∈ es, d.isDigit = true := fun d hd => hds.2 d (.tail _ hd)
    have hgs : ∀ d ∈ gs, d.isDigit = true := fun d hd => hfs.2 d (.tail _ hd)
    have hall : es ++ '.' :: f :: gs ++ rest = es ++ '.' :: f :: (gs ++ rest) := by simp
    rw [hall, takeWhile_of_stops hes (stops_point _), dropWhile_of_stops hes (stops_point _)]
    show (if f.isDigit then _ else _) = _
    rw [if_pos hf, takeWhile_of_stops hgs hstops, dropWhile_of_stops hgs hstops]
    rfl

/-- A symbol that is longest, and begins no comment, is the first piece. -/
theorem cut_longest_symbol {s : Symbol} (hs : s.text.toList = c :: cs)
    (hlongest : Longest (c :: cs) rest)
    (hcomment : c :: cs = ['/'] → rest.head? ≠ some '/' ∧ rest.head? ≠ some '*') :
    cut c (cs ++ rest) = ⟨.token (.symbol s), c :: cs, rest⟩ := by
  rcases Symbol.text_cons hs with
    ⟨h, rfl⟩ | ⟨short, long, h, ⟨rfl, rfl⟩ | ⟨rfl, rfl⟩⟩ | ⟨rfl, rfl⟩ | ⟨rfl, rfl⟩
  · unfold cut
    rw [h]
    rfl
  · have hlong : Lexeme (.symbol long) [c, '='] := (Symbol.extensible?_text h).2 ▸ .symbol long
    have hne : rest.head? ≠ some '=' := fun hd => by
      have hstops := hlongest.stops (p := (· = '=')) fun d hd => ⟨_, of_decide_eq_true hd ▸ hlong⟩
      exact absurd (hstops '=' hd) (by decide)
    rw [List.nil_append, cut_extensible h]
    unfold Cut.extensible
    split
    · exact absurd rfl hne
    · rfl
  · rw [cut_extensible h]
    rfl
  · obtain rfl : s = .pipe := by cases s <;> first | rfl | exact absurd hs (by decide)
    rfl
  · obtain rfl : s = .slash := by cases s <;> first | rfl | exact absurd hs (by decide)
    obtain ⟨hline, hblock⟩ := hcomment rfl
    show Cut.slash rest = _
    unfold Cut.slash
    split
    · exact absurd rfl hline
    · exact absurd rfl hblock
    · rfl

theorem bar_lone (h : rest.head? ≠ some '>') :
    Cut.bar rest = ⟨.fault (.unexpectedCharacter '|'), ['|'], rest⟩ := by
  unfold Cut.bar
  split
  · exact absurd rfl h
  · rfl

variable {body : List Char}

theorem slash_line (hbody : '\n' ∉ body) (hrest : ∀ c, rest.head? = some c → c = '\n') :
    Cut.slash ('/' :: body ++ rest) = ⟨.token .comment, '/' :: '/' :: body, rest⟩ := by
  have hclass := ne_of_not_mem (List.not_mem_cons_of_ne_of_not_mem (by decide) hbody :
    '\n' ∉ '/' :: body)
  have hstops := stops_ne_iff.2 hrest
  show Cut.mk _ ('/' :: ('/' :: body ++ rest).takeWhile _) (('/' :: body ++ rest).dropWhile _) = _
  rw [takeWhile_of_stops hclass hstops, dropWhile_of_stops hclass hstops]

theorem slash_star (cs : List Char) : Cut.slash ('*' :: cs) =
    ⟨if (Cut.throughClose cs).1 then .token .comment else .fault .unterminatedComment,
      '/' :: '*' :: (Cut.throughClose cs).2.1, (Cut.throughClose cs).2.2⟩ := rfl

theorem slash_block (hbody : ¬ ['*', '/'] <:+: body) (rest : List Char) :
    Cut.slash ('*' :: (body ++ ['*', '/']) ++ rest) =
      ⟨.token .comment, '/' :: '*' :: (body ++ ['*', '/']), rest⟩ := by
  have hall : '*' :: (body ++ ['*', '/']) ++ rest = '*' :: (body ++ '*' :: '/' :: rest) := by simp
  rw [hall, slash_star, throughClose_closed hbody]
  rfl

theorem slash_open (hbody : ¬ ['*', '/'] <:+: body) :
    Cut.slash ('*' :: body ++ []) = ⟨.fault .unterminatedComment, '/' :: '*' :: body, []⟩ := by
  rw [List.append_nil, slash_star, throughClose_open hbody]
  rfl

theorem string_closed (hbody : '"' ∉ body) (rest : List Char) :
    Cut.string (body ++ ['"'] ++ rest) =
      ⟨.token (.string (String.ofList body)), '"' :: (body ++ ['"']), rest⟩ := by
  have hstops : Stops (fun d => decide (d ≠ '"')) ('"' :: rest) :=
    stops_ne_iff.2 fun d hd => (Option.some.inj hd).symm
  have hclass := ne_of_not_mem hbody
  unfold Cut.string
  rw [List.append_assoc, List.singleton_append, takeWhile_of_stops hclass hstops,
    dropWhile_of_stops hclass hstops]
  rfl

theorem string_open (hbody : '"' ∉ body) :
    Cut.string (body ++ []) = ⟨.fault .unterminatedString, '"' :: body, []⟩ := by
  have hstops : Stops (fun d => decide (d ≠ '"')) [] := nofun
  have hclass := ne_of_not_mem hbody
  unfold Cut.string
  rw [takeWhile_of_stops hclass hstops, dropWhile_of_stops hclass hstops]

/-- **No other first piece is allowed.** -/
theorem Stands.cut_eq {shape : Shape} {text : List Char} (h : Stands shape text rest)
    (hall : text ++ rest = c :: cs) : cut c cs = ⟨shape, text, rest⟩ := by
  cases h with
  | lexeme h hlongest hcomment =>
    cases text with
    | nil => exact absurd rfl h.ne_nil
    | cons d ds =>
      obtain ⟨rfl, rfl⟩ := List.cons.inj hall
      rcases h.inversion with ⟨hword, -⟩ | ⟨hdigit, -⟩ | ⟨s, rfl, hs⟩
      · exact cut_longest_word hword h hlongest
      · exact cut_longest_number hdigit h hlongest
      · exact cut_longest_symbol hs hlongest hcomment
  | blank rest hc =>
    obtain ⟨rfl, rfl⟩ := List.cons.inj hall
    simp only [isBlankChar, Bool.or_eq_true, decide_eq_true_eq] at hc
    rcases hc with (rfl | rfl) | rfl <;> rfl
  | newLine rest =>
    obtain ⟨rfl, rfl⟩ := List.cons.inj hall
    rfl
  | lineComment hbody hrest =>
    obtain ⟨rfl, rfl⟩ := List.cons.inj hall
    exact slash_line hbody hrest
  | blockComment rest hbody =>
    obtain ⟨rfl, rfl⟩ := List.cons.inj hall
    exact slash_block hbody rest
  | string rest hbody =>
    obtain ⟨rfl, rfl⟩ := List.cons.inj hall
    exact string_closed hbody rest
  | openString hbody =>
    obtain ⟨rfl, rfl⟩ := List.cons.inj hall
    exact string_open hbody
  | openComment hbody =>
    obtain ⟨rfl, rfl⟩ := List.cons.inj hall
    exact slash_open hbody
  | loneBar hrest =>
    obtain ⟨rfl, rfl⟩ := List.cons.inj hall
    exact bar_lone hrest
  | stray rest hc =>
    obtain ⟨rfl, rfl⟩ := List.cons.inj hall
    exact cut_stray hc _

/-- **The rules leave no choice:** a piece may stand at the front of a text if and
only if it is the one that is cut off. -/
theorem stands_iff {shape : Shape} {text : List Char} (hall : text ++ rest = c :: cs) :
    Stands shape text rest ↔ cut c cs = ⟨shape, text, rest⟩ := by
  refine ⟨fun h => h.cut_eq hall, fun h => ?_⟩
  have hallowed := cut_allowed c cs
  rw [h] at hallowed
  exact hallowed

end FirstPiece

/-! ## §6. All pieces. -/

/-- The pieces of a text are a division of it by the rules. -/
theorem piecesFrom_divides (line : Nat) (cs : List Char) :
    Divides line cs (piecesFrom line cs) := by
  fun_induction piecesFrom line cs with
  | case1 line => exact .nil line
  | case2 line c cs last ih =>
    have hfirst := Divides.cons (cut_allowed c cs) ih
    rw [text_append_rest] at hfirst
    exact hfirst

/-- There is no other division. -/
theorem Divides.eq_piecesFrom {line : Nat} {cs : List Char} {ps : List Piece}
    (h : Divides line cs ps) : ps = piecesFrom line cs := by
  induction h with
  | nil line => rw [piecesFrom]
  | @cons line shape text rest ps h hrest ih =>
    cases hall : text ++ rest with
    | nil =>
      have htext := h.ne_nil
      exact absurd (List.append_eq_nil_iff.1 hall).1 htext
    | cons c cs =>
      rw [piecesFrom, h.cut_eq hall, ih]

/-! ## §7. Scans. -/

theorem Piece.token?_eq_some_iff {p : Piece} {t : Token} :
    p.token? = some t ↔ p.shape = .token t.kind ∧ t.kind.isIgnored = false ∧
      t.lexeme = String.ofList p.text ∧ t.line = p.line := by
  unfold Piece.token?
  constructor
  · intro h
    split at h
    · next kind hshape =>
      split at h
      · cases h
      · next hignored =>
        cases h
        exact ⟨hshape, Bool.of_not_eq_true hignored, rfl, rfl⟩
    · cases h
  · rintro ⟨hshape, hignored, hlexeme, hline⟩
    rw [hshape]
    dsimp only
    rw [hignored, if_neg nofun, ← hlexeme, ← hline]

theorem Piece.fault?_eq_some_iff {p : Piece} {f : ScanFault} :
    p.fault? = some f ↔ p.shape = .fault f.cause ∧ f.line = p.line := by
  unfold Piece.fault?
  constructor
  · intro h
    split at h
    · cases h
    · next cause hshape =>
      cases h
      exact ⟨hshape, rfl⟩
  · rintro ⟨hshape, hline⟩
    rw [hshape, ← hline]

theorem filterMap_fault?_eq_nil_iff {ps : List Piece} :
    ps.filterMap Piece.fault? = [] ↔ ∀ p ∈ ps, ∀ cause, p.shape ≠ .fault cause := by
  rw [List.filterMap_eq_nil_iff]
  refine forall₂_congr fun p _ => ⟨?_, ?_⟩
  · intro hnone cause hshape
    have hsome : p.fault? = some ⟨p.line, cause⟩ := Piece.fault?_eq_some_iff.2 ⟨hshape, rfl⟩
    rw [hnone] at hsome
    cases hsome
  · intro h
    cases hf : p.fault? with
    | none => rfl
    | some f => exact absurd (Piece.fault?_eq_some_iff.1 hf).1 (h f.cause)

theorem scan_eq_error {source : String} (h : (pieces source).filterMap Piece.fault? ≠ []) :
    scan source = .error ((pieces source).filterMap Piece.fault?) := by
  unfold scan
  dsimp only
  split
  · next hnil => exact absurd hnil h
  · rfl

/-- **A scan takes the longest tokens and loses nothing.** For every text,

  • its pieces are the one division of it by the rules, and make it up;
  • a piece that is a token, other than a blank, a line end or a comment, gives a
    token of its kind, with its text and its line, and a faulty one a fault;
  • a scan succeeds if and only if no piece is faulty, and gives the tokens of the
    pieces and the end;
  • otherwise it finds one fault for each faulty piece, in the order of the text;
    just these are reported, and the run ends with their number. -/
theorem scan_takes_longest (source : String) :
    (∀ ps, Divides 1 source.toList ps ↔ ps = pieces source) ∧
      (pieces source).flatMap Piece.text = source.toList ∧
      (∀ (p : Piece) t, p.token? = some t ↔ p.shape = .token t.kind ∧
        t.kind.isIgnored = false ∧ t.lexeme = String.ofList p.text ∧ t.line = p.line) ∧
      (∀ (p : Piece) f, p.fault? = some f ↔ p.shape = .fault f.cause ∧ f.line = p.line) ∧
      (∀ tokens, scan source = .ok tokens ↔
        (∀ p ∈ pieces source, ∀ cause, p.shape ≠ .fault cause) ∧
          tokens = (pieces source).filterMap Piece.token? ++ [endToken source]) ∧
      ((∃ p ∈ pieces source, ∃ cause, p.shape = .fault cause) →
        scan source = .error ((pieces source).filterMap Piece.fault?) ∧
          (compile source).journal.entries =
            ((pieces source).filterMap Piece.fault?).map .scan ∧
          (compile source).program =
            .error (.scan ((pieces source).filterMap Piece.fault?).length)) := by
  refine ⟨fun ps => ⟨fun h => h.eq_piecesFrom, ?_⟩, flatMap_text_piecesFrom 1 _,
    fun p t => Piece.token?_eq_some_iff, fun p f => Piece.fault?_eq_some_iff, ?_, ?_⟩
  · rintro rfl
    exact piecesFrom_divides 1 _
  · intro tokens
    rw [scan_eq_ok_iff, filterMap_fault?_eq_nil_iff]
  · rintro ⟨p, hp, cause, hcause⟩
    have hscan := scan_eq_error fun hnil =>
      filterMap_fault?_eq_nil_iff.1 hnil p hp cause hcause
    refine ⟨hscan, ?_, ?_⟩
    · rw [compile_eq, hscan]
      exact Journal.entries_reportAll _ _
    · rw [compile_eq, hscan]

-- A point belongs to a number only if digits stand on both sides of it.
example : (pieces "1..2.3.").map Piece.text =
    [['1'], ['.'], ['.'], ['2', '.', '3'], ['.']] := by
  decide +kernel

end Lox
