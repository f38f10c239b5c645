/-
  Lox.Proofs.Token.Joined
  ────────────────────────────────
  **ONE TEXT UNDER ANOTHER.**

  A line end stops every piece but an open string or comment.  So where a text
  is scanned without faults, a second text that is put under it does not change
  how the first one is cut, and is itself cut as if it stood alone: the pieces
  of both come one after the other, those of the second further down
  (`piecesFrom_joined`).
-/
import Lox.Proofs.Renumber
import Lox.Token.Scan

namespace Lox

/-! ## §1. The first piece. -/

variable {p : Char → Bool} {cs : List Char}

theorem takeWhile_append_stopped (h : cs.dropWhile p ≠ []) (rest : List Char) :
    (cs ++ rest).takeWhile p = cs.takeWhile p := by
  induction cs with
  | nil => exact absurd rfl h
  | cons c cs ih =>
    by_cases hc : p c = true
    · rw [List.dropWhile_cons_of_pos hc] at h
      simp [hc, ih h]
    · simp [hc]

theorem dropWhile_append_stopped (h : cs.dropWhile p ≠ []) (rest : List Char) :
    (cs ++ rest).dropWhile p = cs.dropWhile p ++ rest := by
  induction cs with
  | nil => exact absurd rfl h
  | cons c cs ih =>
    by_cases hc : p c = true
    · rw [List.dropWhile_cons_of_pos hc] at h
      simp [hc, ih h]
    · simp [hc]

/-- A stretch of characters that a line end is none of ends at a line end. -/
theorem takeWhile_append_newLine (h : p '\n' = false) (cs rest : List Char) :
    (cs ++ '\n' :: rest).takeWhile p = cs.takeWhile p := by
  induction cs with
  | nil => simp [h]
  | cons c cs ih => simp [List.takeWhile_cons, ih]

theorem dropWhile_append_newLine (h : p '\n' = false) (cs rest : List Char) :
    (cs ++ '\n' :: rest).dropWhile p = cs.dropWhile p ++ '\n' :: rest := by
  induction cs with
  | nil => simp [h]
  | cons c cs ih =>
    by_cases hc : p c = true
    · simp [hc, ih]
    · simp [hc]

namespace Cut

/-- A piece that is a token. -/
def IsToken (k : Cut) : Prop := ∃ kind, k.shape = .token kind

/-- The same piece before a longer rest. -/
def before (k : Cut) (rest : List Char) : Cut := { k with rest := k.rest ++ rest }

variable (c : Char) (cs rest : List Char)

theorem word_joined : word c (cs ++ '\n' :: rest) = (word c cs).before ('\n' :: rest) := by
  have hstop : isWordChar '\n' = false := by decide
  simp only [word, before, takeWhile_append_newLine hstop, dropWhile_append_newLine hstop]

/-- The end of a number: a fraction, if a point and a digit follow its whole part. -/
theorem number_joined : number c (cs ++ '\n' :: rest) = (number c cs).before ('\n' :: rest) := by
  have hstop : Char.isDigit '\n' = false := by decide
  unfold number
  rw [takeWhile_append_newLine hstop, dropWhile_append_newLine hstop]
  rcases cs.dropWhile Char.isDigit with _ | ⟨x, _ | ⟨d, after⟩⟩
  · rfl
  -- A point at the very end of the first text is not followed by a digit.
  · by_cases hx : x = '.'
    · subst hx
      simp [before, hstop]
    · simp [before, hx]
  · by_cases hx : x = '.'
    · subst hx
      by_cases hd : d.isDigit = true
      · simp [before, hd, takeWhile_append_newLine hstop, dropWhile_append_newLine hstop]
      · simp [before, hd]
    · simp [before, hx]

variable {c cs}

/-- A string that is closed is closed at the same place. -/
theorem string_joined (h : (string cs).IsToken) :
    string (cs ++ '\n' :: rest) = (string cs).before ('\n' :: rest) := by
  have hclosed : cs.dropWhile (· ≠ '"') ≠ [] := by
    intro hopen
    unfold string at h
    rw [hopen] at h
    obtain ⟨kind, hkind⟩ := h
    cases hkind
  unfold string
  rw [takeWhile_append_stopped hclosed, dropWhile_append_stopped hclosed]
  obtain ⟨quote, after, hrest⟩ := List.exists_cons_of_ne_nil hclosed
  rw [hrest]
  rfl

/-- A comment that is closed is closed at the same place. -/
theorem throughClose_append_closed (h : (throughClose cs).1 = true) :
    throughClose (cs ++ rest) =
      (true, (throughClose cs).2.1, (throughClose cs).2.2 ++ rest) := by
  fun_induction throughClose cs with
  | case1 => exact Bool.noConfusion h
  | case2 after => rfl
  | case3 c cs hopen closed text after hrest ih =>
    have hcs := ih (by rw [hrest]; exact h)
    -- Nothing is closed here in the longer text either.
    have hstep : throughClose (c :: (cs ++ rest)) = ((throughClose (cs ++ rest)).1,
        c :: (throughClose (cs ++ rest)).2.1, (throughClose (cs ++ rest)).2.2) := by
      rw [throughClose]
      intro after' hc hslash
      rcases cs with _ | ⟨d, cs⟩
      · cases hrest
        exact Bool.noConfusion h
      · exact hopen cs hc (congrArg (· :: cs) (List.cons.inj hslash).1)
    show throughClose (c :: (cs ++ rest)) = _
    rw [hstep, hcs, hrest]

theorem slash_joined (h : (slash cs).IsToken) :
    slash (cs ++ '\n' :: rest) = (slash cs).before ('\n' :: rest) := by
  have hstop : (decide ('\n' ≠ '\n')) = false := by decide
  rcases cs with _ | ⟨x, cs⟩
  · rfl
  by_cases hline : x = '/'
  · subst hline
    have htake := takeWhile_append_newLine (p := fun c => decide (c ≠ '\n')) hstop ('/' :: cs) rest
    have hdrop := dropWhile_append_newLine (p := fun c => decide (c ≠ '\n')) hstop ('/' :: cs) rest
    show Cut.mk _ _ _ = Cut.mk _ _ _
    rw [htake, hdrop]
    rfl
  by_cases hblock : x = '*'
  · subst hblock
    have hclosed : (throughClose cs).1 = true := by
      obtain ⟨kind, hkind⟩ := h
      have hif : (if (throughClose cs).1 = true then Shape.token .comment
          else .fault .unterminatedComment) = .token kind := hkind
      by_cases hc : (throughClose cs).1 = true
      · exact hc
      · rw [if_neg hc] at hif
        cases hif
    have happend := throughClose_append_closed ('\n' :: rest) hclosed
    unfold slash
    simp only [List.cons_append, happend, hclosed, before]
  · unfold slash
    simp [hline, hblock, before]

theorem bar_joined (h : (bar cs).IsToken) :
    bar (cs ++ '\n' :: rest) = (bar cs).before ('\n' :: rest) := by
  obtain ⟨kind, hkind⟩ := h
  unfold bar at hkind ⊢
  split at hkind
  · rfl
  · cases hkind

theorem extensible_joined (short long : Symbol) :
    extensible c short long (cs ++ '\n' :: rest) =
      (extensible c short long cs).before ('\n' :: rest) := by
  rcases cs with _ | ⟨x, cs⟩
  · rfl
  by_cases hx : x = '='
  · subst hx
    rfl
  · unfold extensible
    simp [hx, before]

end Cut

/-- **A line end behind a text does not change its first piece,** if that is a
token. -/
theorem cut_joined {c : Char} {cs : List Char} (h : (cut c cs).IsToken) (rest : List Char) :
    cut c (cs ++ '\n' :: rest) = (cut c cs).before ('\n' :: rest) := by
  unfold cut at h ⊢
  split at h
  · rfl
  · exact Cut.extensible_joined rest _ _
  · by_cases hbar : c = '|'
    · simp only [if_pos hbar] at h ⊢
      exact Cut.bar_joined rest h
    by_cases hslash : c = '/'
    · simp only [if_neg hbar, if_pos hslash] at h ⊢
      exact Cut.slash_joined rest h
    by_cases hquote : c = '"'
    · simp only [if_neg hbar, if_neg hslash, if_pos hquote] at h ⊢
      exact Cut.string_joined rest h
    simp only [if_neg hbar, if_neg hslash, if_neg hquote]
    -- The other pieces are tokens or not whatever follows.
    repeat' split
    · rfl
    · rfl
    · exact Cut.number_joined c cs rest
    · exact Cut.word_joined c cs rest
    · rfl

/-! ## §2. All pieces. -/

/-- A piece further down. -/
def Piece.lower (k : Nat) (p : Piece) : Piece := { p with line := p.line + k }

/-- A text that begins further down has its pieces further down. -/
theorem piecesFrom_add (line k : Nat) (cs : List Char) :
    piecesFrom (line + k) cs = (piecesFrom line cs).map (Piece.lower k) := by
  fun_induction piecesFrom line cs with
  | case1 => rw [piecesFrom, List.map_nil]
  | case2 line c cs last ih =>
    have hlast : line + k + lineEnds (cut c cs).text = last + k := by
      show line + k + lineEnds (cut c cs).text = line + lineEnds (cut c cs).text + k
      omega
    rw [piecesFrom, List.map_cons, ← ih]
    simp only [hlast, Piece.lower]

/-- The line end between two texts is a piece of its own. -/
theorem piecesFrom_newLine (line : Nat) (cs : List Char) :
    piecesFrom line ('\n' :: cs) =
      ⟨.token .newLine, ['\n'], line + 1⟩ :: piecesFrom (line + 1) cs := by
  rw [piecesFrom]
  rfl

/-- **One text under another:** the pieces of the first, if all of them are
tokens, the line end between them, and the pieces of the second further down. -/
theorem piecesFrom_joined {line : Nat} {cs : List Char}
    (h : (piecesFrom line cs).filterMap Piece.fault? = []) (rest : List Char) :
    piecesFrom line (cs ++ '\n' :: rest) = piecesFrom line cs ++
      ⟨.token .newLine, ['\n'], line + lineEnds cs + 1⟩ ::
        (piecesFrom line rest).map (Piece.lower (lineEnds cs + 1)) := by
  rw [← piecesFrom_add, ← Nat.add_assoc]
  fun_induction piecesFrom line cs with
  | case1 line => exact piecesFrom_newLine line rest
  | case2 line c cs last ih =>
    have hfaults := List.filterMap_eq_nil_iff.1 h
    have htoken : (cut c cs).IsToken := by
      have hfirst := hfaults _ (.head _)
      cases hshape : (cut c cs).shape with
      | token kind => exact ⟨kind, hshape⟩
      | fault cause => simp [Piece.fault?, hshape] at hfirst
    have hrest := ih (List.filterMap_eq_nil_iff.2 fun p hp => hfaults p (.tail _ hp))
    have hends : last + lineEnds (cut c cs).rest = line + lineEnds (c :: cs) := by
      rw [← text_append_rest c cs, lineEnds_append, ← Nat.add_assoc]
    rw [hends] at hrest
    show piecesFrom line (c :: (cs ++ '\n' :: rest)) = _
    rw [piecesFrom, cut_joined htoken rest, List.cons_append, ← hrest]
    rfl

/-! ## §3. Tokens. -/

theorem Piece.token?_lower (k : Nat) (p : Piece) :
    (p.lower k).token? = p.token?.map (Token.renumber (· + k)) := by
  obtain ⟨shape, text, line⟩ := p
  cases shape with
  | fault cause => rfl
  | token kind =>
    show (if kind.isIgnored then none else some _) = Option.map _ (if kind.isIgnored then _ else _)
    by_cases h : kind.isIgnored = true
    · rw [if_pos h, if_pos h]
      rfl
    · rw [if_neg h, if_neg h]
      rfl

theorem Piece.fault?_lower (k : Nat) (p : Piece) :
    (p.lower k).fault? = p.fault?.map fun fault => { fault with line := fault.line + k } := by
  obtain ⟨shape, text, line⟩ := p
  cases shape <;> rfl

/-- No piece of a text is its end. -/
theorem cut_shape_ne_end (c : Char) (cs : List Char) :
    (cut c cs).shape ≠ .token .endOfInput := by
  have hword : ∀ text, Cut.wordKind text ≠ .endOfInput := by
    intro text
    unfold Cut.wordKind
    split <;> exact nofun
  unfold cut Cut.single Cut.extensible Cut.bar Cut.slash Cut.string Cut.number Cut.word
  repeat' split
  all_goals simp [hword]

theorem Piece.isEnd_of_token? {p : Piece} {t : Token} (h : p.token? = some t)
    (hp : p.shape ≠ .token .endOfInput) : t.isEnd = false := by
  obtain ⟨shape, text, line⟩ := p
  cases shape with
  | fault cause => cases h
  | token kind =>
    have hif : (if kind.isIgnored then none else some (Token.mk kind (String.ofList text) line)) =
        some t := h
    by_cases hk : kind.isIgnored = true
    · rw [if_pos hk] at hif
      cases hif
    · rw [if_neg hk] at hif
      cases hif
      cases kind with
      | endOfInput => exact absurd rfl hp
      | _ => rfl

theorem shape_ne_end_of_mem {line : Nat} {cs : List Char} {p : Piece}
    (h : p ∈ piecesFrom line cs) : p.shape ≠ .token .endOfInput := by
  fun_induction piecesFrom line cs with
  | case1 => cases h
  | case2 line c cs last ih =>
    rcases List.mem_cons.1 h with h | h
    · rw [h]
      exact cut_shape_ne_end c cs
    · exact ih h

theorem scan_eq_ok_iff {source : String} {tokens : List Token} :
    scan source = .ok tokens ↔ (pieces source).filterMap Piece.fault? = [] ∧
      tokens = (pieces source).filterMap Piece.token? ++ [endToken source] := by
  unfold scan
  dsimp only
  generalize (pieces source).filterMap Piece.fault? = faults
  cases faults with
  | nil => exact ⟨fun h => ⟨rfl, (Except.ok.inj h).symm⟩, fun h => congrArg Except.ok h.2.symm⟩
  | cons fault faults => exact ⟨nofun, nofun⟩

/-- The tokens before the end are those of the pieces. -/
theorem takeWhile_of_scan {source : String} {tokens : List Token}
    (h : scan source = .ok tokens) :
    tokens.takeWhile (!·.isEnd) = (pieces source).filterMap Piece.token? := by
  have hbefore : ∀ t ∈ (pieces source).filterMap Piece.token?, (!t.isEnd) = true := by
    intro t ht
    obtain ⟨p, hp, hpt⟩ := List.mem_filterMap.1 ht
    rw [Piece.isEnd_of_token? hpt (shape_ne_end_of_mem hp)]
    rfl
  rw [(scan_eq_ok_iff.1 h).2, List.takeWhile_append_of_pos hbefore]
  exact List.append_nil _

/-- **The scan of one text under another:** the tokens of the first, and those of
the second further down. -/
theorem scan_joined {first second : String} {ts us : List Token} (hf : scan first = .ok ts)
    (hs : scan second = .ok us) :
    ∃ vs, scan (first ++ "\n" ++ second) = .ok vs ∧
      vs.takeWhile (!·.isEnd) = ts.takeWhile (!·.isEnd) ++
        (us.takeWhile (!·.isEnd)).map (Token.renumber (· + (lineEnds first.toList + 1))) := by
  have hjoined : pieces (first ++ "\n" ++ second) = pieces first ++
      ⟨.token .newLine, ['\n'], 1 + lineEnds first.toList + 1⟩ ::
        (pieces second).map (Piece.lower (lineEnds first.toList + 1)) := by
    unfold pieces
    rw [String.toList_append, String.toList_append, List.append_assoc]
    exact piecesFrom_joined (scan_eq_ok_iff.1 hf).1 second.toList
  have hfaults : (pieces (first ++ "\n" ++ second)).filterMap Piece.fault? = [] := by
    have hsecond : ((pieces second).map (Piece.lower (lineEnds first.toList + 1))).filterMap
        Piece.fault? = [] := by
      rw [List.filterMap_map, List.filterMap_eq_nil_iff]
      intro p hp
      show (p.lower _).fault? = none
      rw [Piece.fault?_lower, List.filterMap_eq_nil_iff.1 (scan_eq_ok_iff.1 hs).1 p hp]
      rfl
    rw [hjoined, List.filterMap_append, (scan_eq_ok_iff.1 hf).1, List.nil_append]
    exact hsecond
  have hscan := scan_eq_ok_iff.2 ⟨hfaults, rfl⟩
  refine ⟨_, hscan, ?_⟩
  have hlower : Piece.token? ∘ Piece.lower (lineEnds first.toList + 1) =
      fun p => (p.token?).map (Token.renumber (· + (lineEnds first.toList + 1))) :=
    funext (Piece.token?_lower _)
  rw [takeWhile_of_scan hscan, takeWhile_of_scan hf, takeWhile_of_scan hs, hjoined,
    List.filterMap_append, List.map_filterMap, ← hlower, ← List.filterMap_map]
  rfl

end Lox
