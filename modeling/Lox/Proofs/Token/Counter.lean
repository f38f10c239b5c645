/-
  Lox.Proofs.Token.Counter
  ────────────────────────────────
  **THE SCANNER COUNTS RIGHT.**

  The scanner keeps three things while it goes through a text: the tokens, the
  faults with a count of their own, and the line.  Wherever it is, what it
  comes to is what it has so far, followed by the tokens and the faults of the
  pieces ahead (`scanFrom_eq`).  So it gives the scan that is told by pieces, its
  count is the number of its faults, and it is never broken (`scanTokens_eq`).
-/
import Lox.Session

namespace Lox

namespace Scanner

/-- The token of a lexeme is the one of its piece. -/
theorem token?_piece (kind : TokenKind) (text rest : List Char) (line : Nat) :
    token? kind ⟨text.reverse, rest, line⟩ = Piece.token? ⟨.token kind, text, line⟩ := by
  unfold token? lexeme
  rw [List.reverse_reverse]
  rfl

/-- **One lexeme is one piece:** its token or its fault comes in front, a fault is
counted, and the scanner goes on from the line of the piece. -/
theorem scanFrom_cons (tokens : List Token) (faults : List ScanFault) (count line : Nat)
    (c : Char) (cs : List Char) :
    let p : Piece := ⟨(cut c cs).shape, (cut c cs).text, line + lineEnds (cut c cs).text⟩
    scanFrom tokens faults count line (c :: cs) =
      scanFrom (p.token?.toList ++ tokens) (p.fault?.toList ++ faults)
        (count + p.fault?.toList.length) p.line (cut c cs).rest := by
  rw [scanFrom, next_eq]
  cases hshape : (cut c cs).shape with
  | token kind =>
    simp only [ofCut, hshape, token?_piece]
    rfl
  | fault cause =>
    simp only [ofCut, hshape]
    rfl

theorem filterMap_cons_toList {α β : Type} (f : α → Option β) (a : α) (as : List α) :
    (a :: as).filterMap f = (f a).toList ++ as.filterMap f := by
  cases h : f a with
  | none => rw [List.filterMap_cons_none h]; rfl
  | some b => rw [List.filterMap_cons_some h]; rfl

theorem reverse_toList_append {α : Type} (o : Option α) (as : List α) :
    (o.toList ++ as).reverse = as.reverse ++ o.toList := by
  cases o with
  | none => exact (List.append_nil _).symm
  | some a => exact List.reverse_cons

/-- **Wherever a scanner is,** the tokens and the faults of the pieces ahead come behind
those that it has, and all faults and all line ends are counted. -/
theorem scanFrom_eq (tokens : List Token) (faults : List ScanFault) (count line : Nat)
    (cs : List Char) :
    scanFrom tokens faults count line cs =
      close (tokens.reverse ++ (piecesFrom line cs).filterMap Piece.token?)
        (faults.reverse ++ (piecesFrom line cs).filterMap Piece.fault?)
        (count + ((piecesFrom line cs).filterMap Piece.fault?).length) (line + lineEnds cs) := by
  fun_induction piecesFrom line cs generalizing tokens faults count with
  | case1 line => simp [scanFrom, lineEnds]
  | case2 line c cs last ih =>
    -- The scanner goes on behind the first piece with what it has then, so that the
    -- induction is for all tokens, faults and counts.
    have hline : last + lineEnds (cut c cs).rest = line + lineEnds (c :: cs) := by
      rw [← text_append_rest c cs, lineEnds_append, Nat.add_assoc]
    rw [scanFrom_cons, ih, hline]
    simp only [filterMap_cons_toList, reverse_toList_append, List.append_assoc,
      List.length_append, Nat.add_assoc]
    rfl

end Scanner

/-- **The scanner gives the scan that is told by pieces.** It counts each fault once, and
it is never broken. -/
theorem scanTokens_eq (source : String) :
    scanTokens source =
      match scan source with
      | .ok tokens => .tokens tokens
      | .error faults => .faults faults faults.length := by
  unfold scanTokens scan
  rw [Scanner.scanFrom_eq]
  unfold Scanner.close pieces
  dsimp only
  cases (piecesFrom 1 source.toList).filterMap Piece.fault? with
  | nil => rfl
  | cons f fs => simp

theorem scanTokens_eq_tokens_iff {source : String} {tokens : List Token} :
    scanTokens source = .tokens tokens ↔ scan source = .ok tokens := by
  rw [scanTokens_eq]
  cases scan source with
  | error faults => exact ⟨nofun, nofun⟩
  | ok found => rw [Scanned.tokens.injEq, Except.ok.injEq]

theorem scanTokens_eq_faults_iff {source : String} {faults : List ScanFault} {count : Nat} :
    scanTokens source = .faults faults count ↔
      scan source = .error faults ∧ count = faults.length := by
  rw [scanTokens_eq]
  cases scan source with
  | error found =>
    rw [Scanned.faults.injEq, Except.error.injEq]
    exact and_congr_right fun h => by rw [h, eq_comm]
  | ok tokens => exact ⟨nofun, nofun⟩

theorem scanTokens_ne_broken (source : String) (faults : List ScanFault) (text : String) :
    scanTokens source ≠ .broken faults text := by
  rw [scanTokens_eq]
  cases scan source with
  | error found => exact nofun
  | ok tokens => exact nofun

/-- What compiling a source comes to, told by the scan of its pieces. -/
theorem compile_eq (source : String) :
    compile source =
      match scan source with
      | .error faults =>
        ⟨Journal.empty.reportAll (faults.map .scan), .error (.scan faults.length)⟩
      | .ok tokens => .ofReading (readProgram tokens) := by
  unfold compile
  rw [scanTokens_eq]
  cases scan source with
  | error faults => rfl
  | ok tokens => rfl

end Lox
