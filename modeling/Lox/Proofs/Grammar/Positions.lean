/-
  Lox.Proofs.Grammar.Positions
  ────────────────────────────────
  **AN INDEX STAYS AMONG THE TOKENS.**

  `StandsAt v earlier c p` says where in the tokens `v` a cursor stands: at the
  index of `p`, with the faults `earlier` noted before its own.  `Follows q p`
  says that the reader `q` by index does what the reader `p` with a cursor does,
  token by token, unless `p` runs into its bound.

  §2 and §3 show it of every reader at a bound and the same reader by index at any
  larger bound.  There is a token wherever a cursor stands, so no reader looks
  where there is none; and as the bound and the earlier faults are left open,
  what is read depends on neither.
-/
import Lox.Proofs.Grammar.Indexed
import Lox.Proofs.Grammar.Soundness
import Mathlib.Data.List.TakeWhile

namespace Lox

open Parse (Context)

/-! ## §1. Where a cursor stands. -/

theorem not_isIdentifier_of_isEnd {t : Token} (h : t.isEnd = true) : t.isIdentifier = false := by
  unfold Token.isEnd at h
  unfold Token.isIdentifier
  cases hk : t.kind <;> simp [hk] at h ⊢

theorem Cursor.peek_cons (c : Cursor) {t : Token} {rest : List Token} (h : c.rest = t :: rest) :
    c.peek = t := by
  rw [peek, h]
  rfl

/-- The first token for the end is behind the tokens before it. -/
theorem endIndex_append {rest beyond : List Token} {finish : Token}
    (hrest : ∀ t ∈ rest, t.isEnd = false) (hfinish : finish.isEnd = true) :
    endIndex (rest ++ finish :: beyond) = rest.length := by
  unfold endIndex
  induction rest with
  | nil => rw [List.nil_append, List.findIdx_cons, hfinish, cond_true, List.length_nil]
  | cons t rest ih =>
    obtain ⟨ht, hrest⟩ := List.forall_mem_cons.1 hrest
    rw [List.cons_append, List.findIdx_cons, ht, cond_false, ih hrest, List.length_cons]

/-- **The cursor `c` stands at the position `p` of the tokens `v`:** what is ahead
of it is what comes up to the first token for the end, and the faults `earlier`
have been noted before its own. -/
structure StandsAt (v : List Token) (earlier : List SyntaxFault) (c : Cursor) (p : Position) :
    Prop where
  ahead : ∃ beyond, v.drop p.index = c.rest ++ c.finish :: beyond
  before : p.index + c.rest.length = endIndex v
  faults : p.faults = earlier ++ c.faults

namespace StandsAt

variable {v : List Token} {earlier : List SyntaxFault} {c : Cursor} {p : Position}

/-- The tokens ahead are those from the index on. -/
theorem getElem?_rest (h : StandsAt v earlier c p) {k : Nat} (hk : k < c.rest.length) :
    v[p.index + k]? = c.rest[k]? := by
  obtain ⟨beyond, hahead⟩ := h.ahead
  rw [← List.getElem?_drop, hahead, List.getElem?_append_left hk]

theorem getElem?_finish (h : StandsAt v earlier c p) : v[endIndex v]? = some c.finish := by
  obtain ⟨beyond, hahead⟩ := h.ahead
  rw [← h.before, ← List.getElem?_drop, hahead, List.getElem?_append_right (Nat.le_refl _),
    Nat.sub_self, List.getElem?_cons_zero]

/-- There is an end. -/
theorem endIndex_lt (h : StandsAt v earlier c p) : endIndex v < v.length :=
  (List.getElem?_eq_some_iff.1 h.getElem?_finish).1

theorem finish_isEnd (h : StandsAt v earlier c p) : c.finish.isEnd = true := by
  obtain ⟨hlt, hget⟩ := List.getElem?_eq_some_iff.1 h.getElem?_finish
  rw [← hget]
  exact List.findIdx_getElem

/-- No token ahead is one for the end. -/
theorem rest_isEnd (h : StandsAt v earlier c p) {t : Token} (ht : t ∈ c.rest) :
    t.isEnd = false := by
  obtain ⟨k, hk, rfl⟩ := List.mem_iff_getElem.1 ht
  have hget := h.getElem?_rest hk
  rw [List.getElem?_eq_getElem hk] at hget
  obtain ⟨hlt, hget⟩ := List.getElem?_eq_some_iff.1 hget
  have hbefore : p.index + k < endIndex v := by
    have := h.before
    omega
  rw [← hget]
  exact List.not_of_lt_findIdx hbefore

/-- **There is a token at the index:** the one at the cursor. -/
theorem getElem?_index (h : StandsAt v earlier c p) : v[p.index]? = some c.peek := by
  unfold Cursor.peek
  cases hr : c.rest with
  | nil =>
    have hbefore := h.before
    rw [hr, List.length_nil, Nat.add_zero] at hbefore
    rw [hbefore]
    exact h.getElem?_finish
  | cons t rest =>
    have hpos : 0 < c.rest.length := by
      rw [hr]
      exact Nat.succ_pos _
    have hget := h.getElem?_rest hpos
    rw [Nat.add_zero, hr] at hget
    exact hget

theorem peek_isEnd (h : StandsAt v earlier c p) : c.peek.isEnd = c.rest.isEmpty := by
  cases hr : c.rest with
  | nil =>
    rw [Cursor.peek, hr]
    exact h.finish_isEnd
  | cons t rest =>
    have ht : t ∈ c.rest := by
      rw [hr]
      exact List.mem_cons_self
    rw [Cursor.peek, hr]
    exact h.rest_isEnd ht

theorem peek_eq (h : StandsAt v earlier c p) : Indexed.peek v p = .ok c.peek p := by
  unfold Indexed.peek
  rw [h.getElem?_index]

theorem atEnd_eq (h : StandsAt v earlier c p) : Indexed.atEnd v p = .ok c.rest.isEmpty p := by
  rw [← h.peek_isEnd]
  exact Indexed.bind_ok h.peek_eq

theorem check_eq (h : StandsAt v earlier c p) (wanted : Token → Bool) :
    Indexed.check wanted v p = .ok (c.rest.head?.any wanted) p := by
  rw [Indexed.check, Indexed.bind_ok h.atEnd_eq]
  cases hr : c.rest with
  | nil => rfl
  | cons t rest =>
    show (Indexed.peek >>= fun t => Pure.pure (wanted t)) v p = _
    rw [Indexed.bind_ok h.peek_eq, c.peek_cons hr]
    rfl

/-- One token further. -/
theorem tail (h : StandsAt v earlier c p) {t : Token} {rest : List Token}
    (hr : c.rest = t :: rest) :
    StandsAt v earlier { c with rest := rest } { p with index := p.index + 1 } where
  ahead := by
    obtain ⟨beyond, hahead⟩ := h.ahead
    refine ⟨beyond, ?_⟩
    show v.drop (p.index + 1) = rest ++ c.finish :: beyond
    rw [← List.drop_drop, hahead, hr]
    rfl
  before := by
    have hbefore := h.before
    rw [hr, List.length_cons] at hbefore
    show p.index + 1 + rest.length = endIndex v
    omega
  faults := h.faults

theorem note (h : StandsAt v earlier c p) (fault : SyntaxFault) :
    StandsAt v earlier { c with faults := c.faults ++ [fault] }
      { p with faults := p.faults ++ [fault] } where
  ahead := h.ahead
  before := h.before
  faults := by rw [h.faults, List.append_assoc]

theorem advance_nil (h : StandsAt v earlier c p) (hr : c.rest = []) :
    Indexed.advance v p = .ok c.peek p := by
  rw [Indexed.advance, Indexed.bind_ok h.peek_eq, Indexed.bind_ok h.atEnd_eq, hr]
  rfl

theorem advance_cons (h : StandsAt v earlier c p) {t : Token} {rest : List Token}
    (hr : c.rest = t :: rest) :
    Indexed.advance v p = .ok t { p with index := p.index + 1 } := by
  rw [Indexed.advance, Indexed.bind_ok h.peek_eq, Indexed.bind_ok h.atEnd_eq, hr, c.peek_cons hr]
  rfl

/-- **Skipping stays among the tokens** and ends where the cursor goes on. -/
theorem resumption (h : StandsAt v earlier c p) {last : Token}
    (hlast : Indexed.previous v p.index = some last) :
    ∃ i, Indexed.resumption v p.index = some i ∧
      StandsAt v earlier { c with rest := Parse.skipAfter last c.rest } { p with index := i } := by
  -- The tokens ahead get fewer, so the index meets the end at last.
  induction hr : c.rest generalizing c p last with
  | nil =>
    refine ⟨p.index, ?_, ?_⟩
    · rw [Indexed.resumption_eq h.getElem?_index, h.peek_isEnd, hr]
      rfl
    · rw [Parse.skipAfter, ← hr]
      exact h
  | cons t rest ih =>
    have hpeek := c.peek_cons hr
    rw [Indexed.resumption_eq h.getElem?_index, h.peek_isEnd, hr, hlast, hpeek, List.isEmpty_cons,
      Bool.false_or, Option.any_some, Parse.skipAfter]
    by_cases hstop : (last.isSymbol .semicolon || t.startsStatement) = true
    · rw [if_pos hstop, if_pos hstop, ← hr]
      exact ⟨p.index, rfl, h⟩
    · rw [if_neg hstop, if_neg hstop]
      have hget : Indexed.previous v (p.index + 1) = some t := by
        rw [← hpeek]
        exact h.getElem?_index
      exact ih (h.tail hr) hget rfl

theorem synchronize (h : StandsAt v earlier c p) :
    ∃ i, Indexed.synchronize v p = .ok () { p with index := i } ∧
      StandsAt v earlier { c with rest := Parse.skipToStatement c.rest } { p with index := i } := by
  cases hr : c.rest with
  | nil =>
    refine ⟨p.index, ?_, ?_⟩
    · rw [Indexed.synchronize, Indexed.bind_ok (h.advance_nil hr), Indexed.resume,
        Indexed.resumption_eq h.getElem?_index, h.peek_isEnd, hr]
      rfl
    · rw [Parse.skipToStatement, ← hr]
      exact h
  | cons t rest =>
    have hlast : Indexed.previous v (p.index + 1) = some t := by
      rw [← c.peek_cons hr]
      exact h.getElem?_index
    obtain ⟨i, hi, hstands⟩ := (h.tail hr).resumption hlast
    refine ⟨i, ?_, hstands⟩
    rw [Indexed.synchronize, Indexed.bind_ok (h.advance_cons hr), Indexed.resume, hi]

/-- A cursor stands at the first of the tokens ahead of it. -/
theorem here (c : Cursor) (hfinish : c.finish.isEnd = true) (hrest : ∀ t ∈ c.rest, t.isEnd = false)
    (beyond : List Token) {fs : List SyntaxFault} (hfs : fs = earlier ++ c.faults) :
    StandsAt (c.rest ++ c.finish :: beyond) earlier c ⟨0, fs⟩ where
  ahead := ⟨beyond, rfl⟩
  before := by rw [endIndex_append hrest hfinish, Nat.zero_add]
  faults := hfs

/-- **Only one cursor stands at an index,** apart from the faults. -/
theorem unique (h : StandsAt v earlier c p) {earlier' : List SyntaxFault} {c' : Cursor}
    (h' : StandsAt v earlier' c' p) : c'.rest = c.rest ∧ c'.finish = c.finish := by
  -- Both are as far from the end as the index is.
  have hlen : c'.rest.length = c.rest.length := by
    have := h.before
    have := h'.before
    omega
  obtain ⟨beyond, hahead⟩ := h.ahead
  obtain ⟨beyond', hahead'⟩ := h'.ahead
  rw [hahead] at hahead'
  obtain ⟨hrest, hfinish⟩ := List.append_inj hahead'.symm hlen
  exact ⟨hrest, (List.cons.inj hfinish).1⟩

end StandsAt

/-! ## §2. Reading by index reads the same. -/

namespace Indexed

variable {α β : Type}

/-- The outcome of a reader by index is that of a reader with a cursor, unless the
latter ran into its bound. -/
inductive Matches (v : List Token) (earlier : List SyntaxFault) : Step α → Reached α → Prop where
  | ok {a : α} {c : Cursor} {p : Position} (h : StandsAt v earlier c p) :
      Matches v earlier (.ok a c) (.ok a p)
  | stuck {fault : SyntaxFault} {c : Cursor} {p : Position} (h : StandsAt v earlier c p) :
      Matches v earlier (.stuck fault c) (.stuck fault p)
  | broken {text : String} {c : Cursor} {p : Position} (h : StandsAt v earlier c p) :
      Matches v earlier (.broken text c) (.broken text p)
  | exhausted {r : Reached α} : Matches v earlier .exhausted r

/-- **A reader by index does what a reader with a cursor does,** wherever the
cursor stands and whatever has been noted before. -/
def Follows (q : Indexed α) (p : Parse α) : Prop :=
  ∀ v earlier c pos, StandsAt v earlier c pos → Matches v earlier (p c) (q v pos)

namespace Follows

variable {q q' : Indexed α} {p p' : Parse α}

theorem pure (a : α) : Follows (Pure.pure a) (Pure.pure a) := fun _ _ _ _ h => .ok h

theorem exhausted (q : Indexed α) : Follows q Parse.exhausted := fun _ _ _ _ _ => .exhausted

/-- **One reader after the other.** -/
theorem bind {g : α → Indexed β} {f : α → Parse β} (h : Follows q p)
    (hf : ∀ a, Follows (g a) (f a)) : Follows (q >>= g) (p >>= f) := by
  intro v earlier c pos hc
  show Matches v earlier (Parse.bind p f c) (Indexed.bind q g v pos)
  unfold Indexed.bind Parse.bind
  have hqp := h v earlier c pos hc
  generalize p c = s, q v pos = r at hqp
  cases hqp with
  | ok hc' => exact hf _ _ _ _ _ hc'
  | stuck hc' => exact .stuck hc'
  | broken hc' => exact .broken hc'
  | exhausted => exact .exhausted

theorem map (f : α → β) (h : Follows q p) : Follows (f <$> q) (f <$> p) :=
  h.bind fun a => pure (f a)

theorem ite {holds : Prop} [Decidable holds] (h : Follows q p) (h' : Follows q' p') :
    Follows (if holds then q else q') (if holds then p else p') := by
  by_cases hh : holds
  · rw [if_pos hh, if_pos hh]
    exact h
  · rw [if_neg hh, if_neg hh]
    exact h'

theorem peek : Follows Indexed.peek Parse.peek := by
  intro v earlier c pos hc
  rw [hc.peek_eq]
  exact .ok hc

/-- **Reading a token goes on by one index,** except at the end. -/
theorem advance : Follows Indexed.advance Parse.advance := by
  intro v earlier c pos hc
  unfold Parse.advance
  cases hr : c.rest with
  | nil =>
    rw [hc.advance_nil hr, List.tail_nil, ← hr]
    exact .ok hc
  | cons t rest =>
    rw [hc.advance_cons hr, c.peek_cons hr]
    exact .ok (hc.tail hr)

theorem check (wanted : Token → Bool) : Follows (Indexed.check wanted) (Parse.check wanted) := by
  intro v earlier c pos hc
  rw [hc.check_eq]
  exact .ok hc

theorem report (t : Token) (cause : SyntaxCause) :
    Follows (Indexed.report t cause) (Parse.report t cause) := fun _ _ _ _ hc => .ok (hc.note _)

theorem fail (t : Token) (cause : SyntaxCause) :
    Follows (Indexed.fail t cause : Indexed α) (Parse.fail t cause) := fun _ _ _ _ hc => .stuck hc

theorem abort (text : String) : Follows (Indexed.abort text : Indexed α) (Parse.abort text) :=
  fun _ _ _ _ hc => .broken hc

/-- The token behind the one at the cursor is looked at by its index. -/
theorem atFunctionDeclaration :
    Follows Indexed.atFunctionDeclaration Parse.atFunctionDeclaration := by
  intro v earlier c pos hc
  rw [Indexed.atFunctionDeclaration, bind_ok (hc.check_eq _)]
  unfold Parse.atFunctionDeclaration
  cases hr : c.rest with
  | nil => exact .ok hc
  | cons t rest =>
    have hnext : checkNext Token.isIdentifier v pos =
        .ok (rest.head?.any Token.isIdentifier) pos := by
      unfold checkNext
      rw [(hc.tail hr).getElem?_index, Option.any_some]
      cases rest with
      -- Behind the last token is the end, which is no name.
      | nil => exact congrArg (Reached.ok · pos) (not_isIdentifier_of_isEnd hc.finish_isEnd)
      | cons u rest => rfl
    rw [List.head?_cons, Option.any_some]
    cases hfun : t.isKeyword .funWord with
    | false => cases rest <;> simp only [hfun, Bool.false_and] <;> exact .ok hc
    | true =>
      rw [if_pos rfl, hnext]
      cases rest <;> simp only [hfun, Bool.true_and] <;> exact .ok hc

theorem accept (wanted : Token → Bool) : Follows (Indexed.accept wanted) (Parse.accept wanted) :=
  (check wanted).bind fun _ => ite (advance.bind fun _ => pure true) (pure false)

theorem require (holds : Bool) (t : Token) (cause : SyntaxCause) :
    Follows (Indexed.require holds t cause) (Parse.require holds t cause) :=
  ite (pure ()) (fail t cause)

theorem expect (wanted : Token → Bool) (complaint : String) :
    Follows (Indexed.expect wanted complaint) (Parse.expect wanted complaint) :=
  (check wanted).bind fun _ => ite advance (peek.bind fun _ => fail _ _)

theorem unlessAt (absent : Token → Bool) (h : Follows q p) :
    Follows (Indexed.unlessAt absent q) (Parse.unlessAt absent p) :=
  (check absent).bind fun _ => ite (pure none) (h.map some)

theorem afterMark (mark : Token → Bool) (h : Follows q p) :
    Follows (Indexed.afterMark mark q) (Parse.afterMark mark p) :=
  (accept mark).bind fun _ => ite (h.map some) (pure none)

theorem listUnlessAt (absent : Token → Bool) {q : Indexed (List α)} {p : Parse (List α)}
    (h : Follows q p) : Follows (Indexed.listUnlessAt absent q) (Parse.listUnlessAt absent p) :=
  (check absent).bind fun _ => ite (pure []) h

theorem ownName : Follows Indexed.ownName Parse.ownName :=
  (check _).bind fun _ => ite (advance.map some) (pure none)

theorem atom (t : Token) : Follows (Indexed.atom t) (Parse.atom t) := by
  unfold Indexed.atom Parse.atom
  cases Expr.ofToken? t with
  | some e => exact pure e
  | none => exact abort _

theorem noteExcess (count : Nat) (cause : SyntaxCause) :
    Follows (Indexed.noteExcess count cause) (Parse.noteExcess count cause) :=
  ite (peek.bind fun _ => report _ _) (pure ())

/-- **Recovery goes on at the same token.** -/
theorem recovering (h : Follows q p) : Follows (Indexed.recovering q) (Parse.recovering p) := by
  intro v earlier c pos hc
  unfold Indexed.recovering Parse.recovering
  have hqp := h v earlier c pos hc
  generalize p c = s, q v pos = r at hqp
  cases hqp with
  | ok hc' => exact .ok hc'
  | broken hc' => exact .broken hc'
  | exhausted => exact .exhausted
  | @stuck fault c' pos' hc' =>
    -- The fault is noted first, and the index moves after that.
    obtain ⟨i, hsync, hi⟩ := (hc'.note fault).synchronize
    show Matches v earlier _
      ((note fault >>= fun _ => synchronize >>= fun _ => Pure.pure none) v pos')
    rw [bind_ok (rfl : note fault v pos' = .ok () _), bind_ok hsync]
    exact .ok hi

end Follows

section Productions

variable {e : Indexed Expr} {e' : Parse Expr} {s : Indexed Stmt} {s' : Parse Stmt}
  {declare : Indexed (Option Stmt)} {declare' : Parse (Option Stmt)}

theorem chain_follows (he : Follows e e') (l : Level) (k n : Nat) (left : Expr) :
    Follows (chain l e (k + n) left) (Parse.chain l e' n left) := by
  induction n generalizing left with
  | zero => exact .exhausted _
  | succ n ih =>
    refine Follows.peek.bind fun _ => .ite ?_ (.pure left)
    exact Follows.advance.bind fun _ => he.bind fun _ => ih _

theorem ladder_follows (he : Follows e e') (k n : Nat) (levels : List Level) :
    Follows (ladder e (k + n) levels) (Parse.ladder e' n levels) := by
  induction levels with
  | nil => exact he
  | cons l tighter ih => exact ih.bind fun left => chain_follows ih l k n left

theorem separated_follows {q : Indexed α} {p : Parse α} (h : Follows q p) (excess : SyntaxCause)
    (k n count : Nat) :
    Follows (separated q excess (k + n) count) (Parse.separated p excess n count) := by
  induction n generalizing count with
  | zero => exact .exhausted _
  | succ n ih =>
    refine (Follows.noteExcess count excess).bind fun _ => h.bind fun first => ?_
    refine (Follows.accept _).bind fun _ => .ite ?_ (.pure [first])
    exact (ih (count + 1)).bind fun others => .pure (first :: others)

theorem arguments_follows (he : Follows e e') (k n : Nat) :
    Follows (arguments e (k + n)) (Parse.arguments e' n) :=
  (separated_follows he _ k n 0).listUnlessAt _

theorem calls_follows (he : Follows e e') (k n : Nat) (callee : Expr) :
    Follows (calls e (k + n) callee) (Parse.calls e' n callee) := by
  induction n generalizing callee with
  | zero => exact .exhausted _
  | succ n ih =>
    refine (Follows.accept _).bind fun _ => .ite ?_ (.pure callee)
    exact (arguments_follows he k n).bind fun _ => (Follows.expect _ _).bind fun _ => ih _

theorem parameters_follows (k n : Nat) : Follows (parameters (k + n)) (Parse.parameters n) :=
  (separated_follows (.expect _ _) _ k n 0).listUnlessAt _

theorem declarations_follows (hd : Follows declare declare') (stop : Token → Bool) (k n : Nat) :
    Follows (declarations declare stop (k + n)) (Parse.declarations declare' stop n) := by
  induction n with
  | zero => exact .exhausted _
  | succ n ih =>
    refine (Follows.check _).bind fun _ => .ite ?_ (.pure [])
    exact hd.bind fun _ => ih.bind fun _ => .pure _

theorem block_follows (hd : Follows declare declare') (k n : Nat) :
    Follows (block declare (k + n)) (Parse.block declare' n) :=
  (declarations_follows hd _ k n).bind fun body => (Follows.expect _ _).bind fun _ => .pure body

theorem function_follows (hd : Follows declare declare') (k n : Nat) (after : String) :
    Follows (function declare (k + n) after) (Parse.function declare' n after) := by
  refine (Follows.expect _ _).bind fun _ => (parameters_follows k n).bind fun names => ?_
  refine (Follows.expect _ _).bind fun _ => (Follows.expect _ _).bind fun _ => ?_
  exact (block_follows hd k n).bind fun body => .pure (names, body)

theorem varDeclaration_follows (he : Follows e e') :
    Follows (varDeclaration e) (Parse.varDeclaration e') :=
  (Follows.expect _ _).bind fun _ => (he.afterMark _).bind fun _ =>
    (Follows.expect _ _).bind fun _ => .pure _

theorem expressionStatement_follows (he : Follows e e') :
    Follows (expressionStatement e) (Parse.expressionStatement e') :=
  he.bind fun _ => (Follows.expect _ _).bind fun _ => .pure _

theorem printStatement_follows (he : Follows e e') :
    Follows (printStatement e) (Parse.printStatement e') :=
  he.bind fun _ => (Follows.expect _ _).bind fun _ => .pure _

theorem jumpStatement_follows (inLoop : Bool) :
    Follows (jumpStatement inLoop) (Parse.jumpStatement inLoop) :=
  Follows.advance.bind fun _ => (Follows.require _ _ _).bind fun _ =>
    (Follows.expect _ _).bind fun _ => .pure _

theorem returnStatement_follows (he : Follows e e') (inFunction : Bool) :
    Follows (returnStatement inFunction e) (Parse.returnStatement inFunction e') := by
  refine Follows.advance.bind fun _ => (Follows.require _ _ _).bind fun _ => ?_
  exact (he.unlessAt _).bind fun _ => (Follows.expect _ _).bind fun _ => .pure _

theorem branchStatement_follows (he : Follows e e') (hs : Follows s s') :
    Follows (branchStatement e s) (Parse.branchStatement e' s') := by
  refine (Follows.expect _ _).bind fun _ => he.bind fun _ => (Follows.expect _ _).bind fun _ => ?_
  exact hs.bind fun _ => (hs.afterMark _).bind fun _ => .pure _

theorem whileStatement_follows (he : Follows e e') (hs : Follows s s') :
    Follows (whileStatement e s) (Parse.whileStatement e' s') := by
  refine (Follows.expect _ _).bind fun _ => he.bind fun _ => (Follows.expect _ _).bind fun _ => ?_
  exact hs.bind fun _ => .pure _

theorem firstClause_follows (he : Follows e e') :
    Follows (firstClause e) (Parse.firstClause e') := by
  refine (Follows.accept _).bind fun _ => .ite (.pure none) ?_
  refine (Follows.accept _).bind fun _ => .ite ?_ ?_
  · exact (varDeclaration_follows he).map some
  · exact (expressionStatement_follows he).map some

theorem forStatement_follows (he : Follows e e') (hs : Follows s s') :
    Follows (forStatement e s) (Parse.forStatement e' s') := by
  refine (Follows.expect _ _).bind fun _ => (firstClause_follows he).bind fun _ => ?_
  refine (he.unlessAt _).bind fun _ => (Follows.expect _ _).bind fun _ => ?_
  refine (he.unlessAt _).bind fun _ => (Follows.expect _ _).bind fun _ => ?_
  exact hs.bind fun _ => .pure _

end Productions

/-! ## §3. Every reader stays among the tokens. -/

/-- The readers that refer to themselves, by index with a bound larger by `k`. -/
structure Readers (k n : Nat) : Prop where
  expression : Follows (expression (k + n)) (Parse.expression n)
  unary : Follows (unary (k + n)) (Parse.unary n)
  primary : Follows (primary (k + n)) (Parse.primary n)
  statement : ∀ ctx, Follows (statement (k + n) ctx) (Parse.statement n ctx)
  declaration : ∀ ctx, Follows (declaration (k + n) ctx) (Parse.declaration n ctx)

namespace Readers

variable {k n : Nat}

theorem step_expression (ih : Readers k n) :
    Follows (Indexed.expression (k + n + 1)) (Parse.expression (n + 1)) := by
  rw [Indexed.expression, Parse.expression]
  refine (ladder_follows ih.unary k n _).bind fun left => ?_
  refine Follows.peek.bind fun _ => .ite ?_ (.pure left)
  refine Follows.advance.bind fun equals => ih.expression.bind fun value => ?_
  cases left.target? with
  | some target => exact .pure _
  | none => exact (Follows.report _ _).bind fun _ => .pure left

theorem step_unary (ih : Readers k n) :
    Follows (Indexed.unary (k + n + 1)) (Parse.unary (n + 1)) := by
  rw [Indexed.unary, Parse.unary]
  refine Follows.peek.bind fun _ => .ite ?_ ?_
  · exact Follows.advance.bind fun _ => ih.unary.bind fun _ => .pure _
  · exact ih.primary.bind fun callee => calls_follows ih.expression k n callee

theorem step_primary (ih : Readers k n) :
    Follows (Indexed.primary (k + n + 1)) (Parse.primary (n + 1)) := by
  rw [Indexed.primary, Parse.primary]
  refine Follows.peek.bind fun t => .ite ?_ (.ite ?_ (.ite ?_ ?_))
  · exact Follows.advance.bind fun _ => .atom _
  · exact Follows.advance.bind fun _ => ih.expression.bind fun _ =>
      (Follows.expect _ _).bind fun _ => .pure _
  · refine Follows.advance.bind fun _ => Follows.ownName.bind fun name => ?_
    exact (function_follows (ih.declaration _) k n _).bind fun _ => .pure _
  · exact .fail _ _

theorem step_statement (ih : Readers k n) (ctx : Context) :
    Follows (Indexed.statement (k + n + 1) ctx) (Parse.statement (n + 1) ctx) := by
  rw [Indexed.statement, Parse.statement]
  have hexpression := expressionStatement_follows ih.expression
  refine Follows.peek.bind fun t => ?_
  cases t.kind with
  | keyword w =>
    cases w with
    | breakWord | continueWord => exact jumpStatement_follows _
    | forWord =>
      exact Follows.advance.bind fun _ => forStatement_follows ih.expression (ih.statement _)
    | ifWord =>
      exact Follows.advance.bind fun _ => branchStatement_follows ih.expression (ih.statement _)
    | whileWord =>
      exact Follows.advance.bind fun _ => whileStatement_follows ih.expression (ih.statement _)
    | printWord => exact Follows.advance.bind fun _ => printStatement_follows ih.expression
    | returnWord => exact returnStatement_follows ih.expression _
    | _ => exact hexpression
  | symbol s =>
    cases s with
    | leftBrace =>
      exact Follows.advance.bind fun _ => (block_follows (ih.declaration ctx) k n).map _
    | _ => exact hexpression
  | _ => exact hexpression

theorem step_declaration (ih : Readers k n) (ctx : Context) :
    Follows (Indexed.declaration (k + n + 1) ctx) (Parse.declaration (n + 1) ctx) := by
  rw [Indexed.declaration, Parse.declaration]
  refine .recovering (Follows.atFunctionDeclaration.bind fun _ => .ite ?_ ?_)
  · refine Follows.advance.bind fun _ => (Follows.expect _ _).bind fun name => ?_
    exact (function_follows (ih.declaration _) k n _).bind fun _ => .pure _
  · refine (Follows.accept _).bind fun _ => .ite ?_ ?_
    · exact varDeclaration_follows ih.expression
    · exact ih.statement ctx

end Readers

/-- **Every reader is followed by index,** at every bound and every larger one. -/
theorem readers (k n : Nat) : Readers k n := by
  induction n with
  -- At the bound zero a reader with a cursor is exhausted, and there is nothing to follow.
  | zero =>
    constructor
    · rw [Parse.expression]
      exact .exhausted _
    · rw [Parse.unary]
      exact .exhausted _
    · rw [Parse.primary]
      exact .exhausted _
    · intro ctx
      rw [Parse.statement]
      exact .exhausted _
    · intro ctx
      rw [Parse.declaration]
      exact .exhausted _
  | succ n ih =>
    exact ⟨ih.step_expression, ih.step_unary, ih.step_primary, ih.step_statement,
      ih.step_declaration⟩

/-- A program by index, with a larger bound. -/
theorem program_follows (k n : Nat) : Follows (program (k + n)) (Parse.program n) :=
  declarations_follows ((readers k n).declaration .top) _ k n

/-- A reader with a cursor that gives a value is followed to it. -/
theorem Follows.ok {q : Indexed α} {p : Parse α} (h : Follows q p) {v : List Token}
    {earlier : List SyntaxFault} {c c' : Cursor} {pos : Position} {a : α}
    (hc : StandsAt v earlier c pos) (hp : p c = .ok a c') :
    ∃ pos', q v pos = .ok a pos' ∧ StandsAt v earlier c' pos' := by
  have hqp := h v earlier c pos hc
  rw [hp] at hqp
  generalize q v pos = r at hqp
  cases hqp with
  | ok hc' => exact ⟨_, rfl, hc'⟩

/-- **Two readers that are followed by one reader give the same,** whatever has
been noted before, or the first runs into its bound. -/
theorem Follows.settles {q : Indexed α} {p p' : Parse α} (h : Follows q p) (h' : Follows q p')
    {c c' : Cursor} {a : α} (hfinish : c.finish.isEnd = true)
    (hrest : ∀ t ∈ c.rest, t.isEnd = false) (hp' : p' { c with faults := [] } = .ok a c') :
    p c = .ok a { c' with faults := c.faults ++ c'.faults } ∨ p c = .exhausted := by
  obtain ⟨pos, hq, hc'⟩ :=
    h'.ok (.here { c with faults := [] } hfinish hrest [] (List.append_nil c.faults).symm) hp'
  -- Both end where the reader by index ends.
  have hqp := h _ _ c _ (.here c hfinish hrest [] (List.nil_append c.faults).symm)
  rw [hq] at hqp
  generalize p c = s at hqp ⊢
  cases hqp with
  | @ok _ c₁ _ hc₁ =>
    left
    obtain ⟨hr, hf⟩ := hc'.unique hc₁
    have hfaults : c₁.faults = c.faults ++ c'.faults := hc₁.faults.symm.trans hc'.faults
    rw [← hfaults, ← hr, ← hf]
  | exhausted => exact .inr rfl

end Indexed

/-! ## §4. Every list of tokens. -/

/-- Some tokens with their first one for the end, or without one. -/
theorem first_end (tokens : List Token) :
    (∃ before finish beyond, tokens = before ++ finish :: beyond ∧
      (∀ t ∈ before, t.isEnd = false) ∧ finish.isEnd = true) ∨ ∀ t ∈ tokens, t.isEnd = false := by
  cases hfind : tokens.find? Token.isEnd with
  | some finish =>
    obtain ⟨hfinish, before, beyond, rfl, hbefore⟩ := List.find?_eq_some_iff_append.1 hfind
    refine .inl ⟨before, finish, beyond, rfl, fun t ht => ?_, hfinish⟩
    simpa using hbefore t ht
  | none => exact .inr fun t ht => Bool.eq_false_iff.2 (List.find?_eq_none.1 hfind t ht)

namespace Cursor

variable {before beyond tokens : List Token} {finish : Token}

theorem start_append (hbefore : ∀ t ∈ before, t.isEnd = false) (hfinish : finish.isEnd = true) :
    start (before ++ finish :: beyond) = ⟨before, finish, []⟩ := by
  have hrest : (before ++ finish :: beyond).takeWhile (!·.isEnd) = before := by
    rw [List.takeWhile_append_of_pos (by simpa using hbefore),
      List.takeWhile_cons_of_neg (by simp [hfinish]), List.append_nil]
  have hfind : (before ++ finish :: beyond).find? Token.isEnd = some finish :=
    List.find?_eq_some_iff_append.2 ⟨hfinish, before, beyond, rfl, by simpa using hbefore⟩
  unfold start
  rw [hrest, hfind, Option.getD_some]

theorem start_of_no_end (h : ∀ t ∈ tokens, t.isEnd = false) :
    start tokens = ⟨tokens, ⟨.endOfInput, "", (tokens.getLast?.map Token.line).getD 1⟩, []⟩ := by
  have hfind : tokens.find? Token.isEnd = none := by
    rw [List.find?_eq_none]
    intro t ht
    rw [h t ht]
    exact Bool.false_ne_true
  unfold start
  rw [List.takeWhile_eq_self_iff.2 (by simpa using h), hfind, Option.getD_none]

/-- **Behind the first end, nothing counts.** -/
theorem start_upToEnd (tokens : List Token) : start (upToEnd tokens) = start tokens := by
  obtain ⟨before, finish, beyond, rfl, hbefore, hfinish⟩ | hnone := first_end tokens
  · have htake : upToEnd (before ++ finish :: beyond) = before ++ [finish] := by
      rw [upToEnd, endIndex_append hbefore hfinish, List.take_length_add_append]
      rfl
    rw [htake, start_append hbefore hfinish, start_append hbefore hfinish]
  · have hindex : endIndex tokens = tokens.length := List.findIdx_eq_length_of_false hnone
    rw [upToEnd, hindex, List.take_of_length_le (Nat.le_succ _)]

/-- The cursor before some tokens stands at the first of them. -/
theorem start_stands (tokens : List Token) :
    StandsAt (terminated tokens) [] (start tokens) ⟨0, []⟩ := by
  obtain ⟨before, finish, beyond, rfl, hbefore, hfinish⟩ | hnone := first_end tokens
  · obtain ⟨beyond', hv⟩ : ∃ beyond', terminated (before ++ finish :: beyond) =
        before ++ finish :: beyond' := by
      unfold terminated
      split
      · exact ⟨beyond, rfl⟩
      · exact ⟨_, List.append_assoc _ _ _⟩
    rw [start_append hbefore hfinish, hv]
    exact .here ⟨before, finish, []⟩ hfinish hbefore beyond' rfl
  · have hlast : tokens.getLast?.any Token.isEnd = false := by
      cases hl : tokens.getLast? with
      | none => rfl
      | some t => exact hnone t (List.mem_of_getLast? hl)
    rw [start_of_no_end hnone, terminated, hlast, if_neg Bool.false_ne_true]
    exact .here ⟨tokens, _, []⟩ rfl hnone [] rfl

end Cursor

/-- Some cursor stands at an index that is not behind the end. -/
theorem exists_stands {v : List Token} {i : Nat} (hv : endIndex v < v.length) (hi : i ≤ endIndex v)
    (fs : List SyntaxFault) : ∃ c, StandsAt v fs c ⟨i, fs⟩ := by
  refine ⟨⟨(v.drop i).take (endIndex v - i), v[endIndex v], []⟩, ⟨v.drop (endIndex v + 1), ?_⟩, ?_,
    (List.append_nil fs).symm⟩
  · show v.drop i = (v.drop i).take (endIndex v - i) ++ v[endIndex v] :: v.drop (endIndex v + 1)
    have hdrop : v.drop (endIndex v) = (v.drop i).drop (endIndex v - i) := by
      rw [List.drop_drop, Nat.add_sub_cancel' hi]
    rw [List.getElem_cons_drop hv, hdrop, List.take_append_drop]
  · show i + ((v.drop i).take (endIndex v - i)).length = endIndex v
    rw [List.length_take, List.length_drop]
    omega

/-- **What is read depends neither on the bounds nor on what was noted before,** as
long as no bound is reached. -/
theorem declarations_settle (n m : Nat) (fs : List SyntaxFault) {tokens : List Token}
    {ss : List Stmt} {c : Cursor} (h : readProgram tokens = .ok ss c) :
    Parse.declarations (Parse.declaration n .top) (fun _ => false) m
        ⟨(Cursor.start tokens).rest, (Cursor.start tokens).finish, fs⟩ =
          .ok ss ⟨c.rest, c.finish, fs ++ c.faults⟩ ∨
      Parse.declarations (Parse.declaration n .top) (fun _ => false) m
        ⟨(Cursor.start tokens).rest, (Cursor.start tokens).finish, fs⟩ = .exhausted := by
  have hstands := Cursor.start_stands tokens
  have hrun := Indexed.declarations_follows
    ((Indexed.readers (readingBound tokens) n).declaration .top) (fun _ => false)
    (readingBound tokens) m
  have hread := Indexed.declarations_follows
    ((Indexed.readers n (readingBound tokens)).declaration .top) (fun _ => false)
    m (readingBound tokens)
  rw [Nat.add_comm n, Nat.add_comm m] at hread
  exact hrun.settles hread hstands.finish_isEnd (fun t ht => hstands.rest_isEnd ht) h

/-- A program is read up to its end. -/
theorem readProgram_reaches_end {tokens : List Token} {ss : List Stmt} {c : Cursor}
    (h : readProgram tokens = .ok ss c) :
    c.rest = [] ∧ c.finish = (Cursor.start tokens).finish := by
  have hread := Parse.program_reads tokens
  unfold Parse.Reads at hread
  rw [show Parse.program (readingBound tokens) (.start tokens) = _ from h] at hread
  obtain ⟨ts, fs, hm, hts, -⟩ := hread
  have hrest : ts = ts ++ c.rest := hts.trans hm.rest
  exact ⟨List.self_eq_append_right.1 hrest, hm.finish⟩

/-- The declaration at an index before the end is read to a later index, which is
not behind the end. -/
theorem declaration_progress {v : List Token} (hv : endIndex v < v.length) (ctx : Context) {i : Nat}
    (hi : i < endIndex v) (fs : List SyntaxFault) :
    ∃ o j gs, i < j ∧ j ≤ endIndex v ∧ ∀ n, 5 * (endIndex v - i) + 5 ≤ n →
      Indexed.declaration n ctx v ⟨i, fs⟩ = .ok o ⟨j, fs ++ gs⟩ := by
  obtain ⟨c, hc⟩ := exists_stands hv (Nat.le_of_lt hi) fs
  have hlength : i + c.rest.length = endIndex v := hc.before
  have hne : c.rest ≠ [] := by
    intro hnil
    rw [hnil, List.length_nil] at hlength
    omega
  have hread := (Parse.readers _).declaration (endIndex v - i) ctx (Nat.le_refl _) c
    ⟨hc.finish_isEnd, by omega⟩ hne
  unfold Parse.Reads at hread
  cases hp : Parse.declaration (5 * (endIndex v - i) + 5) ctx c with
  | ok o c' =>
    rw [hp] at hread
    obtain ⟨ts, gs, hm, hts, -⟩ := hread
    -- The tokens passed are those between the two indexes.
    have hpassed : c.rest.length = ts.length + c'.rest.length := by
      rw [hm.rest, List.length_append]
    have hpos := List.length_pos_iff.2 hts
    refine ⟨o, i + ts.length, c'.faults, by omega, by omega, fun n hn => ?_⟩
    obtain ⟨k, rfl⟩ := Nat.exists_eq_add_of_le' hn
    obtain ⟨⟨j, gs'⟩, hq, hc'⟩ := ((Indexed.readers k _).declaration ctx).ok hc hp
    have hj : j + c'.rest.length = endIndex v := hc'.before
    have hgs : gs' = fs ++ c'.faults := hc'.faults
    have hji : j = i + ts.length := by omega
    rw [hq, hgs, hji]
  | stuck fault c' => exact absurd hp (Parse.declaration_neverStuck _ _ _ _ _)
  | broken text c' =>
    rw [hp] at hread
    exact hread.elim
  | exhausted =>
    rw [hp] at hread
    exact hread.elim

/-- **Reading is total and stays among the tokens.** Every list of tokens is read
to its end, with a value.  Reading by index, with a token for the end behind
them, gives the same and stops at the first one for the end: it never looks where
there is no token, and a larger bound changes nothing.  A declaration that is read
anywhere before the end goes on by some tokens and not past the end.  Nothing
behind the first token for the end counts. -/
theorem reading_stays_among_the_tokens (tokens : List Token) :
    endIndex (terminated tokens) < (terminated tokens).length ∧
    (∃ ss c, readProgram tokens = .ok ss c ∧ ∀ n, readingBound tokens ≤ n →
      Indexed.program n (terminated tokens) ⟨0, []⟩ =
        .ok ss ⟨endIndex (terminated tokens), c.faults⟩) ∧
    (∀ ctx i fs, i < endIndex (terminated tokens) →
      ∃ o j gs, i < j ∧ j ≤ endIndex (terminated tokens) ∧
        ∀ n, 5 * (endIndex (terminated tokens) - i) + 5 ≤ n →
          Indexed.declaration n ctx (terminated tokens) ⟨i, fs⟩ = .ok o ⟨j, fs ++ gs⟩) ∧
    ∀ others, upToEnd others = upToEnd tokens → readProgram others = readProgram tokens := by
  have hstart := Cursor.start_stands tokens
  have hend := hstart.endIndex_lt
  obtain ⟨ss, c, hread⟩ := readProgram_ok tokens
  refine ⟨hend, ⟨ss, c, hread, fun n hn => ?_⟩,
    fun ctx i fs hi => declaration_progress hend ctx hi fs, fun others hsame => ?_⟩
  · obtain ⟨k, rfl⟩ := Nat.exists_eq_add_of_le' hn
    obtain ⟨⟨i, fs⟩, hq, hc⟩ := (Indexed.program_follows k _).ok hstart hread
    have hi : i + c.rest.length = endIndex (terminated tokens) := hc.before
    have hfs : fs = c.faults := hc.faults
    rw [(readProgram_reaches_end hread).1, List.length_nil, Nat.add_zero] at hi
    rw [hq, hfs, hi]
  · obtain ⟨ss', c', hread'⟩ := readProgram_ok others
    have hcursor : Cursor.start others = Cursor.start tokens := by
      rw [← Cursor.start_upToEnd others, hsame, Cursor.start_upToEnd]
    unfold readProgram at hread'
    rw [hcursor] at hread'
    rcases declarations_settle (readingBound others) (readingBound others) [] hread with
      hsettled | hexhausted
    · rw [readProgram, hcursor, hread]
      exact hsettled
    · exact absurd (hexhausted.symm.trans hread') nofun

end Lox
