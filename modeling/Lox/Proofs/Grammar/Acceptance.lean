/-
  Lox.Proofs.Grammar.Acceptance
  ────────────────────────────────
  **THE GRAMMAR IS WHAT IS ACCEPTED.**

  The other direction of `Grammar.Soundness`: tokens that derive a phrase are
  read as this phrase, without a fault, whatever follows that cannot extend it.
  `p.Finds c a c'` says that a reader finds `a` between two cursors, or runs
  into its bound; that it does not do so for a whole program is known already,
  so no proof here counts repetitions.

    • behind an operand stands a token that opens no arguments and is no
      operator of the level or a tighter one (`Token.Stops`);
    • behind an expression there is no `=` either (`Token.Ends`);
    • behind a dangling statement there is no `else`.

  Left-recursive productions are read by loops, so their statement is about the
  loop that is still to come (`Resumes`).  Both directions together:

      `ts` are read as `ss` without a fault
        ↔  those of them before the end derive `ss`
-/
import Lox.Proofs.Grammar.Soundness

namespace Lox

namespace Parse

variable {α β : Type} {c c' c'' : Cursor}

/-! ## §1. Finding something. -/

/-- A reader goes on as another one does further ahead, or runs into its bound. -/
def Resumes (p : Parse α) (c : Cursor) (q : Parse α) (c' : Cursor) : Prop :=
  p c = q c' ∨ p c = .exhausted

/-- A reader finds a value between two cursors, or runs into its bound. -/
def Finds (p : Parse α) (c : Cursor) (a : α) (c' : Cursor) : Prop := p.Resumes c (pure a) c'

theorem Finds.pure {a : α} : (Pure.pure a : Parse α).Finds c a c := .inl rfl

theorem Resumes.of_exhausted {p q : Parse α} (h : p c = .exhausted) : p.Resumes c q c' := .inr h

/-- What is found is handed on. -/
theorem Finds.bind {p : Parse α} {f : α → Parse β} {a : α} (h : p.Finds c a c') :
    (p >>= f).Resumes c (f a) c' := by
  show Parse.bind p f c = f a c' ∨ Parse.bind p f c = .exhausted
  unfold Parse.bind
  rcases h with h | h
  · left
    rw [h]
    rfl
  · right
    rw [h]

theorem Resumes.trans {p q r : Parse α} (h : p.Resumes c q c') (hq : q.Resumes c' r c'') :
    p.Resumes c r c'' := by
  rcases h with h | h
  · rcases hq with hq | hq
    · exact .inl (h.trans hq)
    · exact .inr (h.trans hq)
  · exact .inr h

/-- One reader after the other. -/
theorem Finds.then {p : Parse α} {f : α → Parse β} {a : α} {q : Parse β} (h : p.Finds c a c')
    (hf : (f a).Resumes c' q c'') : (p >>= f).Resumes c q c'' :=
  h.bind.trans hf

theorem Finds.map {p : Parse α} {a : α} (h : p.Finds c a c') (f : α → β) :
    (f <$> p).Finds c (f a) c' :=
  h.then Finds.pure

section Tokens

variable {t fin : Token} {rest : List Token} {fs : List SyntaxFault} {wanted : Token → Bool}

/-- Looking at the token at the cursor. -/
theorem Resumes.peek {f : Token → Parse α} {q : Parse α}
    (h : (f t).Resumes ⟨t :: rest, fin, fs⟩ q c') :
    (Parse.peek >>= f).Resumes ⟨t :: rest, fin, fs⟩ q c' := h

theorem advance_finds : advance.Finds ⟨t :: rest, fin, fs⟩ t ⟨rest, fin, fs⟩ := .inl rfl

theorem expect_finds (complaint : String) (h : wanted t = true) :
    (expect wanted complaint).Finds ⟨t :: rest, fin, fs⟩ t ⟨rest, fin, fs⟩ := by
  left
  show (if wanted t = true then advance else _) _ = _
  rw [if_pos h]
  rfl

theorem accept_finds (h : wanted t = true) :
    (accept wanted).Finds ⟨t :: rest, fin, fs⟩ true ⟨rest, fin, fs⟩ := by
  left
  show (if wanted t = true then _ else _ : Parse Bool) _ = _
  rw [if_pos h]
  rfl

theorem accept_finds_not (h : rest.head?.any wanted = false) :
    (accept wanted).Finds ⟨rest, fin, fs⟩ false ⟨rest, fin, fs⟩ := by
  left
  show (if rest.head?.any wanted = true then _ else _ : Parse Bool) _ = _
  rw [if_neg (by simp [h])]

theorem require_finds (t : Token) (cause : SyntaxCause) :
    (require true t cause).Finds ⟨rest, fin, fs⟩ () ⟨rest, fin, fs⟩ := .inl rfl

theorem noteExcess_finds {count : Nat} (h : count + 1 ≤ maxArity) (cause : SyntaxCause) :
    (noteExcess count cause).Finds ⟨rest, fin, fs⟩ () ⟨rest, fin, fs⟩ := by
  unfold noteExcess
  rw [if_neg (by omega)]
  exact Finds.pure

end Tokens

section Options

variable {fin : Token} {rest rest' : List Token} {fs : List SyntaxFault} {mark : Token → Bool}

theorem unlessAt_finds {p : Parse α} {a : α} (hmark : rest.head?.any mark = false)
    (h : p.Finds ⟨rest, fin, fs⟩ a ⟨rest', fin, fs⟩) :
    (unlessAt mark p).Finds ⟨rest, fin, fs⟩ (some a) ⟨rest', fin, fs⟩ := by
  show Resumes (if rest.head?.any mark = true then _ else some <$> p) _ _ _
  rw [if_neg (by simp [hmark])]
  exact h.map some

theorem unlessAt_finds_none {p : Parse α} (hmark : rest.head?.any mark = true) :
    (unlessAt mark p).Finds ⟨rest, fin, fs⟩ none ⟨rest, fin, fs⟩ := by
  show Resumes (if rest.head?.any mark = true then Pure.pure none else _) _ _ _
  rw [if_pos hmark]
  exact Finds.pure

theorem listUnlessAt_finds {p : Parse (List α)} {as : List α} (hmark : rest.head?.any mark = false)
    (h : p.Finds ⟨rest, fin, fs⟩ as ⟨rest', fin, fs⟩) :
    (listUnlessAt mark p).Finds ⟨rest, fin, fs⟩ as ⟨rest', fin, fs⟩ := by
  show Resumes (if rest.head?.any mark = true then _ else p) _ _ _
  rw [if_neg (by simp [hmark])]
  exact h

theorem listUnlessAt_finds_nil {p : Parse (List α)} (hmark : rest.head?.any mark = true) :
    (listUnlessAt mark p).Finds ⟨rest, fin, fs⟩ [] ⟨rest, fin, fs⟩ := by
  show Resumes (if rest.head?.any mark = true then Pure.pure [] else _) _ _ _
  rw [if_pos hmark]
  exact Finds.pure

theorem afterMark_finds {p : Parse α} {a : α} {t : Token} (hmark : mark t = true)
    (h : p.Finds ⟨rest, fin, fs⟩ a ⟨rest', fin, fs⟩) :
    (afterMark mark p).Finds ⟨t :: rest, fin, fs⟩ (some a) ⟨rest', fin, fs⟩ :=
  (accept_finds hmark).then (h.map some)

theorem afterMark_finds_none {p : Parse α} (hmark : rest.head?.any mark = false) :
    (afterMark mark p).Finds ⟨rest, fin, fs⟩ none ⟨rest, fin, fs⟩ :=
  (accept_finds_not hmark).then Finds.pure

end Options

/-! ## §2. What may follow. -/

end Parse

/-- A token that opens no arguments and is no operator of some levels. -/
structure Token.Stops (u : Token) (ls : List Level) : Prop where
  noCall : u.isSymbol .leftParen = false
  noOperator : ∀ l ∈ ls, l.accepts u = false

/-- A token that no expression goes on with. -/
structure Token.Ends (u : Token) : Prop extends u.Stops Level.all where
  noAssignment : u.isSymbol .equal = false

/-- A token is an operator of one level only. -/
theorem Level.eq_of_accepts {l l' : Level} {t : Token} (h : l.accepts t = true)
    (h' : l'.accepts t = true) : l = l' := by
  unfold Level.accepts at h h'
  split at h
  all_goals first
    | exact Bool.noConfusion h
    | next hk =>
      rw [hk] at h'
      cases l' <;> first | rfl | exact Bool.noConfusion h'

/-- An operator of a level stops all the tighter ones. -/
theorem Level.stops_of_accepts {l : Level} {ls : List Level} {t : Token}
    (h : l.accepts t = true) (hd : (l :: ls).Nodup) : t.Stops ls := by
  constructor
  · cases hp : t.isSymbol .leftParen with
    | false => rfl
    | true =>
      unfold Level.accepts at h
      rw [kind_of_isSymbol hp] at h
      cases l <;> exact Bool.noConfusion h
  · intro l' hl'
    cases ha : l'.accepts t with
    | false => rfl
    | true =>
      have hne : l ∉ ls := (List.nodup_cons.1 hd).1
      exact absurd (eq_of_accepts h ha ▸ hl') hne

theorem Token.ends_of_isSymbol {u : Token} {s : Symbol} (h : u.isSymbol s = true)
    (hs : s = .semicolon ∨ s = .comma ∨ s = .rightParen) : u.Ends := by
  have hk := kind_of_isSymbol h
  rcases hs with rfl | rfl | rfl <;>
    refine ⟨⟨by simp [Token.isSymbol, hk], ?_⟩, by simp [Token.isSymbol, hk]⟩ <;>
    · intro l _
      unfold Level.accepts
      rw [hk]
      cases l <;> rfl

/-! ## §3. What is found for each phrase. -/

open Parse

/-- **Tokens are read as a phrase:** the reader of the phrase finds its tree,
whatever follows that may follow. -/
def Phrase.Found : Phrase → List Token → Prop
  | .primary e, ts => ∀ n rest fin fs,
      (Parse.primary n).Finds ⟨ts ++ rest, fin, fs⟩ e ⟨rest, fin, fs⟩
  -- The calls that are still to come are read by the same loop.
  | .call e, ts => ∀ n m rest fin fs, ∃ m',
      (Parse.primary n >>= calls (Parse.expression n) m).Resumes ⟨ts ++ rest, fin, fs⟩
        (calls (Parse.expression n) m' e) ⟨rest, fin, fs⟩
  | .unary e, ts | .ladder [] e, ts => ∀ n u rest fin fs, u.isSymbol .leftParen = false →
      (Parse.unary n).Finds ⟨ts ++ u :: rest, fin, fs⟩ e ⟨u :: rest, fin, fs⟩
  | .ladder (l :: ls) e, ts => (l :: ls).Nodup → ∀ n m u rest fin fs, u.Stops ls → ∃ m',
      (Parse.ladder (Parse.unary n) m (l :: ls)).Resumes ⟨ts ++ u :: rest, fin, fs⟩
        (chain l (Parse.ladder (Parse.unary n) m ls) m' e) ⟨u :: rest, fin, fs⟩
  | .expression e, ts => ∀ n u rest fin fs, u.Ends →
      (Parse.expression n).Finds ⟨ts ++ u :: rest, fin, fs⟩ e ⟨u :: rest, fin, fs⟩
  | .arguments es, ts => ∀ n m excess count u rest fin fs, u.Ends → u.isSymbol .comma = false →
      count + es.length ≤ maxArity →
      (separated (Parse.expression n) excess m count).Finds ⟨ts ++ u :: rest, fin, fs⟩ es
        ⟨u :: rest, fin, fs⟩
  | .given es, ts => ∀ n m r rest fin fs, r.isSymbol .rightParen = true →
      (Parse.arguments (Parse.expression n) m).Finds ⟨ts ++ r :: rest, fin, fs⟩ es
        ⟨r :: rest, fin, fs⟩
  | .clause e, ts => ∀ n mark r rest fin fs, mark r = true → r.Ends →
      (∀ t, t.opensExpression = true → mark t = false) →
      (unlessAt mark (Parse.expression n)).Finds ⟨ts ++ r :: rest, fin, fs⟩ e ⟨r :: rest, fin, fs⟩
  | .function names body, ts => ∀ n m after rest fin fs,
      (Parse.function (Parse.declaration n .ofFunction) m after).Finds ⟨ts ++ rest, fin, fs⟩
        (names, body) ⟨rest, fin, fs⟩
  | .block ctx body, ts => ∀ n m rest fin fs, ∃ l us, ts = l :: us ∧
      l.isSymbol .leftBrace = true ∧
      (Parse.block (Parse.declaration n ctx) m).Finds ⟨us ++ rest, fin, fs⟩ body ⟨rest, fin, fs⟩
  | .binding s, ts => ∀ n rest fin fs,
      (varDeclaration (Parse.expression n)).Finds ⟨ts ++ rest, fin, fs⟩ s ⟨rest, fin, fs⟩
  | .first s, ts => ∀ n rest fin fs,
      (firstClause (Parse.expression n)).Finds ⟨ts ++ rest, fin, fs⟩ s ⟨rest, fin, fs⟩
  | .statement ctx dangling s, ts => ∀ n rest fin fs,
      (dangling = true → rest.head?.any (·.isKeyword .elseWord) = false) →
      (Parse.statement n ctx).Finds ⟨ts ++ rest, fin, fs⟩ s ⟨rest, fin, fs⟩
  | .declaration ctx s, ts => ∀ n rest fin fs,
      rest.head?.any (·.isKeyword .elseWord) = false →
      (Parse.declaration n ctx).Finds ⟨ts ++ rest, fin, fs⟩ (some s) ⟨rest, fin, fs⟩
  | .declarations ctx ss, ts => ∀ n m stop rest fin fs,
      rest.head?.any (·.isKeyword .elseWord) = false → rest.head?.any (!stop ·) = false →
      (∀ t, t.opensDeclaration = true → stop t = false) →
      (Parse.declarations (Parse.declaration n ctx) stop m).Finds ⟨ts ++ rest, fin, fs⟩ ss
        ⟨rest, fin, fs⟩

namespace Phrase.Found

/-! ## §4. Expressions. -/

variable {t u l r name k equals comma semi other : Token} {ts us vs ws names : List Token}
  {e f left right : Expr} {es : List Expr} {body : List Stmt}

theorem atom (h : Atom t e) : Found (.primary e) [t] := by
  intro n rest fin fs
  cases n with
  | zero => exact .of_exhausted rfl
  | succ n =>
    rw [Parse.primary]
    apply Resumes.peek
    rw [if_pos h.isAtom]
    apply advance_finds.then
    unfold Parse.atom
    rw [atom_iff.1 h]
    exact Finds.pure

theorem group (hl : l.isSymbol .leftParen = true) (he : Found (.expression e) ts)
    (hr : r.isSymbol .rightParen = true) : Found (.primary (.group e)) (l :: (ts ++ [r])) := by
  intro n rest fin fs
  cases n with
  | zero => exact .of_exhausted rfl
  | succ n =>
    have hatom : l.isAtom = false := by simp only [Token.isAtom, kind_of_isSymbol hl]
    rw [Parse.primary, List.cons_append, List.append_assoc]
    apply Resumes.peek
    simp only [hatom, hl, if_true, Bool.false_eq_true, if_false]
    apply advance_finds.then
    refine (he n r rest fin fs (Token.ends_of_isSymbol hr (by simp))).then ?_
    exact (expect_finds _ hr).then Finds.pure

/-- A function expression, of which the name is left to read. -/
theorem functionExpression {o : Option Token} (hk : k.isKeyword .funWord = true)
    (hf : Found (.function names body) us)
    (ho : ∀ rest fin fs, ownName.Finds ⟨ts ++ rest, fin, fs⟩ o ⟨us ++ rest, fin, fs⟩) :
    Found (.primary (.function o names body)) (k :: ts) := by
  intro n rest fin fs
  cases n with
  | zero => exact .of_exhausted rfl
  | succ n =>
    have hkind := kind_of_isKeyword hk
    have hatom : k.isAtom = false := by simp only [Token.isAtom, hkind]
    have hparen : k.isSymbol .leftParen = false := by simp only [Token.isSymbol, hkind]
    rw [Parse.primary]
    refine Resumes.peek ?_
    simp only [hatom, hparen, hk, if_true, Bool.false_eq_true, if_false]
    refine advance_finds.then ?_
    refine (ho rest fin fs).then ?_
    exact (hf n n _ rest fin fs).then Finds.pure

theorem unnamed (hk : k.isKeyword .funWord = true) (hf : Found (.function names body) ts)
    (ht : ts.head?.any (·.isSymbol .leftParen) = true) :
    Found (.primary (.function none names body)) (k :: ts) := by
  refine functionExpression hk hf fun rest fin fs => ?_
  obtain ⟨l, us, rfl, hl⟩ := eq_cons_of_head?_any ht
  left
  show (if l.isIdentifier = true then _ else _ : Parse (Option Token)) _ = _
  rw [if_neg (by simp [Token.isIdentifier, kind_of_isSymbol hl])]

theorem named (hk : k.isKeyword .funWord = true) (hn : name.isIdentifier = true)
    (hf : Found (.function names body) ts) :
    Found (.primary (.function (some name) names body)) (k :: name :: ts) := by
  refine functionExpression hk hf fun rest fin fs => ?_
  show Resumes (if name.isIdentifier = true then some <$> advance else _) _ _ _
  rw [if_pos hn]
  exact advance_finds.map some

theorem callee (h : Found (.primary e) ts) : Found (.call e) ts :=
  fun n m rest fin fs => ⟨m, (h n rest fin fs).bind⟩

theorem call (hf : Found (.call f) ts) (hl : l.isSymbol .leftParen = true)
    (hs : Found (.given es) us) (hr : r.isSymbol .rightParen = true) :
    Found (.call (.call f r es)) (ts ++ l :: (us ++ [r])) := by
  intro n m rest fin fs
  -- The callee is read up to the parenthesis, by a loop that has not ended there.
  obtain ⟨m', h⟩ := hf n m (l :: (us ++ r :: rest)) fin fs
  have hrest : ts ++ l :: (us ++ [r]) ++ rest = ts ++ l :: (us ++ r :: rest) := by simp
  rw [hrest]
  cases m' with
  | zero => exact ⟨0, h.trans (.of_exhausted rfl)⟩
  | succ m' =>
    refine ⟨m', h.trans ?_⟩
    apply (accept_finds hl).then
    simp only [if_true]
    apply (hs n m' r rest fin fs hr).then
    exact (expect_finds _ hr).bind

theorem operand (h : Found (.call e) ts) (ht : ts.head?.any Token.opensPrimary = true) :
    Found (.unary e) ts := by
  intro n u rest fin fs hu
  cases n with
  | zero => exact .of_exhausted rfl
  | succ n =>
    obtain ⟨m, h⟩ := h n n (u :: rest) fin fs
    obtain ⟨t, us, rfl, hopen⟩ := eq_cons_of_head?_any ht
    -- No token that opens an operand is a sign.
    have hsign : (t.isSymbol .bang || t.isSymbol .minus) = false := by
      unfold Token.opensPrimary at hopen
      unfold Token.isSymbol
      split at hopen <;> simp_all
    rw [Parse.unary]
    apply Resumes.peek
    rw [hsign]
    apply h.trans
    cases m with
    | zero => exact .of_exhausted rfl
    | succ m => exact (accept_finds_not (by simpa using hu)).then Finds.pure

theorem signed (ht : t.isPrefixOperator = true) (he : Found (.unary e) ts) :
    Found (.unary (.unary t e)) (t :: ts) := by
  intro n u rest fin fs hu
  cases n with
  | zero => exact .of_exhausted rfl
  | succ n =>
    have hsign : (t.isSymbol .bang || t.isSymbol .minus) = true := ht
    rw [Parse.unary]
    apply Resumes.peek
    rw [if_pos hsign]
    apply advance_finds.then
    exact (he n u rest fin fs hu).then Finds.pure

/-- What a level is read as once no further operator of it follows. -/
theorem ladder_finds {ls : List Level} (h : Found (.ladder ls e) ts) (hd : ls.Nodup)
    (n m : Nat) (rest : List Token) (fin : Token) (fs : List SyntaxFault) (hu : u.Stops ls) :
    (Parse.ladder (Parse.unary n) m ls).Finds ⟨ts ++ u :: rest, fin, fs⟩ e
      ⟨u :: rest, fin, fs⟩ := by
  cases ls with
  | nil => exact h n u rest fin fs hu.noCall
  | cons l ls =>
    have htighter : u.Stops ls := ⟨hu.noCall, fun l' hl' => hu.noOperator l' (.tail _ hl')⟩
    obtain ⟨m', h⟩ := h hd n m u rest fin fs htighter
    apply h.trans
    cases m' with
    | zero => exact .of_exhausted rfl
    | succ m' =>
      apply Resumes.peek
      rw [if_neg (by simp [hu.noOperator l (.head _)])]
      exact Finds.pure

theorem tighter {l : Level} {ls : List Level} (h : Found (.ladder ls e) ts) :
    Found (.ladder (l :: ls) e) ts := by
  intro hd n m u rest fin fs hu
  exact ⟨m, (ladder_finds h (List.nodup_cons.1 hd).2 n m rest fin fs hu).bind⟩

theorem chained {l : Level} {ls : List Level} (hl : Found (.ladder (l :: ls) left) ts)
    (ht : l.accepts t = true) (hr : Found (.ladder ls right) us) :
    Found (.ladder (l :: ls) (l.join left t right)) (ts ++ t :: us) := by
  intro hd n m u rest fin fs hu
  -- The operator stops the tighter levels, and the loop of this level goes on.
  obtain ⟨m', h⟩ := hl hd n m t (us ++ u :: rest) fin fs (Level.stops_of_accepts ht hd)
  have hrest : ts ++ t :: us ++ u :: rest = ts ++ t :: (us ++ u :: rest) := by simp
  rw [hrest]
  cases m' with
  | zero => exact ⟨0, h.trans (.of_exhausted rfl)⟩
  | succ m' =>
    refine ⟨m', h.trans ?_⟩
    apply Resumes.peek
    rw [if_pos ht]
    apply advance_finds.then
    exact (ladder_finds hr (List.nodup_cons.1 hd).2 n m rest fin fs hu).bind

theorem ladder (h : Found (.ladder Level.all e) ts) : Found (.expression e) ts := by
  intro n u rest fin fs hu
  cases n with
  | zero => exact .of_exhausted rfl
  | succ n =>
    apply (ladder_finds h (by decide) n n rest fin fs hu.toStops).then
    apply Resumes.peek
    rw [if_neg (by simp [hu.noAssignment])]
    exact Finds.pure

/-- A name is an expression of every level. -/
theorem ladder_name (hn : name.isIdentifier = true) (ls : List Level) :
    Found (.ladder ls (.name name)) [name] := by
  have hatom : Atom name (.name name) := .name (kind_of_isIdentifier hn)
  induction ls with
  | nil => exact operand (callee (atom hatom)) hatom.opensPrimary
  | cons l ls ih => exact tighter ih

theorem assign (hn : name.isIdentifier = true) (hq : equals.isSymbol .equal = true)
    (he : Found (.expression e) ts) :
    Found (.expression (.assign name e)) (name :: equals :: ts) := by
  intro n u rest fin fs hu
  cases n with
  | zero => exact .of_exhausted rfl
  | succ n =>
    have hkind := kind_of_isSymbol hq
    -- The target is read by the whole ladder, which stops at the equals sign.
    have hstops : equals.Stops Level.all :=
      ⟨by simp [Token.isSymbol, hkind], fun l _ => by cases l <;> simp [Level.accepts, hkind]⟩
    have htarget : (Expr.name name).target? = some name := by simp [Expr.target?, hn]
    apply (ladder_finds (ladder_name hn Level.all) (by decide) n n _ fin fs hstops).then
    apply Resumes.peek
    rw [if_pos hq]
    apply advance_finds.then
    apply (he n u rest fin fs hu).then
    rw [htarget]
    exact Finds.pure

/-! ## §5. Lists and functions. -/

theorem lastArgument (h : Found (.expression e) ts) : Found (.arguments [e]) ts := by
  intro n m excess count u rest fin fs hu hcomma hcount
  cases m with
  | zero => exact .of_exhausted rfl
  | succ m =>
    apply (noteExcess_finds hcount excess).then
    apply (h n u rest fin fs hu).then
    exact (accept_finds_not (by simpa using hcomma)).then Finds.pure

theorem argument (he : Found (.expression e) ts) (hc : comma.isSymbol .comma = true)
    (hs : Found (.arguments es) us) : Found (.arguments (e :: es)) (ts ++ comma :: us) := by
  intro n m excess count u rest fin fs hu hcomma hcount
  rw [List.length_cons] at hcount
  rw [List.append_assoc, List.cons_append]
  cases m with
  | zero => exact .of_exhausted rfl
  | succ m =>
    apply (noteExcess_finds (by omega) excess).then
    apply (he n comma (us ++ u :: rest) fin fs (Token.ends_of_isSymbol hc (by simp))).then
    apply (accept_finds hc).then
    exact (hs n m excess (count + 1) u rest fin fs hu hcomma (by omega)).then Finds.pure

theorem notGiven : Found (.given []) [] :=
  fun _ _ _ _ _ _ hr => listUnlessAt_finds_nil hr

theorem given (hs : Found (.arguments es) ts) (hm : es.length ≤ maxArity)
    (ht : ts.head?.any Token.opensExpression = true) : Found (.given es) ts := by
  intro n m r rest fin fs hr
  have hkind := kind_of_isSymbol hr
  refine listUnlessAt_finds ?_ (hs n m _ 0 r rest fin fs (Token.ends_of_isSymbol hr (by simp))
    (by simp [Token.isSymbol, hkind]) (by omega))
  obtain ⟨t, us, rfl, hopen⟩ := eq_cons_of_head?_any ht
  exact Token.isSymbol_of_opensExpression hopen (by decide)

theorem noClause : Found (.clause none) [] :=
  fun _ _ _ _ _ _ hr _ _ => unlessAt_finds_none hr

theorem clause (h : Found (.expression e) ts) (ht : ts.head?.any Token.opensExpression = true) :
    Found (.clause (some e)) ts := by
  intro n mark r rest fin fs hr hu hmark
  refine unlessAt_finds ?_ (h n r rest fin fs hu)
  obtain ⟨t, us, rfl, hopen⟩ := eq_cons_of_head?_any ht
  exact hmark t hopen

/-- Names that are few enough are read as the items of a list. -/
theorem names_finds (h : Names names ts) (complaint : String) (excess : SyntaxCause)
    (hr : r.isSymbol .comma = false) :
    ∀ m count rest fin fs, count + names.length ≤ maxArity →
      (separated (expect Token.isIdentifier complaint) excess m count).Finds
        ⟨ts ++ r :: rest, fin, fs⟩ names ⟨r :: rest, fin, fs⟩ := by
  induction h with
  | one hn =>
    intro m count rest fin fs hcount
    cases m with
    | zero => exact .of_exhausted rfl
    | succ m =>
      apply (noteExcess_finds hcount excess).then
      apply (expect_finds complaint hn).then
      exact (accept_finds_not (by simpa using hr)).then Finds.pure
  | more hn hc _ ih =>
    intro m count rest fin fs hcount
    rw [List.length_cons] at hcount
    cases m with
    | zero => exact .of_exhausted rfl
    | succ m =>
      apply (noteExcess_finds (by omega) excess).then
      apply (expect_finds complaint hn).then
      apply (accept_finds hc).then
      exact (ih m (count + 1) rest fin fs (by omega)).then Finds.pure

theorem parameters_finds (h : Parameters names ts) (hr : r.isSymbol .rightParen = true) (m : Nat)
    (rest : List Token) (fin : Token) (fs : List SyntaxFault) :
    (parameters m).Finds ⟨ts ++ r :: rest, fin, fs⟩ names ⟨r :: rest, fin, fs⟩ := by
  cases h with
  | none => exact listUnlessAt_finds_nil hr
  | some hs hm =>
    have hcomma : r.isSymbol .comma = false := by simp [Token.isSymbol, kind_of_isSymbol hr]
    refine listUnlessAt_finds ?_ (names_finds hs _ _ hcomma m 0 rest fin fs (by omega))
    have hname : ∀ {n : Token}, n.isIdentifier = true → n.isSymbol .rightParen = false :=
      fun hn => by simp [Token.isSymbol, kind_of_isIdentifier hn]
    cases hs with
    | one hn => exact hname hn
    | more hn => exact hname hn

theorem function (hl : l.isSymbol .leftParen = true) (hp : Parameters names ts)
    (hr : r.isSymbol .rightParen = true) (hb : Found (.block .ofFunction body) us) :
    Found (.function names body) (l :: (ts ++ r :: us)) := by
  intro n m after rest fin fs
  obtain ⟨b, us, rfl, hbrace, hbody⟩ := hb n m rest fin fs
  rw [List.cons_append, List.append_assoc, List.cons_append]
  apply (expect_finds _ hl).then
  apply (parameters_finds hp hr m _ fin fs).then
  apply (expect_finds _ hr).then
  apply (expect_finds _ hbrace).then
  exact hbody.then Finds.pure

theorem block {ctx : Context} (hl : l.isSymbol .leftBrace = true)
    (hb : Found (.declarations ctx body) ts) (hr : r.isSymbol .rightBrace = true) :
    Found (.block ctx body) (l :: (ts ++ [r])) := by
  intro n m rest fin fs
  refine ⟨l, ts ++ [r], rfl, hl, ?_⟩
  rw [List.append_assoc]
  refine (hb n m _ (r :: rest) fin fs ?_ ?_ ?_).then ((expect_finds _ hr).then Finds.pure)
  · simp [Token.isKeyword, kind_of_isSymbol hr]
  · simp [hr]
  · exact fun t ht => Token.isSymbol_of_opensDeclaration ht

/-! ## §6. Statements. -/

variable {ctx : Context} {d : Bool} {s yes no : Stmt} {o : Option Stmt} {condition step : Option Expr}

theorem uninitialized (hn : name.isIdentifier = true) (hs : semi.isSymbol .semicolon = true) :
    Found (.binding (.var name none)) [name, semi] := by
  intro n rest fin fs
  apply (expect_finds _ hn).then
  refine (afterMark_finds_none ?_).then ?_
  · simp [Token.isSymbol, kind_of_isSymbol hs]
  · exact (expect_finds _ hs).then Finds.pure

theorem initialized (hn : name.isIdentifier = true) (hq : equals.isSymbol .equal = true)
    (he : Found (.expression e) ts) (hs : semi.isSymbol .semicolon = true) :
    Found (.binding (.var name (some e))) (name :: equals :: (ts ++ [semi])) := by
  intro n rest fin fs
  rw [List.cons_append, List.cons_append, List.append_assoc]
  apply (expect_finds _ hn).then
  apply (afterMark_finds hq (he n semi rest fin fs (Token.ends_of_isSymbol hs (by simp)))).then
  exact (expect_finds _ hs).then Finds.pure

/-- An expression with the semicolon behind it. -/
theorem expressionStatement_finds (he : Found (.expression e) ts)
    (hs : semi.isSymbol .semicolon = true) (n : Nat) (rest : List Token) (fin : Token)
    (fs : List SyntaxFault) :
    (expressionStatement (Parse.expression n)).Finds ⟨ts ++ [semi] ++ rest, fin, fs⟩ (.expr e)
      ⟨rest, fin, fs⟩ := by
  rw [List.append_assoc]
  apply (he n semi rest fin fs (Token.ends_of_isSymbol hs (by simp))).then
  exact (expect_finds _ hs).then Finds.pure

theorem noFirst (hs : semi.isSymbol .semicolon = true) : Found (.first none) [semi] :=
  fun _ _ _ _ => (accept_finds hs).then Finds.pure

theorem firstVariable (hk : k.isKeyword .varWord = true) (hs : Found (.binding s) ts) :
    Found (.first (some s)) (k :: ts) := by
  intro n rest fin fs
  apply (accept_finds_not (by simp [Token.isSymbol, kind_of_isKeyword hk])).then
  exact (accept_finds hk).then ((hs n rest fin fs).map some)

theorem firstExpression (he : Found (.expression e) ts) (hs : semi.isSymbol .semicolon = true)
    (ht : ts.head?.any Token.opensExpression = true) :
    Found (.first (some (.expr e))) (ts ++ [semi]) := by
  intro n rest fin fs
  have hexpr := expressionStatement_finds he hs n rest fin fs
  obtain ⟨t, us, rfl, hopen⟩ := eq_cons_of_head?_any ht
  refine (accept_finds_not ?_).then ((accept_finds_not ?_).then (hexpr.map some))
  · exact Token.isSymbol_of_opensExpression hopen (by decide)
  · exact Token.isKeyword_of_opensExpression hopen (by decide)

theorem forLoop (hk : k.isKeyword .forWord = true) (hl : l.isSymbol .leftParen = true)
    (hf : Found (.first o) ts) (hc : Found (.clause condition) us)
    (hs : semi.isSymbol .semicolon = true) (ht : Found (.clause step) vs)
    (hr : r.isSymbol .rightParen = true) (hb : Found (.statement ctx.ofLoop d yes) ws)
    (hlow : Lowered o condition step yes s) :
    Found (.statement ctx d s) (k :: l :: (ts ++ (us ++ semi :: (vs ++ r :: ws)))) := by
  intro n rest fin fs hrest
  cases n with
  | zero => exact .of_exhausted rfl
  | succ n =>
    have hts : k :: l :: (ts ++ (us ++ semi :: (vs ++ r :: ws))) ++ rest =
        k :: l :: (ts ++ (us ++ semi :: (vs ++ r :: (ws ++ rest)))) := by simp
    rw [hts, Parse.statement]
    apply Resumes.peek
    rw [kind_of_isKeyword hk]
    apply advance_finds.then
    apply (expect_finds _ hl).then
    apply (hf n _ fin fs).then
    -- A clause is missing exactly if the token behind it is there already.
    refine (hc n _ semi _ fin fs hs (Token.ends_of_isSymbol hs (by simp))
      fun t ht => Token.isSymbol_of_opensExpression ht (by decide)).then ?_
    apply (expect_finds _ hs).then
    refine (ht n _ r _ fin fs hr (Token.ends_of_isSymbol hr (by simp))
      fun t ht => Token.isSymbol_of_opensExpression ht (by decide)).then ?_
    apply (expect_finds _ hr).then
    apply (hb n rest fin fs hrest).then
    rw [lowered_iff.1 hlow]
    exact Finds.pure

theorem leave (hk : k.isKeyword .breakWord = true) (hc : ctx.inLoop = true)
    (hs : semi.isSymbol .semicolon = true) :
    Found (.statement ctx false (.leave k)) [k, semi] := by
  intro n rest fin fs hrest
  cases n with
  | zero => exact .of_exhausted rfl
  | succ n =>
    rw [Parse.statement]
    apply Resumes.peek
    rw [kind_of_isKeyword hk, hc]
    apply advance_finds.then
    apply (require_finds _ _).then
    apply (expect_finds _ hs).then
    rw [if_pos hk]
    exact Finds.pure

theorem next (hk : k.isKeyword .continueWord = true) (hc : ctx.inLoop = true)
    (hs : semi.isSymbol .semicolon = true) :
    Found (.statement ctx false (.next k)) [k, semi] := by
  intro n rest fin fs hrest
  cases n with
  | zero => exact .of_exhausted rfl
  | succ n =>
    have hkind := kind_of_isKeyword hk
    rw [Parse.statement]
    apply Resumes.peek
    rw [hkind, hc]
    apply advance_finds.then
    apply (require_finds _ _).then
    apply (expect_finds _ hs).then
    rw [if_neg (by simp [Token.isKeyword, hkind])]
    exact Finds.pure

theorem branch (hk : k.isKeyword .ifWord = true) (hl : l.isSymbol .leftParen = true)
    (he : Found (.expression e) ts) (hr : r.isSymbol .rightParen = true)
    (hy : Found (.statement ctx d yes) us) :
    Found (.statement ctx true (.branch e yes none)) (k :: l :: (ts ++ r :: us)) := by
  intro n rest fin fs hrest
  cases n with
  | zero => exact .of_exhausted rfl
  | succ n =>
    have hts : k :: l :: (ts ++ r :: us) ++ rest = k :: l :: (ts ++ r :: (us ++ rest)) := by simp
    rw [hts, Parse.statement]
    apply Resumes.peek
    rw [kind_of_isKeyword hk]
    apply advance_finds.then
    apply (expect_finds _ hl).then
    apply (he n r _ fin fs (Token.ends_of_isSymbol hr (by simp))).then
    apply (expect_finds _ hr).then
    -- What follows this statement follows its branch, so no `else` does.
    apply (hy n rest fin fs fun _ => hrest rfl).then
    exact (afterMark_finds_none (hrest rfl)).then Finds.pure

theorem branchElse (hk : k.isKeyword .ifWord = true) (hl : l.isSymbol .leftParen = true)
    (he : Found (.expression e) ts) (hr : r.isSymbol .rightParen = true)
    (hy : Found (.statement ctx false yes) us) (ho : other.isKeyword .elseWord = true)
    (hn : Found (.statement ctx d no) vs) :
    Found (.statement ctx d (.branch e yes (some no)))
      (k :: l :: (ts ++ r :: (us ++ other :: vs))) := by
  intro n rest fin fs hrest
  cases n with
  | zero => exact .of_exhausted rfl
  | succ n =>
    have hts : k :: l :: (ts ++ r :: (us ++ other :: vs)) ++ rest =
        k :: l :: (ts ++ r :: (us ++ other :: (vs ++ rest))) := by simp
    rw [hts, Parse.statement]
    apply Resumes.peek
    rw [kind_of_isKeyword hk]
    apply advance_finds.then
    apply (expect_finds _ hl).then
    apply (he n r _ fin fs (Token.ends_of_isSymbol hr (by simp))).then
    apply (expect_finds _ hr).then
    -- The first branch is not dangling, so it leaves the `else` to this `if`.
    apply (hy n _ fin fs fun h => Bool.noConfusion h).then
    exact (afterMark_finds ho (hn n rest fin fs hrest)).then Finds.pure

theorem whileLoop (hk : k.isKeyword .whileWord = true) (hl : l.isSymbol .leftParen = true)
    (he : Found (.expression e) ts) (hr : r.isSymbol .rightParen = true)
    (hb : Found (.statement ctx.ofLoop d s) us) :
    Found (.statement ctx d (.loop e s false)) (k :: l :: (ts ++ r :: us)) := by
  intro n rest fin fs hrest
  cases n with
  | zero => exact .of_exhausted rfl
  | succ n =>
    have hts : k :: l :: (ts ++ r :: us) ++ rest = k :: l :: (ts ++ r :: (us ++ rest)) := by simp
    rw [hts, Parse.statement]
    apply Resumes.peek
    rw [kind_of_isKeyword hk]
    apply advance_finds.then
    apply (expect_finds _ hl).then
    apply (he n r _ fin fs (Token.ends_of_isSymbol hr (by simp))).then
    apply (expect_finds _ hr).then
    exact (hb n rest fin fs hrest).then Finds.pure

theorem print (hk : k.isKeyword .printWord = true) (he : Found (.expression e) ts)
    (hs : semi.isSymbol .semicolon = true) :
    Found (.statement ctx false (.print e)) (k :: (ts ++ [semi])) := by
  intro n rest fin fs hrest
  cases n with
  | zero => exact .of_exhausted rfl
  | succ n =>
    rw [List.cons_append, List.append_assoc, Parse.statement]
    apply Resumes.peek
    rw [kind_of_isKeyword hk]
    apply advance_finds.then
    apply (he n semi rest fin fs (Token.ends_of_isSymbol hs (by simp))).then
    exact (expect_finds _ hs).then Finds.pure

theorem give {value : Option Expr} (hk : k.isKeyword .returnWord = true)
    (hc : ctx.inFunction = true) (he : Found (.clause value) ts)
    (hs : semi.isSymbol .semicolon = true) :
    Found (.statement ctx false (.give k value)) (k :: (ts ++ [semi])) := by
  intro n rest fin fs hrest
  cases n with
  | zero => exact .of_exhausted rfl
  | succ n =>
    rw [List.cons_append, List.append_assoc, Parse.statement]
    apply Resumes.peek
    rw [kind_of_isKeyword hk, hc]
    apply advance_finds.then
    apply (require_finds _ _).then
    refine (he n _ semi rest fin fs hs (Token.ends_of_isSymbol hs (by simp))
      fun t ht => Token.isSymbol_of_opensExpression ht (by decide)).then ?_
    exact (expect_finds _ hs).then Finds.pure

theorem scope (hb : Found (.block ctx body) ts) :
    Found (.statement ctx false (.block body)) ts := by
  intro n rest fin fs hrest
  cases n with
  | zero => exact .of_exhausted rfl
  | succ n =>
    obtain ⟨l, us, rfl, hl, hbody⟩ := hb n n rest fin fs
    rw [Parse.statement]
    apply Resumes.peek
    rw [kind_of_isSymbol hl]
    exact advance_finds.then (hbody.map Stmt.block)

theorem expr (he : Found (.expression e) ts) (hs : semi.isSymbol .semicolon = true)
    (ht : ts.head?.any Token.opensExpression = true) :
    Found (.statement ctx false (.expr e)) (ts ++ [semi]) := by
  intro n rest fin fs hrest
  cases n with
  | zero => exact .of_exhausted rfl
  | succ n =>
    have hexpr := expressionStatement_finds he hs n rest fin fs
    obtain ⟨t, us, rfl, hopen⟩ := eq_cons_of_head?_any ht
    -- An expression begins with no keyword of a statement, so the last case is taken.
    have hno := Token.opensStatement_of_opensExpression hopen
    rw [Parse.statement]
    apply Resumes.peek
    unfold Token.opensStatement at hno
    split
    case h_9 => exact hexpr
    all_goals
      next hkind =>
        rw [hkind] at hno
        exact Bool.noConfusion hno

/-! ## §7. Declarations. -/

/-- What is found needs no recovery. -/
theorem recovering_finds {α : Type} {p : Parse α} {a : α} {c c' : Cursor} (h : p.Finds c a c') :
    (recovering p).Finds c (some a) c' := by
  rcases h with h | h
  · left
    unfold recovering
    rw [h]
    rfl
  · right
    unfold recovering
    rw [h]

theorem atFunctionDeclaration_finds (rest : List Token) (fin : Token) (fs : List SyntaxFault) :
    atFunctionDeclaration.Finds ⟨rest, fin, fs⟩ (startsFunction rest) ⟨rest, fin, fs⟩ := .inl rfl

theorem declareFunction (hk : k.isKeyword .funWord = true) (hn : name.isIdentifier = true)
    (hf : Found (.function names body) ts) :
    Found (.declaration ctx (.function name names body)) (k :: name :: ts) := by
  intro n rest fin fs _
  cases n with
  | zero => exact .of_exhausted rfl
  | succ n =>
    have hstart : startsFunction (k :: name :: ts ++ rest) = true := by
      simp [startsFunction, hk, hn]
    rw [Parse.declaration]
    apply recovering_finds
    apply (atFunctionDeclaration_finds _ fin fs).then
    rw [if_pos hstart]
    apply advance_finds.then
    apply (expect_finds _ hn).then
    exact (hf n n _ rest fin fs).then Finds.pure

theorem declareVariable (hk : k.isKeyword .varWord = true) (hs : Found (.binding s) ts) :
    Found (.declaration ctx s) (k :: ts) := by
  intro n rest fin fs _
  cases n with
  | zero => exact .of_exhausted rfl
  | succ n =>
    have hstart : startsFunction (k :: ts ++ rest) = false := by
      cases h : ts ++ rest <;> simp [startsFunction, h, Token.isKeyword, kind_of_isKeyword hk]
    rw [Parse.declaration]
    apply recovering_finds
    apply (atFunctionDeclaration_finds _ fin fs).then
    rw [if_neg (by rw [hstart]; exact Bool.false_ne_true)]
    exact (accept_finds hk).then (hs n rest fin fs)

theorem plain (hs : Found (.statement ctx d s) ts)
    (hf : ∀ rest, startsFunction (ts ++ rest) = false)
    (ht : ts.head?.any (fun t => t.opensExpression || t.opensStatement) = true) :
    Found (.declaration ctx s) ts := by
  intro n rest fin fs hrest
  cases n with
  | zero => exact .of_exhausted rfl
  | succ n =>
    rw [Parse.declaration]
    apply recovering_finds
    apply (atFunctionDeclaration_finds _ fin fs).then
    rw [if_neg (by simp [hf rest])]
    refine (accept_finds_not ?_).then (hs n rest fin fs fun _ => hrest)
    obtain ⟨t, us, rfl, hopen⟩ := eq_cons_of_head?_any ht
    show t.isKeyword .varWord = false
    rcases Bool.or_eq_true_iff.1 hopen with hopen | hopen
    · exact Token.isKeyword_of_opensExpression hopen (by decide)
    · unfold Token.opensStatement at hopen
      split at hopen <;> simp_all [Token.isKeyword]

theorem nil : Found (.declarations ctx []) [] := by
  intro n m stop rest fin fs _ hstop _
  cases m with
  | zero => exact .of_exhausted rfl
  | succ m =>
    show Resumes (if rest.head?.any (!stop ·) = true then _ else Pure.pure []) _ _ _
    rw [if_neg (by simp [hstop])]
    exact Finds.pure

theorem cons {ss : List Stmt} (hs : Found (.declaration ctx s) ts)
    (hss : Found (.declarations ctx ss) us) (ht : ts.head?.any Token.opensDeclaration = true)
    (hu : us = [] ∨ us.head?.any Token.opensDeclaration = true) :
    Found (.declarations ctx (s :: ss)) (ts ++ us) := by
  intro n m stop rest fin fs hrest hstop hopen
  cases m with
  | zero => exact .of_exhausted rfl
  | succ m =>
    -- No declaration begins with an `else`, so none follows the first one.
    have hnext : (us ++ rest).head?.any (·.isKeyword .elseWord) = false := by
      rcases hu with rfl | hu
      · exact hrest
      · obtain ⟨u, us, rfl, hu⟩ := eq_cons_of_head?_any hu
        exact Token.isKeyword_of_opensDeclaration hu
    have hgo : (ts ++ (us ++ rest)).head?.any (!stop ·) = true := by
      obtain ⟨t, ts, rfl, ht⟩ := eq_cons_of_head?_any ht
      simp [hopen t ht]
    rw [List.append_assoc]
    show Resumes (if (ts ++ (us ++ rest)).head?.any (!stop ·) = true then _ else _) _ _ _
    rw [if_pos hgo]
    apply (hs n (us ++ rest) fin fs hnext).then
    exact (hss n m stop rest fin fs hrest hstop hopen).then Finds.pure

end Phrase.Found

/-! ## §8. All phrases, and programs. -/

/-- Declarations begin with a token that opens one, if there are any. -/
theorem Derives.declarations_open {ctx : Context} {ss : List Stmt} {ts : List Token}
    (h : Derives (.declarations ctx ss) ts) :
    ts = [] ∨ ts.head?.any Token.opensDeclaration = true := by
  cases h with
  | nil => exact .inl rfl
  | cons hs hss => exact .inr (head?_any_append _ (hs.opens _ rfl))

/-- **What derives a phrase is read as it.** -/
theorem Derives.found {φ : Phrase} {ts : List Token} (h : Derives φ ts) : φ.Found ts := by
  -- One case per production; where a reader looks ahead, `opens` says what it sees.
  induction h with
  | atom h => exact .atom h
  | group hl _ hr he => exact .group hl he hr
  | unnamed hk h hf => exact .unnamed hk hf (h.opens _ rfl)
  | named hk hn _ hf => exact .named hk hn hf
  | callee _ ih => exact .callee ih
  | call _ hl _ hr hf hs => exact .call hf hl hs hr
  | operand h ih => exact .operand ih (h.opens _ rfl)
  | signed ht _ ih => exact .signed ht ih
  | tightest _ ih => exact ih
  | tighter _ ih => exact .tighter ih
  | chained _ ht _ hl hr => exact .chained hl ht hr
  | ladder _ ih => exact .ladder ih
  | assign hn hq _ he => exact .assign hn hq he
  | lastArgument _ ih => exact .lastArgument ih
  | argument _ hc _ he hs => exact .argument he hc hs
  | notGiven => exact .notGiven
  | given h hm ih => exact .given ih hm (h.opens _ rfl)
  | noClause => exact .noClause
  | clause h ih => exact .clause ih (h.opens _ rfl)
  | function hl hp hr _ hb => exact .function hl hp hr hb
  | block hl _ hr hb => exact .block hl hb hr
  | uninitialized hn hs => exact .uninitialized hn hs
  | initialized hn hq _ hs he => exact .initialized hn hq he hs
  | noFirst hs => exact .noFirst hs
  | firstVariable hk _ ih => exact .firstVariable hk ih
  | firstExpression h hs ih => exact .firstExpression ih hs (h.opens _ rfl)
  | forLoop hk hl _ _ hs _ hr _ hlow hf hc ht hb => exact .forLoop hk hl hf hc hs ht hr hb hlow
  | leave hk hc hs => exact .leave hk hc hs
  | next hk hc hs => exact .next hk hc hs
  | branch hk hl _ hr _ he hy => exact .branch hk hl he hr hy
  | branchElse hk hl _ hr _ ho _ he hy hn => exact .branchElse hk hl he hr hy ho hn
  | whileLoop hk hl _ hr _ he hb => exact .whileLoop hk hl he hr hb
  | print hk _ hs he => exact .print hk he hs
  | give hk hc _ hs he => exact .give hk hc he hs
  | scope _ hb => exact .scope hb
  | expr h hs ih => exact .expr ih hs (h.opens _ rfl)
  | declareFunction hk hn _ hf => exact .declareFunction hk hn hf
  | declareVariable hk _ hs => exact .declareVariable hk hs
  | plain h hf ih =>
    exact .plain ih (fun rest => by rw [h.startsFunction_append, hf]) (h.opens _ rfl)
  | nil => exact .nil
  | cons hs hss ih ihs => exact .cons ih ihs (hs.opens _ rfl) hss.declarations_open

/-- A program that derives is read without a fault. -/
theorem readProgram_of_derives {tokens : List Token} {ss : List Stmt}
    (h : Derives (.declarations .top ss) (tokens.takeWhile (!·.isEnd))) :
    ∃ c, readProgram tokens = .ok ss c ∧ c.faults = [] := by
  have hfound := h.found (readingBound tokens) (readingBound tokens) (fun _ => false) []
    (Cursor.start tokens).finish [] rfl rfl fun _ _ => rfl
  rw [List.append_nil] at hfound
  rcases hfound with hfound | hfound
  · exact ⟨_, hfound, rfl⟩
  · -- Reading a program does not run into its bound.
    have hreads := program_reads tokens
    unfold Reads at hreads
    rw [show Parse.program (readingBound tokens) (Cursor.start tokens) = _ from hfound] at hreads
    exact hreads.elim

/-- **The parser accepts its grammar, and builds the tree of the grammar.** Some
tokens are read as statements without any fault exactly if those before the
first end derive these statements. -/
theorem readProgram_iff_derives (tokens : List Token) (ss : List Stmt) :
    (∃ c, readProgram tokens = .ok ss c ∧ c.faults = []) ↔
      Derives (.declarations .top ss) (tokens.takeWhile (!·.isEnd)) := by
  constructor
  · intro h
    obtain ⟨c, hread, hc⟩ := h
    exact derives_of_readProgram hread hc
  · exact readProgram_of_derives

end Lox
