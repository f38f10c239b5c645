/-
  Lox.Proofs.Grammar.Soundness
  ────────────────────────────────
  **WHAT IS READ WITHOUT A FAULT IS DERIVED.**

  One specification for each reader of the grammar.  Within `k` tokens of the
  end, and with a bound that is large enough for `k`, a reader

    • does not run into its bound, whatever the tokens are;
    • gives well-formed trees only, also behind a fault;
    • has passed tokens that derive its tree, if it noted no fault.

  Readers that refer to each other are tied together by induction on the bound:
  it drops by one with each of the five readers and by five with each token, so
  `5 * k` and a rank for the reader are enough.
-/
import Lox.Proofs.Grammar
import Lox.Proofs.Reading

namespace Lox.Parse

variable {α : Type} {k n : Nat} {ctx : Context}

/-! ## §1. Specifications for all cursors. -/

/-- Within `k` tokens of the end, a reader does what `Q` says. -/
def Total (k : Nat) (p : Parse α)
    (Q : List Token → List SyntaxFault → α → Cursor → Prop) : Prop :=
  ∀ c : Cursor, c.Ready k → p.Reads c Q

theorem Total.mono {p : Parse α} {Q : List Token → List SyntaxFault → α → Cursor → Prop} {m : Nat}
    (h : Total m p Q) (hkm : k ≤ m) : Total k p Q :=
  fun c hc => h c (hc.mono hkm)

/-- A reader of non-empty phrases with well-formed trees. -/
def Yields (φ : α → Phrase) (W : α → Prop) :
    List Token → List SyntaxFault → α → Cursor → Prop :=
  fun ts fs a _ => ts ≠ [] ∧ W a ∧ (fs = [] → Derives (φ a) ts)

/-- What a reader of statements gives. A dangling statement is not followed by an
`else`: its last `if` would have taken it. -/
def YieldsStatement (ctx : Context) : List Token → List SyntaxFault → Stmt → Cursor → Prop :=
  fun ts fs s c' => ts ≠ [] ∧ (s.isDeclaration = false ∧ s.WellFormed ctx) ∧
    (fs = [] → ∃ d, Derives (.statement ctx d s) ts ∧
      (d = true → c'.rest.head?.any (·.isKeyword .elseWord) = false))

/-- What a reader of declarations gives, faulty ones left out. -/
def YieldsDeclaration (ctx : Context) :
    List Token → List SyntaxFault → Option Stmt → Cursor → Prop :=
  fun ts fs o _ => ts ≠ [] ∧ (∀ s, o = some s → s.WellFormed ctx) ∧
    (fs = [] → ∃ s, o = some s ∧ Derives (.declaration ctx s) ts)

/-! ## §2. Chains of operators. -/

theorem isEnd_of_accepts {l : Level} {t : Token} (h : l.accepts t = true) : t.isEnd = false := by
  unfold Level.accepts at h
  split at h
  all_goals first
    | exact Bool.noConfusion h
    | next hk => simp only [Token.isEnd, hk]

theorem isEnd_of_opensPrimary {t : Token} (h : t.opensPrimary = true) : t.isEnd = false := by
  unfold Token.opensPrimary at h
  split at h
  all_goals first
    | exact Bool.noConfusion h
    | next hk => simp only [Token.isEnd, hk]

theorem isEnd_of_isSymbol {t : Token} {s : Symbol} (h : t.isSymbol s = true) :
    t.isEnd = false := by
  simp only [Token.isEnd, kind_of_isSymbol h]

theorem isEnd_of_isKeyword {t : Token} {w : Keyword} (h : t.isKeyword w = true) :
    t.isEnd = false := by
  simp only [Token.isEnd, kind_of_isKeyword h]

/-- A chain goes on from the derivation of what is on its left. -/
theorem chain_total {l : Level} {ls : List Level} {operand : Parse Expr} {left : Expr}
    (h : Total k operand (Yields (.ladder ls) Expr.WellFormed)) (hn : k < n)
    (hw : left.WellFormed) :
    Total k (chain l operand n left) fun ts fs e _ => e.WellFormed ∧
      ∀ us, Derives (.ladder (l :: ls) left) us → fs = [] →
        Derives (.ladder (l :: ls) e) (us ++ ts) := by
  induction n generalizing k left with
  | zero => omega
  | succ n ih =>
    intro c hc
    rw [chain]
    apply Reads.peek
    by_cases ha : l.accepts c.peek = true
    · rw [if_pos ha]
      obtain ⟨rest, hr⟩ := hc.rest_of_peek (isEnd_of_accepts ha)
      apply Reads.bind (advance_reads hr)
      intro ts fs t c1 hm1 hres
      obtain ⟨rfl, rfl, rfl⟩ := hres
      obtain ⟨hc1, hk1⟩ := hm1.ready hc
      -- One operator less is ahead, so one round less is enough for the others.
      apply Reads.bind (h c1 (hc1.mono (by omega)))
      intro us gs right c2 hm2 hres
      obtain ⟨-, hright, hder⟩ := hres
      obtain ⟨hc2, hk2⟩ := hm2.ready hc1
      simp only [List.length_singleton] at hk1 hk2 hc2
      -- The loop goes on from the joined tree, whatever that was derived from.
      apply (ih (h.mono (by omega)) (by omega) (Level.join_wellFormed ha hw hright) c2 hc2).mono
      intro vs hs e c3 _ hres
      obtain ⟨he, hchain⟩ := hres
      refine ⟨he, fun ws hws hnil => ?_⟩
      obtain ⟨hgs, hhs⟩ := List.append_eq_nil_iff.1 (List.nil_append _ ▸ hnil)
      have hjoin := hchain _ (Derives.chained hws ha (hder hgs)) hhs
      simpa using hjoin
    · rw [if_neg ha]
      exact Reads.pure ⟨hw, fun us hus _ => by rwa [List.append_nil]⟩

theorem ladder_total {operand : Parse Expr} (h : Total k operand (Yields .unary Expr.WellFormed))
    (hn : k < n) (ls : List Level) :
    Total k (ladder operand n ls) (Yields (.ladder ls) Expr.WellFormed) := by
  induction ls with
  | nil =>
    intro c hc
    apply (h c hc).mono
    intro ts fs e c' _ hres
    obtain ⟨hne, hw, hder⟩ := hres
    exact ⟨hne, hw, fun hfs => .tightest (hder hfs)⟩
  | cons l ls ih =>
    intro c hc
    apply Reads.bind (ih c hc)
    intro ts fs left c1 hm1 hres
    obtain ⟨hne, hw, hder⟩ := hres
    obtain ⟨hc1, -⟩ := hm1.ready hc
    apply (chain_total ih hn hw c1 (hc1.mono (by omega))).mono
    intro us gs e c2 _ hres
    obtain ⟨he, hchain⟩ := hres
    refine ⟨by simp [hne], he, fun hnil => ?_⟩
    obtain ⟨hfs, hgs⟩ := List.append_eq_nil_iff.1 hnil
    exact hchain _ (.tighter (hder hfs)) hgs

/-! ## §3. Lists. -/

/-- Items with commas between them, for a relation `L` between items and tokens
that is closed under adding an item in front. -/
theorem separated_total {item : Parse α} {W : α → Prop}
    {D : α → List Token → Prop} {L : List α → List Token → Prop}
    (h : Total k item fun ts fs a _ => ts ≠ [] ∧ W a ∧ (fs = [] → D a ts))
    (one : ∀ a ts, D a ts → L [a] ts)
    (more : ∀ a as ts us comma, D a ts → comma.isSymbol .comma = true → L as us →
      L (a :: as) (ts ++ comma :: us))
    (hn : k < n) (excess : SyntaxCause) (count : Nat) :
    Total k (separated item excess n count) fun ts fs as _ => (∀ a ∈ as, W a) ∧
      (fs = [] → L as ts ∧ count + as.length ≤ maxArity) := by
  induction n generalizing k count with
  | zero => omega
  | succ n ih =>
    intro c hc
    rw [separated]
    apply Reads.bind (noteExcess_reads count excess)
    intro _ ns _ c0 hm0 hres
    obtain ⟨rfl, hroom⟩ := hres
    obtain ⟨hc0, -⟩ := hm0.ready hc
    apply Reads.bind (h c0 hc0)
    intro ts fs a c1 hm1 hres
    obtain ⟨hne, hw, hder⟩ := hres
    obtain ⟨hc1, hk1⟩ := hm1.ready hc0
    apply Reads.bind (accept_reads _)
    intro us _ b c2 hm2 hres
    obtain ⟨rfl, ⟨rfl, comma, rfl, hcomma⟩ | ⟨rfl, rfl, -⟩⟩ := hres
    · obtain ⟨hc2, hk2⟩ := hm2.ready hc1
      simp only [List.length_nil, List.length_singleton] at hk1 hk2 hc2
      -- Behind the comma the list goes on, with one entry more on the count.
      apply Reads.bind (ih (h.mono (by omega)) (by omega) (count + 1) c2 hc2)
      intro vs hs as c3 _ hres
      obtain ⟨hall, hlist⟩ := hres
      refine Reads.pure ⟨?_, fun hnil => ?_⟩
      · intro x hx
        rcases List.mem_cons.1 hx with rfl | hx
        · exact hw
        · exact hall x hx
      · simp only [List.append_eq_nil_iff] at hnil
        obtain ⟨hL, hcount⟩ := hlist hnil.2.2.2.1
        refine ⟨?_, by simp only [List.length_cons]; omega⟩
        simpa using more a as ts vs comma (hder hnil.2.1) hcomma hL
    · refine Reads.pure ⟨by simpa using hw, fun hnil => ?_⟩
      simp only [List.append_eq_nil_iff] at hnil
      refine ⟨by simpa using one a ts (hder hnil.2.1), ?_⟩
      -- No complaint about the count has been noted, so there was room for this entry.
      have := hroom hnil.1
      simpa using this

theorem arguments_total {expression : Parse Expr}
    (h : Total k expression (Yields .expression Expr.WellFormed)) (hn : k < n) :
    Total k (arguments expression n) fun ts fs es _ => Expr.AllWellFormed es ∧
      (fs = [] → Derives (.given es) ts) := by
  intro c hc
  have hlist := separated_total (L := fun es ts => Derives (.arguments es) ts) h
    (fun e ts he => .lastArgument he) (fun e es ts us comma he hc hs => .argument he hc hs) hn
    (.tooManyArguments maxArity) 0
  apply (listUnlessAt_reads _ (hlist c hc)).mono
  intro ts fs es c' _ hres
  obtain ⟨rfl, rfl, -⟩ | ⟨hall, hder⟩ := hres
  · exact ⟨trivial, fun _ => .notGiven⟩
  · refine ⟨Expr.allWellFormed_iff.2 hall, fun hfs => ?_⟩
    obtain ⟨hargs, hcount⟩ := hder hfs
    exact .given hargs (by omega)

theorem parameters_total (hn : k < n) :
    Total k (parameters n) fun ts fs names _ => fs = [] → Parameters names ts := by
  intro c hc
  have hname : Total k (expect Token.isIdentifier "Expect parameter name.")
      fun ts fs name _ => ts ≠ [] ∧ True ∧ (fs = [] → name.isIdentifier = true ∧ ts = [name]) := by
    intro c _
    apply (expect_reads _ _).mono
    intro ts fs name c' _ hres
    obtain ⟨rfl, -, hname⟩ := hres
    exact ⟨by simp, trivial, fun _ => ⟨hname, rfl⟩⟩
  have hlist := separated_total (L := Names) hname
    (fun name ts ⟨hn, hts⟩ => hts ▸ .one hn)
    (fun name names ts us comma ⟨hn, hts⟩ hc hs => by
      rw [hts]
      exact .more hn hc hs) hn (.tooManyParameters maxArity) 0
  apply (listUnlessAt_reads _ (hlist c hc)).mono
  intro ts fs names c' _ hres
  obtain ⟨rfl, rfl, -⟩ | ⟨-, hder⟩ := hres
  · exact fun _ => .none
  · intro hfs
    obtain ⟨hnames, hcount⟩ := hder hfs
    exact .some hnames (by omega)

/-- Calls go on from the derivation of their callee. -/
theorem calls_total {expression : Parse Expr} {callee : Expr}
    (h : Total k expression (Yields .expression Expr.WellFormed)) (hn : k < n)
    (hw : callee.WellFormed) :
    Total k (calls expression n callee) fun ts fs e _ => e.WellFormed ∧
      ∀ us, Derives (.call callee) us → fs = [] → Derives (.call e) (us ++ ts) := by
  induction n generalizing k callee with
  | zero => omega
  | succ n ih =>
    intro c hc
    rw [calls]
    apply Reads.bind (accept_reads _)
    intro ts _ b c1 hm1 hres
    obtain ⟨rfl, ⟨rfl, l, rfl, hl⟩ | ⟨rfl, rfl, -⟩⟩ := hres
    · obtain ⟨hc1, hk1⟩ := hm1.ready hc
      simp only [List.length_singleton] at hk1 hc1
      apply Reads.bind (arguments_total (h.mono (by omega)) (by omega) c1 hc1)
      intro us fs es c2 hm2 hres
      obtain ⟨hes, hder⟩ := hres
      obtain ⟨hc2, hk2⟩ := hm2.ready hc1
      apply Reads.bind (expect_reads _ _)
      intro _ _ r c3 hm3 hres
      obtain ⟨rfl, rfl, hr⟩ := hres
      obtain ⟨hc3, hk3⟩ := hm3.ready hc2
      simp only [List.length_singleton] at hk3 hc3
      have hcallee : (Expr.call callee r es).WellFormed := ⟨hw, hes⟩
      apply (ih (h.mono (by omega)) (by omega) hcallee c3 hc3).mono
      intro vs hs e c4 _ hres
      obtain ⟨he, hcalls⟩ := hres
      refine ⟨he, fun ws hws hnil => ?_⟩
      simp only [List.append_eq_nil_iff] at hnil
      have hcall := hcalls _ (.call hws hl (hder hnil.2.1) hr) hnil.2.2.2
      simpa using hcall
    · exact Reads.pure ⟨hw, fun us hus _ => by simpa using hus⟩

/-! ## §4. Blocks and functions. -/

/-- A reader that does its part wherever there is something to read. -/
def TotalDeclaration (k : Nat) (ctx : Context) (p : Parse (Option Stmt)) : Prop :=
  ∀ c : Cursor, c.Ready k → c.rest ≠ [] → p.Reads c (YieldsDeclaration ctx)

theorem TotalDeclaration.mono {p : Parse (Option Stmt)} {m : Nat}
    (h : TotalDeclaration m ctx p) (hkm : k ≤ m) : TotalDeclaration k ctx p :=
  fun c hc hne => h c (hc.mono hkm) hne

theorem declarations_total {declaration : Parse (Option Stmt)}
    (h : TotalDeclaration k ctx declaration) (stop : Token → Bool) (hn : k < n) :
    Total k (declarations declaration stop n) fun ts fs ss c' => Stmt.AllWellFormed ctx ss ∧
      (fs = [] → Derives (.declarations ctx ss) ts) ∧ c'.rest.head?.any (!stop ·) = false := by
  induction n generalizing k with
  | zero => omega
  | succ n ih =>
    intro c hc
    rw [declarations]
    apply Reads.check
    cases hgo : c.rest.head?.any (!stop ·) with
    | false => exact Reads.pure ⟨trivial, fun _ => .nil, hgo⟩
    | true =>
      obtain ⟨t, rest, hr, -⟩ := eq_cons_of_head?_any hgo
      apply Reads.bind (h c hc (by simp [hr]))
      intro ts fs o c1 hm1 hres
      obtain ⟨hne, hw, hder⟩ := hres
      obtain ⟨hc1, hk1⟩ := hm1.ready hc
      -- A faulty declaration too passes a token, so the bound holds out.
      have hpass : 0 < ts.length := List.length_pos_iff.2 hne
      apply Reads.bind (ih (h.mono (by omega)) (by omega) c1 hc1)
      intro us gs ss c2 _ hres
      obtain ⟨hall, hothers, hstop⟩ := hres
      refine Reads.pure ⟨?_, fun hnil => ?_, hstop⟩
      · refine Stmt.AllWellFormed.append ?_ hall
        -- A faulty declaration is left out of the list.
        cases o with
        | none => trivial
        | some s => exact ⟨hw s rfl, trivial⟩
      · simp only [List.append_eq_nil_iff] at hnil
        obtain ⟨s, rfl, hs⟩ := hder hnil.1
        simpa using Derives.cons hs (hothers hnil.2.1)

theorem block_total {declaration : Parse (Option Stmt)}
    (h : TotalDeclaration k ctx declaration) (hn : k < n) :
    Total k (block declaration n) fun ts fs body _ => Stmt.AllWellFormed ctx body ∧
      (fs = [] → ∀ l : Token, l.isSymbol .leftBrace = true →
        Derives (.block ctx body) (l :: ts)) := by
  intro c hc
  apply Reads.bind (declarations_total h _ hn c hc)
  intro ts fs body c1 _ hres
  obtain ⟨hall, hder, -⟩ := hres
  apply Reads.bind (expect_reads _ _)
  intro _ _ r c2 _ hres
  obtain ⟨rfl, rfl, hr⟩ := hres
  refine Reads.pure ⟨hall, fun hnil l hl => ?_⟩
  simp only [List.append_eq_nil_iff] at hnil
  simpa using Derives.block hl (hder hnil.1) hr

theorem function_total {declaration : Parse (Option Stmt)}
    (h : TotalDeclaration k .ofFunction declaration) (hn : k < n) (after : String) :
    Total k (function declaration n after) fun ts fs f _ =>
      Stmt.AllWellFormed .ofFunction f.2 ∧ (fs = [] → Derives (.function f.1 f.2) ts) := by
  intro c hc
  apply Reads.bind (expect_reads _ _)
  intro _ _ l c1 hm1 hres
  obtain ⟨rfl, rfl, hl⟩ := hres
  have hc1 := hm1.stays_ready hc
  apply Reads.bind (parameters_total hn c1 hc1)
  intro ts fs names c2 hm2 hnames
  have hc2 := hm2.stays_ready hc1
  apply Reads.bind (expect_reads _ _)
  intro _ _ r c3 hm3 hres
  obtain ⟨rfl, rfl, hr⟩ := hres
  have hc3 := hm3.stays_ready hc2
  apply Reads.bind (expect_reads _ _)
  intro _ _ b c4 hm4 hres
  obtain ⟨rfl, rfl, hb⟩ := hres
  have hc4 := hm4.stays_ready hc3
  apply Reads.bind (block_total h hn c4 hc4)
  intro us gs body c5 _ hres
  obtain ⟨hall, hblock⟩ := hres
  refine Reads.pure ⟨hall, fun hnil => ?_⟩
  simp only [List.append_eq_nil_iff] at hnil
  have hder := Derives.function hl (hnames hnil.2.1) hr (hblock hnil.2.2.2.2.1 b hb)
  simpa using hder

/-! ## §5. Statements behind their keyword. -/

theorem varDeclaration_total {expression : Parse Expr}
    (h : Total k expression (Yields .expression Expr.WellFormed)) :
    Total k (varDeclaration expression) fun ts fs s _ =>
      (∀ ctx, s.WellFormed ctx) ∧ (fs = [] → Derives (.binding s) ts) := by
  intro c hc
  apply Reads.bind (expect_reads _ _)
  intro _ _ name c1 hm1 hres
  obtain ⟨rfl, rfl, hname⟩ := hres
  have hc1 := hm1.stays_ready hc
  refine Reads.bind (afterMark_reads _ fun t c' hm =>
    h c' (hm.stays_ready hc1)) ?_
  intro ts fs o c2 _ hinitial
  apply Reads.bind (expect_reads _ _)
  intro _ _ semi c3 _ hres
  obtain ⟨rfl, rfl, hsemi⟩ := hres
  rcases hinitial with ⟨rfl, rfl, rfl, -⟩ | ⟨equals, us, e, rfl, hequals, rfl, -, hw, hder⟩
  · exact Reads.pure ⟨fun _ => ⟨hname, trivial⟩, fun _ => by
      simpa using Derives.uninitialized hname hsemi⟩
  · refine Reads.pure ⟨fun _ => ⟨hname, hw⟩, fun hnil => ?_⟩
    simp only [List.append_eq_nil_iff] at hnil
    simpa using Derives.initialized hname hequals (hder hnil.2.1) hsemi

/-- An expression and the semicolon behind it, as a statement of any kind. -/
theorem terminated_total {expression : Parse Expr} {make : Expr → Stmt}
    (h : Total k expression (Yields .expression Expr.WellFormed)) (complaint : String) :
    Total k (do
      let value ← expression
      let _ ← expect (·.isSymbol .semicolon) complaint
      return make value) fun ts fs s _ => ts ≠ [] ∧ ∃ e us semi, s = make e ∧ e.WellFormed ∧
        ts = us ++ [semi] ∧ semi.isSymbol .semicolon = true ∧
        (fs = [] → Derives (.expression e) us) := by
  intro c hc
  apply Reads.bind (h c hc)
  intro ts fs e c1 _ hres
  obtain ⟨hne, hw, hder⟩ := hres
  apply Reads.bind (expect_reads _ _)
  intro _ _ semi c2 _ hres
  obtain ⟨rfl, rfl, hsemi⟩ := hres
  refine Reads.pure ⟨by simp, e, ts, semi, rfl, hw, by simp, hsemi, fun hnil => ?_⟩
  exact hder (by simpa using hnil)

theorem expressionStatement_total {expression : Parse Expr}
    (h : Total k expression (Yields .expression Expr.WellFormed)) :
    Total k (expressionStatement expression) (YieldsStatement ctx) := by
  intro c hc
  apply (terminated_total h _ c hc).mono
  intro ts fs s c' _ hres
  obtain ⟨hne, e, us, semi, rfl, hw, rfl, hsemi, hder⟩ := hres
  exact ⟨hne, ⟨rfl, hw⟩, fun hfs => ⟨false, .expr (hder hfs) hsemi, fun h => Bool.noConfusion h⟩⟩

theorem firstClause_total {expression : Parse Expr}
    (h : Total k expression (Yields .expression Expr.WellFormed)) :
    Total k (firstClause expression) fun ts fs o _ =>
      (∀ ctx s, o = some s → s.WellFormed ctx) ∧ (fs = [] → Derives (.first o) ts) := by
  intro c hc
  apply Reads.bind (accept_reads _)
  intro ts _ b c1 hm1 hres
  obtain ⟨rfl, ⟨rfl, semi, rfl, hsemi⟩ | ⟨rfl, rfl, -⟩⟩ := hres
  · exact Reads.pure ⟨fun _ s hs => (by cases hs), fun _ => .noFirst hsemi⟩
  · have hc1 := (hm1.ready hc).1
    apply Reads.bind (accept_reads _)
    intro us _ b c2 hm2 hres
    obtain ⟨rfl, ⟨rfl, var, rfl, hvar⟩ | ⟨rfl, rfl, -⟩⟩ := hres
    · have hc2 := hm2.stays_ready hc1
      refine Reads.map ((varDeclaration_total h c2 hc2).mono ?_)
      intro vs fs s c3 _ hres
      obtain ⟨hw, hder⟩ := hres
      exact ⟨fun ctx s' hs' => Option.some.inj hs' ▸ hw ctx,
        fun hfs => .firstVariable hvar (hder (by simpa using hfs))⟩
    · have hc2 := hm2.stays_ready hc1
      refine Reads.map ((terminated_total h _ c2 hc2).mono ?_)
      intro vs fs s c3 _ hres
      obtain ⟨-, e, ws, semi, rfl, hw, rfl, hsemi, hder⟩ := hres
      exact ⟨fun ctx s' hs' => Option.some.inj hs' ▸ hw,
        fun hfs => .firstExpression (hder (by simpa using hfs)) hsemi⟩

/-- An expression that may be missing. -/
theorem clause_total {expression : Parse Expr}
    (h : Total k expression (Yields .expression Expr.WellFormed)) (absent : Token → Bool) :
    Total k (unlessAt absent expression) fun ts fs o _ =>
      Expr.OptionWellFormed o ∧ (fs = [] → Derives (.clause o) ts) := by
  intro c hc
  apply (unlessAt_reads absent (h c hc)).mono
  intro ts fs o c' _ hres
  obtain ⟨rfl, rfl, -⟩ | ⟨e, rfl, -, hw, hder⟩ := hres
  · exact ⟨trivial, fun _ => .noClause⟩
  · exact ⟨hw, fun hfs => .clause (hder hfs)⟩

/-! ## §6. Statements. -/

/-- A `break` or a `continue`, the keyword still ahead. -/
theorem jumpStatement_reads {c : Cursor} {t : Token} {rest : List Token} (hr : c.rest = t :: rest)
    (ht : t.isKeyword .breakWord = true ∨ t.isKeyword .continueWord = true) :
    (jumpStatement ctx.inLoop).Reads c (YieldsStatement ctx) := by
  apply Reads.bind (advance_reads hr)
  intro _ _ k c1 _ hres
  obtain ⟨rfl, rfl, rfl⟩ := hres
  apply Reads.bind (require_reads _ _ _)
  intro _ _ _ c2 _ hres
  obtain ⟨rfl, rfl, hloop⟩ := hres
  apply Reads.bind (expect_reads _ _)
  intro _ _ semi c3 _ hres
  obtain ⟨rfl, rfl, hsemi⟩ := hres
  refine Reads.pure ⟨by simp, ?_, fun _ => ⟨false, ?_, fun h => Bool.noConfusion h⟩⟩
  -- The keyword decides between the two statements, here as in the grammar.
  · cases k.isKeyword .breakWord with
    | true => exact ⟨rfl, hloop⟩
    | false => exact ⟨rfl, hloop⟩
  · cases hk : k.isKeyword .breakWord with
    | true => exact .leave hk hloop hsemi
    | false => exact .next (ht.resolve_left (by simp [hk])) hloop hsemi

/-- A `return`, the keyword still ahead. -/
theorem returnStatement_reads {expression : Parse Expr} {c : Cursor} {t : Token}
    {rest : List Token} (h : Total k expression (Yields .expression Expr.WellFormed))
    (hc : c.Ready k) (hr : c.rest = t :: rest) (ht : t.isKeyword .returnWord = true) :
    (returnStatement ctx.inFunction expression).Reads c (YieldsStatement ctx) := by
  apply Reads.bind (advance_reads hr)
  intro _ _ word c1 hm1 hres
  obtain ⟨rfl, rfl, rfl⟩ := hres
  have hc1 := hm1.stays_ready hc
  apply Reads.bind (require_reads _ _ _)
  intro _ _ _ c2 hm2 hres
  obtain ⟨rfl, rfl, hfun⟩ := hres
  have hc2 := (hm2.ready hc1).1
  apply Reads.bind (clause_total h _ c2 hc2)
  intro ts fs o c3 _ hres
  obtain ⟨hw, hder⟩ := hres
  apply Reads.bind (expect_reads _ _)
  intro _ _ semi c4 _ hres
  obtain ⟨rfl, rfl, hsemi⟩ := hres
  refine Reads.pure ⟨by simp, ⟨rfl, hfun, hw⟩, fun hnil =>
    ⟨false, ?_, fun h => Bool.noConfusion h⟩⟩
  simp only [List.append_eq_nil_iff] at hnil
  simpa using Derives.give ht hfun (hder hnil.2.2.1) hsemi

/-- A statement behind its keyword `word`: `Q` with the keyword put in front. -/
theorem Reads.behind {p : Parse α} {Q : List Token → List SyntaxFault → α → Cursor → Prop}
    {c : Cursor} {t : Token} {rest : List Token} (hr : c.rest = t :: rest) (hc : c.Ready k)
    (h : ∀ c', c'.Ready (k - 1) → p.Reads c' fun ts fs a c'' => Q (t :: ts) fs a c'') :
    (advance >>= fun _ => p).Reads c Q := by
  apply Reads.bind (advance_reads hr)
  intro _ _ _ c1 hm1 hres
  obtain ⟨rfl, rfl, rfl⟩ := hres
  exact h c1 (hm1.ready hc).1

theorem branchStatement_total {expression : Parse Expr} {statement : Parse Stmt} {t : Token}
    (h : Total k expression (Yields .expression Expr.WellFormed))
    (hs : Total k statement (YieldsStatement ctx)) (ht : t.isKeyword .ifWord = true) :
    Total k (branchStatement expression statement) fun ts fs s c' =>
      YieldsStatement ctx (t :: ts) fs s c' := by
  intro c hc
  apply Reads.bind (expect_reads _ _)
  intro _ _ l c1 hm1 hres
  obtain ⟨rfl, rfl, hl⟩ := hres
  have hc1 := hm1.stays_ready hc
  apply Reads.bind (h c1 hc1)
  intro ts fs e c2 hm2 hres
  obtain ⟨-, hw, hder⟩ := hres
  have hc2 := hm2.stays_ready hc1
  apply Reads.bind (expect_reads _ _)
  intro _ _ r c3 hm3 hres
  obtain ⟨rfl, rfl, hr⟩ := hres
  have hc3 := hm3.stays_ready hc2
  apply Reads.bind (hs c3 hc3)
  intro us gs yes c4 hm4 hres
  obtain ⟨-, hyes, hderyes⟩ := hres
  have hc4 := hm4.stays_ready hc3
  refine Reads.bind (afterMark_reads _ fun t c' hm =>
    hs c' (hm.stays_ready hc4)) ?_
  intro vs hs o c5 hm5 hres
  obtain ⟨rfl, rfl, rfl, hnot⟩ | ⟨other, ws, no, rfl, hother, rfl, -, hno, hderno⟩ := hres
  · -- No `else` is ahead, so an `else` cannot have been left to this `if`.
    refine Reads.pure ⟨by simp, ⟨rfl, hw, hyes, trivial⟩, fun hnil => ⟨true, ?_, fun _ => hnot⟩⟩
    simp only [List.append_eq_nil_iff] at hnil
    obtain ⟨d, hd, -⟩ := hderyes hnil.2.2.2.1
    simpa using Derives.branch ht hl (hder hnil.2.1) hr hd
  · refine Reads.pure ⟨by simp, ⟨rfl, hw, hyes, hno⟩, fun hnil => ?_⟩
    simp only [List.append_eq_nil_iff] at hnil
    obtain ⟨d, hd, hdangling⟩ := hderyes hnil.2.2.2.1
    -- The first branch is not dangling: the `else` was still ahead behind it.
    have hclosed : d = false := by
      cases d with
      | false => rfl
      | true =>
        have hahead := hdangling rfl
        rw [hm5.rest] at hahead
        exact absurd hother (by simpa using hahead)
    subst hclosed
    obtain ⟨d', hd', hdangling'⟩ := hderno hnil.2.2.2.2.1
    refine ⟨d', ?_, hdangling'⟩
    simpa using Derives.branchElse ht hl (hder hnil.2.1) hr hd hother hd'

theorem whileStatement_total {expression : Parse Expr} {body : Parse Stmt} {t : Token}
    (h : Total k expression (Yields .expression Expr.WellFormed))
    (hb : Total k body (YieldsStatement ctx.ofLoop)) (ht : t.isKeyword .whileWord = true) :
    Total k (whileStatement expression body) fun ts fs s c' =>
      YieldsStatement ctx (t :: ts) fs s c' := by
  intro c hc
  apply Reads.bind (expect_reads _ _)
  intro _ _ l c1 hm1 hres
  obtain ⟨rfl, rfl, hl⟩ := hres
  have hc1 := hm1.stays_ready hc
  apply Reads.bind (h c1 hc1)
  intro ts fs e c2 hm2 hres
  obtain ⟨-, hw, hder⟩ := hres
  have hc2 := hm2.stays_ready hc1
  apply Reads.bind (expect_reads _ _)
  intro _ _ r c3 hm3 hres
  obtain ⟨rfl, rfl, hr⟩ := hres
  have hc3 := hm3.stays_ready hc2
  apply Reads.bind (hb c3 hc3)
  intro us gs s c4 _ hres
  obtain ⟨-, hs, hders⟩ := hres
  refine Reads.pure ⟨by simp, ⟨rfl, hw, hs, fun h => Bool.noConfusion h⟩, fun hnil => ?_⟩
  simp only [List.append_eq_nil_iff] at hnil
  obtain ⟨d, hd, hdangling⟩ := hders hnil.2.2.2.1
  refine ⟨d, ?_, hdangling⟩
  simpa using Derives.whileLoop ht hl (hder hnil.2.1) hr hd

theorem forStatement_total {expression : Parse Expr} {body : Parse Stmt} {t : Token}
    (h : Total k expression (Yields .expression Expr.WellFormed))
    (hb : Total k body (YieldsStatement ctx.ofLoop)) (ht : t.isKeyword .forWord = true) :
    Total k (forStatement expression body) fun ts fs s c' =>
      YieldsStatement ctx (t :: ts) fs s c' := by
  intro c hc
  apply Reads.bind (expect_reads _ _)
  intro _ _ l c1 hm1 hres
  obtain ⟨rfl, rfl, hl⟩ := hres
  have hc1 := hm1.stays_ready hc
  apply Reads.bind (firstClause_total h c1 hc1)
  intro ts fs first c2 hm2 hres
  obtain ⟨hfirst, hderf⟩ := hres
  have hc2 := hm2.stays_ready hc1
  apply Reads.bind (clause_total h _ c2 hc2)
  intro us gs condition c3 hm3 hres
  obtain ⟨hcond, hderc⟩ := hres
  have hc3 := hm3.stays_ready hc2
  apply Reads.bind (expect_reads _ _)
  intro _ _ semi c4 hm4 hres
  obtain ⟨rfl, rfl, hsemi⟩ := hres
  have hc4 := hm4.stays_ready hc3
  apply Reads.bind (clause_total h _ c4 hc4)
  intro vs hs step c5 hm5 hres
  obtain ⟨hstep, hdert⟩ := hres
  have hc5 := hm5.stays_ready hc4
  apply Reads.bind (expect_reads _ _)
  intro _ _ r c6 hm6 hres
  obtain ⟨rfl, rfl, hr⟩ := hres
  have hc6 := hm6.stays_ready hc5
  apply Reads.bind (hb c6 hc6)
  intro ws is s c7 _ hres
  obtain ⟨-, ⟨hdecl, hw⟩, hders⟩ := hres
  -- The tree of the loop is made of trees that are well formed by now.
  obtain ⟨hlow, hlowdecl⟩ := lowerFor_wellFormed (hfirst ctx) hcond hstep hdecl hw
  refine Reads.pure ⟨by simp, ⟨hlowdecl, hlow⟩, fun hnil => ?_⟩
  simp only [List.append_eq_nil_iff] at hnil
  obtain ⟨-, hfs, hgs, -, hhs, -, his, -⟩ := hnil
  obtain ⟨d, hd, hdangling⟩ := hders his
  refine ⟨d, ?_, hdangling⟩
  simpa using Derives.forLoop ht hl (hderf hfs) (hderc hgs) hsemi (hdert hhs) hr hd
    (lowered_iff.2 rfl)

/-! ## §7. The readers that refer to themselves. -/

/-- What the five readers with bound `n` do, each within as many tokens of the
end as its bound is large enough for. -/
structure Readers (n : Nat) : Prop where
  primary : ∀ k, 5 * k + 1 ≤ n → Total k (primary n) (Yields .primary Expr.WellFormed)
  unary : ∀ k, 5 * k + 2 ≤ n → Total k (unary n) (Yields .unary Expr.WellFormed)
  expression : ∀ k, 5 * k + 3 ≤ n → Total k (expression n) (Yields .expression Expr.WellFormed)
  statement : ∀ k ctx, 5 * k + 4 ≤ n → Total k (statement n ctx) (YieldsStatement ctx)
  declaration : ∀ k ctx, 5 * k + 5 ≤ n → TotalDeclaration k ctx (declaration n ctx)

theorem target?_eq_some {e : Expr} {t : Token} (h : e.target? = some t) :
    e = .name t ∧ t.isIdentifier = true := by
  cases e with
  | name token =>
    rw [Expr.target?] at h
    split at h
    · next hi =>
      cases h
      exact ⟨rfl, hi⟩
    · cases h
  | _ => cases h

theorem Readers.step_primary (ih : Readers n) (hk : 5 * k + 1 ≤ n + 1) :
    Total k (Parse.primary (n + 1)) (Yields .primary Expr.WellFormed) := by
  intro c hc
  rw [Parse.primary]
  apply Reads.peek
  by_cases ha : c.peek.isAtom = true
  · simp only [ha, if_true]
    obtain ⟨e, hatom⟩ := exists_atom_of_isAtom ha
    obtain ⟨rest, hr⟩ := hc.rest_of_peek (isEnd_of_opensPrimary hatom.opensPrimary)
    apply Reads.bind (advance_reads hr)
    intro ts fs t c1 _ hres
    obtain ⟨rfl, rfl, rfl⟩ := hres
    -- A token that is an atom is converted, so reading does not break off here.
    unfold Parse.atom
    rw [atom_iff.1 hatom]
    exact Reads.pure ⟨by simp, hatom.wellFormed, fun _ => .atom hatom⟩
  · by_cases hl : c.peek.isSymbol .leftParen = true
    · simp only [ha, hl, if_true]
      obtain ⟨rest, hr⟩ := hc.rest_of_peek (isEnd_of_isSymbol hl)
      have hpos := hc.pos hr
      refine Reads.behind hr hc fun c1 hc1 => ?_
      refine Reads.bind (ih.expression (k - 1) (by omega) c1 hc1) ?_
      intro ts fs e c2 _ hres
      obtain ⟨-, hw, hder⟩ := hres
      apply Reads.bind (expect_reads _ _)
      intro _ _ r c3 _ hres
      obtain ⟨rfl, rfl, hr⟩ := hres
      refine Reads.pure ⟨by simp, hw, fun hnil => ?_⟩
      simpa using Derives.group hl (hder (by simpa using hnil)) hr
    · by_cases hf : c.peek.isKeyword .funWord = true
      · simp only [ha, hl, hf, if_true]
        obtain ⟨rest, hr⟩ := hc.rest_of_peek (isEnd_of_isKeyword hf)
        have hpos := hc.pos hr
        refine Reads.behind hr hc fun c1 hc1 => ?_
        refine Reads.bind ownName_reads ?_
        intro ts _ o c2 hm2 hres
        obtain ⟨rfl, hname⟩ := hres
        have hc2 := hm2.stays_ready hc1
        have hdecl := ih.declaration (k - 1) .ofFunction (by omega)
        apply Reads.bind (function_total hdecl (by omega) _ c2 hc2)
        intro us fs result c3 _ hres
        obtain ⟨names, body⟩ := result
        obtain ⟨hall, hder⟩ := hres
        refine Reads.pure ⟨by simp, hall, fun hnil => ?_⟩
        have hfun := hder (by simpa using hnil)
        rcases hname with ⟨rfl, rfl⟩ | ⟨name, rfl, rfl, hi⟩
        · simpa using Derives.unnamed hf hfun
        · simpa using Derives.named hf hi hfun
      · simp only [ha, hl, hf]
        exact fail_reads _ _

theorem Readers.step_unary (ih : Readers n) (hk : 5 * k + 2 ≤ n + 1) :
    Total k (Parse.unary (n + 1)) (Yields .unary Expr.WellFormed) := by
  intro c hc
  rw [Parse.unary]
  apply Reads.peek
  show Reads (if c.peek.isPrefixOperator = true then _ else _) c _
  by_cases ho : c.peek.isPrefixOperator = true
  · rw [if_pos ho]
    have hend : c.peek.isEnd = false := by
      rcases Bool.or_eq_true _ _ ▸ ho with h | h
      · exact isEnd_of_isSymbol h
      · exact isEnd_of_isSymbol h
    obtain ⟨rest, hr⟩ := hc.rest_of_peek hend
    have hpos := hc.pos hr
    apply Reads.bind (advance_reads hr)
    intro _ _ t c1 hm1 hres
    obtain ⟨rfl, rfl, rfl⟩ := hres
    apply Reads.bind (ih.unary (k - 1) (by omega) c1 (hm1.ready hc).1)
    intro ts fs e c2 _ hres
    obtain ⟨-, hw, hder⟩ := hres
    refine Reads.pure ⟨by simp, ⟨ho, hw⟩, fun hnil => ?_⟩
    simpa using Derives.signed ho (hder (by simpa using hnil))
  · rw [if_neg ho]
    apply Reads.bind (ih.primary k (by omega) c hc)
    intro ts fs e c1 hm1 hres
    obtain ⟨hne, hw, hder⟩ := hres
    obtain ⟨hc1, hk1⟩ := hm1.ready hc
    have hpass : 0 < ts.length := List.length_pos_iff.2 hne
    -- The arguments are behind the callee, so the bound is large enough for them.
    have hexpr := ih.expression (k - ts.length) (by omega)
    apply (calls_total hexpr (by omega) hw c1 hc1).mono
    intro us gs e' c2 _ hres
    obtain ⟨hw', hcalls⟩ := hres
    refine ⟨by simp [hne], hw', fun hnil => ?_⟩
    obtain ⟨hfs, hgs⟩ := List.append_eq_nil_iff.1 hnil
    exact .operand (hcalls ts (.callee (hder hfs)) hgs)

theorem Readers.step_expression (ih : Readers n) (hk : 5 * k + 3 ≤ n + 1) :
    Total k (Parse.expression (n + 1)) (Yields .expression Expr.WellFormed) := by
  intro c hc
  rw [Parse.expression]
  apply Reads.bind (ladder_total (ih.unary k (by omega)) (by omega) Level.all c hc)
  intro ts fs left c1 hm1 hres
  obtain ⟨hne, hw, hder⟩ := hres
  obtain ⟨hc1, hk1⟩ := hm1.ready hc
  have hpass : 0 < ts.length := List.length_pos_iff.2 hne
  apply Reads.peek
  by_cases hq : c1.peek.isSymbol .equal = true
  · rw [if_pos hq]
    obtain ⟨rest, hr⟩ := hc1.rest_of_peek (isEnd_of_isSymbol hq)
    apply Reads.bind (advance_reads hr)
    intro _ _ equals c2 hm2 hres
    obtain ⟨rfl, rfl, rfl⟩ := hres
    obtain ⟨hc2, -⟩ := hm2.ready hc1
    refine Reads.bind (ih.expression (k - ts.length) (by omega) c2
      (hc2.mono (Nat.sub_le _ _))) ?_
    intro us gs value c3 _ hres
    obtain ⟨-, hv, hderv⟩ := hres
    cases ht : left.target? with
    | none =>
      -- The target is no name: a fault is noted, and nothing is said about deriving.
      apply Reads.bind (report_reads _ _)
      intro _ hs _ c4 _ hres
      obtain ⟨rfl, hhs⟩ := hres
      exact Reads.pure ⟨by simp [hne], hw, fun hnil => by simp [hhs] at hnil⟩
    | some target =>
      obtain ⟨rfl, hi⟩ := target?_eq_some ht
      refine Reads.pure ⟨by simp [hne], ⟨hi, hv⟩, fun hnil => ?_⟩
      simp only [List.append_eq_nil_iff] at hnil
      -- A name has been read from the name alone.
      have hts := (hder hnil.1).eq_singleton_of_name target rfl
      rw [hts]
      simpa using Derives.assign hi hq (hderv hnil.2.2.1)
  · rw [if_neg hq]
    exact Reads.pure ⟨by simp [hne], hw, fun hnil => by
      simpa using Derives.ladder (hder (by simpa using hnil))⟩

theorem Readers.step_statement (ih : Readers n) (hk : 5 * k + 4 ≤ n + 1) :
    Total k (Parse.statement (n + 1) ctx) (YieldsStatement ctx) := by
  intro c hc
  have hexpr := ih.expression k (by omega)
  rw [Parse.statement]
  apply Reads.peek
  -- Behind a keyword there is one token less, which is enough for the bound.
  have behind : ∀ {t : Token} {rest : List Token}, c.rest = t :: rest →
      0 < k ∧ 5 * (k - 1) + 5 ≤ n := by
    intro t rest hr
    have := hc.pos hr
    omega
  -- The cases come in the order in which the keywords are tried.
  split
  case h_1 hkind =>
    obtain ⟨rest, hr⟩ := hc.rest_of_peek (by simp only [Token.isEnd, hkind])
    exact jumpStatement_reads hr (.inl (by simp [Token.isKeyword, hkind]))
  case h_2 hkind =>
    obtain ⟨rest, hr⟩ := hc.rest_of_peek (by simp only [Token.isEnd, hkind])
    exact jumpStatement_reads hr (.inr (by simp [Token.isKeyword, hkind]))
  case h_3 hkind =>
    obtain ⟨rest, hr⟩ := hc.rest_of_peek (by simp only [Token.isEnd, hkind])
    obtain ⟨-, hbound⟩ := behind hr
    exact Reads.behind hr hc (forStatement_total (ih.expression (k - 1) (by omega))
      (ih.statement (k - 1) ctx.ofLoop (by omega)) (by simp [Token.isKeyword, hkind]))
  case h_4 hkind =>
    obtain ⟨rest, hr⟩ := hc.rest_of_peek (by simp only [Token.isEnd, hkind])
    obtain ⟨-, hbound⟩ := behind hr
    exact Reads.behind hr hc (branchStatement_total (ih.expression (k - 1) (by omega))
      (ih.statement (k - 1) ctx (by omega)) (by simp [Token.isKeyword, hkind]))
  case h_5 hkind =>
    obtain ⟨rest, hr⟩ := hc.rest_of_peek (by simp only [Token.isEnd, hkind])
    obtain ⟨-, hbound⟩ := behind hr
    exact Reads.behind hr hc (whileStatement_total (ih.expression (k - 1) (by omega))
      (ih.statement (k - 1) ctx.ofLoop (by omega)) (by simp [Token.isKeyword, hkind]))
  case h_6 hkind =>
    obtain ⟨rest, hr⟩ := hc.rest_of_peek (by simp only [Token.isEnd, hkind])
    obtain ⟨-, hbound⟩ := behind hr
    refine Reads.behind hr hc fun c1 hc1 => ?_
    refine (terminated_total (ih.expression (k - 1) (by omega)) _ c1 hc1).mono ?_
    intro ts fs s c' _ hres
    obtain ⟨-, e, us, semi, rfl, hw, rfl, hsemi, hder⟩ := hres
    exact ⟨by simp, ⟨rfl, hw⟩, fun hfs => ⟨false,
      .print (by simp [Token.isKeyword, hkind]) (hder hfs) hsemi, fun h => Bool.noConfusion h⟩⟩
  case h_7 hkind =>
    obtain ⟨rest, hr⟩ := hc.rest_of_peek (by simp only [Token.isEnd, hkind])
    exact returnStatement_reads hexpr hc hr (by simp [Token.isKeyword, hkind])
  case h_8 hkind =>
    obtain ⟨rest, hr⟩ := hc.rest_of_peek (by simp only [Token.isEnd, hkind])
    obtain ⟨-, hbound⟩ := behind hr
    have hdecl := ih.declaration (k - 1) ctx (by omega)
    refine Reads.behind hr hc fun c1 hc1 => Reads.map ?_
    apply (block_total hdecl (by omega) c1 hc1).mono
    intro ts fs body c' _ hres
    obtain ⟨hall, hder⟩ := hres
    exact ⟨by simp, ⟨rfl, hall⟩, fun hfs => ⟨false,
      .scope (hder hfs _ (by simp [Token.isSymbol, hkind])), fun h => Bool.noConfusion h⟩⟩
  case h_9 => exact expressionStatement_total hexpr c hc

theorem Readers.step_declaration (ih : Readers n) (hk : 5 * k + 5 ≤ n + 1) :
    TotalDeclaration k ctx (Parse.declaration (n + 1) ctx) := by
  intro c hc hne
  rw [Parse.declaration]
  refine (recovering_reads (P := fun ts fs s _ => ts ≠ [] ∧ s.WellFormed ctx ∧
    (fs = [] → Derives (.declaration ctx s) ts)) ?_ hne).mono ?_
  · show Reads (if startsFunction c.rest = true then _ else _) c _
    by_cases hf : startsFunction c.rest = true
    · rw [if_pos hf]
      obtain ⟨t, u, rest, hr, ht, hu⟩ : ∃ t u rest, c.rest = t :: u :: rest ∧
          t.isKeyword .funWord = true ∧ u.isIdentifier = true := by
        match h : c.rest, hf with
        | t :: u :: rest, hf => exact ⟨t, u, rest, rfl, Bool.and_eq_true_iff.1 hf⟩
      have hpos := hc.pos hr
      refine Reads.behind hr hc fun c1 hc1 => ?_
      refine Reads.bind (expect_reads _ _) ?_
      intro _ _ name c2 hm2 hres
      obtain ⟨rfl, rfl, hname⟩ := hres
      have hc2 := hm2.stays_ready hc1
      have hdecl := ih.declaration (k - 1) .ofFunction (by omega)
      apply Reads.bind (function_total hdecl (by omega) _ c2 hc2)
      intro ts fs result c3 _ hres
      obtain ⟨names, body⟩ := result
      obtain ⟨hall, hder⟩ := hres
      refine Reads.pure ⟨by simp, ⟨hname, hall⟩, fun hnil => ?_⟩
      simpa using Derives.declareFunction ht hname (hder (by simpa using hnil))
    · rw [if_neg hf]
      apply Reads.bind (accept_reads _)
      intro ts _ b c1 hm1 hres
      obtain ⟨rfl, ⟨rfl, var, rfl, hvar⟩ | ⟨rfl, rfl, -⟩⟩ := hres
      · have hc1 := hm1.stays_ready hc
        apply (varDeclaration_total (ih.expression k (by omega)) c1 hc1).mono
        intro us fs s c2 _ hres
        obtain ⟨hw, hder⟩ := hres
        exact ⟨by simp, hw ctx, fun hnil => .declareVariable hvar (hder (by simpa using hnil))⟩
      · have hc1 := (hm1.ready hc).1
        apply (ih.statement k ctx (by omega) c1 hc1).mono
        intro us fs s c2 hm2 hres
        obtain ⟨hus, ⟨-, hw⟩, hder⟩ := hres
        refine ⟨by simpa using hus, hw, fun hnil => ?_⟩
        obtain ⟨d, hd, -⟩ := hder (by simpa using hnil)
        -- The two tokens that were looked at belong to the statement itself.
        have hstart := hd.startsFunction_append c2.rest
        rw [← hm2.rest, ← List.nil_append c1.rest, ← hm1.rest] at hstart
        refine .plain hd ?_
        show startsFunction us = false
        rw [← hstart]
        exact Bool.eq_false_iff.2 hf
  · intro ts fs o c' _ hres
    obtain ⟨s, rfl, hts, hw, hder⟩ | ⟨rfl, hts, hfs⟩ := hres
    · exact ⟨hts, fun s' hs' => Option.some.inj hs' ▸ hw, fun hnil => ⟨s, rfl, hder hnil⟩⟩
    · exact ⟨hts, fun s hs => (by cases hs), fun hnil => absurd hnil hfs⟩

/-- **Every reader does its part,** whatever its bound is. -/
theorem readers (n : Nat) : Readers n := by
  induction n with
  -- The bound drops by one at each reader, so by five at most before a token is passed.
  | zero => constructor <;> intros <;> omega
  | succ n ih =>
    exact ⟨fun _ => ih.step_primary, fun _ => ih.step_unary, fun _ => ih.step_expression,
      fun _ _ => ih.step_statement, fun _ _ => ih.step_declaration⟩

/-! ## §8. Programs. -/

theorem start_ready (tokens : List Token) :
    (Cursor.start tokens).Ready tokens.length where
  finish := by
    show ((tokens.find? Token.isEnd).getD _).isEnd = true
    cases h : tokens.find? Token.isEnd with
    | none => rfl
    | some t => exact List.find?_some h
  length := List.Sublist.length_le (List.takeWhile_sublist _)

/-- **A whole program is read within its bound.** What is read is well formed,
and it is derived from the tokens before the end if no fault was noted. -/
theorem program_reads (tokens : List Token) :
    (program (readingBound tokens)).Reads (Cursor.start tokens) fun ts fs ss _ =>
      ts = tokens.takeWhile (!·.isEnd) ∧ Stmt.AllWellFormed .top ss ∧
        (fs = [] → Derives (.declarations .top ss) ts) := by
  have hdecl : TotalDeclaration tokens.length .top (declaration (readingBound tokens) .top) :=
    (readers _).declaration _ _ (by unfold readingBound; omega)
  apply (declarations_total hdecl _ (by unfold readingBound; omega) _ (start_ready tokens)).mono
  intro ts fs ss c' hm hres
  obtain ⟨hall, hder, hstop⟩ := hres
  refine ⟨?_, hall, hder⟩
  -- Reading a program stops at the end only.
  have hrest : c'.rest = [] := by
    cases h : c'.rest with
    | nil => rfl
    | cons t rest =>
      rw [h] at hstop
      exact Bool.noConfusion hstop
  have hts := hm.rest
  rw [hrest, List.append_nil] at hts
  exact hts.symm

/-! ## §9. No fault stops a program. -/

/-- A reader that gets over its faults. -/
def NeverStuck (p : Parse α) : Prop := ∀ c fault c', p c ≠ .stuck fault c'

theorem NeverStuck.pure (a : α) : NeverStuck (Pure.pure a : Parse α) := fun _ _ _ => nofun

theorem NeverStuck.bind {p : Parse α} {f : α → Parse β} (hp : NeverStuck p)
    (hf : ∀ a, NeverStuck (f a)) : NeverStuck (p >>= f) := by
  intro c fault c' h
  have hbind : Parse.bind p f c = .stuck fault c' := h
  unfold Parse.bind at hbind
  cases hpc : p c with
  | ok a c'' =>
    rw [hpc] at hbind
    exact hf a c'' fault c' hbind
  | stuck fault' c'' => exact hp c fault' c'' hpc
  | broken text c'' =>
    rw [hpc] at hbind
    cases hbind
  | exhausted =>
    rw [hpc] at hbind
    cases hbind

theorem declaration_neverStuck (n : Nat) (ctx : Context) : NeverStuck (declaration n ctx) := by
  intro c fault c' h
  cases n with
  | zero =>
    rw [declaration] at h
    cases h
  | succ n =>
    rw [declaration] at h
    unfold recovering at h
    split at h <;> cases h

theorem declarations_neverStuck {declaration : Parse (Option Stmt)} (h : NeverStuck declaration)
    (stop : Token → Bool) (n : Nat) : NeverStuck (declarations declaration stop n) := by
  induction n with
  | zero => exact fun _ _ _ => nofun
  | succ n ih =>
    rw [declarations]
    refine NeverStuck.bind (fun _ _ _ => nofun) fun more => ?_
    cases more with
    | false => exact .pure []
    | true => exact h.bind fun first => ih.bind fun others => .pure _

end Lox.Parse

namespace Lox

/-- **Every list of tokens is read to its end.** -/
theorem readProgram_ok (tokens : List Token) : ∃ ss c, readProgram tokens = .ok ss c := by
  have hread := Parse.program_reads tokens
  unfold Parse.Reads at hread
  unfold readProgram
  cases h : Parse.program (readingBound tokens) (Cursor.start tokens) with
  | ok ss c => exact ⟨ss, c, rfl⟩
  | stuck fault c =>
    exact absurd h (Parse.declarations_neverStuck (Parse.declaration_neverStuck _ _) _ _ _ _ _)
  | broken text c =>
    rw [h] at hread
    exact hread.elim
  | exhausted =>
    rw [h] at hread
    exact hread.elim

/-- **Reading a program never breaks off.** -/
theorem readProgram_ne_broken (tokens : List Token) (text : String) (c : Cursor) :
    readProgram tokens ≠ .broken text c := by
  intro h
  have hread := Parse.program_reads tokens
  unfold Parse.Reads at hread
  rw [show Parse.program (readingBound tokens) (Cursor.start tokens) = _ from h] at hread
  exact hread

/-- **Every tree that is read is well formed,** also behind a fault. -/
theorem parse_wellFormed (tokens : List Token) :
    Stmt.AllWellFormed .top (parse tokens).statements := by
  have h := Parse.program_reads tokens
  unfold Parse.Reads at h
  unfold parse readProgram
  cases hp : Parse.program (readingBound tokens) (Cursor.start tokens) with
  | ok ss c =>
    rw [hp] at h
    obtain ⟨ts, fs, -, -, hall, -⟩ := h
    exact hall
  | stuck fault c => trivial
  | broken text c => trivial
  | exhausted => trivial

/-- **What is read without a fault is derived.** -/
theorem derives_of_readProgram {tokens : List Token} {ss : List Stmt} {c : Cursor}
    (h : readProgram tokens = .ok ss c) (hc : c.faults = []) :
    Derives (.declarations .top ss) (tokens.takeWhile (!·.isEnd)) := by
  have hread := Parse.program_reads tokens
  unfold Parse.Reads at hread
  rw [show Parse.program (readingBound tokens) (Cursor.start tokens) = _ from h] at hread
  obtain ⟨ts, fs, hm, rfl, -, hder⟩ := hread
  have hfs : c.faults = fs := hm.faults
  exact hder (hfs.symm.trans hc)

end Lox
