/-
  Lox.Proofs.Grammar
  ────────────────────────────────
  **THE GRAMMAR AS A RELATION.**

  `Derives φ ts` says that the tokens `ts` can be read as the phrase `φ`, where
  a phrase is a syntactic category together with the tree that it stands for.
  The productions are those of the language, one constructor each:

    • a level of binary operators is left-recursive, so its chains group to the
      left; prefix operators and assignments are right-recursive;
    • an assignment has a single identifier on its left;
    • a statement is DANGLING if an `else` behind it would still belong to an
      `if` in it.  The first branch of an `if` with an `else` is not dangling,
      so an `else` belongs to the nearest `if`;
    • a declaration that begins with `fun` and a name declares a function and
      is never an expression statement;
    • the context of a statement says whether `break`, `continue` and `return`
      may stand there, and lists have at most `maxArity` entries.

  Nothing here looks ahead or recovers: the relation speaks about whole runs of
  tokens only.
-/
import Lox.Proofs.Shape

namespace Lox

open Parse (Context lowerFor maxArity)

/-! ## §1. Phrases without parts of their own. -/

/-- A token that is an expression by itself. -/
inductive Atom : Token → Expr → Prop where
  | number {t : Token} {v : Float} (h : t.kind = .number v) : Atom t (.literal (.number v))
  | string {t : Token} {v : String} (h : t.kind = .string v) : Atom t (.literal (.string v))
  | yes {t : Token} (h : t.kind = .keyword .trueWord) : Atom t (.literal (.bool true))
  | no {t : Token} (h : t.kind = .keyword .falseWord) : Atom t (.literal (.bool false))
  | nil {t : Token} (h : t.kind = .keyword .nilWord) : Atom t (.literal .nil)
  | name {t : Token} (h : t.kind = .identifier) : Atom t (.name t)
  | placeholder {t : Token} (h : t.kind = .symbol .dollar) : Atom t (.name t)

/-- Names with commas between them. -/
inductive Names : List Token → List Token → Prop where
  | one {name : Token} (h : name.isIdentifier = true) : Names [name] [name]
  | more {name comma : Token} {names ts : List Token} (h : name.isIdentifier = true)
      (hc : comma.isSymbol .comma = true) (hs : Names names ts) :
      Names (name :: names) (name :: comma :: ts)

/-- The parameters of a function. -/
inductive Parameters : List Token → List Token → Prop where
  | none : Parameters [] []
  | some {names ts : List Token} (hs : Names names ts) (hm : names.length ≤ maxArity) :
      Parameters names ts

/-- The tree of a `for` loop: `{ first; while (condition) { body; step; } }`,
each part left out if there is none, and the condition `true` if there is none. -/
inductive Lowered : Option Stmt → Option Expr → Option Expr → Stmt → Stmt → Prop where
  | plain {condition : Option Expr} {body : Stmt} :
      Lowered none condition none body
        (.loop (condition.getD (.literal (.bool true))) body false)
  | stepped {condition : Option Expr} {step : Expr} {body : Stmt} :
      Lowered none condition (some step) body
        (.loop (condition.getD (.literal (.bool true))) (.block [body, .expr step]) true)
  | started {first : Stmt} {condition step : Option Expr} {body loop : Stmt}
      (h : Lowered none condition step body loop) :
      Lowered (some first) condition step body (.block [first, loop])

/-- Whether tokens begin with `fun` and a name. -/
def startsFunction : List Token → Bool
  | t :: u :: _ => t.isKeyword .funWord && u.isIdentifier
  | _ => false

/-! ## §2. Phrases and their derivations. -/

/-- A syntactic category with the tree of what is read as it. -/
inductive Phrase where
  | primary (e : Expr)
  | call (e : Expr)
  | unary (e : Expr)
  /-- An expression of the first of some levels, the loosest one first. -/
  | ladder (levels : List Level) (e : Expr)
  | expression (e : Expr)
  /-- One expression or more, with commas between them. -/
  | arguments (es : List Expr)
  /-- The arguments of a call, possibly none. -/
  | given (es : List Expr)
  /-- An expression that may be missing. -/
  | clause (e : Option Expr)
  /-- The parameters and the body of a function. -/
  | function (names : List Token) (body : List Stmt)
  /-- Declarations between braces. -/
  | block (ctx : Context) (body : List Stmt)
  /-- A variable declaration behind its `var`. -/
  | binding (s : Stmt)
  /-- The first clause of a `for` loop, with its semicolon. -/
  | first (s : Option Stmt)
  | statement (ctx : Context) (dangling : Bool) (s : Stmt)
  | declaration (ctx : Context) (s : Stmt)
  | declarations (ctx : Context) (ss : List Stmt)

/-- **The grammar.** -/
inductive Derives : Phrase → List Token → Prop where
  -- primary → NUMBER | STRING | "true" | "false" | "nil" | IDENTIFIER | "$"
  | atom {t : Token} {e : Expr} (h : Atom t e) : Derives (.primary e) [t]
  -- primary → "(" expression ")"
  | group {l r : Token} {ts : List Token} {e : Expr} (hl : l.isSymbol .leftParen = true)
      (he : Derives (.expression e) ts) (hr : r.isSymbol .rightParen = true) :
      Derives (.primary (.group e)) (l :: (ts ++ [r]))
  -- primary → "fun" IDENTIFIER? function
  | unnamed {k : Token} {ts names : List Token} {body : List Stmt}
      (hk : k.isKeyword .funWord = true) (hf : Derives (.function names body) ts) :
      Derives (.primary (.function none names body)) (k :: ts)
  | named {k name : Token} {ts names : List Token} {body : List Stmt}
      (hk : k.isKeyword .funWord = true) (hn : name.isIdentifier = true)
      (hf : Derives (.function names body) ts) :
      Derives (.primary (.function (some name) names body)) (k :: name :: ts)
  -- call → primary ( "(" arguments? ")" )*
  | callee {ts : List Token} {e : Expr} (h : Derives (.primary e) ts) : Derives (.call e) ts
  | call {l r : Token} {ts us : List Token} {f : Expr} {es : List Expr}
      (hf : Derives (.call f) ts) (hl : l.isSymbol .leftParen = true)
      (hs : Derives (.given es) us) (hr : r.isSymbol .rightParen = true) :
      Derives (.call (.call f r es)) (ts ++ l :: (us ++ [r]))
  -- unary → ( "!" | "-" ) unary | call
  | operand {ts : List Token} {e : Expr} (h : Derives (.call e) ts) : Derives (.unary e) ts
  | signed {t : Token} {ts : List Token} {e : Expr} (ht : t.isPrefixOperator = true)
      (he : Derives (.unary e) ts) : Derives (.unary (.unary t e)) (t :: ts)
  -- a level → next level ( operator next level )*
  | tightest {ts : List Token} {e : Expr} (h : Derives (.unary e) ts) : Derives (.ladder [] e) ts
  | tighter {l : Level} {ls : List Level} {ts : List Token} {e : Expr}
      (h : Derives (.ladder ls e) ts) : Derives (.ladder (l :: ls) e) ts
  | chained {l : Level} {ls : List Level} {t : Token} {ts us : List Token} {left right : Expr}
      (hl : Derives (.ladder (l :: ls) left) ts) (ht : l.accepts t = true)
      (hr : Derives (.ladder ls right) us) :
      Derives (.ladder (l :: ls) (l.join left t right)) (ts ++ t :: us)
  -- expression → IDENTIFIER "=" expression | logic_or
  | ladder {ts : List Token} {e : Expr} (h : Derives (.ladder Level.all e) ts) :
      Derives (.expression e) ts
  | assign {name equals : Token} {ts : List Token} {e : Expr} (hn : name.isIdentifier = true)
      (hq : equals.isSymbol .equal = true) (he : Derives (.expression e) ts) :
      Derives (.expression (.assign name e)) (name :: equals :: ts)
  -- arguments → expression ( "," expression )*
  | lastArgument {ts : List Token} {e : Expr} (h : Derives (.expression e) ts) :
      Derives (.arguments [e]) ts
  | argument {comma : Token} {ts us : List Token} {e : Expr} {es : List Expr}
      (he : Derives (.expression e) ts) (hc : comma.isSymbol .comma = true)
      (hs : Derives (.arguments es) us) : Derives (.arguments (e :: es)) (ts ++ comma :: us)
  | notGiven : Derives (.given []) []
  | given {ts : List Token} {es : List Expr} (hs : Derives (.arguments es) ts)
      (hm : es.length ≤ maxArity) : Derives (.given es) ts
  | noClause : Derives (.clause none) []
  | clause {ts : List Token} {e : Expr} (h : Derives (.expression e) ts) :
      Derives (.clause (some e)) ts
  -- function → "(" parameters? ")" block
  | function {l r : Token} {ts us names : List Token} {body : List Stmt}
      (hl : l.isSymbol .leftParen = true) (hp : Parameters names ts)
      (hr : r.isSymbol .rightParen = true) (hb : Derives (.block .ofFunction body) us) :
      Derives (.function names body) (l :: (ts ++ r :: us))
  -- block → "{" declaration* "}"
  | block {ctx : Context} {l r : Token} {ts : List Token} {body : List Stmt}
      (hl : l.isSymbol .leftBrace = true) (hb : Derives (.declarations ctx body) ts)
      (hr : r.isSymbol .rightBrace = true) : Derives (.block ctx body) (l :: (ts ++ [r]))
  -- varDecl → "var" IDENTIFIER ( "=" expression )? ";"
  | uninitialized {name semi : Token} (hn : name.isIdentifier = true)
      (hs : semi.isSymbol .semicolon = true) :
      Derives (.binding (.var name none)) [name, semi]
  | initialized {name equals semi : Token} {ts : List Token} {e : Expr}
      (hn : name.isIdentifier = true) (hq : equals.isSymbol .equal = true)
      (he : Derives (.expression e) ts) (hs : semi.isSymbol .semicolon = true) :
      Derives (.binding (.var name (some e))) (name :: equals :: (ts ++ [semi]))
  -- forStmt → "for" "(" ( ";" | varDecl | exprStmt ) expression? ";" expression? ")" statement
  | noFirst {semi : Token} (hs : semi.isSymbol .semicolon = true) : Derives (.first none) [semi]
  | firstVariable {k : Token} {ts : List Token} {s : Stmt} (hk : k.isKeyword .varWord = true)
      (hs : Derives (.binding s) ts) : Derives (.first (some s)) (k :: ts)
  | firstExpression {semi : Token} {ts : List Token} {e : Expr}
      (he : Derives (.expression e) ts) (hs : semi.isSymbol .semicolon = true) :
      Derives (.first (some (.expr e))) (ts ++ [semi])
  | forLoop {ctx : Context} {d : Bool} {k l r semi : Token} {ts us vs ws : List Token}
      {first : Option Stmt} {condition step : Option Expr} {body s : Stmt}
      (hk : k.isKeyword .forWord = true) (hl : l.isSymbol .leftParen = true)
      (hf : Derives (.first first) ts) (hc : Derives (.clause condition) us)
      (hs : semi.isSymbol .semicolon = true) (ht : Derives (.clause step) vs)
      (hr : r.isSymbol .rightParen = true) (hb : Derives (.statement ctx.ofLoop d body) ws)
      (hs' : Lowered first condition step body s) :
      Derives (.statement ctx d s) (k :: l :: (ts ++ (us ++ semi :: (vs ++ r :: ws))))
  -- statement → "break" ";" | "continue" ";"
  | leave {ctx : Context} {k semi : Token} (hk : k.isKeyword .breakWord = true)
      (hc : ctx.inLoop = true) (hs : semi.isSymbol .semicolon = true) :
      Derives (.statement ctx false (.leave k)) [k, semi]
  | next {ctx : Context} {k semi : Token} (hk : k.isKeyword .continueWord = true)
      (hc : ctx.inLoop = true) (hs : semi.isSymbol .semicolon = true) :
      Derives (.statement ctx false (.next k)) [k, semi]
  -- ifStmt → "if" "(" expression ")" statement ( "else" statement )?
  | branch {ctx : Context} {d : Bool} {k l r : Token} {ts us : List Token} {e : Expr} {yes : Stmt}
      (hk : k.isKeyword .ifWord = true) (hl : l.isSymbol .leftParen = true)
      (he : Derives (.expression e) ts) (hr : r.isSymbol .rightParen = true)
      (hy : Derives (.statement ctx d yes) us) :
      Derives (.statement ctx true (.branch e yes none)) (k :: l :: (ts ++ r :: us))
  | branchElse {ctx : Context} {d : Bool} {k l r other : Token} {ts us vs : List Token} {e : Expr}
      {yes no : Stmt} (hk : k.isKeyword .ifWord = true) (hl : l.isSymbol .leftParen = true)
      (he : Derives (.expression e) ts) (hr : r.isSymbol .rightParen = true)
      (hy : Derives (.statement ctx false yes) us) (ho : other.isKeyword .elseWord = true)
      (hn : Derives (.statement ctx d no) vs) :
      Derives (.statement ctx d (.branch e yes (some no)))
        (k :: l :: (ts ++ r :: (us ++ other :: vs)))
  -- whileStmt → "while" "(" expression ")" statement
  | whileLoop {ctx : Context} {d : Bool} {k l r : Token} {ts us : List Token} {e : Expr}
      {body : Stmt} (hk : k.isKeyword .whileWord = true) (hl : l.isSymbol .leftParen = true)
      (he : Derives (.expression e) ts) (hr : r.isSymbol .rightParen = true)
      (hb : Derives (.statement ctx.ofLoop d body) us) :
      Derives (.statement ctx d (.loop e body false)) (k :: l :: (ts ++ r :: us))
  -- statement → "print" expression ";" | "return" expression? ";" | block | expression ";"
  | print {ctx : Context} {k semi : Token} {ts : List Token} {e : Expr}
      (hk : k.isKeyword .printWord = true) (he : Derives (.expression e) ts)
      (hs : semi.isSymbol .semicolon = true) :
      Derives (.statement ctx false (.print e)) (k :: (ts ++ [semi]))
  | give {ctx : Context} {k semi : Token} {ts : List Token} {e : Option Expr}
      (hk : k.isKeyword .returnWord = true) (hc : ctx.inFunction = true)
      (he : Derives (.clause e) ts) (hs : semi.isSymbol .semicolon = true) :
      Derives (.statement ctx false (.give k e)) (k :: (ts ++ [semi]))
  | scope {ctx : Context} {ts : List Token} {body : List Stmt} (hb : Derives (.block ctx body) ts) :
      Derives (.statement ctx false (.block body)) ts
  | expr {ctx : Context} {semi : Token} {ts : List Token} {e : Expr}
      (he : Derives (.expression e) ts) (hs : semi.isSymbol .semicolon = true) :
      Derives (.statement ctx false (.expr e)) (ts ++ [semi])
  -- declaration → "fun" IDENTIFIER function | varDecl | statement
  | declareFunction {ctx : Context} {k name : Token} {ts names : List Token} {body : List Stmt}
      (hk : k.isKeyword .funWord = true) (hn : name.isIdentifier = true)
      (hf : Derives (.function names body) ts) :
      Derives (.declaration ctx (.function name names body)) (k :: name :: ts)
  | declareVariable {ctx : Context} {k : Token} {ts : List Token} {s : Stmt}
      (hk : k.isKeyword .varWord = true) (hs : Derives (.binding s) ts) :
      Derives (.declaration ctx s) (k :: ts)
  | plain {ctx : Context} {d : Bool} {ts : List Token} {s : Stmt}
      (hs : Derives (.statement ctx d s) ts) (hf : startsFunction ts = false) :
      Derives (.declaration ctx s) ts
  -- program → declaration*
  | nil {ctx : Context} : Derives (.declarations ctx []) []
  | cons {ctx : Context} {ts us : List Token} {s : Stmt} {ss : List Stmt}
      (hs : Derives (.declaration ctx s) ts) (hss : Derives (.declarations ctx ss) us) :
      Derives (.declarations ctx (s :: ss)) (ts ++ us)

/-! ## §3. Phrases without parts, as functions. -/

theorem atom_iff {t : Token} {e : Expr} : Atom t e ↔ Expr.ofToken? t = some e := by
  constructor
  · intro h
    cases h <;> next hk => simp only [Expr.ofToken?, hk]
  · intro h
    unfold Expr.ofToken? at h
    split at h
    case h_1 v hk => exact Option.some.inj h ▸ .number hk
    case h_2 v hk => exact Option.some.inj h ▸ .string hk
    case h_3 hk => exact Option.some.inj h ▸ .yes hk
    case h_4 hk => exact Option.some.inj h ▸ .no hk
    case h_5 hk => exact Option.some.inj h ▸ .nil hk
    case h_6 hk => exact Option.some.inj h ▸ .name hk
    case h_7 hk => exact Option.some.inj h ▸ .placeholder hk
    case h_8 => cases h

theorem Atom.isAtom {t : Token} {e : Expr} (h : Atom t e) : t.isAtom = true := by
  cases h <;> next hk => simp only [Token.isAtom, hk]

/-- **No token that is taken for an expression is refused.** -/
theorem exists_atom_of_isAtom {t : Token} (h : t.isAtom = true) : ∃ e, Atom t e := by
  unfold Token.isAtom at h
  split at h
  case h_1 v hk => exact ⟨_, .number hk⟩
  case h_2 v hk => exact ⟨_, .string hk⟩
  case h_3 hk => exact ⟨_, .name hk⟩
  case h_4 hk => exact ⟨_, .placeholder hk⟩
  case h_5 hk => exact ⟨_, .yes hk⟩
  case h_6 hk => exact ⟨_, .no hk⟩
  case h_7 hk => exact ⟨_, .nil hk⟩
  case h_8 => exact Bool.noConfusion h

theorem lowered_iff {first : Option Stmt} {condition step : Option Expr} {body s : Stmt} :
    Lowered first condition step body s ↔ lowerFor first condition step body = s := by
  constructor
  · intro h
    induction h with
    | plain => rfl
    | stepped => rfl
    | started h ih => rw [← ih]; rfl
  · intro h
    subst h
    have hloop : Lowered none condition step body (lowerFor none condition step body) := by
      cases step with
      | none => exact .plain
      | some e => exact .stepped
    cases first with
    | none => exact hloop
    | some s => exact .started hloop

/-! ## §4. The first token of a phrase. -/

/-- Whether a token begins an expression that no operator stands in front of. -/
def Token.opensPrimary (t : Token) : Bool :=
  match t.kind with
  | .number _ | .string _ | .identifier => true
  | .keyword .trueWord | .keyword .falseWord | .keyword .nilWord | .keyword .funWord => true
  | .symbol .dollar | .symbol .leftParen => true
  | _ => false

/-- Whether a token begins an expression. -/
def Token.opensExpression (t : Token) : Bool := t.opensPrimary || t.isPrefixOperator

/-- Whether a token begins a statement that is no expression statement. -/
def Token.opensStatement (t : Token) : Bool :=
  match t.kind with
  | .keyword .breakWord | .keyword .continueWord | .keyword .forWord | .keyword .ifWord => true
  | .keyword .whileWord | .keyword .printWord | .keyword .returnWord => true
  | .symbol .leftBrace => true
  | _ => false

/-- Whether a token begins a declaration. -/
def Token.opensDeclaration (t : Token) : Bool :=
  t.opensExpression || t.opensStatement || t.isKeyword .varWord

/-- What the first token of a phrase is like, for the phrases that are never
empty. -/
def Phrase.opener? : Phrase → Option (Token → Bool)
  | .primary _ | .call _ => some Token.opensPrimary
  | .unary _ | .ladder _ _ | .expression _ | .arguments _ => some Token.opensExpression
  | .function _ _ => some (·.isSymbol .leftParen)
  | .block _ _ => some (·.isSymbol .leftBrace)
  | .statement _ _ _ => some fun t => t.opensExpression || t.opensStatement
  | .declaration _ _ => some Token.opensDeclaration
  | _ => none

theorem kind_of_isSymbol {t : Token} {s : Symbol} (h : t.isSymbol s = true) :
    t.kind = .symbol s := by
  unfold Token.isSymbol at h
  split at h
  · next u hk => rw [hk, of_decide_eq_true h]
  · exact Bool.noConfusion h

theorem kind_of_isKeyword {t : Token} {k : Keyword} (h : t.isKeyword k = true) :
    t.kind = .keyword k := by
  unfold Token.isKeyword at h
  split at h
  · next l hk => rw [hk, of_decide_eq_true h]
  · exact Bool.noConfusion h

theorem kind_of_isIdentifier {t : Token} (h : t.isIdentifier = true) : t.kind = .identifier := by
  unfold Token.isIdentifier at h
  split at h
  · assumption
  · exact Bool.noConfusion h

theorem Atom.opensPrimary {t : Token} {e : Expr} (h : Atom t e) : t.opensPrimary = true := by
  cases h <;> next hk => simp only [Token.opensPrimary, hk]

theorem Atom.wellFormed {t : Token} {e : Expr} (h : Atom t e) : e.WellFormed := by
  cases h with
  | name h => exact .inl (by simp [Token.isIdentifier, h])
  | placeholder h => exact .inr (by simp [Token.isSymbol, h])
  | _ => trivial

/-- The symbols that an expression may begin with. -/
theorem Token.isSymbol_of_opensExpression {t : Token} {s : Symbol}
    (h : t.opensExpression = true) (hs : s ∉ [.dollar, .leftParen, .bang, .minus]) :
    t.isSymbol s = false := by
  cases hk : t.isSymbol s with
  | false => rfl
  | true =>
    have hkind := kind_of_isSymbol hk
    cases s <;> simp_all [Token.opensExpression, Token.opensPrimary, Token.isPrefixOperator,
      Token.isSymbol]

/-- The keywords that an expression may begin with. -/
theorem Token.isKeyword_of_opensExpression {t : Token} {k : Keyword}
    (h : t.opensExpression = true) (hk : k ∉ [.trueWord, .falseWord, .nilWord, .funWord]) :
    t.isKeyword k = false := by
  cases ht : t.isKeyword k with
  | false => rfl
  | true =>
    have hkind := kind_of_isKeyword ht
    cases k <;> simp_all [Token.opensExpression, Token.opensPrimary, Token.isPrefixOperator,
      Token.isSymbol]

/-- Expression statements are told from the other statements by the first token. -/
theorem Token.opensStatement_of_opensExpression {t : Token} (h : t.opensExpression = true) :
    t.opensStatement = false := by
  cases hs : t.opensStatement with
  | false => rfl
  | true =>
    unfold Token.opensStatement at hs
    split at hs <;> simp_all [Token.opensExpression, Token.opensPrimary, Token.isPrefixOperator,
      Token.isSymbol]

/-- No declaration begins with the brace that ends a block. -/
theorem Token.isSymbol_of_opensDeclaration {t : Token} (h : t.opensDeclaration = true) :
    t.isSymbol .rightBrace = false := by
  cases hk : t.isSymbol .rightBrace with
  | false => rfl
  | true =>
    simp [Token.opensDeclaration, Token.opensExpression, Token.opensPrimary,
      Token.isPrefixOperator, Token.opensStatement, Token.isSymbol, Token.isKeyword,
      kind_of_isSymbol hk] at h

/-- No declaration begins with the word for the other branch. -/
theorem Token.isKeyword_of_opensDeclaration {t : Token} (h : t.opensDeclaration = true) :
    t.isKeyword .elseWord = false := by
  cases hk : t.isKeyword .elseWord with
  | false => rfl
  | true =>
    simp [Token.opensDeclaration, Token.opensExpression, Token.opensPrimary,
      Token.isPrefixOperator, Token.opensStatement, Token.isSymbol, Token.isKeyword,
      kind_of_isKeyword hk] at h

theorem head?_any_append {p : Token → Bool} {ts : List Token} (us : List Token)
    (h : ts.head?.any p = true) : (ts ++ us).head?.any p = true := by
  cases ts with
  | nil => exact Bool.noConfusion h
  | cons t ts => exact h

theorem head?_any_mono {p q : Token → Bool} {ts : List Token} (h : ts.head?.any p = true)
    (hpq : ∀ t, p t = true → q t = true) : ts.head?.any q = true := by
  cases ts with
  | nil => exact Bool.noConfusion h
  | cons t ts => exact hpq t h

/-- **A phrase begins with a token that opens it.** -/
theorem Derives.opens {φ : Phrase} {ts : List Token} (h : Derives φ ts) :
    ∀ p, φ.opener? = some p → ts.head?.any p = true := by
  induction h with
  | atom h =>
    intro p hp
    cases hp
    exact h.opensPrimary
  | group hl =>
    intro p hp
    cases hp
    simp [Token.opensPrimary, kind_of_isSymbol hl]
  | unnamed hk | named hk =>
    intro p hp
    cases hp
    simp [Token.opensPrimary, kind_of_isKeyword hk]
  | callee _ ih | tightest _ ih | tighter _ ih | ladder _ ih | lastArgument _ ih => exact ih
  | call _ _ _ _ ih | chained _ _ _ ih | argument _ _ _ ih =>
    intro p hp
    exact head?_any_append _ (ih p hp)
  | operand _ ih =>
    intro p hp
    cases hp
    exact head?_any_mono (ih _ rfl) fun t ht => by simp [Token.opensExpression, ht]
  | signed ht =>
    intro p hp
    cases hp
    simp [Token.opensExpression, ht]
  | assign hn =>
    intro p hp
    cases hp
    simp [Token.opensExpression, Token.opensPrimary, kind_of_isIdentifier hn]
  | function hl | block hl =>
    intro p hp
    cases hp
    exact hl
  | forLoop hk | leave hk | next hk | branch hk | branchElse hk | whileLoop hk | print hk
  | give hk =>
    intro p hp
    cases hp
    simp [Token.opensStatement, kind_of_isKeyword hk]
  | scope _ ih =>
    intro p hp
    cases hp
    exact head?_any_mono (ih _ rfl) fun t ht => by
      simp [Token.opensStatement, kind_of_isSymbol ht]
  | expr _ _ ih =>
    intro p hp
    cases hp
    exact head?_any_append _ (head?_any_mono (ih _ rfl) fun t ht => by simp [ht])
  | declareFunction hk =>
    intro p hp
    cases hp
    simp [Token.opensDeclaration, Token.opensExpression, Token.opensPrimary, kind_of_isKeyword hk]
  | declareVariable hk =>
    intro p hp
    cases hp
    simp [Token.opensDeclaration, hk]
  | plain _ _ ih =>
    intro p hp
    cases hp
    exact head?_any_mono (ih _ rfl) fun t ht => by
      simp only [Token.opensDeclaration, Bool.or_eq_true] at ht ⊢
      exact .inl ht
  | _ =>
    intro p hp
    cases hp

/-! ## §5. Names and lengths. -/

/-- The tree of a phrase that an assignment could have on its left. -/
def Phrase.operand? : Phrase → Option Expr
  | .primary e | .call e | .unary e | .ladder _ e => some e
  | _ => none

/-- A name is read from one token. -/
theorem Derives.eq_singleton_of_name {φ : Phrase} {ts : List Token} (h : Derives φ ts) :
    ∀ t, φ.operand? = some (.name t) → ts = [t] := by
  induction h with
  | atom h =>
    intro t ht
    cases h <;> cases ht <;> rfl
  | callee _ ih | operand _ ih | tightest _ ih | tighter _ ih => exact ih
  | @chained l =>
    intro t ht
    cases l <;> cases ht
  | _ =>
    intro t ht
    cases ht

/-- A statement has at least two tokens. -/
theorem Derives.two_le_length_of_statement {ctx : Context} {d : Bool} {s : Stmt}
    {ts : List Token} (h : Derives (.statement ctx d s) ts) : 2 ≤ ts.length := by
  cases h with
  | scope hb =>
    cases hb with
    | block hl hb hr => simp
  | expr he hs =>
    have hne := he.opens _ rfl
    cases hts : ‹List Token› with
    | nil => rw [hts] at hne; exact Bool.noConfusion hne
    | cons t ts => simp
  | print hk he hs | give hk hc he hs => simp
  | _ => simp

/-- What follows a statement does not matter for how it begins. -/
theorem Derives.startsFunction_append {ctx : Context} {d : Bool} {s : Stmt} {ts : List Token}
    (h : Derives (.statement ctx d s) ts) (rest : List Token) :
    startsFunction (ts ++ rest) = startsFunction ts := by
  have hlen := h.two_le_length_of_statement
  match ts, hlen with
  | t :: u :: ts, _ => rfl

end Lox
