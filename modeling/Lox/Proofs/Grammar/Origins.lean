/-
  Lox.Proofs.Grammar.Origins
  ────────────────────────────────
  **WHAT A TREE KEEPS OF ITS TOKENS.**

  `nodes` lists every expression in a tree, those in function bodies too.  What is
  read from spelled tokens is built of them alone: a name is spelled as a name, an
  operator as an operator of its kind, a number is that of its digits and a string
  has no quote in it (`Derives.genuine`).  So this holds of every expression of a
  program that was scanned and read without a fault (`genuine_of_parse`).
-/
import Lox.Proofs.Grammar.Soundness
import Lox.Proofs.Token.Spelling

namespace Lox

open Parse (Context)

/-! ## §1. The expressions in a tree. -/

mutual

/-- An expression and all expressions in it. -/
def Expr.nodes : Expr → List Expr
  | .literal value => [.literal value]
  | .name token => [.name token]
  | .unary operator operand => .unary operator operand :: Expr.nodes operand
  | .binary left operator right =>
    .binary left operator right :: (Expr.nodes left ++ Expr.nodes right)
  | .logical left operator right =>
    .logical left operator right :: (Expr.nodes left ++ Expr.nodes right)
  | .pipe left operator right => .pipe left operator right :: (Expr.nodes left ++ Expr.nodes right)
  | .call callee paren arguments =>
    .call callee paren arguments :: (Expr.nodes callee ++ Expr.nodesAll arguments)
  | .assign target value => .assign target value :: Expr.nodes value
  | .group inner => .group inner :: Expr.nodes inner
  | .function name parameters body => .function name parameters body :: Stmt.nodesAll body
termination_by structural tree => tree

/-- All expressions in some expressions. -/
def Expr.nodesAll : List Expr → List Expr
  | [] => []
  | e :: es => Expr.nodes e ++ Expr.nodesAll es
termination_by structural trees => trees

/-- All expressions in an optional expression. -/
def Expr.nodesOption : Option Expr → List Expr
  | none => []
  | some e => Expr.nodes e
termination_by structural tree => tree

/-- All expressions in a statement. -/
def Stmt.nodes : Stmt → List Expr
  | .expr value | .print value => Expr.nodes value
  | .var _ initial => Expr.nodesOption initial
  | .block body => Stmt.nodesAll body
  | .branch condition yes no =>
    Expr.nodes condition ++ (Stmt.nodes yes ++ Stmt.nodesOption no)
  | .loop condition body _ => Expr.nodes condition ++ Stmt.nodes body
  | .function _ _ body => Stmt.nodesAll body
  | .give _ value => Expr.nodesOption value
  | .leave _ | .next _ => []
termination_by structural tree => tree

/-- All expressions in some statements. -/
def Stmt.nodesAll : List Stmt → List Expr
  | [] => []
  | s :: ss => Stmt.nodes s ++ Stmt.nodesAll ss
termination_by structural trees => trees

/-- All expressions in an optional statement. -/
def Stmt.nodesOption : Option Stmt → List Expr
  | none => []
  | some s => Stmt.nodes s
termination_by structural tree => tree

end

section Transitive

variable {x y : Expr}

mutual

/-- What is in an expression of a tree is in the tree. -/
theorem Expr.mem_nodes_trans (hy : y ∈ x.nodes) : (e : Expr) → x ∈ e.nodes → y ∈ e.nodes
  | .literal _ | .name _ => fun hx => by
    obtain rfl := List.mem_singleton.1 hx
    exact hy
  | .unary _ inner | .assign _ inner | .group inner => fun hx => by
    rcases List.mem_cons.1 hx with rfl | hx
    · exact hy
    · exact .tail _ (Expr.mem_nodes_trans hy inner hx)
  | .binary left _ right | .logical left _ right | .pipe left _ right => fun hx => by
    rcases List.mem_cons.1 hx with rfl | hx
    · exact hy
    · exact .tail _ (List.mem_append.2 ((List.mem_append.1 hx).imp
        (Expr.mem_nodes_trans hy left) (Expr.mem_nodes_trans hy right)))
  | .call callee _ arguments => fun hx => by
    rcases List.mem_cons.1 hx with rfl | hx
    · exact hy
    · exact .tail _ (List.mem_append.2 ((List.mem_append.1 hx).imp
        (Expr.mem_nodes_trans hy callee) (Expr.mem_nodesAll_trans hy arguments)))
  | .function _ _ body => fun hx => by
    rcases List.mem_cons.1 hx with rfl | hx
    · exact hy
    · exact .tail _ (Stmt.mem_nodesAll_trans hy body hx)

theorem Expr.mem_nodesAll_trans (hy : y ∈ x.nodes) :
    (es : List Expr) → x ∈ Expr.nodesAll es → y ∈ Expr.nodesAll es
  | [] => nofun
  | e :: es => fun hx => List.mem_append.2 ((List.mem_append.1 hx).imp
      (Expr.mem_nodes_trans hy e) (Expr.mem_nodesAll_trans hy es))

theorem Expr.mem_nodesOption_trans (hy : y ∈ x.nodes) :
    (o : Option Expr) → x ∈ Expr.nodesOption o → y ∈ Expr.nodesOption o
  | none => nofun
  | some e => Expr.mem_nodes_trans hy e

theorem Stmt.mem_nodes_trans (hy : y ∈ x.nodes) : (s : Stmt) → x ∈ s.nodes → y ∈ s.nodes
  | .expr value | .print value => Expr.mem_nodes_trans hy value
  | .var _ value | .give _ value => Expr.mem_nodesOption_trans hy value
  | .block body | .function _ _ body => Stmt.mem_nodesAll_trans hy body
  | .branch condition yes no => fun hx => List.mem_append.2 ((List.mem_append.1 hx).imp
      (Expr.mem_nodes_trans hy condition) fun hx => List.mem_append.2 ((List.mem_append.1 hx).imp
        (Stmt.mem_nodes_trans hy yes) (Stmt.mem_nodesOption_trans hy no)))
  | .loop condition body _ => fun hx => List.mem_append.2 ((List.mem_append.1 hx).imp
      (Expr.mem_nodes_trans hy condition) (Stmt.mem_nodes_trans hy body))
  | .leave _ | .next _ => nofun

theorem Stmt.mem_nodesAll_trans (hy : y ∈ x.nodes) :
    (ss : List Stmt) → x ∈ Stmt.nodesAll ss → y ∈ Stmt.nodesAll ss
  | [] => nofun
  | s :: ss => fun hx => List.mem_append.2 ((List.mem_append.1 hx).imp
      (Stmt.mem_nodes_trans hy s) (Stmt.mem_nodesAll_trans hy ss))

theorem Stmt.mem_nodesOption_trans (hy : y ∈ x.nodes) :
    (o : Option Stmt) → x ∈ Stmt.nodesOption o → y ∈ Stmt.nodesOption o
  | none => nofun
  | some s => Stmt.mem_nodes_trans hy s

end

end Transitive

/-! ## §2. Built of spelled tokens. -/

/-- A token with a text that is read as its kind. -/
def Token.IsSpelled (t : Token) : Prop := Spells t.kind t.lexeme.toList

/-- What an expression that was read from spelled tokens is like at its top. -/
def Expr.Genuine : Expr → Prop
  | .literal (.number value) => ∃ whole fraction, value = Number.ofDecimal whole fraction
  | .literal (.string value) => '"' ∉ value.toList
  | .literal .nil | .literal (.bool _) => True
  | .name token => token.IsSpelled ∧ (token.isIdentifier = true ∨ token.isSymbol .dollar = true)
  | .unary operator _ => operator.IsSpelled ∧ operator.isPrefixOperator = true
  | .binary _ operator _ => operator.IsSpelled ∧ operator.isBinaryOperator = true
  | .logical _ operator _ => operator.IsSpelled ∧ operator.isLogicalOperator = true
  | .pipe _ operator _ => operator.IsSpelled ∧ operator.isSymbol .pipe = true
  | .call _ paren _ => paren.IsSpelled ∧ paren.isSymbol .rightParen = true
  | .assign target _ => target.IsSpelled ∧ target.isIdentifier = true
  | .group _ | .function _ _ _ => True

/-- All expressions in the tree of a phrase. -/
def Phrase.nodes : Phrase → List Expr
  | .primary e | .call e | .unary e | .ladder _ e | .expression e => e.nodes
  | .arguments es | .given es => Expr.nodesAll es
  | .clause e => Expr.nodesOption e
  | .function _ body | .block _ body => Stmt.nodesAll body
  | .binding s => s.nodes
  | .first s => Stmt.nodesOption s
  | .statement _ _ s | .declaration _ s => s.nodes
  | .declarations _ ss => Stmt.nodesAll ss

/-- All expressions in a list are like this. -/
def AllGenuine (es : List Expr) : Prop := ∀ e ∈ es, e.Genuine

theorem allGenuine_nil : AllGenuine [] := nofun

theorem allGenuine_cons {e : Expr} {es : List Expr} :
    AllGenuine (e :: es) ↔ e.Genuine ∧ AllGenuine es := List.forall_mem_cons

theorem allGenuine_append {es fs : List Expr} :
    AllGenuine (es ++ fs) ↔ AllGenuine es ∧ AllGenuine fs := List.forall_mem_append

theorem Lexeme.exists_digits {v : Float} {text : List Char} (h : Lexeme (.number v) text) :
    ∃ whole fraction, v = Number.ofDecimal whole fraction := by
  cases h with
  | whole _ => exact ⟨_, _, rfl⟩
  | decimal _ _ => exact ⟨_, _, rfl⟩

theorem Atom.genuine {t : Token} {e : Expr} (h : Atom t e) (ht : t.IsSpelled) :
    AllGenuine e.nodes := by
  unfold Token.IsSpelled at ht
  cases h with
  | number hk =>
    rw [hk] at ht
    cases ht with
    | lexeme h => exact allGenuine_cons.2 ⟨h.exists_digits, allGenuine_nil⟩
  | string hk =>
    rw [hk] at ht
    generalize t.lexeme.toList = text at ht
    cases ht with
    | lexeme h => cases h
    | @string body h => exact allGenuine_cons.2 ⟨by simpa [Expr.Genuine] using h, allGenuine_nil⟩
  | yes _ | no _ | nil _ => exact allGenuine_cons.2 ⟨trivial, allGenuine_nil⟩
  | name hk =>
    exact allGenuine_cons.2 ⟨⟨ht, .inl (by simp [Token.isIdentifier, hk])⟩, allGenuine_nil⟩
  | placeholder hk =>
    exact allGenuine_cons.2 ⟨⟨ht, .inr (by simp [Token.isSymbol, hk])⟩, allGenuine_nil⟩

theorem Level.join_genuine {l : Level} {left right : Expr} {t : Token} (h : l.accepts t = true)
    (ht : t.IsSpelled) (hl : AllGenuine left.nodes) (hr : AllGenuine right.nodes) :
    AllGenuine (l.join left t right).nodes := by
  have htop : (l.join left t right).Genuine := by
    obtain ⟨kind, lexeme, line⟩ := t
    unfold Level.accepts at h
    split at h
    all_goals
      simp_all [Level.join, Expr.Genuine, Token.isLogicalOperator, Token.isBinaryOperator,
        Token.isKeyword, Token.isSymbol]
  have hnodes :
      (l.join left t right).nodes = l.join left t right :: (left.nodes ++ right.nodes) := by
    cases l <;> rfl
  rw [hnodes]
  exact allGenuine_cons.2 ⟨htop, allGenuine_append.2 ⟨hl, hr⟩⟩

theorem Lowered.genuine {first : Option Stmt} {condition step : Option Expr} {body s : Stmt}
    (h : Lowered first condition step body s) (hf : AllGenuine (Stmt.nodesOption first))
    (hc : AllGenuine (Expr.nodesOption condition)) (ht : AllGenuine (Expr.nodesOption step))
    (hb : AllGenuine body.nodes) : AllGenuine s.nodes := by
  -- A condition that was left out is the only expression that comes from no token.
  have hcondition : AllGenuine (condition.getD (.literal (.bool true))).nodes := by
    cases condition with
    | none => exact allGenuine_cons.2 ⟨trivial, allGenuine_nil⟩
    | some e => exact hc
  induction h with
  | plain => exact allGenuine_append.2 ⟨hcondition, hb⟩
  | stepped =>
    exact allGenuine_append.2 ⟨hcondition, allGenuine_append.2 ⟨hb,
      allGenuine_append.2 ⟨ht, allGenuine_nil⟩⟩⟩
  | started h ih =>
    exact allGenuine_append.2 ⟨hf, allGenuine_append.2 ⟨ih allGenuine_nil hc ht hb hcondition,
      allGenuine_nil⟩⟩

/-- **What is read from spelled tokens is built of them.** -/
theorem Derives.genuine {φ : Phrase} {ts : List Token} (h : Derives φ ts) :
    (∀ t ∈ ts, t.IsSpelled) → AllGenuine φ.nodes := by
  -- One case per production: what its parts are built of, and its own tokens.
  induction h <;>
    simp only [List.forall_mem_cons, List.forall_mem_append, Phrase.nodes, Expr.nodes, Stmt.nodes,
      Expr.nodesAll, Stmt.nodesAll, Expr.nodesOption, Stmt.nodesOption, allGenuine_cons,
      allGenuine_append, allGenuine_nil, and_true] at *
  case atom h => exact fun hts => h.genuine hts.1
  case group ih => exact fun hts => ⟨trivial, ih hts.2.1⟩
  case unnamed ih => exact fun hts => ⟨trivial, ih hts.2⟩
  case named ih => exact fun hts => ⟨trivial, ih hts.2.2⟩
  case callee ih => exact ih
  case call hr ihf ihs => exact fun hts => ⟨⟨hts.2.2.2.1, hr⟩, ihf hts.1, ihs hts.2.2.1⟩
  case operand ih => exact ih
  case signed ht _ ih => exact fun hts => ⟨⟨hts.1, ht⟩, ih hts.2⟩
  case tightest ih => exact ih
  case tighter ih => exact ih
  case chained ht _ ihl ihr =>
    exact fun hts => Level.join_genuine ht hts.2.1 (ihl hts.1) (ihr hts.2.2)
  case ladder ih => exact ih
  case assign hn _ _ ih => exact fun hts => ⟨⟨hts.1, hn⟩, ih hts.2.2⟩
  case lastArgument ih => exact ih
  case argument ihe ihs => exact fun hts => ⟨ihe hts.1, ihs hts.2.2⟩
  case notGiven => exact fun _ => trivial
  case given ih => exact ih
  case noClause => exact fun _ => trivial
  case clause ih => exact ih
  case function ih => exact fun hts => ih hts.2.2.2
  case block ih => exact fun hts => ih hts.2.1
  case uninitialized => exact fun _ => trivial
  case initialized ih => exact fun hts => ih hts.2.2.1
  case noFirst => exact fun _ => trivial
  case firstVariable ih => exact fun hts => ih hts.2
  case firstExpression ih => exact fun hts => ih hts.1
  case forLoop hlow ihf ihc iht ihb =>
    intro hts
    exact hlow.genuine (ihf hts.2.2.1) (ihc hts.2.2.2.1) (iht hts.2.2.2.2.2.1)
      (ihb hts.2.2.2.2.2.2.2)
  case leave => exact fun _ => trivial
  case next => exact fun _ => trivial
  case branch ihe ihy => exact fun hts => ⟨ihe hts.2.2.1, ihy hts.2.2.2.2⟩
  case branchElse ihe ihy ihn =>
    exact fun hts => ⟨ihe hts.2.2.1, ihy hts.2.2.2.2.1, ihn hts.2.2.2.2.2.2⟩
  case whileLoop ihe ihb => exact fun hts => ⟨ihe hts.2.2.1, ihb hts.2.2.2.2⟩
  case print ih => exact fun hts => ih hts.2.1
  case give ih => exact fun hts => ih hts.2.1
  case scope ih => exact ih
  case expr ih => exact fun hts => ih hts.1
  case declareFunction ih => exact fun hts => ih hts.2.2
  case declareVariable ih => exact fun hts => ih hts.2
  case plain ih => exact ih
  case nil => exact fun _ => trivial
  case cons ih ihs => exact fun hts => ⟨ih hts.1, ihs hts.2⟩

/-! ## §3. Programs. -/

theorem Stands.spells {kind : TokenKind} {text rest : List Char}
    (h : Stands (.token kind) text rest) (hkind : kind.isIgnored = false) : Spells kind text := by
  cases h with
  | lexeme h _ _ => exact .lexeme h
  | string _ h => exact .string h
  | blank | newLine | lineComment | blockComment => cases hkind

theorem Divides.stands_of_mem {line : Nat} {cs : List Char} {ps : List Piece}
    (h : Divides line cs ps) : ∀ p ∈ ps, ∃ rest, Stands p.shape p.text rest := by
  induction h with
  | nil line => exact nofun
  | cons h _ ih => exact List.forall_mem_cons.2 ⟨⟨_, h⟩, ih⟩

/-- The tokens of a scan are spelled. -/
theorem isSpelled_of_scan {source : String} {tokens : List Token} (h : scan source = .ok tokens) :
    ∀ t ∈ tokens.takeWhile (!·.isEnd), t.IsSpelled := by
  intro t ht
  rw [takeWhile_of_scan h] at ht
  obtain ⟨p, hp, htoken⟩ := List.mem_filterMap.1 ht
  obtain ⟨hshape, hkind, hlexeme, -⟩ := Piece.token?_eq_some_iff.1 htoken
  obtain ⟨rest, hstands⟩ := (piecesFrom_divides 1 source.toList).stands_of_mem p hp
  rw [hshape] at hstands
  unfold Token.IsSpelled
  rw [hlexeme, String.toList_ofList]
  exact hstands.spells hkind

/-- **Every expression of a program is built of spelled tokens,** and so is all that is in it. -/
theorem genuine_of_parse {source : String} {tokens : List Token} (hscan : scan source = .ok tokens)
    (hparse : (parse tokens).faults = []) {e : Expr}
    (he : e ∈ Stmt.nodesAll (parse tokens).statements) : AllGenuine e.nodes := by
  obtain ⟨ss, c, hread⟩ := readProgram_ok tokens
  have hdraft : parse tokens = ⟨ss, c.faults⟩ := congrArg Step.draft hread
  rw [hdraft] at hparse he
  have hgenuine := (derives_of_readProgram hread hparse).genuine (isSpelled_of_scan hscan)
  exact fun x hx => hgenuine x (Stmt.mem_nodesAll_trans hx ss he)

end Lox
