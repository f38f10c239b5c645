/-
  Lox.Proofs.Renumber
  ────────────────────────────────
  **THE SAME TREE ON OTHER LINES.**

  A text that is moved down a page keeps its tokens and trees, but for the
  lines.  `renumber g` takes every line `l` of a tree to `g l`.  Nothing but the
  text of a message looks at a line:

    • a token keeps its kind and its text,
    • what derives from tokens derives, renumbered, from the renumbered tokens
      (`Derives.renumber`),
    • pipes are expanded in the same way (`Stmt.flatAll_renumberAll`).
-/
import Lox.Proofs.Grammar
import Lox.Proofs.Pipe.Flatten

namespace Lox

variable (g : Nat → Nat)

/-! ## §1. Renumbered trees. -/

/-- A token on another line. -/
def Token.renumber (t : Token) : Token := { t with line := g t.line }

mutual

/-- An expression on other lines. -/
def Expr.renumber : Expr → Expr
  | .literal value => .literal value
  | .name token => .name (token.renumber g)
  | .unary operator operand => .unary (operator.renumber g) (Expr.renumber operand)
  | .binary left operator right =>
    .binary (Expr.renumber left) (operator.renumber g) (Expr.renumber right)
  | .logical left operator right =>
    .logical (Expr.renumber left) (operator.renumber g) (Expr.renumber right)
  | .pipe left operator right =>
    .pipe (Expr.renumber left) (operator.renumber g) (Expr.renumber right)
  | .call callee paren arguments =>
    .call (Expr.renumber callee) (paren.renumber g) (Expr.renumberAll arguments)
  | .assign target value => .assign (target.renumber g) (Expr.renumber value)
  | .group inner => .group (Expr.renumber inner)
  | .function own parameters body =>
    .function (own.map (Token.renumber g)) (parameters.map (Token.renumber g))
      (Stmt.renumberAll body)
termination_by structural tree => tree

/-- Some expressions on other lines. -/
def Expr.renumberAll : List Expr → List Expr
  | [] => []
  | e :: es => Expr.renumber e :: Expr.renumberAll es
termination_by structural trees => trees

/-- An optional expression on other lines. -/
def Expr.renumberOption : Option Expr → Option Expr
  | none => none
  | some e => some (Expr.renumber e)
termination_by structural tree => tree

/-- A statement on other lines. -/
def Stmt.renumber : Stmt → Stmt
  | .expr value => .expr (Expr.renumber value)
  | .print value => .print (Expr.renumber value)
  | .var name initial => .var (name.renumber g) (Expr.renumberOption initial)
  | .block body => .block (Stmt.renumberAll body)
  | .branch condition yes no =>
    .branch (Expr.renumber condition) (Stmt.renumber yes) (Stmt.renumberOption no)
  | .loop condition body increment =>
    .loop (Expr.renumber condition) (Stmt.renumber body) increment
  | .function name parameters body =>
    .function (name.renumber g) (parameters.map (Token.renumber g)) (Stmt.renumberAll body)
  | .give keyword value => .give (keyword.renumber g) (Expr.renumberOption value)
  | .leave keyword => .leave (keyword.renumber g)
  | .next keyword => .next (keyword.renumber g)
termination_by structural tree => tree

/-- Some statements on other lines. -/
def Stmt.renumberAll : List Stmt → List Stmt
  | [] => []
  | s :: ss => Stmt.renumber s :: Stmt.renumberAll ss
termination_by structural trees => trees

/-- An optional statement on other lines. -/
def Stmt.renumberOption : Option Stmt → Option Stmt
  | none => none
  | some s => some (Stmt.renumber s)
termination_by structural tree => tree

end

theorem Expr.renumberAll_eq_map (es : List Expr) :
    Expr.renumberAll g es = es.map (Expr.renumber g) := by
  induction es with
  | nil => simp only [Expr.renumberAll, List.map_nil]
  | cons e es ih => simp only [Expr.renumberAll, List.map_cons, ih]

theorem Stmt.renumberAll_eq_map (ss : List Stmt) :
    Stmt.renumberAll g ss = ss.map (Stmt.renumber g) := by
  induction ss with
  | nil => simp only [Stmt.renumberAll, List.map_nil]
  | cons s ss ih => simp only [Stmt.renumberAll, List.map_cons, ih]

/-! ## §2. The same lines. -/

theorem Token.renumber_id (t : Token) : t.renumber id = t := rfl

theorem Token.map_renumber_id (ts : List Token) : ts.map (Token.renumber id) = ts :=
  List.map_id ts

theorem Token.mapOption_renumber_id (o : Option Token) : o.map (Token.renumber id) = o := by
  cases o <;> rfl

mutual

/-- A tree on the lines it is on. -/
theorem Expr.renumber_id : (e : Expr) → Expr.renumber id e = e
  | .literal _ | .name _ => by simp only [Expr.renumber, Token.renumber_id]
  | .unary _ inner | .assign _ inner | .group inner => by
    simp only [Expr.renumber, Token.renumber_id, Expr.renumber_id inner]
  | .binary left _ right | .logical left _ right | .pipe left _ right => by
    simp only [Expr.renumber, Token.renumber_id, Expr.renumber_id left, Expr.renumber_id right]
  | .call callee _ arguments => by
    simp only [Expr.renumber, Token.renumber_id, Expr.renumber_id callee,
      Expr.renumberAll_id arguments]
  | .function _ _ body => by
    simp only [Expr.renumber, Token.map_renumber_id, Token.mapOption_renumber_id,
      Stmt.renumberAll_id body]

theorem Expr.renumberAll_id : (es : List Expr) → Expr.renumberAll id es = es
  | [] => by simp only [Expr.renumberAll]
  | e :: es => by simp only [Expr.renumberAll, Expr.renumber_id e, Expr.renumberAll_id es]

theorem Expr.renumberOption_id : (o : Option Expr) → Expr.renumberOption id o = o
  | none => by simp only [Expr.renumberOption]
  | some e => by simp only [Expr.renumberOption, Expr.renumber_id e]

theorem Stmt.renumber_id : (s : Stmt) → Stmt.renumber id s = s
  | .expr value | .print value => by simp only [Stmt.renumber, Expr.renumber_id value]
  | .var _ value | .give _ value => by
    simp only [Stmt.renumber, Token.renumber_id, Expr.renumberOption_id value]
  | .block body => by simp only [Stmt.renumber, Stmt.renumberAll_id body]
  | .branch condition yes no => by
    simp only [Stmt.renumber, Expr.renumber_id condition, Stmt.renumber_id yes,
      Stmt.renumberOption_id no]
  | .loop condition body _ => by
    simp only [Stmt.renumber, Expr.renumber_id condition, Stmt.renumber_id body]
  | .function _ _ body => by
    simp only [Stmt.renumber, Token.renumber_id, Token.map_renumber_id, Stmt.renumberAll_id body]
  | .leave _ | .next _ => by simp only [Stmt.renumber, Token.renumber_id]

theorem Stmt.renumberAll_id : (ss : List Stmt) → Stmt.renumberAll id ss = ss
  | [] => by simp only [Stmt.renumberAll]
  | s :: ss => by simp only [Stmt.renumberAll, Stmt.renumber_id s, Stmt.renumberAll_id ss]

theorem Stmt.renumberOption_id : (o : Option Stmt) → Stmt.renumberOption id o = o
  | none => by simp only [Stmt.renumberOption]
  | some s => by simp only [Stmt.renumberOption, Stmt.renumber_id s]

end

/-! ## §3. Pipes. -/

mutual

theorem Expr.hasOwn_renumber : (e : Expr) → (Expr.renumber g e).hasOwn = e.hasOwn
  | .literal _ => by simp only [Expr.renumber, Expr.hasOwn]
  | .name _ => by simp only [Expr.renumber, Expr.hasOwn]; rfl
  | .unary _ inner | .assign _ inner | .group inner => by
    simp only [Expr.renumber, Expr.hasOwn, Expr.hasOwn_renumber inner]
  | .binary left _ right | .logical left _ right => by
    simp only [Expr.renumber, Expr.hasOwn, Expr.hasOwn_renumber left, Expr.hasOwn_renumber right]
  | .pipe left _ _ => by simp only [Expr.renumber, Expr.hasOwn, Expr.hasOwn_renumber left]
  | .call callee _ arguments => by
    simp only [Expr.renumber, Expr.hasOwn, Expr.hasOwn_renumber callee,
      Expr.anyOwn_renumberAll arguments]
  | .function _ _ _ => by simp only [Expr.renumber, Expr.hasOwn]

theorem Expr.anyOwn_renumberAll :
    (es : List Expr) → Expr.anyOwn (Expr.renumberAll g es) = Expr.anyOwn es
  | [] => by simp only [Expr.renumberAll]
  | e :: es => by
    simp only [Expr.renumberAll, Expr.anyOwn, Expr.hasOwn_renumber e, Expr.anyOwn_renumberAll es]

end

mutual

/-- A pipe uses its left side on any lines. -/
theorem Expr.everyPipe_renumber : (e : Expr) →
    Expr.everyPipe Expr.hasOwn (Expr.renumber g e) = Expr.everyPipe Expr.hasOwn e
  | .literal _ | .name _ => by simp only [Expr.renumber, Expr.everyPipe]
  | .unary _ inner | .assign _ inner | .group inner => by
    simp only [Expr.renumber, Expr.everyPipe, Expr.everyPipe_renumber inner]
  | .binary left _ right | .logical left _ right => by
    simp only [Expr.renumber, Expr.everyPipe, Expr.everyPipe_renumber left,
      Expr.everyPipe_renumber right]
  | .pipe left _ right => by
    simp only [Expr.renumber, Expr.everyPipe, Expr.hasOwn_renumber, Expr.everyPipe_renumber left,
      Expr.everyPipe_renumber right]
  | .call callee _ arguments => by
    simp only [Expr.renumber, Expr.everyPipe, Expr.everyPipe_renumber callee,
      Expr.everyPipeAll_renumberAll arguments]
  | .function _ _ body => by
    simp only [Expr.renumber, Expr.everyPipe, Stmt.everyPipeAll_renumberAll body]

theorem Expr.everyPipeAll_renumberAll : (es : List Expr) →
    Expr.everyPipeAll Expr.hasOwn (Expr.renumberAll g es) = Expr.everyPipeAll Expr.hasOwn es
  | [] => by simp only [Expr.renumberAll]
  | e :: es => by
    simp only [Expr.renumberAll, Expr.everyPipeAll, Expr.everyPipe_renumber e,
      Expr.everyPipeAll_renumberAll es]

theorem Expr.everyPipeOption_renumberOption : (o : Option Expr) →
    Expr.everyPipeOption Expr.hasOwn (Expr.renumberOption g o) =
      Expr.everyPipeOption Expr.hasOwn o
  | none => by simp only [Expr.renumberOption]
  | some e => by simp only [Expr.renumberOption, Expr.everyPipeOption, Expr.everyPipe_renumber e]

theorem Stmt.everyPipe_renumber : (s : Stmt) →
    Stmt.everyPipe Expr.hasOwn (Stmt.renumber g s) = Stmt.everyPipe Expr.hasOwn s
  | .expr value | .print value => by
    simp only [Stmt.renumber, Stmt.everyPipe, Expr.everyPipe_renumber value]
  | .var _ value | .give _ value => by
    simp only [Stmt.renumber, Stmt.everyPipe, Expr.everyPipeOption_renumberOption value]
  | .block body | .function _ _ body => by
    simp only [Stmt.renumber, Stmt.everyPipe, Stmt.everyPipeAll_renumberAll body]
  | .branch condition yes no => by
    simp only [Stmt.renumber, Stmt.everyPipe, Expr.everyPipe_renumber condition,
      Stmt.everyPipe_renumber yes, Stmt.everyPipeOption_renumberOption no]
  | .loop condition body _ => by
    simp only [Stmt.renumber, Stmt.everyPipe, Expr.everyPipe_renumber condition,
      Stmt.everyPipe_renumber body]
  | .leave _ | .next _ => by simp only [Stmt.renumber, Stmt.everyPipe]

theorem Stmt.everyPipeAll_renumberAll : (ss : List Stmt) →
    Stmt.everyPipeAll Expr.hasOwn (Stmt.renumberAll g ss) = Stmt.everyPipeAll Expr.hasOwn ss
  | [] => by simp only [Stmt.renumberAll]
  | s :: ss => by
    simp only [Stmt.renumberAll, Stmt.everyPipeAll, Stmt.everyPipe_renumber s,
      Stmt.everyPipeAll_renumberAll ss]

theorem Stmt.everyPipeOption_renumberOption : (o : Option Stmt) →
    Stmt.everyPipeOption Expr.hasOwn (Stmt.renumberOption g o) =
      Stmt.everyPipeOption Expr.hasOwn o
  | none => by simp only [Stmt.renumberOption]
  | some s => by simp only [Stmt.renumberOption, Stmt.everyPipeOption, Stmt.everyPipe_renumber s]

end

mutual

/-- What is filled in comes from its own lines. -/
theorem Expr.fill_renumber (v : Expr) : (e : Expr) →
    Expr.fill (Expr.renumber g v) (Expr.renumber g e) = Expr.renumber g (Expr.fill v e)
  | .literal _ => by simp only [Expr.renumber, Expr.fill]
  | .name token => by
    have hdollar : (token.renumber g).isSymbol .dollar = token.isSymbol .dollar := rfl
    by_cases h : token.isSymbol .dollar = true
    · simp only [Expr.renumber, Expr.fill, hdollar, h, if_true]
    · simp only [Expr.renumber, Expr.fill, hdollar, h, if_false, Bool.false_eq_true]
  | .unary _ inner | .assign _ inner | .group inner => by
    simp only [Expr.renumber, Expr.fill, Expr.fill_renumber v inner]
  | .binary left _ right | .logical left _ right => by
    simp only [Expr.renumber, Expr.fill, Expr.fill_renumber v left, Expr.fill_renumber v right]
  | .pipe left _ _ => by simp only [Expr.renumber, Expr.fill, Expr.fill_renumber v left]
  | .call callee _ arguments => by
    simp only [Expr.renumber, Expr.fill, Expr.fill_renumber v callee,
      Expr.fillAll_renumberAll v arguments]
  | .function _ _ _ => by simp only [Expr.renumber, Expr.fill]

theorem Expr.fillAll_renumberAll (v : Expr) : (es : List Expr) →
    Expr.fillAll (Expr.renumber g v) (Expr.renumberAll g es) =
      Expr.renumberAll g (Expr.fillAll v es)
  | [] => by simp only [Expr.renumberAll, Expr.fillAll]
  | e :: es => by
    simp only [Expr.renumberAll, Expr.fillAll, Expr.fill_renumber v e,
      Expr.fillAll_renumberAll v es]

end

mutual

theorem Expr.flat_renumber : (e : Expr) → (Expr.renumber g e).flat = Expr.renumber g e.flat
  | .literal _ | .name _ => by simp only [Expr.renumber, Expr.flat]
  | .unary _ inner | .assign _ inner | .group inner => by
    simp only [Expr.renumber, Expr.flat, Expr.flat_renumber inner]
  | .binary left _ right | .logical left _ right => by
    simp only [Expr.renumber, Expr.flat, Expr.flat_renumber left, Expr.flat_renumber right]
  | .pipe left _ right => by
    simp only [Expr.renumber, Expr.flat, Expr.flat_renumber left, Expr.flat_renumber right,
      Expr.fill_renumber]
  | .call callee _ arguments => by
    simp only [Expr.renumber, Expr.flat, Expr.flat_renumber callee,
      Expr.flatAll_renumberAll arguments]
  | .function _ _ body => by simp only [Expr.renumber, Expr.flat, Stmt.flatAll_renumberAll body]

theorem Expr.flatAll_renumberAll : (es : List Expr) →
    Expr.flatAll (Expr.renumberAll g es) = Expr.renumberAll g (Expr.flatAll es)
  | [] => by simp only [Expr.renumberAll, Expr.flatAll]
  | e :: es => by
    simp only [Expr.renumberAll, Expr.flatAll, Expr.flat_renumber e, Expr.flatAll_renumberAll es]

theorem Expr.flatOption_renumberOption : (o : Option Expr) →
    Expr.flatOption (Expr.renumberOption g o) = Expr.renumberOption g (Expr.flatOption o)
  | none => by simp only [Expr.renumberOption, Expr.flatOption]
  | some e => by simp only [Expr.renumberOption, Expr.flatOption, Expr.flat_renumber e]

theorem Stmt.flat_renumber : (s : Stmt) → (Stmt.renumber g s).flat = Stmt.renumber g s.flat
  | .expr value | .print value => by simp only [Stmt.renumber, Stmt.flat, Expr.flat_renumber value]
  | .var _ value | .give _ value => by
    simp only [Stmt.renumber, Stmt.flat, Expr.flatOption_renumberOption value]
  | .block body | .function _ _ body => by
    simp only [Stmt.renumber, Stmt.flat, Stmt.flatAll_renumberAll body]
  | .branch condition yes no => by
    simp only [Stmt.renumber, Stmt.flat, Expr.flat_renumber condition, Stmt.flat_renumber yes,
      Stmt.flatOption_renumberOption no]
  | .loop condition body _ => by
    simp only [Stmt.renumber, Stmt.flat, Expr.flat_renumber condition, Stmt.flat_renumber body]
  | .leave _ | .next _ => by simp only [Stmt.renumber, Stmt.flat]

/-- **Pipes are expanded in the same way on any lines.** -/
theorem Stmt.flatAll_renumberAll : (ss : List Stmt) →
    Stmt.flatAll (Stmt.renumberAll g ss) = Stmt.renumberAll g (Stmt.flatAll ss)
  | [] => by simp only [Stmt.renumberAll, Stmt.flatAll]
  | s :: ss => by
    simp only [Stmt.renumberAll, Stmt.flatAll, Stmt.flat_renumber s, Stmt.flatAll_renumberAll ss]

theorem Stmt.flatOption_renumberOption : (o : Option Stmt) →
    Stmt.flatOption (Stmt.renumberOption g o) = Stmt.renumberOption g (Stmt.flatOption o)
  | none => by simp only [Stmt.renumberOption, Stmt.flatOption]
  | some s => by simp only [Stmt.renumberOption, Stmt.flatOption, Stmt.flat_renumber s]

end

/-! ## §4. Derivations. -/

open Parse (lowerFor)

/-- The same syntactic category with its tree on other lines. -/
def Phrase.renumber : Phrase → Phrase
  | .primary e => .primary (e.renumber g)
  | .call e => .call (e.renumber g)
  | .unary e => .unary (e.renumber g)
  | .ladder levels e => .ladder levels (e.renumber g)
  | .expression e => .expression (e.renumber g)
  | .arguments es => .arguments (Expr.renumberAll g es)
  | .given es => .given (Expr.renumberAll g es)
  | .clause e => .clause (Expr.renumberOption g e)
  | .function names body => .function (names.map (Token.renumber g)) (Stmt.renumberAll g body)
  | .block ctx body => .block ctx (Stmt.renumberAll g body)
  | .binding s => .binding (s.renumber g)
  | .first s => .first (Stmt.renumberOption g s)
  | .statement ctx dangling s => .statement ctx dangling (s.renumber g)
  | .declaration ctx s => .declaration ctx (s.renumber g)
  | .declarations ctx ss => .declarations ctx (Stmt.renumberAll g ss)

variable {g}

theorem Atom.renumber {t : Token} {e : Expr} (h : Atom t e) :
    Atom (t.renumber g) (e.renumber g) := by
  cases h with
  | number h => exact .number h
  | string h => exact .string h
  | yes h => exact .yes h
  | no h => exact .no h
  | nil h => exact .nil h
  | name h => exact .name h
  | placeholder h => exact .placeholder h

theorem Names.renumber {names ts : List Token} (h : Names names ts) :
    Names (names.map (Token.renumber g)) (ts.map (Token.renumber g)) := by
  induction h with
  | one h => exact .one h
  | more h hc _ ih => exact .more h hc ih

theorem Parameters.renumber {names ts : List Token} (h : Parameters names ts) :
    Parameters (names.map (Token.renumber g)) (ts.map (Token.renumber g)) := by
  cases h with
  | none => exact .none
  | some hs hm => exact .some hs.renumber (by simpa using hm)

theorem Lowered.renumber {first : Option Stmt} {condition step : Option Expr} {body s : Stmt}
    (h : Lowered first condition step body s) :
    Lowered (Stmt.renumberOption g first) (Expr.renumberOption g condition)
      (Expr.renumberOption g step) (body.renumber g) (s.renumber g) := by
  have hgetD : ∀ o : Option Expr, (o.getD (.literal (.bool true))).renumber g =
      (Expr.renumberOption g o).getD (.literal (.bool true)) := by
    intro o
    cases o <;> simp only [Option.getD, Expr.renumberOption, Expr.renumber]
  induction h with
  | plain =>
    simp only [Stmt.renumber, hgetD]
    exact .plain
  | stepped =>
    simp only [Stmt.renumber, Stmt.renumberAll, hgetD]
    exact .stepped
  | started _ ih =>
    simp only [Stmt.renumber, Stmt.renumberAll]
    exact .started ih

theorem Level.join_renumber (l : Level) (left : Expr) (t : Token) (right : Expr) :
    (l.join left t right).renumber g =
      l.join (left.renumber g) (t.renumber g) (right.renumber g) := by
  cases l <;> rfl

theorem startsFunction_renumber (ts : List Token) :
    startsFunction (ts.map (Token.renumber g)) = startsFunction ts := by
  match ts with
  | [] => rfl
  | [_] => rfl
  | _ :: _ :: _ => rfl

/-- **What derives a phrase derives it on other lines.** -/
theorem Derives.renumber {φ : Phrase} {ts : List Token} (h : Derives φ ts) :
    Derives (φ.renumber g) (ts.map (Token.renumber g)) := by
  -- What a production asks of a token is asked of its kind, which stays.
  induction h <;>
    simp only [List.map_cons, List.map_append, List.map_nil, Phrase.renumber, Expr.renumber,
      Stmt.renumber, Expr.renumberAll, Stmt.renumberAll, Expr.renumberOption,
      Level.join_renumber, Option.map_none, Option.map_some] at *
  case atom h => exact .atom h.renumber
  case group hl _ hr he => exact .group hl he hr
  case unnamed hk _ hf => exact .unnamed hk hf
  case named hk hn _ hf => exact .named hk hn hf
  case callee ih => exact .callee ih
  case call hl _ hr hf hs => exact .call hf hl hs hr
  case operand ih => exact .operand ih
  case signed ht _ ih => exact .signed ht ih
  case tightest ih => exact .tightest ih
  case tighter ih => exact .tighter ih
  case chained ht _ hl hr => exact .chained hl ht hr
  case ladder ih => exact .ladder ih
  case assign hn hq _ he => exact .assign hn hq he
  case lastArgument ih => exact .lastArgument ih
  case argument hc _ he hs => exact .argument he hc hs
  case notGiven => exact .notGiven
  case given hm ih => exact .given ih (by simpa [Expr.renumberAll_eq_map] using hm)
  case noClause => exact .noClause
  case clause ih => exact .clause ih
  case function hl hp hr _ hb => exact .function hl hp.renumber hr hb
  case block hl _ hr hb => exact .block hl hb hr
  case uninitialized hn hs => exact .uninitialized hn hs
  case initialized hn hq _ hs he => exact .initialized hn hq he hs
  case noFirst hs => exact .noFirst hs
  case firstVariable hk _ ih => exact .firstVariable hk ih
  case firstExpression hs ih => exact .firstExpression ih hs
  case forLoop hk hl _ _ hs _ hr _ hlow hf hc ht hb =>
    exact .forLoop hk hl hf hc hs ht hr hb hlow.renumber
  case leave hk hc hs => exact .leave hk hc hs
  case next hk hc hs => exact .next hk hc hs
  case branch hk hl _ hr _ he hy => exact .branch hk hl he hr hy
  case branchElse hk hl _ hr _ ho _ he hy hn => exact .branchElse hk hl he hr hy ho hn
  case whileLoop hk hl _ hr _ he hb => exact .whileLoop hk hl he hr hb
  case print hk _ hs he => exact .print hk he hs
  case give hk hc _ hs he => exact .give hk hc he hs
  case scope ih => exact .scope ih
  case expr hs ih => exact .expr ih hs
  case declareFunction hk hn _ hf => exact .declareFunction hk hn hf
  case declareVariable hk _ hs => exact .declareVariable hk hs
  case plain hf ih => exact .plain ih ((startsFunction_renumber _).trans hf)
  case nil => exact .nil
  case cons ih ihs => exact .cons ih ihs

end Lox
