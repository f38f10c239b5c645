/-
  Lox.Tree.Text
  ────────────────────────────────
  **TWO WRITTEN FORMS OF AN EXPRESSION.**

  `prefixText` writes every operator before its operands, in parentheses, so
  the tree can be seen.  `postfixText` writes operands first and their operator
  last; parentheses of the source leave no trace there.  Function expressions
  show their head only.
-/
import Lox.Tree

namespace Lox

/-- The texts of some tokens, a space between them. -/
def Token.lexemes (ts : List Token) : String :=
  String.intercalate " " (ts.map Token.lexeme)

mutual

/-- An expression with operators first. -/
def Expr.prefixText : Expr → String
  | .literal value => value.text
  | .name token => token.lexeme
  | .unary operator operand => "(" ++ operator.lexeme ++ " " ++ operand.prefixText ++ ")"
  | .binary left operator right | .logical left operator right | .pipe left operator right =>
    "(" ++ operator.lexeme ++ " " ++ left.prefixText ++ " " ++ right.prefixText ++ ")"
  | .call callee _ arguments => "(call " ++ callee.prefixText ++ Expr.prefixTexts arguments ++ ")"
  | .assign target value => "(= " ++ target.lexeme ++ " " ++ value.prefixText ++ ")"
  | .group inner => "(group " ++ inner.prefixText ++ ")"
  | .function none parameters _ => "(fun (" ++ Token.lexemes parameters ++ "))"
  | .function (some own) parameters _ =>
    "(fun " ++ own.lexeme ++ " (" ++ Token.lexemes parameters ++ "))"

/-- Expressions with operators first, a space before each. -/
def Expr.prefixTexts : List Expr → String
  | [] => ""
  | e :: es => " " ++ e.prefixText ++ Expr.prefixTexts es

end

mutual

/-- An expression with operators last. -/
def Expr.postfixText : Expr → String
  | .literal value => value.text
  | .name token => token.lexeme
  | .unary operator operand => operand.postfixText ++ " " ++ operator.lexeme
  | .binary left operator right | .logical left operator right | .pipe left operator right =>
    left.postfixText ++ " " ++ right.postfixText ++ " " ++ operator.lexeme
  | .call callee _ arguments => Expr.postfixTexts arguments ++ callee.postfixText ++ " call"
  | .assign target value => value.postfixText ++ " " ++ target.lexeme ++ " ="
  | .group inner => inner.postfixText
  | .function none _ _ => "<fn>"
  | .function (some own) _ _ => "<fn " ++ own.lexeme ++ ">"

/-- Expressions with operators last, a space after each. -/
def Expr.postfixTexts : List Expr → String
  | [] => ""
  | e :: es => e.postfixText ++ " " ++ Expr.postfixTexts es

end

end Lox
