import SqlTidy.Grammar.Query

/-!
# Tying the rules together

`Inner.level n` holds the rules for at most `n` levels of nesting. A level is entered only behind a
token that has been taken, so there can be no more levels than tokens, and `within` picks enough of
them for the input at hand.
-/

namespace SqlTidy

namespace Inner

/-- The rules for at most `n` levels of nesting. -/
def level : Nat → Inner
  | 0 =>
    { expression := .fail .endless
      negation := .fail .endless
      unary := .fail .endless
      query := .fail .endless
      relation := .fail .endless }
  | n + 1 =>
    { expression := Grammar.expressionOf (level n)
      negation := Grammar.negationExpr (level n)
      unary := Grammar.unaryExpr (level n)
      query := Grammar.queryOf (level n)
      relation := Grammar.relationOf (level n) }

end Inner

namespace Grammar

/-- Runs a rule with as many levels of nesting as the input can need. -/
def within {α : Type} (rule : Inner → Parse α) : Parse α := fun i pos =>
  rule (.level (i.remaining pos + 1)) i pos

/-- An expression. -/
def expression : Parse Expr := within Inner.expression

/-- A query. -/
def query : Parse Query := within Inner.query

/-- A relation. -/
def relation : Parse Relation := within Inner.relation

end Grammar

end SqlTidy
