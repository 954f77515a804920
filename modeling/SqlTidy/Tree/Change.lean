import SqlTidy.Tree.Basic

/-!
# Statements that change rows

`INSERT`, `UPDATE`, `DELETE` and `MERGE`.
-/

namespace SqlTidy

/-- One entry of a partition: a column, with a value if one was given. -/
structure PartitionValue where
  name : Ident
  value : Option Expr

/-- The content of `PARTITION (…)`. -/
structure PartitionSpec where
  values : List PartitionValue

/-- Where an `INSERT` puts its rows. -/
structure InsertTarget where
  overwrite : Bool
  tableWord : Bool
  table : DottedName
  partition : Option PartitionSpec
  ifNotExists : Bool
  columns : List Ident

/-- An `INSERT` from one query. -/
structure Insert where
  withClause : Option WithClause
  target : InsertTarget
  source : Query

/-- One `INSERT` of several from the same source. -/
structure MultiInsertBody where
  target : InsertTarget
  select : Select
  organization : Organization

/-- Several `INSERT`s from one source. -/
structure MultiInsert where
  withClause : Option WithClause
  source : FromClause
  inserts : List MultiInsertBody

structure Assignment where
  target : DottedName
  value : Expr

structure Update where
  table : DottedName
  asName : Option TableAlias
  assignments : List Assignment
  condition : Option Expr

structure Delete where
  table : DottedName
  asName : Option TableAlias
  condition : Option Expr

/-- What a `MERGE` clause does with a row. -/
inductive MergeAction where
  | updateAll
  | update (assignments : List Assignment)
  | delete
  | insertAll
  | insert (columns : List Ident) (values : List Expr)

structure MergeClause where
  kind : MergeCondition
  condition : Option Expr
  action : MergeAction

structure Merge where
  target : DottedName
  targetAlias : Option TableAlias
  source : TableFactor
  condition : Expr
  clauses : List MergeClause

end SqlTidy
