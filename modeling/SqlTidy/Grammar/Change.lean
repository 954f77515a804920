import SqlTidy.Grammar.Nesting
import SqlTidy.Tree.Change

/-!
# Statements that change rows
-/

namespace SqlTidy

namespace Grammar

open Parse

/-! ## Partitions -/

/-- One entry of a partition. -/
def partitionValue : Parse PartitionValue := do
  let name ← identifier
  let value ← maybe (accept .eq) expression
  return { name, value }

/-- `PARTITION (…)`. -/
def partitionSpec : Parse PartitionSpec := do
  expectWord "PARTITION"
  expect .lparen
  let values ← commaSeparated partitionValue
  expect .rparen
  return ⟨values⟩

/-- Whether a partition with its parenthesis comes next. -/
def isPartition : Parse Bool := do
  if ← isWord "PARTITION" then peekSymbol 1 .lparen else return false

/-- A partition, if one comes next. -/
def optionalPartition : Parse (Option PartitionSpec) := maybe isPartition partitionSpec

/-! ## `INSERT` -/

/-- Whether `INSERT` overwrites, by the word behind it. -/
def insertMode : Parse Bool := do
  if ← acceptWord "OVERWRITE" then
    return true
  else
    expectWord "INTO"
    return false

/-- Whether a list of columns comes next, and not a query in parentheses. -/
def isColumnList : Parse Bool := do
  if ← isSymbol .lparen then return !(← isQueryStart) else return false

/-- The head of an `INSERT`. -/
def insertTarget : Parse InsertTarget := do
  expectWord "INSERT"
  let overwrite ← insertMode
  let tableWord ← acceptWord "TABLE"
  let table ← dottedName
  let partition ← optionalPartition
  let ifNotExists ← acceptWords ["IF", "NOT", "EXISTS"]
  let columns ← maybeList isColumnList identifierList
  return { overwrite, tableWord, table, partition, ifNotExists, columns }

/-- An `INSERT` from one query. -/
def insert (withClause : Option WithClause) : Parse Insert := do
  let target ← insertTarget
  let source ← query
  return { withClause, target, source }

/-- One `INSERT` of several, if one comes next. -/
def multiInsertBody : Parse (Option MultiInsertBody) :=
  maybe (isWord "INSERT") do
    let target ← insertTarget
    let body ← within (select · false)
    let clauses ← within organization
    return ⟨target, body, clauses⟩

/-! ## `UPDATE` and `DELETE` -/

def assignment : Parse Assignment := do
  let target ← dottedName
  expect .eq
  let value ← expression
  return { target, value }

def assignments : Parse (List Assignment) := commaSeparated assignment

/-- A `WHERE` clause, if there is one. -/
def optionalWhere : Parse (Option Expr) := maybe (acceptWord "WHERE") expression

def update : Parse Update := do
  expectWord "UPDATE"
  let table ← dottedName
  let asName ← tableAlias
  expectWord "SET"
  let assignments ← assignments
  let condition ← optionalWhere
  return { table, asName, assignments, condition }

def delete : Parse Delete := do
  expectWords ["DELETE", "FROM"]
  let table ← dottedName
  let asName ← tableAlias
  let condition ← optionalWhere
  return { table, asName, condition }

/-! ## `MERGE` -/

/-- When a clause applies, behind the word `WHEN`. -/
def mergeCondition : Parse MergeCondition := do
  if ← acceptWord "MATCHED" then
    return .matched
  else
    expectWords ["NOT", "MATCHED"]
    if ← acceptWords ["BY", "SOURCE"] then
      return .notMatchedBySource
    else
      return .notMatched (← acceptWords ["BY", "TARGET"])

/-- The columns and values of an `INSERT` action. -/
def mergeInsert : Parse MergeAction := do
  if ← accept .star then
    return .insertAll
  else
    let columns ← identifierList
    expectWord "VALUES"
    expect .lparen
    let values ← within expressions
    expect .rparen
    return .insert columns values

/-- The assignments of an `UPDATE` action. -/
def mergeUpdate : Parse MergeAction := do
  if ← accept .star then return .updateAll else return .update (← assignments)

/-- What a clause does. -/
def mergeAction : Parse MergeAction := do
  match ← chooseRule [(["DELETE"], pure .delete), (["UPDATE", "SET"], mergeUpdate),
      (["INSERT"], mergeInsert)] with
  | some action => return action
  | none => expected "UPDATE, DELETE or INSERT"

/-- One clause of a `MERGE`, if one comes next. -/
def mergeClause : Parse (Option MergeClause) :=
  maybe (acceptWord "WHEN") do
    let kind ← mergeCondition
    let condition ← maybe (acceptWord "AND") expression
    expectWord "THEN"
    let action ← mergeAction
    return { kind, condition, action }

def merge : Parse Merge := do
  expectWords ["MERGE", "INTO"]
  let target ← dottedName
  let targetAlias ← tableAlias
  expectWord "USING"
  let source ← within tableFactor
  expectWord "ON"
  let condition ← expression
  let clauses ← many mergeClause
  if clauses.isEmpty then
    expected "WHEN"
  else
    return { target, targetAlias, source, condition, clauses }

end Grammar

end SqlTidy
