import SqlTidy.Layout.Tree
import SqlTidy.Tree.Change

/-!
# Statements that change rows, on the page
-/

namespace SqlTidy

open Layout

namespace Layout

/-- Expressions on one line, in parentheses. -/
def exprList (es : List Expr) : Doc := .parens (es.map fun e => e.doc)

/-- A `WITH` clause on lines of its own in front of a statement. -/
def leadingWith : Option WithClause → Doc
  | none => .nil
  | some tables => .seq [tables.doc, .line]

/-- A `WHERE` clause on a new line, if there is one. -/
def whereLine : Option Expr → Doc
  | none => .nil
  | some condition => .line ++ conditionClause "WHERE" condition.conditionDoc

end Layout

def PartitionValue.doc (v : PartitionValue) : Doc :=
  .seq [v.name.written, optBehind " = " (v.value.map fun e => e.doc)]

def PartitionSpec.doc (spec : PartitionSpec) : Doc :=
  .seq ["PARTITION", .parens (spec.values.map PartitionValue.doc)]

/-- A partition behind a space, if there is one. -/
def Layout.optPartition (spec : Option PartitionSpec) : Doc :=
  optBehind " " (spec.map PartitionSpec.doc)

def InsertTarget.doc (t : InsertTarget) : Doc :=
  .seq [if t.overwrite then "INSERT OVERWRITE" else "INSERT INTO", .when t.tableWord " TABLE", " ",
    t.table.written, optPartition t.partition, .when t.ifNotExists " IF NOT EXISTS",
    match t.columns with
    | [] => .nil
    | columns => .seq [" ", identList columns]]

/-- What stands between an `INSERT` and its source: a plain `TABLE t` stays on the line. -/
def Layout.insertBreak : Query → Doc
  | .query .none (.tableBody _) clauses => if clauses.hasNoClause then " " else .line
  | _ => .line

def Insert.doc (i : Insert) : Doc :=
  .seq [leadingWith i.withClause, i.target.doc, insertBreak i.source, i.source.doc]

def MultiInsertBody.doc (b : MultiInsertBody) : Doc :=
  .seq [b.target.doc, .line, b.select.doc, b.organization.doc]

def MultiInsert.doc (i : MultiInsert) : Doc :=
  .seq [leadingWith i.withClause, i.source.doc, .onLines (i.inserts.map MultiInsertBody.doc)]

def Assignment.doc (a : Assignment) : Doc := .seq [a.target.written, " = ", a.value.doc]

def Update.doc (u : Update) : Doc :=
  .seq ["UPDATE ", u.table.written, tableAlias u.asName, " SET",
    .lines (u.assignments.map Assignment.doc), whereLine u.condition]

def Delete.doc (d : Delete) : Doc :=
  .seq ["DELETE FROM ", d.table.written, tableAlias d.asName, whereLine d.condition]

def MergeAction.doc : MergeAction → Doc
  | .updateAll => "UPDATE SET *"
  | .update assignments => .seq ["UPDATE SET", .lines (assignments.map Assignment.doc)]
  | .delete => "DELETE"
  | .insertAll => "INSERT *"
  | .insert columns values => .seq ["INSERT ", identList columns, " VALUES ", exprList values]

def MergeClause.doc (c : MergeClause) : Doc :=
  .seq [c.kind.spelling, optBehind " AND " (c.condition.map fun e => e.doc), " THEN",
    .nest (.line ++ c.action.doc)]

def Merge.doc (m : Merge) : Doc :=
  .seq ["MERGE INTO ", m.target.written, tableAlias m.targetAlias, .line, "USING ", m.source.doc,
    .line, "ON ", .nest m.condition.conditionDoc, .onLines (m.clauses.map MergeClause.doc)]

end SqlTidy
