import SqlTidy.Layout.Change
import SqlTidy.Tree.Definition

/-!
# Statements that define things, on the page

Whether a parenthesis stands tight against the word before it is a matter of the construct:
`OPTIONS(`, `SET TBLPROPERTIES(` and `ADD COLUMNS(` are tight, `TBLPROPERTIES (`, `WITH DBPROPERTIES (`
and `REPLACE COLUMNS (` are not. So each construct spells the words before its parenthesis with the
space or without it.
-/

namespace SqlTidy

open Layout

/-! ## Parts -/

def Property.doc (p : Property) : Doc :=
  .seq [p.key, optBehind " = " (p.value.map fun e => e.doc)]

def ColumnPosition.doc : ColumnPosition → Doc
  | .first => "FIRST"
  | .after column => .seq ["AFTER ", column.written]

def ColumnDefinition.doc (c : ColumnDefinition) : Doc :=
  .seq [c.name.written, " ", c.type.doc, .when c.notNull " NOT NULL",
    optBehind " DEFAULT " (c.default.map fun e => e.doc), .optText " COMMENT " c.comment,
    optBehind " " (c.position.map ColumnPosition.doc)]

def PartitionField.doc : PartitionField → Doc
  | .column name => name.written
  | .typed name type => .seq [name.written, " ", type.doc]
  | .transform value => value.doc

namespace Layout

/-- Properties behind some words, one to a line. -/
def propertyBlock (before : String) (properties : List Property) : Doc :=
  before ++ Doc.block (properties.map Property.doc)

/-- Column definitions behind some words, one to a line. -/
def columnBlock (before : String) (columns : List ColumnDefinition) : Doc :=
  before ++ Doc.block (columns.map ColumnDefinition.doc)

/-- Properties on a new line, if there are any. -/
def propertyLine (before : String) : List Property → Doc
  | [] => .nil
  | properties => .line ++ propertyBlock before properties

/-- A text on a new line behind some words, if there is one. -/
def textLine (before : String) : Option String → Doc
  | none => .nil
  | some text => .seq [.line, before, text]

/-- Identifiers in parentheses on a new line behind some words, if there are any. -/
def identLine (before : String) : List Ident → Doc
  | [] => .nil
  | names => .seq [.line, before, identList names]

end Layout

/-! ## Tables -/

def BucketSpec.doc (b : BucketSpec) : Doc :=
  .seq ["CLUSTERED BY ", identList b.columns,
    (match b.sortedBy with
      | [] => .nil
      | items => .seq [" SORTED BY ", .parens (items.map fun i => i.doc)]),
    " INTO ", b.buckets, " BUCKETS"]

/-- The clauses of a table, always in this order. -/
def TableClauses.doc (c : TableClauses) : Doc :=
  .seq [identLine "PRIMARY KEY " c.primaryKey,
    (match c.partitionedBy with
      | [] => .nil
      | fields => .seq [.line, "PARTITIONED BY ", .parens (fields.map PartitionField.doc)]),
    optLine (c.clusteredBy.map BucketSpec.doc),
    textLine "STORED AS " (c.storedAs.map Ident.written),
    textLine "LOCATION " c.location,
    textLine "LIFECYCLE " c.lifecycle,
    propertyLine "OPTIONS" c.options,
    propertyLine "TBLPROPERTIES " c.tableProperties,
    textLine "COMMENT " c.comment]

/-- The data source of a table, on the name's line if there are no columns. -/
def Layout.tableProvider (hasColumns : Bool) : Option Ident → Doc
  | none => .nil
  | some provider => .seq [if hasColumns then .line else " ", "USING ", provider.written]

def CreateTable.doc (c : CreateTable) : Doc :=
  .seq [c.mode.spelling, " ", .when c.external "EXTERNAL ", "TABLE ",
    .when c.ifNotExists "IF NOT EXISTS ", c.name.written,
    (match c.columns with
      | none => .nil
      | some columns => columnBlock " " columns),
    tableProvider c.columns.isSome c.provider, c.clauses.doc,
    (match c.query with
      | none => .nil
      | some query => .seq [" AS", .line, query.doc])]

/-! ## Views -/

def ViewColumn.doc (c : ViewColumn) : Doc :=
  .seq [c.name.written, .optText " COMMENT " c.comment]

def CreateView.doc (c : CreateView) : Doc :=
  .seq ["CREATE ", .when c.orReplace "OR REPLACE ", .when c.global "GLOBAL ",
    .when c.temporary "TEMPORARY ", "VIEW ", .when c.ifNotExists "IF NOT EXISTS ", c.name.written,
    (match c.columns with
      | none => .nil
      | some columns => .block (columns.map ViewColumn.doc)),
    textLine "COMMENT " c.comment, identLine "PARTITIONED ON " c.partitionedOn,
    propertyLine "TBLPROPERTIES " c.tableProperties, .line, "AS ", c.query.doc]

def CreateSourceView.doc (c : CreateSourceView) : Doc :=
  .seq ["CREATE ", .when c.orReplace "OR REPLACE ", .when c.global "GLOBAL ", "TEMPORARY VIEW ",
    c.name.written,
    (match c.columns with
      | none => .nil
      | some columns => columnBlock " " columns),
    .line, "USING ", c.provider.written, propertyLine "OPTIONS" c.options]

/-! ## Namespaces, functions and indexes -/

def CreateNamespace.doc (c : CreateNamespace) : Doc :=
  .seq ["CREATE ", c.word.spelling, " ", .when c.ifNotExists "IF NOT EXISTS ", c.name.written,
    textLine "COMMENT " c.comment, textLine "LOCATION " c.location,
    propertyLine (if c.dbWord then "WITH DBPROPERTIES " else "WITH PROPERTIES ") c.properties]

def FunctionResource.doc (r : FunctionResource) : Doc := .seq [r.kind.spelling, " ", r.uri]

def CreateFunction.doc (c : CreateFunction) : Doc :=
  .seq ["CREATE ", .when c.orReplace "OR REPLACE ", .when c.temporary "TEMPORARY ", "FUNCTION ",
    .when c.ifNotExists "IF NOT EXISTS ", c.name.written, " AS ", c.className,
    match c.resources with
    | [] => .nil
    | resources => .seq [" USING", .lines (resources.map FunctionResource.doc)]]

/-- A column of an index with its options on the same line. -/
def IndexColumn.doc (c : IndexColumn) : Doc :=
  .seq [c.name.written,
    match c.options with
    | [] => .nil
    | options => .seq [" OPTIONS ", .parens (options.map Property.doc)]]

/-- The columns of an index: a single one without options stays on the line. -/
def Layout.indexColumns : List IndexColumn → Doc
  | [⟨name, []⟩] => .parens [name.written]
  | columns => .block (columns.map IndexColumn.doc)

/-- `ON`, with the word `TABLE` if it was written. -/
def Layout.onWord (tableWord : Bool) : Doc := if tableWord then " ON TABLE " else " ON "

def CreateIndex.doc (c : CreateIndex) : Doc :=
  .seq ["CREATE INDEX ", .when c.ifNotExists "IF NOT EXISTS ", c.name.written, onWord c.tableWord,
    c.table.written, .line,
    (match c.indexType with
      | none => .nil
      | some type => .seq ["USING ", type.written, " "]),
    indexColumns c.columns, propertyLine "OPTIONS " c.options]

/-! ## `ALTER` -/

def ColumnChange.doc : ColumnChange → Doc
  | .type t => .seq ["TYPE ", t.doc]
  | .comment text => .seq ["COMMENT ", text]
  | .position p => p.doc
  | .setNotNull => "SET NOT NULL"
  | .dropNotNull => "DROP NOT NULL"

namespace Layout

/-- A partition in front of an action, if there is one. -/
def leadingPartition : Option PartitionSpec → Doc
  | none => .nil
  | some spec => .seq [spec.doc, " "]

/-- Names on one line. -/
def nameList (names : List DottedName) : Doc := .commas (names.map fun n => n.written)

/-- A new partition with its location. -/
def addedPartition (entry : PartitionSpec × Option String) : Doc :=
  .seq [entry.1.doc, .optText " LOCATION " entry.2]

end Layout

def AlterAction.doc : AlterAction → Doc
  | .renameTo name => .seq ["RENAME TO ", name.written]
  | .setProperties properties => propertyBlock "SET TBLPROPERTIES" properties
  | .unsetProperties ifExists keys =>
    propertyBlock (if ifExists then "UNSET TBLPROPERTIES IF EXISTS " else "UNSET TBLPROPERTIES")
      keys
  | .addColumns plural parenthesized columns =>
    let words := if plural then "ADD COLUMNS" else "ADD COLUMN"
    if parenthesized then columnBlock words columns
    else .seq [words, .lines (columns.map ColumnDefinition.doc)]
  | .dropColumns plural ifExists parenthesized columns =>
    .seq [if plural then "DROP COLUMNS" else "DROP COLUMN", .when ifExists " IF EXISTS", " ",
      if parenthesized then .seq ["(", nameList columns, ")"] else nameList columns]
  | .renameColumn old new => .seq ["RENAME COLUMN ", old.written, " TO ", new.written]
  | .alterColumn changeWord columnWord column change =>
    .seq [if changeWord then "CHANGE" else "ALTER", .when columnWord " COLUMN", " ",
      column.written, " ", change.doc]
  | .changeColumn partition columnWord column definition =>
    .seq [leadingPartition partition, "CHANGE", .when columnWord " COLUMN", " ", column.written,
      " ", definition.doc]
  | .replaceColumns partition columns =>
    .seq [leadingPartition partition, columnBlock "REPLACE COLUMNS " columns]
  | .addPartitions ifNotExists partitions =>
    .seq ["ADD", .when ifNotExists " IF NOT EXISTS",
      .nest (.onLines (partitions.map addedPartition))]
  | .dropPartitions ifExists partitions purge =>
    .seq ["DROP", .when ifExists " IF EXISTS", .lines (partitions.map PartitionSpec.doc),
      .when purge " PURGE"]
  | .renamePartition old new => .seq [old.doc, " RENAME TO ", new.doc]
  | .setLocation partition location =>
    .seq [leadingPartition partition, "SET LOCATION ", location]
  | .recoverPartitions => "RECOVER PARTITIONS"
  | .touch partition => .seq ["TOUCH", optPartition partition]

def AlterTable.doc (a : AlterTable) : Doc :=
  .seq [if a.view then "ALTER VIEW " else "ALTER TABLE ", a.name.written, " ", a.action.doc]

def AlterViewQuery.doc (a : AlterViewQuery) : Doc :=
  .seq ["ALTER VIEW ", a.name.written, " AS", .line, a.query.doc]

def AlterNamespaceAction.doc : AlterNamespaceAction → Doc
  | .setProperties dbWord properties =>
    propertyBlock (if dbWord then " SET DBPROPERTIES " else " SET PROPERTIES ") properties
  | .setLocation location => .seq [" SET LOCATION ", location]

def AlterNamespace.doc (a : AlterNamespace) : Doc :=
  .seq ["ALTER ", a.word.spelling, " ", a.name.written, a.action.doc]

/-! ## `DROP` -/

def Drop.doc (d : Drop) : Doc :=
  .seq [if d.view then "DROP VIEW " else "DROP TABLE ", .when d.ifExists "IF EXISTS ",
    d.name.written, .when d.purge " PURGE"]

def DropNamespace.doc (d : DropNamespace) : Doc :=
  .seq ["DROP ", d.word.spelling, " ", .when d.ifExists "IF EXISTS ", d.name.written,
    optWord (d.behavior.map DropBehavior.spelling)]

def DropFunction.doc (d : DropFunction) : Doc :=
  .seq ["DROP ", .when d.temporary "TEMPORARY ", "FUNCTION ", .when d.ifExists "IF EXISTS ",
    d.name.written]

def DropIndex.doc (d : DropIndex) : Doc :=
  .seq ["DROP INDEX ", .when d.ifExists "IF EXISTS ", d.name.written, onWord d.tableWord,
    d.table.written]

end SqlTidy
