import SqlTidy.Grammar.Create

/-!
# `ALTER` and `DROP`
-/

namespace SqlTidy

namespace Grammar

open Parse

/-! ## Columns -/

/-- How each change of a column starts, and the rule for the rest of it. -/
def columnChangeRules : List (List String × Parse ColumnChange) :=
  [(["TYPE"], return .type (← dataType)),
    (["COMMENT"], return .comment (← stringLiteral)),
    (["SET", "NOT", "NULL"], pure .setNotNull),
    (["DROP", "NOT", "NULL"], pure .dropNotNull),
    (["FIRST"], pure (.position .first)),
    (["AFTER"], return .position (.after (← dottedName)))]

/-- A change of a column, from the word `ALTER` or `CHANGE` on. Only `CHANGE` may be followed by a
whole new definition, and only that form may name a partition. -/
def changeColumn (partition : Option PartitionSpec) : Parse AlterAction := do
  let changeWord ← isWord "CHANGE"
  skip
  let columnWord ← acceptWord "COLUMN"
  let column ← dottedName
  match ← chooseRule columnChangeRules with
  | some change =>
    if partition.isNone then return .alterColumn changeWord columnWord column change
    else expected "column definition"
  | none =>
    if changeWord then
      return .changeColumn partition columnWord column (← columnDefinition)
    else
      expected "TYPE, COMMENT, FIRST, AFTER, SET or DROP"

/-- New columns, with or without parentheses around them. -/
def addColumns (plural : Bool) : Parse AlterAction := do
  if ← isSymbol .lparen then
    return .addColumns plural true (← columnDefinitions)
  else
    return .addColumns plural false (← commaSeparated columnDefinition)

/-- Dropped columns, with or without parentheses around them. -/
def dropColumns (plural : Bool) : Parse AlterAction := do
  let ifExists ← ifExists
  if ← accept .lparen then
    let columns ← commaSeparated dottedName
    expect .rparen
    return .dropColumns plural ifExists true columns
  else
    return .dropColumns plural ifExists false (← commaSeparated dottedName)

/-- The words for columns, and whether they are in the plural. -/
def columnWords : List (List String × Bool) := [(["COLUMN"], false), (["COLUMNS"], true)]

/-! ## Partitions -/

/-- A new partition and its location, if one comes next. -/
def addedPartition : Parse (Option (PartitionSpec × Option String)) :=
  maybe (isWord "PARTITION") do
    let spec ← partitionSpec
    let location ← optionalString "LOCATION"
    return (spec, location)

def addPartitions : Parse AlterAction := do
  let ifNotExists ← ifNotExists
  let partitions ← many addedPartition
  if partitions.isEmpty then
    expected "COLUMNS or PARTITION"
  else
    return .addPartitions ifNotExists partitions

def dropPartitions : Parse AlterAction := do
  let ifExists ← ifExists
  let partitions ← commaSeparated partitionSpec
  let purge ← acceptWord "PURGE"
  return .dropPartitions ifExists partitions purge

/-! ## Actions -/

/-- Everything behind `ADD`. -/
def addAction : Parse AlterAction := do
  match ← choose columnWords with
  | some plural => addColumns plural
  | none => addPartitions

/-- Everything behind `DROP`. -/
def dropAction : Parse AlterAction := do
  match ← choose columnWords with
  | some plural => dropColumns plural
  | none => dropPartitions

/-- Everything behind `RENAME`. -/
def renameAction : Parse AlterAction := do
  if ← acceptWord "COLUMN" then
    let old ← dottedName
    expectWord "TO"
    let new ← identifier
    return .renameColumn old new
  else
    expectWord "TO"
    return .renameTo (← dottedName)

def unsetProperties : Parse AlterAction := do
  let ifExists ← ifExists
  expect .lparen
  let keys ← commaSeparated propertyKey
  expect .rparen
  return .unsetProperties ifExists (keys.map fun key => ⟨key, none⟩)

/-- How each action on a whole table starts, and the rule for the rest of it. -/
def tableActionRules : List (List String × Parse AlterAction) :=
  [(["TOUCH"], return .touch (← optionalPartition)),
    (["RENAME"], renameAction),
    (["SET", "TBLPROPERTIES"], return .setProperties (← properties)),
    (["UNSET", "TBLPROPERTIES"], unsetProperties),
    (["ADD"], addAction),
    (["DROP"], dropAction)]

/-- An action on a whole table. -/
def tableAction : Parse AlterAction := do
  match ← chooseRule tableActionRules with
  | some action => return action
  | none =>
    if ← isWord "ALTER" then
      changeColumn none
    else if ← acceptWords ["RECOVER", "PARTITIONS"] then
      return .recoverPartitions
    else
      expected "ALTER TABLE action"

/-- An action that may be restricted to a partition. -/
def partitionAction (partition : Option PartitionSpec) : Parse AlterAction := do
  if ← acceptWords ["SET", "LOCATION"] then
    return .setLocation partition (← stringLiteral)
  else if ← acceptWords ["REPLACE", "COLUMNS"] then
    return .replaceColumns partition (← columnDefinitions)
  else if ← isWord "CHANGE" then
    changeColumn partition
  else if partition.isSome then
    expected "RENAME TO, SET LOCATION, REPLACE COLUMNS or CHANGE"
  else
    tableAction

/-- What an `ALTER TABLE` or `ALTER VIEW` does. -/
def alterAction : Parse AlterAction := do
  match ← optionalPartition with
  | none => partitionAction none
  | some old =>
    if ← acceptWords ["RENAME", "TO"] then
      return .renamePartition old (← partitionSpec)
    else
      partitionAction (some old)

/-! ## `ALTER` -/

/-- What an `ALTER DATABASE` does, behind the word `SET`. -/
def alterNamespaceAction : Parse AlterNamespaceAction := do
  match ← chooseRule [(["LOCATION"], return .setLocation (← stringLiteral)),
      (["DBPROPERTIES"], return .setProperties true (← properties)),
      (["PROPERTIES"], return .setProperties false (← properties))] with
  | some action => return action
  | none => expected "DBPROPERTIES, PROPERTIES or LOCATION"

def alterNamespace (word : NamespaceWord) : Parse Statement := do
  let name ← dottedName
  expectWord "SET"
  let action ← alterNamespaceAction
  return .alterNamespace { word, name, action }

/-- `VIEW` or `TABLE`: whether it is a view. -/
def viewOrTable : Parse Bool := do
  if ← acceptWord "VIEW" then
    return true
  else
    expectWord "TABLE"
    return false

def alterTable : Parse Statement := do
  let view ← viewOrTable
  let name ← dottedName
  if view && (← isWord "AS") then
    skip
    return .alterViewQuery ⟨name, ← query⟩
  else
    return .alterTable ⟨view, name, ← alterAction⟩

/-- `ALTER …`. -/
def alter : Parse Statement := do
  expectWord "ALTER"
  match ← namespaceWord with
  | some word => alterNamespace word
  | none => alterTable

/-! ## `DROP` -/

def dropNamespace (word : NamespaceWord) : Parse Statement := do
  let ifExists ← ifExists
  let name ← dottedName
  let behavior ← choose [(["RESTRICT"], DropBehavior.restrict), (["CASCADE"], .cascade)]
  return .dropNamespace { word, ifExists, name, behavior }

def dropFunction (temporary : Bool) : Parse Statement := do
  let ifExists ← ifExists
  let name ← dottedName
  return .dropFunction { temporary, ifExists, name }

def dropIndex : Parse Statement := do
  let ifExists ← ifExists
  let name ← identifier
  expectWord "ON"
  let tableWord ← acceptWord "TABLE"
  let table ← dottedName
  return .dropIndex { ifExists, name, tableWord, table }

/-- A dropped table or view; only a table can be purged. -/
def dropTable : Parse Statement := do
  let view ← viewOrTable
  let ifExists ← ifExists
  let name ← dottedName
  let purge ← if view then pure false else acceptWord "PURGE"
  return .drop { view, ifExists, name, purge }

/-- What is not a namespace. -/
def dropObject : Parse Statement := do
  let temporary ← acceptWord "TEMPORARY"
  if ← acceptWord "FUNCTION" then
    dropFunction temporary
  else if temporary then
    expected "FUNCTION"
  else if ← acceptWord "INDEX" then
    dropIndex
  else
    dropTable

/-- `DROP …`. -/
def drop : Parse Statement := do
  expectWord "DROP"
  match ← namespaceWord with
  | some word => dropNamespace word
  | none => dropObject

end Grammar

end SqlTidy
