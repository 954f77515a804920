import SqlTidy.Layout.DataType
import SqlTidy.Tree.Basic

/-!
# Expressions and queries on the page

Keywords are printed in capitals, names and literals as they were written. Each clause of a query
starts a line, and what a clause holds stands one level deeper.

**Conditions.** A condition (`WHERE`, `HAVING`, `ON`, `FILTER`) is broken in front of every `AND` and
`OR` that no parenthesis encloses; elsewhere the same expression stays on its line. The rendering
function takes this choice as its argument `broken`, which only connectives pass on to their operands.

**Lists.** A list of trees is rendered to the list of its items' documents, and an option to an
option, so that each construct can join them in its own way.
-/

namespace SqlTidy

/-- What a tree of each category is rendered to. -/
def Category.Rendered : Category → Type
  | .list c => List c.Rendered
  | .option c => Option c.Rendered
  | _ => Doc

/-! ## Parts without expressions -/

namespace Layout

/-- Identifiers in parentheses. -/
def identList (names : List Ident) : Doc := .parens (names.map fun i => i.written)

/-- Identifiers in parentheses, or nothing if there are none. -/
def columnList : List Ident → Doc
  | [] => .nil
  | names => identList names

def literal : Literal → Doc
  | .null => "NULL"
  | .boolean true => "TRUE"
  | .boolean false => "FALSE"
  | .number text => text
  | .string pieces => .sep " " (pieces.map Doc.text)

def intervalPart (part : IntervalPart) : Doc :=
  .seq [" ", part.value, .optText " " part.unit]

def asWord (explicitAs : Bool) : Doc := if explicitAs then " AS " else " "

def selectAlias : Option Alias → Doc
  | none => .nil
  | some ⟨explicitAs, .single name⟩ => asWord explicitAs ++ name.written
  | some ⟨explicitAs, .multi names⟩ => asWord explicitAs ++ identList names

def tableAlias : Option TableAlias → Doc
  | none => .nil
  | some ⟨explicitAs, name, columns⟩ => asWord explicitAs ++ name.written ++ columnList columns

/-- `NOT ` if the predicate is negated. -/
def notWord (negated : Bool) : Doc := .when negated "NOT "

/-- A word behind a space, if it is present. -/
def optWord : Option String → Doc := .optText " "

/-- A unary minus in front of another one is kept apart from it, since two in a row start a
comment. -/
def minusGap : UnaryOp → Expr → Doc
  | .minus, .unary .minus _ => " "
  | _, _ => .nil

/-- The clauses of an organization, each on a line of its own if it is present. -/
def clauseLine (keyword : String) : List Doc → Doc
  | [] => .nil
  | ds => .line ++ .clause keyword ds

/-- Named windows: the first behind the keyword, the others on lines of their own. -/
def windowClause : List Doc → Doc
  | [] => .nil
  | d :: ds =>
    .seq [.line, "WINDOW ", d, .seq (ds.map fun d => "," ++ Doc.nest (.line ++ d))]

/-- The parts of a window definition that hold a list, with a space between neighbours. -/
def windowParts (parts : List (String × List Doc)) : Doc :=
  .sep " " (parts.filterMap fun (keyword, ds) =>
    match ds with
    | [] => none
    | ds => some (keyword ++ Doc.commas ds))

/-- A condition below its keyword. -/
def conditionClause (keyword : String) (condition : Doc) : Doc :=
  keyword ++ Doc.nest (.line ++ condition)

/-- A document behind a new line, if it is present. -/
def optLine : Option Doc → Doc
  | none => .nil
  | some d => .line ++ d

/-- A document with a text in front, if it is present. -/
def optBehind (before : String) : Option Doc → Doc
  | none => .nil
  | some d => before ++ d

/-- A document with another one behind it, if it is present. -/
def optFollowed (after : Doc) : Option Doc → Doc
  | none => .nil
  | some d => d ++ after

/-- A word with a space behind it, if it is present. -/
def optWordGap : Option String → Doc
  | none => .nil
  | some s => .text s ++ " "

/-- The frame of a window, on a line of its own. -/
def frameLine : Option Doc → Doc
  | none => .nil
  | some d => .nest (.line ++ d) ++ .line

/-- `VALUES` with its rows, one level below the line on which the keyword stands. -/
def values (rows : List Doc) : Doc := "VALUES" ++ Doc.hang (.lines rows)

/-- The names after `FOR` in a pivot: one as it is, several in parentheses. -/
def pivotColumns : List DottedName → Doc
  | [name] => name.written
  | names => .parens (names.map fun n => n.written)

/-- A space unless the literal is a hexadecimal one, whose letter stands next to its quotes. -/
def typedLiteralGap (type : String) : Doc := if type = "X" then .nil else " "

end Layout

/-! ## Trees -/

open Layout in
/-- The document of a tree. With `broken`, an expression is laid out as a condition. -/
def Tree.render : {c : Category} → (broken : Bool) → Tree c → c.Rendered
  | _, _, .nil => []
  | _, _, .cons head tail => head.render false :: tail.render false
  | _, _, .none => Option.none
  | _, _, .some value => Option.some (value.render false)
  -- Expressions.
  | _, _, .ident name => Doc.text name.written
  | _, _, .compound parts => Doc.sep "." (parts.map fun i => i.written)
  | _, _, .wildcard => Doc.text "*"
  | _, _, .qualifiedWildcard qualifier => Doc.seq [qualifier.written, ".*"]
  | _, _, .literal value => Layout.literal value
  | _, _, .typedLiteral type value => Doc.seq [type, typedLiteralGap type, value]
  | _, _, .interval parts upTo =>
    Doc.seq ["INTERVAL", .seq (parts.map intervalPart), .optText " TO " upTo]
  | _, _, .unary op operand =>
    Doc.seq [op.spelling, minusGap op operand, operand.render false]
  | _, broken, .binary op left right =>
    let broken := broken && op.isConnective
    Doc.seq [left.render broken, if broken then .line else " ", op.spelling, " ",
      right.render broken]
  | _, _, .between tested negated low high =>
    Doc.seq [tested.render false, " ", notWord negated, "BETWEEN ", low.render false, " AND ",
      high.render false]
  | _, _, .inList tested negated items =>
    Doc.seq [tested.render false, " ", notWord negated, "IN ", .parens (items.render false)]
  | _, _, .inQuery tested negated q =>
    Doc.seq [tested.render false, " ", notWord negated, "IN ", .enclosed (q.render false)]
  | _, _, .like tested negated op pattern escape =>
    Doc.seq [tested.render false, " ", notWord negated, op.spelling, " ", pattern.render false,
      .optText " ESCAPE " escape]
  | _, _, .is tested negated test =>
    Doc.seq [tested.render false, " IS ", notWord negated, test.spelling]
  | _, _, .distinctFrom tested negated other =>
    Doc.seq [tested.render false, " IS ", notWord negated, "DISTINCT FROM ", other.render false]
  | _, _, .function c => (c.render false : Doc)
  | _, _, .case operand branches otherwise =>
    Doc.seq ["CASE", optBehind " " (operand.render false),
      .nest (.onLines (branches.render false)), .line,
      optFollowed " " ((otherwise.render false).map fun d => "ELSE " ++ d), "END"]
  | _, _, .cast .shorthand operand type => Doc.seq [operand.render false, "::", type.doc]
  | _, _, .cast .cast operand type =>
    Doc.seq ["cast(", operand.render false, " AS ", type.doc, ")"]
  | _, _, .cast .tryCast operand type =>
    Doc.seq ["try_cast(", operand.render false, " AS ", type.doc, ")"]
  | _, _, .extract part source => Doc.seq ["extract(", part, " FROM ", source.render false, ")"]
  | _, _, .substring name source start length keywordForm =>
    Doc.seq [name, "(", source.render false, if keywordForm then " FROM " else ", ",
      start.render false, optBehind (if keywordForm then " FOR " else ", ") (length.render false),
      ")"]
  | _, _, .trim side characters source =>
    let characters := characters.render false
    Doc.seq ["trim(", optWordGap (side.map TrimSide.spelling), optFollowed " " characters,
      .when (side.isSome || characters.isSome) "FROM ", source.render false, ")"]
  | _, _, .position needle haystack =>
    Doc.seq ["position(", needle.render false, " IN ", haystack.render false, ")"]
  | _, _, .overlay target placing start length =>
    Doc.seq ["overlay(", target.render false, " PLACING ", placing.render false, " FROM ",
      start.render false, optBehind " FOR " (length.render false), ")"]
  | _, _, .firstLast last operand ignoreNulls =>
    Doc.seq [if last then "last(" else "first(", operand.render false,
      .when ignoreNulls " IGNORE NULLS", ")"]
  | _, _, .datetime name unit args =>
    Doc.seq [name, "(", .commas (.text unit :: args.render false), ")"]
  | _, _, .currentValue name => Doc.text name
  | _, _, .struct fields => Doc.seq ["STRUCT", .parens (fields.render false)]
  | _, _, .existsQuery q => Doc.seq ["EXISTS ", .enclosed (q.render false)]
  | _, _, .subquery q => Doc.enclosed (q.render false)
  | _, _, .row items => Doc.parens (items.render false)
  | _, _, .paren inner => Doc.parens [inner.render false]
  | _, _, .lambda params parenthesized body =>
    let names : List Doc := params.map fun i => i.written
    Doc.seq [if parenthesized then .parens names else .commas names, " -> ", body.render false]
  | _, _, .subscript base index => Doc.seq [base.render false, "[", index.render false, "]"]
  | _, _, .field base name => Doc.seq [base.render false, ".", name.written]
  -- Calls.
  | _, _, .call name quantifier args withinGroup filter nullTreatment overWindow =>
    Doc.seq [name.written, "(", optWordGap (quantifier.map Quantifier.spelling),
      .commas (args.render false), ")",
      (match withinGroup.render false with
        | [] => .nil
        | ds => .seq [" WITHIN GROUP (ORDER BY ", .commas ds, ")"]),
      (match filter with
        | .none => .nil
        | .some condition =>
          " FILTER " ++ Doc.enclosed (conditionClause "WHERE" (condition.render true))),
      optWord (nullTreatment.map NullTreatment.spelling),
      optBehind " OVER " (overWindow.render false)]
  | _, _, .positional value => (value.render false : Doc)
  | _, _, .named name value => Doc.seq [name.written, " => ", value.render false]
  | _, _, .branch condition result =>
    Doc.seq ["WHEN ", condition.render false, " THEN ", result.render false]
  -- Windows.
  | _, _, .windowName name => Doc.text name.written
  | _, _, .windowNameParen name => Doc.parens [name.written]
  | _, _, .windowInline definition => (definition.render false : Doc)
  | _, _, .windowDefinition partitionBy distribute orderBy sort clusterBy bounds =>
    Doc.seq ["(",
      windowParts [
        (if distribute then "DISTRIBUTE BY " else "PARTITION BY ", partitionBy.render false),
        (if sort then "SORT BY " else "ORDER BY ", orderBy.render false),
        ("CLUSTER BY ", clusterBy.render false)],
      frameLine (bounds.render false), ")"]
  | _, _, .frame unit start stop =>
    let start := start.render false
    Doc.seq [unit.spelling, " ",
      (match stop.render false with
        | Option.none => start
        | Option.some stop => .seq ["BETWEEN ", start, " AND ", stop])]
  | _, _, .currentRow => Doc.text "CURRENT ROW"
  | _, _, .unboundedPreceding => Doc.text "UNBOUNDED PRECEDING"
  | _, _, .unboundedFollowing => Doc.text "UNBOUNDED FOLLOWING"
  | _, _, .preceding distance => Doc.seq [distance.render false, " PRECEDING"]
  | _, _, .following distance => Doc.seq [distance.render false, " FOLLOWING"]
  | _, _, .orderItem key direction nulls =>
    Doc.seq [key.render false, optWord (direction.map SortDirection.spelling),
      optWord (nulls.map NullsOrder.spelling)]
  | _, _, .selectItem value asName => Doc.seq [value.render false, selectAlias asName]
  -- Queries.
  | _, _, .query tables body clauses =>
    Doc.seq [optFollowed .line (tables.render false), body.render false, clauses.render false]
  | _, _, .withClause tables =>
    Doc.seq ["WITH ", .seq ((tables.render false).intersperse ("," ++ Doc.line))]
  | _, _, .commonTable name columns q =>
    Doc.seq [name.written, columnList columns, " AS ", .enclosed (q.render false)]
  | _, _, .selectBody s => (s.render false : Doc)
  | _, _, .setOperation left op quantifier right =>
    Doc.seq [left.render false, .line, op.spelling, optWord (quantifier.map Quantifier.spelling),
      .line, right.render false]
  | _, _, .nestedQuery q => Doc.enclosed (q.render false)
  | _, _, .valuesBody rows asName => Doc.seq [values (rows.render false), tableAlias asName]
  | _, _, .tableBody name => Doc.seq ["TABLE ", name.written]
  | _, _, .fromFirst source bodies =>
    Doc.seq [source.render false, .onLines (bodies.render false)]
  | _, _, .fromBody s clauses =>
    Doc.seq [s.render false, clauses.render false]
  | _, _, .select hints quantifier items source condition grouping having windows =>
    Doc.seq ["SELECT", .seq (hints.render false), optWord (quantifier.map Quantifier.spelling),
      .items (items.render false), optLine (source.render false),
      (match condition with
        | .none => .nil
        | .some e => .line ++ conditionClause "WHERE" (e.render true)),
      optLine (grouping.render false),
      (match having with
        | .none => .nil
        | .some e => .line ++ conditionClause "HAVING" (e.render true)),
      windowClause (windows.render false)]
  | _, _, .hint functions => Doc.seq [" /*+ ", .commas (functions.render false), " */"]
  | _, _, .hintFunction name args =>
    Doc.seq [name.written,
      (match args.render false with
        | Option.none => .nil
        | Option.some ds => .parens ds)]
  -- The `FROM` clause.
  | _, _, .fromClause relations views pivoting =>
    Doc.seq [.clause "FROM" (relations.render false),
      .nest (.seq [.onLines (views.render false), optLine (pivoting.render false)])]
  | _, _, .relation primary joins =>
    Doc.seq [primary.render false, .onLines (joins.render false)]
  | _, _, .table name sampling asName =>
    Doc.seq [name.written, optBehind " " (sampling.render false), tableAlias asName]
  | _, _, .derived q sampling asName =>
    Doc.seq [.enclosed (q.render false), optBehind " " (sampling.render false), tableAlias asName]
  | _, _, .valuesTable rows asName => Doc.seq [values (rows.render false), tableAlias asName]
  | _, _, .tableFunction name args asName =>
    Doc.seq [name.written, .parens (args.render false), tableAlias asName]
  | _, _, .nestedRelation inner asName =>
    Doc.seq [.enclosed (inner.render false), tableAlias asName]
  | _, _, .samplePercent amount => Doc.seq ["TABLESAMPLE (", amount.render false, " PERCENT)"]
  | _, _, .sampleRows amount => Doc.seq ["TABLESAMPLE (", amount.render false, " ROWS)"]
  | _, _, .sampleBucket numerator denominator key =>
    Doc.seq ["TABLESAMPLE (BUCKET ", numerator, " OUT OF ", denominator,
      optBehind " ON " (key.render false), ")"]
  | _, _, .join natural kind factor constraint =>
    Doc.seq [.when natural "NATURAL ", kind.spelling, " ", factor.render false,
      optBehind " " (constraint.render false)]
  | _, _, .on condition => Doc.seq ["ON ", .nest (condition.render true)]
  | _, _, .using columns => Doc.seq ["USING ", identList columns]
  | _, _, .lateralView outer name args asName explicitAs columns =>
    Doc.seq ["LATERAL VIEW ", .when outer "OUTER ", name.written, .block (args.render false),
      optWord (asName.map Ident.written), .when explicitAs " AS",
      (match columns with
        | [] => .nil
        | names => " " ++ Doc.commas (names.map fun i => i.written))]
  | _, _, .pivot aggregates columns values =>
    Doc.seq ["PIVOT (",
      .nest (.seq [.commaLines (aggregates.render false), .line, "FOR ", pivotColumns columns,
        " IN ", .parens (values.render false)]),
      .line, ")"]
  -- The clauses after it.
  | _, _, .groupBy items modifier =>
    Doc.seq [.clause "GROUP BY" (items.render false),
      .optText " WITH " (modifier.map GroupingKind.spelling)]
  | _, _, .groupingExpr value => (value.render false : Doc)
  | _, _, .analytics kind elements =>
    Doc.seq [kind.spelling, " ", .block (elements.render false)]
  | _, _, .elementSet members => Doc.parens (members.render false)
  | _, _, .elementExpr value => (value.render false : Doc)
  | _, _, .namedWindow name w => Doc.seq [name.written, " AS ", w.render false]
  | _, _, .organization orderBy clusterBy distributeBy sortBy rowLimit offset =>
    Doc.seq [clauseLine "ORDER BY" (orderBy.render false),
      clauseLine "CLUSTER BY" (clusterBy.render false),
      clauseLine "DISTRIBUTE BY" (distributeBy.render false),
      clauseLine "SORT BY" (sortBy.render false), optLine (rowLimit.render false),
      optLine ((offset.render false).map fun d => "OFFSET " ++ d)]
  | _, _, .limitAll => Doc.text "LIMIT ALL"
  | _, _, .limitCount count => Doc.seq ["LIMIT ", count.render false]

namespace Tree

/-- A list is rendered item by item. -/
theorem render_list {c : Category} (broken : Bool) :
    (ts : Tree (.list c)) → ts.render broken = ts.toList.map fun t => t.render false
  | .nil => rfl
  | .cons t ts => by
    show t.render false :: ts.render false = _
    rw [render_list false ts]
    rfl

theorem render_option {c : Category} (broken : Bool) :
    (t : Tree (.option c)) → t.render broken = t.toOption.map fun t => t.render false
  | .none => rfl
  | .some _ => rfl

/-- The document of a tree that is not a list or an option. -/
abbrev doc {c : Category} (t : Tree c) : c.Rendered := t.render false

/-- An expression as a condition. -/
def conditionDoc (e : Expr) : Doc := e.render true

end Tree

end SqlTidy
