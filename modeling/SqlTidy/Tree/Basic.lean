import SqlTidy.Tree.DataType
import SqlTidy.Tree.Vocabulary

/-!
# Expressions and queries

Expressions contain queries (`EXISTS (SELECT …)`) and queries contain expressions everywhere, through
about thirty kinds of clause and through lists and options of them. They are one inductive family
`Tree`, indexed by the syntactic category of the node, with lists and options among the categories. So
a function on all trees is one recursion, and a fact about all trees is one induction.

A tree records what the printed statement must keep and nothing else: parentheses that were written
are nodes (`Tree.paren`, `Tree.nestedQuery`), optional words that were written are flags, and literals
are kept as text.
-/

namespace SqlTidy

/-! ## Parts without expressions -/

/-- A literal. Adjacent string literals form one value of several pieces. -/
inductive Literal where
  | null
  | boolean (value : Bool)
  | number (text : String)
  | string (pieces : List String)
deriving DecidableEq

/-- One quantity of an interval, such as `3 DAYS`. -/
structure IntervalPart where
  value : String
  unit : Option String
deriving DecidableEq

/-- The name given to a select item: one identifier, or a list of them in parentheses. -/
inductive AliasName where
  | single (name : Ident)
  | multi (names : List Ident)
deriving DecidableEq

/-- An alias of a select item, with or without the word `AS`. -/
structure Alias where
  explicitAs : Bool
  name : AliasName
deriving DecidableEq

/-- An alias of a table, possibly renaming its columns. -/
structure TableAlias where
  explicitAs : Bool
  name : Ident
  columns : List Ident
deriving DecidableEq

/-! ## The family of trees -/

/-- The syntactic categories. -/
inductive Category where
  | expr | call | callArg | caseBranch
  | window | windowDefinition | frame | frameBound
  | orderItem | selectItem
  | query | withClause | commonTable | queryBody | fromBody
  | select | hint | hintFunction
  | fromClause | relation | tableFactor | sample | join | joinConstraint | lateralView | pivot
  | groupBy | groupingItem | groupingElement | namedWindow
  | organization | limit
  | list (of : Category)
  | option (of : Category)
deriving DecidableEq

/-- The trees of each category. -/
inductive Tree : Category → Type where
  -- Lists and options of trees.
  | nil {c : Category} : Tree (.list c)
  | cons {c : Category} (head : Tree c) (tail : Tree (.list c)) : Tree (.list c)
  | none {c : Category} : Tree (.option c)
  | some {c : Category} (value : Tree c) : Tree (.option c)
  -- Expressions.
  | ident (name : Ident) : Tree .expr
  | compound (parts : List Ident) : Tree .expr
  | wildcard : Tree .expr
  | qualifiedWildcard (qualifier : DottedName) : Tree .expr
  | literal (value : Literal) : Tree .expr
  | typedLiteral (type value : String) : Tree .expr
  | interval (parts : List IntervalPart) (upTo : Option String) : Tree .expr
  | unary (op : UnaryOp) (operand : Tree .expr) : Tree .expr
  | binary (op : BinaryOp) (left right : Tree .expr) : Tree .expr
  | between (tested : Tree .expr) (negated : Bool) (low high : Tree .expr) : Tree .expr
  | inList (tested : Tree .expr) (negated : Bool) (items : Tree (.list .expr)) : Tree .expr
  | inQuery (tested : Tree .expr) (negated : Bool) (query : Tree .query) : Tree .expr
  | like (tested : Tree .expr) (negated : Bool) (op : LikeOp) (pattern : Tree .expr)
      (escape : Option String) : Tree .expr
  | is (tested : Tree .expr) (negated : Bool) (test : IsTest) : Tree .expr
  | distinctFrom (tested : Tree .expr) (negated : Bool) (other : Tree .expr) : Tree .expr
  | function (call : Tree .call) : Tree .expr
  | case (operand : Tree (.option .expr)) (branches : Tree (.list .caseBranch))
      (otherwise : Tree (.option .expr)) : Tree .expr
  | cast (form : CastForm) (operand : Tree .expr) (type : DataType) : Tree .expr
  | extract (field : String) (source : Tree .expr) : Tree .expr
  | substring (name : String) (source position : Tree .expr) (length : Tree (.option .expr))
      (keywordForm : Bool) : Tree .expr
  | trim (side : Option TrimSide) (characters : Tree (.option .expr)) (source : Tree .expr) :
      Tree .expr
  | position (needle haystack : Tree .expr) : Tree .expr
  | overlay (target placing start : Tree .expr) (length : Tree (.option .expr)) : Tree .expr
  | firstLast (last : Bool) (operand : Tree .expr) (ignoreNulls : Bool) : Tree .expr
  | datetime (name unit : String) (args : Tree (.list .expr)) : Tree .expr
  | currentValue (name : String) : Tree .expr
  | struct (fields : Tree (.list .selectItem)) : Tree .expr
  | existsQuery (query : Tree .query) : Tree .expr
  | subquery (query : Tree .query) : Tree .expr
  | row (items : Tree (.list .selectItem)) : Tree .expr
  | paren (inner : Tree .expr) : Tree .expr
  | lambda (params : List Ident) (parenthesized : Bool) (body : Tree .expr) : Tree .expr
  | subscript (base index : Tree .expr) : Tree .expr
  | field (base : Tree .expr) (name : Ident) : Tree .expr
  -- Calls.
  | call (name : DottedName) (quantifier : Option Quantifier) (args : Tree (.list .callArg))
      (withinGroup : Tree (.list .orderItem)) (filter : Tree (.option .expr))
      (nullTreatment : Option NullTreatment) (overWindow : Tree (.option .window)) : Tree .call
  | positional (value : Tree .expr) : Tree .callArg
  | named (name : Ident) (value : Tree .expr) : Tree .callArg
  | branch (condition result : Tree .expr) : Tree .caseBranch
  -- Windows.
  | windowName (name : Ident) : Tree .window
  | windowNameParen (name : Ident) : Tree .window
  | windowInline (definition : Tree .windowDefinition) : Tree .window
  | windowDefinition (partitionBy : Tree (.list .expr)) (distribute : Bool)
      (orderBy : Tree (.list .orderItem)) (sort : Bool) (clusterBy : Tree (.list .expr))
      (frame : Tree (.option .frame)) : Tree .windowDefinition
  | frame (unit : FrameUnit) (start : Tree .frameBound) (stop : Tree (.option .frameBound)) :
      Tree .frame
  | currentRow : Tree .frameBound
  | unboundedPreceding : Tree .frameBound
  | unboundedFollowing : Tree .frameBound
  | preceding (distance : Tree .expr) : Tree .frameBound
  | following (distance : Tree .expr) : Tree .frameBound
  | orderItem (key : Tree .expr) (direction : Option SortDirection) (nulls : Option NullsOrder) :
      Tree .orderItem
  | selectItem (value : Tree .expr) (asName : Option Alias) : Tree .selectItem
  -- Queries.
  | query (withClause : Tree (.option .withClause)) (body : Tree .queryBody)
      (organization : Tree .organization) : Tree .query
  | withClause (tables : Tree (.list .commonTable)) : Tree .withClause
  | commonTable (name : Ident) (columns : List Ident) (query : Tree .query) : Tree .commonTable
  | selectBody (select : Tree .select) : Tree .queryBody
  | setOperation (left : Tree .queryBody) (op : SetOp) (quantifier : Option Quantifier)
      (right : Tree .queryBody) : Tree .queryBody
  | nestedQuery (query : Tree .query) : Tree .queryBody
  | valuesBody (rows : Tree (.list .expr)) (asName : Option TableAlias) : Tree .queryBody
  | tableBody (name : DottedName) : Tree .queryBody
  | fromFirst (source : Tree .fromClause) (bodies : Tree (.list .fromBody)) : Tree .queryBody
  | fromBody (select : Tree .select) (organization : Tree .organization) : Tree .fromBody
  | select (hints : Tree (.list .hint)) (quantifier : Option Quantifier)
      (items : Tree (.list .selectItem)) (source : Tree (.option .fromClause))
      (condition : Tree (.option .expr)) (groupBy : Tree (.option .groupBy))
      (having : Tree (.option .expr)) (windows : Tree (.list .namedWindow)) : Tree .select
  | hint (functions : Tree (.list .hintFunction)) : Tree .hint
  | hintFunction (name : Ident) (args : Tree (.option (.list .expr))) : Tree .hintFunction
  -- The `FROM` clause.
  | fromClause (relations : Tree (.list .relation)) (lateralViews : Tree (.list .lateralView))
      (pivot : Tree (.option .pivot)) : Tree .fromClause
  | relation (primary : Tree .tableFactor) (joins : Tree (.list .join)) : Tree .relation
  | table (name : DottedName) (sample : Tree (.option .sample)) (asName : Option TableAlias) :
      Tree .tableFactor
  | derived (query : Tree .query) (sample : Tree (.option .sample)) (asName : Option TableAlias) :
      Tree .tableFactor
  | valuesTable (rows : Tree (.list .expr)) (asName : Option TableAlias) : Tree .tableFactor
  | tableFunction (name : DottedName) (args : Tree (.list .callArg)) (asName : Option TableAlias) :
      Tree .tableFactor
  | nestedRelation (relation : Tree .relation) (asName : Option TableAlias) : Tree .tableFactor
  | samplePercent (amount : Tree .expr) : Tree .sample
  | sampleRows (amount : Tree .expr) : Tree .sample
  | sampleBucket (numerator denominator : String) (on : Tree (.option .expr)) : Tree .sample
  | join (natural : Bool) (kind : JoinKind) (factor : Tree .tableFactor)
      (constraint : Tree (.option .joinConstraint)) : Tree .join
  | on (condition : Tree .expr) : Tree .joinConstraint
  | using (columns : List Ident) : Tree .joinConstraint
  | lateralView (outer : Bool) (function : DottedName) (args : Tree (.list .expr))
      (tableAlias : Option Ident) (explicitAs : Bool) (columns : List Ident) : Tree .lateralView
  | pivot (aggregates : Tree (.list .selectItem)) (columns : List DottedName)
      (values : Tree (.list .selectItem)) : Tree .pivot
  -- The clauses after it.
  | groupBy (items : Tree (.list .groupingItem)) (modifier : Option GroupingKind) : Tree .groupBy
  | groupingExpr (value : Tree .expr) : Tree .groupingItem
  | analytics (kind : GroupingKind) (elements : Tree (.list .groupingElement)) :
      Tree .groupingItem
  | elementSet (members : Tree (.list .expr)) : Tree .groupingElement
  | elementExpr (value : Tree .expr) : Tree .groupingElement
  | namedWindow (name : Ident) (window : Tree .window) : Tree .namedWindow
  | organization (orderBy : Tree (.list .orderItem)) (clusterBy : Tree (.list .expr))
      (distributeBy : Tree (.list .expr)) (sortBy : Tree (.list .orderItem))
      (limit : Tree (.option .limit)) (offset : Tree (.option .expr)) : Tree .organization
  | limitAll : Tree .limit
  | limitCount (count : Tree .expr) : Tree .limit

/-! ## Names for the categories in use -/

abbrev Expr := Tree .expr
abbrev Call := Tree .call
abbrev CallArg := Tree .callArg
abbrev CaseBranch := Tree .caseBranch
abbrev Window := Tree .window
abbrev WindowDefinition := Tree .windowDefinition
abbrev Frame := Tree .frame
abbrev FrameBound := Tree .frameBound
abbrev OrderItem := Tree .orderItem
abbrev SelectItem := Tree .selectItem
abbrev Query := Tree .query
abbrev WithClause := Tree .withClause
abbrev CommonTable := Tree .commonTable
abbrev QueryBody := Tree .queryBody
abbrev FromBody := Tree .fromBody
abbrev Select := Tree .select
abbrev Hint := Tree .hint
abbrev HintFunction := Tree .hintFunction
abbrev FromClause := Tree .fromClause
abbrev Relation := Tree .relation
abbrev TableFactor := Tree .tableFactor
abbrev Sample := Tree .sample
abbrev Join := Tree .join
abbrev JoinConstraint := Tree .joinConstraint
abbrev LateralView := Tree .lateralView
abbrev Pivot := Tree .pivot
abbrev GroupBy := Tree .groupBy
abbrev GroupingItem := Tree .groupingItem
abbrev GroupingElement := Tree .groupingElement
abbrev NamedWindow := Tree .namedWindow
abbrev Organization := Tree .organization
abbrev Limit := Tree .limit

namespace Tree

/-! ## Lists and options -/

variable {c : Category}

/-- A list of trees as a tree. -/
def ofList : List (Tree c) → Tree (.list c)
  | [] => .nil
  | t :: ts => .cons t (ofList ts)

/-- The items of a tree whose category is that of a list of `c`. The equation about the category
makes the recursion one over all trees. -/
def itemsOf : {d : Category} → Tree d → d = .list c → List (Tree c)
  | _, .cons t ts, h => (Category.list.inj h ▸ t) :: ts.itemsOf h
  | _, _, _ => []

/-- The trees of a list. -/
def toList (t : Tree (.list c)) : List (Tree c) := t.itemsOf rfl

@[simp] theorem toList_nil : (nil : Tree (.list c)).toList = [] := rfl

@[simp] theorem toList_cons (t : Tree c) (ts : Tree (.list c)) :
    (cons t ts).toList = t :: ts.toList := rfl

@[simp] theorem toList_ofList (ts : List (Tree c)) : (ofList ts).toList = ts := by
  induction ts with
  | nil => rfl
  | cons t ts ih => rw [ofList, toList_cons, ih]

@[simp] theorem ofList_toList : (t : Tree (.list c)) → ofList t.toList = t
  | .nil => rfl
  | .cons t ts => by rw [toList_cons, ofList, ofList_toList ts]

/-- An optional tree as a tree. -/
def ofOption : Option (Tree c) → Tree (.option c)
  | Option.none => .none
  | Option.some t => .some t

/-- The tree of an option. -/
def toOption : Tree (.option c) → Option (Tree c)
  | .none => Option.none
  | .some t => Option.some t

@[simp] theorem toOption_ofOption (t : Option (Tree c)) : (ofOption t).toOption = t := by
  cases t <;> rfl

@[simp] theorem ofOption_toOption : (t : Tree (.option c)) → ofOption t.toOption = t
  | .none => rfl
  | .some _ => rfl

/-! ## Questions about single nodes -/

/-- Whether no clause orders or limits the rows. -/
def hasNoClause : Organization → Bool
  | .organization .nil .nil .nil .nil .none .none => true
  | _ => false

end Tree

end SqlTidy
