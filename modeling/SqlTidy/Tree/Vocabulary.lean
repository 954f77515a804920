/-!
# The closed vocabularies of the language

Every choice among a fixed set of keywords or operators is an enumeration here, and beside it stands
its `spelling`: the text that is printed for it. Optional words that change nothing (`OUTER`,
`INNER`) are part of the choice, because the printed statement keeps them.
-/

namespace SqlTidy

/-! ## Operators -/

inductive BinaryOp where
  | plus | minus | multiply | divide | modulo | integerDivide | concat
  | bitAnd | bitOr | bitXor
  | eq | doubleEq | notEq | bangEq | lt | ltEq | gt | gtEq | nullSafeEq
  | and | or
deriving DecidableEq

def BinaryOp.spelling : BinaryOp → String
  | .plus => "+"
  | .minus => "-"
  | .multiply => "*"
  | .divide => "/"
  | .modulo => "%"
  | .integerDivide => "DIV"
  | .concat => "||"
  | .bitAnd => "&"
  | .bitOr => "|"
  | .bitXor => "^"
  | .eq => "="
  | .doubleEq => "=="
  | .notEq => "<>"
  | .bangEq => "!="
  | .lt => "<"
  | .ltEq => "<="
  | .gt => ">"
  | .gtEq => ">="
  | .nullSafeEq => "<=>"
  | .and => "AND"
  | .or => "OR"

/-- The connectives `AND` and `OR`: a condition may be broken in front of them. -/
def BinaryOp.isConnective : BinaryOp → Bool
  | .and | .or => true
  | _ => false

inductive UnaryOp where
  | not | minus | plus | bitNot
deriving DecidableEq

/-- The text in front of the operand: only the word `NOT` needs a space after it. -/
def UnaryOp.spelling : UnaryOp → String
  | .not => "NOT "
  | .minus => "-"
  | .plus => "+"
  | .bitNot => "~"

inductive LikeOp where
  | like | ilike | rlike | regexp
deriving DecidableEq

def LikeOp.spelling : LikeOp → String
  | .like => "LIKE"
  | .ilike => "ILIKE"
  | .rlike => "RLIKE"
  | .regexp => "REGEXP"

/-- What may follow `IS` or `IS NOT`, apart from `DISTINCT FROM`. -/
inductive IsTest where
  | null | true | false | unknown
deriving DecidableEq

def IsTest.spelling : IsTest → String
  | .null => "NULL"
  | .true => "TRUE"
  | .false => "FALSE"
  | .unknown => "UNKNOWN"

/-- The three ways to write a cast: `cast(e AS t)`, `try_cast(e AS t)` and `e::t`. -/
inductive CastForm where
  | cast | tryCast | shorthand
deriving DecidableEq

inductive TrimSide where
  | both | leading | trailing
deriving DecidableEq

def TrimSide.spelling : TrimSide → String
  | .both => "BOTH"
  | .leading => "LEADING"
  | .trailing => "TRAILING"

/-! ## Queries -/

inductive SetOp where
  | union | intersect | except | minus
deriving DecidableEq

def SetOp.spelling : SetOp → String
  | .union => "UNION"
  | .intersect => "INTERSECT"
  | .except => "EXCEPT"
  | .minus => "MINUS"

inductive Quantifier where
  | all | distinct
deriving DecidableEq

def Quantifier.spelling : Quantifier → String
  | .all => "ALL"
  | .distinct => "DISTINCT"

/-- A kind of join, with the optional words it was written with. -/
inductive JoinKind where
  | inner (explicit : Bool)
  | cross
  | left (outer : Bool)
  | right (outer : Bool)
  | full (outer : Bool)
  | semi (left : Bool)
  | anti (left : Bool)
deriving DecidableEq

/-- The whole keyword sequence, `JOIN` included. -/
def JoinKind.spelling : JoinKind → String
  | .inner true => "INNER JOIN"
  | .inner false => "JOIN"
  | .cross => "CROSS JOIN"
  | .left true => "LEFT OUTER JOIN"
  | .left false => "LEFT JOIN"
  | .right true => "RIGHT OUTER JOIN"
  | .right false => "RIGHT JOIN"
  | .full true => "FULL OUTER JOIN"
  | .full false => "FULL JOIN"
  | .semi true => "LEFT SEMI JOIN"
  | .semi false => "SEMI JOIN"
  | .anti true => "LEFT ANTI JOIN"
  | .anti false => "ANTI JOIN"

inductive SortDirection where
  | asc | desc
deriving DecidableEq

def SortDirection.spelling : SortDirection → String
  | .asc => "ASC"
  | .desc => "DESC"

inductive NullsOrder where
  | first | last
deriving DecidableEq

def NullsOrder.spelling : NullsOrder → String
  | .first => "NULLS FIRST"
  | .last => "NULLS LAST"

inductive GroupingKind where
  | groupingSets | rollup | cube
deriving DecidableEq

def GroupingKind.spelling : GroupingKind → String
  | .groupingSets => "GROUPING SETS"
  | .rollup => "ROLLUP"
  | .cube => "CUBE"

inductive NullTreatment where
  | ignoreNulls | respectNulls
deriving DecidableEq

def NullTreatment.spelling : NullTreatment → String
  | .ignoreNulls => "IGNORE NULLS"
  | .respectNulls => "RESPECT NULLS"

inductive FrameUnit where
  | rows | range
deriving DecidableEq

def FrameUnit.spelling : FrameUnit → String
  | .rows => "ROWS"
  | .range => "RANGE"

/-! ## Definitions and commands -/

/-- When a `MERGE` clause applies; `BY TARGET` may be left out. -/
inductive MergeCondition where
  | matched
  | notMatched (byTarget : Bool)
  | notMatchedBySource
deriving DecidableEq

def MergeCondition.spelling : MergeCondition → String
  | .matched => "WHEN MATCHED"
  | .notMatched true => "WHEN NOT MATCHED BY TARGET"
  | .notMatched false => "WHEN NOT MATCHED"
  | .notMatchedBySource => "WHEN NOT MATCHED BY SOURCE"

inductive CreateMode where
  | create | createOrReplace | replace
deriving DecidableEq

def CreateMode.spelling : CreateMode → String
  | .create => "CREATE"
  | .createOrReplace => "CREATE OR REPLACE"
  | .replace => "REPLACE"

/-- The three words for a namespace, which mean the same. -/
inductive NamespaceWord where
  | database | schema | namespace
deriving DecidableEq

def NamespaceWord.spelling : NamespaceWord → String
  | .database => "DATABASE"
  | .schema => "SCHEMA"
  | .namespace => "NAMESPACE"

/-- The plural that `SHOW` takes. -/
def NamespaceWord.plural : NamespaceWord → String
  | .database => "DATABASES"
  | .schema => "SCHEMAS"
  | .namespace => "NAMESPACES"

inductive DropBehavior where
  | restrict | cascade
deriving DecidableEq

def DropBehavior.spelling : DropBehavior → String
  | .restrict => "RESTRICT"
  | .cascade => "CASCADE"

inductive ResourceKind where
  | jar | file | archive
deriving DecidableEq

def ResourceKind.spelling : ResourceKind → String
  | .jar => "JAR"
  | .file => "FILE"
  | .archive => "ARCHIVE"

inductive RepairOption where
  | add | drop | sync
deriving DecidableEq

def RepairOption.spelling : RepairOption → String
  | .add => "ADD PARTITIONS"
  | .drop => "DROP PARTITIONS"
  | .sync => "SYNC PARTITIONS"

inductive ScopeWord where
  | from | in
deriving DecidableEq

def ScopeWord.spelling : ScopeWord → String
  | .from => "FROM"
  | .in => "IN"

inductive FunctionKind where
  | user | system | all
deriving DecidableEq

def FunctionKind.spelling : FunctionKind → String
  | .user => "USER"
  | .system => "SYSTEM"
  | .all => "ALL"

inductive DescribeDetail where
  | extended | formatted
deriving DecidableEq

def DescribeDetail.spelling : DescribeDetail → String
  | .extended => "EXTENDED"
  | .formatted => "FORMATTED"

inductive ExplainMode where
  | logical | formatted | extended | codegen | cost
deriving DecidableEq

def ExplainMode.spelling : ExplainMode → String
  | .logical => "LOGICAL"
  | .formatted => "FORMATTED"
  | .extended => "EXTENDED"
  | .codegen => "CODEGEN"
  | .cost => "COST"

end SqlTidy
