import SqlTidy.Tree.Name

/-!
# Data types

A type keeps the word it was written with (`array` or `ARRAY`), since type names are printed as
written. The parameters of a primitive type are number tokens and stay text.
-/

namespace SqlTidy

mutual

/-- A data type. -/
inductive DataType where
  | primitive (name : String) (params : List String)
  | array (word : String) (element : DataType)
  | map (word : String) (key value : DataType)
  | struct (word : String) (fields : List StructField)
  | interval (start : String) (stop : Option String)

/-- A field of a struct type; `colon` tells `name: type` from `name type`. -/
structure StructField where
  name : Ident
  colon : Bool
  type : DataType
  notNull : Bool
  comment : Option String

end

end SqlTidy
