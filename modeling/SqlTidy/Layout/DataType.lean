import SqlTidy.Page.Doc
import SqlTidy.Tree.DataType

/-!
# Data types on the page

A data type is always printed on one line.
-/

namespace SqlTidy

mutual

def DataType.doc : DataType → Doc
  | .primitive name params =>
    name ++ Doc.when (!params.isEmpty) (.parens (params.map Doc.text))
  | .array word element => .seq [word, "<", element.doc, ">"]
  | .map word key value => .seq [word, "<", key.doc, ", ", value.doc, ">"]
  | .struct word fields => .seq [word, "<", .commas (DataType.fieldDocs fields), ">"]
  | .interval start stop => .seq ["INTERVAL ", start, .optText " TO " stop]

def DataType.fieldDocs : List StructField → List Doc
  | [] => []
  | f :: fs => f.doc :: DataType.fieldDocs fs

def StructField.doc : StructField → Doc
  | ⟨name, colon, type, notNull, comment⟩ =>
    .seq [name.written, if colon then ": " else " ", type.doc, .when notNull " NOT NULL",
      .optText " COMMENT " comment]

end

end SqlTidy
