import SqlTidy.Layout.Command
import SqlTidy.Tree.Statement

/-!
# Statements on the page
-/

namespace SqlTidy

namespace Statement

open Layout

/-- The document of a statement. -/
def doc : Statement → Doc
  | .query s => s.doc
  | .insert s => s.doc
  | .multiInsert s => s.doc
  | .update s => s.doc
  | .delete s => s.doc
  | .merge s => s.doc
  | .createTable s => s.doc
  | .createView s => s.doc
  | .createSourceView s => s.doc
  | .alterViewQuery s => s.doc
  | .alterTable s => s.doc
  | .drop s => s.doc
  | .createNamespace s => s.doc
  | .alterNamespace s => s.doc
  | .dropNamespace s => s.doc
  | .createFunction s => s.doc
  | .dropFunction s => s.doc
  | .createIndex s => s.doc
  | .dropIndex s => s.doc
  | .truncate s => s.doc
  | .repairTable s => s.doc
  | .analyze s => s.doc
  | .analyzeTables s => s.doc
  | .commentOn s => s.doc
  | .use s => s.doc
  | .setCatalog name => .seq ["SET CATALOG ", name]
  | .setConfig s => s.doc
  | .reset key => .seq ["RESET", optWord key]
  | .show target => .seq ["SHOW ", target.doc]
  | .describe s => s.doc
  | .explain mode inner =>
    .seq ["EXPLAIN ", optWordGap (mode.map ExplainMode.spelling), inner.doc]
  | .call s => s.doc
  | .loadData s => s.doc
  | .loadFile s => s.doc
  | .exportTable s => s.doc
  | .dataTunnel s => s.doc
  | .mergeFiles s => s.doc

/-- The text of a statement in a style. -/
def print (style : Style) (s : Statement) : Except Error String := s.doc.print style

end Statement

end SqlTidy
