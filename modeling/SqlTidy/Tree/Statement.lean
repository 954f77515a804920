import SqlTidy.Tree.Command

/-!
# Statements
-/

namespace SqlTidy

/-- A statement. -/
inductive Statement where
  | query (query : Query)
  | insert (insert : Insert)
  | multiInsert (insert : MultiInsert)
  | update (update : Update)
  | delete (delete : Delete)
  | merge (merge : Merge)
  | createTable (create : CreateTable)
  | createView (create : CreateView)
  | createSourceView (create : CreateSourceView)
  | alterViewQuery (alter : AlterViewQuery)
  | alterTable (alter : AlterTable)
  | drop (drop : Drop)
  | createNamespace (create : CreateNamespace)
  | alterNamespace (alter : AlterNamespace)
  | dropNamespace (drop : DropNamespace)
  | createFunction (create : CreateFunction)
  | dropFunction (drop : DropFunction)
  | createIndex (create : CreateIndex)
  | dropIndex (drop : DropIndex)
  | truncate (truncate : Truncate)
  | repairTable (repair : RepairTable)
  | analyze (analyze : Analyze)
  | analyzeTables (analyze : AnalyzeTables)
  | commentOn (comment : CommentOn)
  | use (use : Use)
  | setCatalog (name : String)
  | setConfig (setting : SetConfig)
  | reset (key : Option String)
  | show (target : Show)
  | describe (describe : Describe)
  | explain (mode : Option ExplainMode) (statement : Statement)
  | call (call : CallProcedure)
  | loadData (load : LoadData)
  | loadFile (load : LoadFile)
  | exportTable (target : ExportTable)
  | dataTunnel (tunnel : DataTunnel)
  | mergeFiles (merge : MergeFiles)

namespace Statement

/-- A short word for the kind of a statement. -/
def kind : Statement → String
  | .query _ => "query"
  | .insert _ => "insert"
  | .multiInsert _ => "multi_insert"
  | .update _ => "update"
  | .delete _ => "delete"
  | .merge _ => "merge"
  | .createTable _ => "create_table"
  | .createView _ => "create_view"
  | .createSourceView _ => "create_temp_view_using"
  | .alterViewQuery _ => "alter_view_query"
  | .alterTable _ => "alter_table"
  | .drop _ => "drop"
  | .createNamespace _ => "create_namespace"
  | .alterNamespace _ => "alter_namespace"
  | .dropNamespace _ => "drop_namespace"
  | .createFunction _ => "create_function"
  | .dropFunction _ => "drop_function"
  | .createIndex _ => "create_index"
  | .dropIndex _ => "drop_index"
  | .truncate _ => "truncate"
  | .repairTable _ => "repair_table"
  | .analyze _ => "analyze"
  | .analyzeTables _ => "analyze_tables"
  | .commentOn _ => "comment_on"
  | .use _ => "use"
  | .setCatalog _ => "set_catalog"
  | .setConfig _ => "set"
  | .reset _ => "reset"
  | .show _ => "show"
  | .describe _ => "describe"
  | .explain _ _ => "explain"
  | .call _ => "call"
  | .loadData _ => "load_data"
  | .loadFile _ => "load_file"
  | .exportTable _ => "export_table"
  | .dataTunnel _ => "datatunnel"
  | .mergeFiles _ => "merge_file"

end Statement

end SqlTidy
