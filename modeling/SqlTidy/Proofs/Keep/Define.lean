import SqlTidy.Grammar.Alter
import SqlTidy.Proofs.Keep.Clause
import SqlTidy.Proofs.Keep.Query

/-!
# Changes and definitions keep their literals

The statements that change rows and those that create, alter and drop things. All of them keep every
literal, with one exception: the clauses of a new table, view or namespace replace each other
(`Parse.Overwritten`), so their lemmas ask that overwritten tokens count as lost.
-/

namespace SqlTidy

/-! ## Slots of clauses -/

/-- The slots of a table's clauses, in the order of the clauses' constructors. -/
def TableClauses.slots (t : TableClauses) : List (List String) :=
  [stored t.primaryKey, stored t.partitionedBy, stored t.clusteredBy, stored t.storedAs,
    stored t.location, stored t.lifecycle, stored t.options, stored t.tableProperties,
    stored t.comment]

theorem TableClauses.slots_add (t : TableClauses) (c : TableClause) :
    (t.add c).slots = t.slots.set c.ctorIdx (stored c) := by
  cases c <;> rfl

/-- The slots of a view's clauses, and behind them those of the rest of the view. -/
def CreateView.slots (v : CreateView) : List (List String) :=
  [stored v.comment, stored v.partitionedOn, stored v.tableProperties, stored v.name,
    stored v.columns, stored v.query]

/-- The slots of a namespace's clauses, and behind them that of its name. -/
def CreateNamespace.slots (n : CreateNamespace) : List (List String) :=
  [stored n.comment, stored n.location, stored n.properties, stored n.name]

namespace Grammar

instance : Stored ViewClause := ⟨fun
  | .comment text => [text]
  | .partitionedOn columns => stored columns
  | .tableProperties properties => stored properties⟩

theorem slots_addViewClause (v : CreateView) (c : ViewClause) :
    (addViewClause v c).slots = v.slots.set c.ctorIdx (stored c) := by
  cases c <;> rfl

instance : Stored NamespaceClause := ⟨fun
  | .comment text => [text]
  | .location path => [path]
  | .properties _ properties => stored properties⟩

theorem slots_addNamespaceClause (n : CreateNamespace) (c : NamespaceClause) :
    (addNamespaceClause n c).slots = n.slots.set c.ctorIdx (stored c) := by
  cases c <;> rfl

theorem TableClause.ctorIdx_lt (c : TableClause) : c.ctorIdx < 9 := by
  cases c <;> exact Nat.le_of_ble_eq_true rfl

theorem ViewClause.ctorIdx_lt (c : ViewClause) : c.ctorIdx < 3 := by
  cases c <;> exact Nat.le_of_ble_eq_true rfl

theorem NamespaceClause.ctorIdx_lt (c : NamespaceClause) : c.ctorIdx < 3 := by
  cases c <;> exact Nat.le_of_ble_eq_true rfl

open Parse

theorem stored_foldl_addViewClause (cs : List ViewClause) (v : CreateView) :
    stored v.name ++ stored v.columns ++ stored (lasting ViewClause.ctorIdx cs) ++ stored v.query ⊆
      stored (cs.foldl addViewClause v) := by
  have hslots (v : CreateView) : v.slots.flatten ⊆ stored v := by
    intro x hx
    show x ∈ [stored v.name, stored v.columns, stored v.comment, stored v.partitionedOn,
      stored v.tableProperties, stored v.query].flatten
    simp only [CreateView.slots, List.flatten_cons, List.flatten_nil, List.mem_append] at hx ⊢
    grind
  have hfold : stored (lasting ViewClause.ctorIdx cs) ++
      [stored v.name, stored v.columns, stored v.query].flatten ⊆ _ :=
    stored_foldl_subset slots_addViewClause ViewClause.ctorIdx_lt
      (fun _ => Nat.le_of_ble_eq_true rfl) cs v
  intro x hx
  refine hslots _ (hfold ?_)
  simp only [List.flatten_cons, List.flatten_nil, List.mem_append] at hx ⊢
  grind

theorem stored_foldl_addNamespaceClause (cs : List NamespaceClause) (n : CreateNamespace) :
    stored n.name ++ stored (lasting NamespaceClause.ctorIdx cs) ⊆
      stored (cs.foldl addNamespaceClause n) := by
  have hslots (n : CreateNamespace) : n.slots.flatten ⊆ stored n := by
    intro x hx
    show x ∈ [stored n.name, stored n.comment, stored n.location, stored n.properties].flatten
    simp only [CreateNamespace.slots, List.flatten_cons, List.flatten_nil, List.mem_append] at hx ⊢
    grind
  have hfold : stored (lasting NamespaceClause.ctorIdx cs) ++ [stored n.name].flatten ⊆ _ :=
    stored_foldl_subset slots_addNamespaceClause NamespaceClause.ctorIdx_lt
      (fun _ => Nat.le_of_ble_eq_true rfl) cs n
  intro x hx
  refine hslots _ (hfold ?_)
  simp only [List.flatten_cons, List.flatten_nil, List.mem_append] at hx ⊢
  grind

variable {lost : Input → Nat → Prop} {i : Input} {start mid : Nat}

/-! ## Partitions and inserts -/

theorem keeps_partitionValue : Keeps lost [] partitionValue :=
  .bind keeps_identifier fun _ => .bind (keeps_maybe (.accept _) keeps_expression) fun _ =>
    .build rfl (by simp)

theorem keeps_partitionSpec : Keeps lost [] partitionSpec :=
  .step (.expectWord _) fun _ => .step (.expect _) fun _ =>
    .bind (keeps_commaSeparated keeps_partitionValue) fun _ => .step (.expect _) fun _ => .wrap rfl

theorem keeps_optionalPartition : Keeps lost [] optionalPartition :=
  keeps_maybe (.bind (.isWord _) fun _ => .ite (.peekSymbol _ _) (.pure _)) keeps_partitionSpec

theorem quiet_insertMode : Quiet insertMode :=
  .bind (.acceptWord _) fun _ => .ite (.pure _) (.bind (.expectWord _) fun _ => .pure _)

theorem quiet_isColumnList : Quiet isColumnList :=
  .bind (.isSymbol _) fun _ => .ite (.bind quiet_isQueryStart fun _ => .pure _) (.pure _)

theorem keeps_insertTarget : Keeps lost [] insertTarget := by
  refine .step (.expectWord _) fun _ => .step quiet_insertMode fun _ => .step (.acceptWord _) fun _ => ?_
  refine .bind keeps_dottedName fun _ => .bind keeps_optionalPartition fun _ => ?_
  refine .step (.acceptWords _) fun _ => ?_
  exact .bind (keeps_maybeList quiet_isColumnList keeps_identifierList) fun _ => .build rfl (by simp)

theorem keeps_insert (tables : Option WithClause) : Keeps lost (stored tables) (insert tables) :=
  .bind keeps_insertTarget fun _ => .bind keeps_query fun _ => .build rfl (by simp)

theorem keeps_multiInsertBody : Keeps lost [] multiInsertBody :=
  keeps_maybe (.isWord _) <| .bind keeps_insertTarget fun _ =>
    .bind (keeps_within fun _ h => keeps_select h false) fun _ =>
      .bind (keeps_within fun _ h => keeps_organization h) fun _ => .build rfl (by simp)

/-! ## Updates, deletions and merges -/

theorem keeps_assignments : Keeps lost [] assignments :=
  keeps_commaSeparated <| .bind keeps_dottedName fun _ => .step (.expect _) fun _ =>
    .bind keeps_expression fun _ => .build rfl (by simp)

theorem keeps_optionalWhere : Keeps lost [] optionalWhere := keeps_maybe (.acceptWord _) keeps_expression

theorem keeps_update : Keeps lost [] update := by
  refine .step (.expectWord _) fun _ => .bind keeps_dottedName fun _ => .bind keeps_tableAlias fun _ => ?_
  refine .step (.expectWord _) fun _ => .bind keeps_assignments fun _ => ?_
  exact .bind keeps_optionalWhere fun _ => .build rfl (by simp)

theorem keeps_delete : Keeps lost [] delete :=
  .step (.expectWords _) fun _ => .bind keeps_dottedName fun _ => .bind keeps_tableAlias fun _ =>
    .bind keeps_optionalWhere fun _ => .build rfl (by simp)

theorem quiet_mergeCondition : Quiet mergeCondition :=
  .bind (.acceptWord _) fun _ => .ite (.pure _) <| .bind (.expectWords _) fun _ =>
    .bind (.acceptWords _) fun _ => .ite (.pure _) (.bind (.acceptWords _) fun _ => .pure _)

theorem keeps_mergeInsert : Keeps lost [] mergeInsert := by
  refine .step (.accept _) fun _ => .ite (.empty _) (.bind keeps_identifierList fun _ => ?_)
  refine .step (.expectWord _) fun _ => .step (.expect _) fun _ => ?_
  refine .bind (keeps_within fun _ h => keeps_expressions h) fun _ => .step (.expect _) fun _ => ?_
  exact .build rfl (by simp)

theorem keeps_mergeUpdate : Keeps lost [] mergeUpdate :=
  .step (.accept _) fun _ => .ite (.empty _) (.map keeps_assignments fun _ => rfl)

theorem keeps_mergeAction : Keeps lost [] mergeAction := by
  refine .bind (keeps_chooseRule ?_) fun action => ?_
  · simp only [List.forall_mem_cons, List.not_mem_nil, false_implies, implies_true, and_true]
    exact ⟨.empty _, keeps_mergeUpdate, keeps_mergeInsert⟩
  · cases action with
    | none => exact saves_expected _
    | some action => exact .wrap rfl

theorem keeps_mergeClause : Keeps lost [] mergeClause :=
  keeps_maybe (.acceptWord _) <| .step quiet_mergeCondition fun _ =>
    .bind (keeps_maybe (.acceptWord _) keeps_expression) fun _ => .step (.expectWord _) fun _ =>
      .bind keeps_mergeAction fun _ => .build rfl (by simp)

theorem keeps_merge : Keeps lost [] merge := by
  refine .step (.expectWords _) fun _ => .bind keeps_dottedName fun _ => .bind keeps_tableAlias fun _ => ?_
  refine .step (.expectWord _) fun _ => .bind (keeps_within fun _ h => keeps_tableFactor h) fun _ => ?_
  refine .step (.expectWord _) fun _ => .bind keeps_expression fun _ => ?_
  exact .bind (keeps_many keeps_mergeClause) fun _ => .ite (saves_expected _) (.build rfl (by simp))

/-! ## Parts of definitions -/

theorem infix_written {name : Ident} {parts : List Ident} (h : name ∈ parts) :
    name.written.toList <:+: (".".intercalate (parts.map Ident.written)).toList := by
  induction parts with
  | nil => contradiction
  | cons first rest ih =>
    cases rest with
    | nil =>
      cases List.mem_singleton.1 h
      exact List.infix_rfl
    | cons second rest =>
      rw [List.map_cons, List.map_cons, String.intercalate_cons_cons, String.toList_append,
        String.toList_append, List.append_assoc]
      rcases List.mem_cons.1 h with rfl | h
      · exact (List.prefix_append _ _).isInfix
      · exact (ih h).trans ((List.suffix_append _ _).trans (List.suffix_append _ _)).isInfix

theorem keeps_propertyKey : Keeps lost [] propertyKey := by
  intro i hi start mid
  refine .current ?_
  split
  · exact .of hi keeps_stringLiteral
  · refine .of hi (.bind keeps_dottedName fun name => .within fun s hs => ?_)
    obtain ⟨part, hpart, hs⟩ := Stored.mem_stored_list.1 (List.mem_append.1 hs |>.resolve_left nofun)
    cases List.mem_singleton.1 hs
    exact ⟨_, List.mem_singleton_self _, infix_written hpart⟩

theorem quiet_isPropertyEnd : Quiet isPropertyEnd := by
  refine .of_stays fun i pos => .current_bind ?_
  split
  · exact .pure rfl
  · exact .pure rfl
  · exact .pure rfl

theorem keeps_propertyValue : Keeps lost [] propertyValue :=
  .step (.accept _) fun _ => .ite (.map keeps_expression fun _ => rfl) <|
    .step quiet_isPropertyEnd fun _ => .ite (.empty _) (.map keeps_expression fun _ => rfl)

theorem keeps_property : Keeps lost [] property :=
  .bind keeps_propertyKey fun _ => .bind keeps_propertyValue fun _ => .build rfl (by simp)

theorem keeps_properties : Keeps lost [] properties :=
  .step (.expect _) fun _ => .step (.accept _) fun _ => .ite (.empty _) <|
    .bind (keeps_commaSeparated keeps_property) fun _ => .step (.expect _) fun _ => .wrap rfl

theorem keeps_optionalOptions : Keeps lost [] optionalOptions :=
  keeps_maybeList (.acceptWord _) keeps_properties

theorem keeps_columnPosition : Keeps lost [] columnPosition :=
  .step (.acceptWord _) fun _ => .ite (.empty _) <|
    .step (.acceptWord _) fun _ => .ite (.map keeps_dottedName fun _ => rfl) (.empty _)

theorem keeps_columnDefinition : Keeps lost [] columnDefinition := by
  refine .bind keeps_dottedName fun _ => .bind keeps_dataType fun _ => .step (.acceptWords _) fun _ => ?_
  refine .bind (keeps_maybe (.acceptWord _) keeps_expression) fun _ => ?_
  exact .bind (keeps_optionalString _) fun _ => .bind keeps_columnPosition fun _ => .build rfl (by simp)

theorem keeps_columnDefinitions : Keeps lost [] columnDefinitions :=
  .step (.expect _) fun _ => .bind (keeps_commaSeparated keeps_columnDefinition) fun _ =>
    .step (.expect _) fun _ => .wrap rfl

/-! ## Tables -/

theorem keeps_partitionField : Keeps lost [] partitionField := by
  refine .step (.peek _) fun next => .step .current fun _ => ?_
  refine .ite (.map keeps_expression fun _ => rfl) ?_
  split
  · exact .map keeps_identifier fun _ => rfl
  · exact .map keeps_identifier fun _ => rfl
  · exact .bind keeps_identifier fun _ => .bind keeps_dataType fun _ => .build rfl (by simp)
  · exact .map keeps_expression fun _ => rfl

theorem keeps_partitionFields : Keeps lost [] partitionFields :=
  .step (.expect _) fun _ => .bind (keeps_commaSeparated keeps_partitionField) fun _ =>
    .step (.expect _) fun _ => .wrap rfl

theorem keeps_sortedBy : Keeps lost [] sortedBy :=
  keeps_maybeList (.acceptWords _) <| .step (.expect _) fun _ =>
    .bind (keeps_within fun _ h => keeps_orderItems h) fun _ => .step (.expect _) fun _ => .wrap rfl

theorem keeps_bucketSpec : Keeps lost [] bucketSpec :=
  .bind keeps_identifierList fun _ => .bind keeps_sortedBy fun _ => .step (.expectWord _) fun _ =>
    .bind keeps_number fun _ => .step (.expectWord _) fun _ => .build rfl (by simp)

theorem keeps_tableClause : Keeps lost [] (chooseRule tableClauseRules) := by
  refine keeps_chooseRule ?_
  simp only [tableClauseRules, List.forall_mem_cons, List.not_mem_nil, false_implies, implies_true,
    and_true]
  exact ⟨.map keeps_identifierList fun _ => rfl, .map keeps_partitionFields fun _ => rfl,
    .map keeps_bucketSpec fun _ => rfl, .map keeps_identifier fun _ => rfl,
    .map keeps_stringLiteral fun _ => rfl, .map keeps_number fun _ => rfl,
    .map keeps_properties fun _ => rfl, .map keeps_properties fun _ => rfl,
    .map keeps_stringLiteral fun _ => rfl⟩

theorem keeps_tableClauses
    (hlost : ∀ i k, Overwritten (chooseRule tableClauseRules) TableClause.ctorIdx i k → lost i k) :
    Keeps lost [] tableClauses := by
  refine .bindBy _ (saves_many_lasting keeps_tableClause (ends_chooseRule_none _) hlost) fun cs => ?_
  exact .build rfl (stored_lasting_subset TableClauses.slots_add
    (fun _ c => TableClause.ctorIdx_lt c) cs .empty)

theorem quiet_acceptAsQuery : Quiet acceptAsQuery :=
  .bind (.acceptWord _) fun _ => .ite (.pure _) quiet_isQueryStart

theorem keeps_createTable (mode : CreateMode) (external : Bool)
    (hlost : ∀ i k, Overwritten (chooseRule tableClauseRules) TableClause.ctorIdx i k → lost i k) :
    Keeps lost [] (createTable mode external) := by
  refine .step (.acceptWords _) fun _ => .bind keeps_dottedName fun _ => ?_
  refine .bind (keeps_maybe quiet_isColumnList keeps_columnDefinitions) fun _ => ?_
  refine .bind (keeps_maybe (.acceptWord _) keeps_identifier) fun _ => ?_
  refine .bind (keeps_tableClauses hlost) fun _ => ?_
  exact .bind (keeps_maybe quiet_acceptAsQuery keeps_query) fun _ => .build rfl (by simp)

/-! ## Views -/

theorem keeps_sourceView (orReplace global : Bool) (name : DottedName) :
    Keeps lost (stored name) (sourceView orReplace global name) := by
  refine .bind (keeps_maybe (.isSymbol _) keeps_columnDefinitions) fun _ => .step (.expectWord _) fun _ => ?_
  exact .bind keeps_identifier fun _ => .bind keeps_optionalOptions fun _ => .build rfl (by simp)

theorem keeps_viewColumns : Keeps lost [] viewColumns :=
  keeps_maybe (.accept _) <| .bind (keeps_commaSeparated <| .bind keeps_identifier fun _ =>
    .bind (keeps_optionalString _) fun _ => .build rfl (by simp)) fun _ =>
      .step (.expect _) fun _ => .wrap rfl

theorem keeps_viewClause : Keeps lost [] (chooseRule viewClauseRules) := by
  refine keeps_chooseRule ?_
  simp only [viewClauseRules, List.forall_mem_cons, List.not_mem_nil, false_implies, implies_true,
    and_true]
  exact ⟨.map keeps_stringLiteral fun _ => rfl, .map keeps_identifierList fun _ => rfl,
    .map keeps_properties fun _ => rfl⟩

theorem keeps_queryView (orReplace global temporary ifNotExists : Bool) (name : DottedName)
    (hlost : ∀ i k, Overwritten (chooseRule viewClauseRules) ViewClause.ctorIdx i k → lost i k) :
    Keeps lost (stored name) (queryView orReplace global temporary ifNotExists name) := by
  refine .bind keeps_viewColumns fun columns => ?_
  refine .bindBy _ (saves_many_lasting keeps_viewClause (ends_chooseRule_none _) hlost) fun cs => ?_
  refine .step (.expectWord _) fun _ => .bind keeps_query fun query => ?_
  exact .result fun _ _ hheld => hheld.mono (stored_foldl_addViewClause cs
    ⟨orReplace, global, temporary, ifNotExists, name, columns, none, [], [], query⟩)

theorem quiet_isSourceView : Quiet isSourceView := .of_stays fun i pos _ _ hrun => by
  cases hrun
  rfl

/-! ## Namespaces, functions and indexes -/

theorem keeps_namespaceClause : Keeps lost [] (chooseRule namespaceClauseRules) := by
  refine keeps_chooseRule ?_
  simp only [namespaceClauseRules, List.forall_mem_cons, List.not_mem_nil, false_implies, implies_true,
    and_true]
  exact ⟨.map keeps_stringLiteral fun _ => rfl, .map keeps_stringLiteral fun _ => rfl,
    .map keeps_properties fun _ => rfl, .map keeps_properties fun _ => rfl⟩

theorem keeps_createNamespace (word : NamespaceWord)
    (hlost : ∀ i k, Overwritten (chooseRule namespaceClauseRules) NamespaceClause.ctorIdx i k →
      lost i k) : Keeps lost [] (createNamespace word) := by
  refine .step (.acceptWords _) fun ifNotExists => .bind keeps_dottedName fun name => ?_
  refine .bindBy _ (saves_many_lasting keeps_namespaceClause (ends_chooseRule_none _) hlost) fun cs => ?_
  exact .result fun _ _ hheld => hheld.mono
    (stored_foldl_addNamespaceClause cs ⟨word, ifNotExists, name, none, none, true, []⟩)

theorem keeps_functionResource : Keeps lost [] functionResource := by
  refine .step (.choose _) fun kind => ?_
  cases kind with
  | none => exact saves_expected _
  | some kind => exact .map keeps_stringLiteral fun _ => rfl

theorem keeps_createFunction (orReplace temporary : Bool) :
    Keeps lost [] (createFunction orReplace temporary) := by
  refine .step (.acceptWords _) fun _ => .bind keeps_dottedName fun _ => .step (.expectWord _) fun _ => ?_
  refine .bind keeps_stringLiteral fun _ => ?_
  exact .bind (keeps_maybeList (.acceptWord _) (keeps_commaSeparated keeps_functionResource)) fun _ =>
    .build rfl (by simp)

theorem keeps_indexColumn : Keeps lost [] indexColumn :=
  .bind keeps_dottedName fun _ => .bind keeps_optionalOptions fun _ => .build rfl (by simp)

theorem keeps_createIndex : Keeps lost [] createIndex := by
  refine .step (.acceptWords _) fun _ => .bind keeps_identifier fun _ => .step (.expectWord _) fun _ => ?_
  refine .step (.acceptWord _) fun _ => .bind keeps_dottedName fun _ => ?_
  refine .bind (keeps_maybe (.acceptWord _) keeps_identifier) fun _ => .step (.expect _) fun _ => ?_
  refine .bind (keeps_commaSeparated keeps_indexColumn) fun _ => .step (.expect _) fun _ => ?_
  exact .bind keeps_optionalOptions fun _ => .build rfl (by simp)

/-! ## Columns and partitions of an `ALTER` -/

theorem keeps_columnChange : Keeps lost [] (chooseRule columnChangeRules) := by
  refine keeps_chooseRule ?_
  simp only [columnChangeRules, List.forall_mem_cons, List.not_mem_nil, false_implies, implies_true,
    and_true]
  exact ⟨.map keeps_dataType fun _ => rfl, .map keeps_stringLiteral fun _ => rfl, .empty _, .empty _,
    .empty _, .map keeps_dottedName fun _ => rfl⟩

/-- The first token is the word `ALTER` or `CHANGE`. -/
theorem keepsAt_changeColumn (hi : i.Scanned) {keyword : String}
    (hword : (i.tokenAt mid).isKeyword keyword) (partition : Option PartitionSpec) :
    KeepsAt lost (stored partition) (changeColumn partition) i start mid := by
  refine .isWord (.skipKeyword hword (.of hi ?_))
  refine .step (.acceptWord _) fun _ => .bind keeps_dottedName fun column => ?_
  refine .bind keeps_columnChange fun change => ?_
  cases change with
  | none =>
    exact .ite (.bind keeps_columnDefinition fun _ => .build rfl (by simp)) (saves_expected _)
  | some change =>
    cases partition with
    | none => exact .build rfl (by simp)
    | some partition => exact saves_expected _

theorem keeps_addColumns (plural : Bool) : Keeps lost [] (addColumns plural) :=
  .step (.isSymbol _) fun _ => .ite (.map keeps_columnDefinitions fun _ => rfl)
    (.map (keeps_commaSeparated keeps_columnDefinition) fun _ => rfl)

theorem keeps_dropColumns (plural : Bool) : Keeps lost [] (dropColumns plural) :=
  .step (.acceptWords _) fun _ => .step (.accept _) fun _ => .ite
    (.bind (keeps_commaSeparated keeps_dottedName) fun _ => .step (.expect _) fun _ => .wrap rfl)
    (.map (keeps_commaSeparated keeps_dottedName) fun _ => rfl)

theorem keeps_addedPartition : Keeps lost [] addedPartition :=
  keeps_maybe (.isWord _) <| .bind keeps_partitionSpec fun _ =>
    .bind (keeps_optionalString _) fun _ => .wrap rfl

theorem keeps_addPartitions : Keeps lost [] addPartitions :=
  .step (.acceptWords _) fun _ => .bind (keeps_many keeps_addedPartition) fun _ =>
    .ite (saves_expected _) (.wrap rfl)

theorem keeps_dropPartitions : Keeps lost [] dropPartitions :=
  .step (.acceptWords _) fun _ => .bind (keeps_commaSeparated keeps_partitionSpec) fun _ =>
    .step (.acceptWord _) fun _ => .wrap rfl

/-! ## Actions of an `ALTER` -/

theorem keeps_addAction : Keeps lost [] addAction := by
  refine .step (.choose _) fun plural => ?_
  cases plural with
  | none => exact keeps_addPartitions
  | some plural => exact keeps_addColumns plural

theorem keeps_dropAction : Keeps lost [] dropAction := by
  refine .step (.choose _) fun plural => ?_
  cases plural with
  | none => exact keeps_dropPartitions
  | some plural => exact keeps_dropColumns plural

theorem keeps_renameAction : Keeps lost [] renameAction := by
  refine .step (.acceptWord _) fun _ => .ite ?_ ?_
  · exact .bind keeps_dottedName fun _ => .step (.expectWord _) fun _ => .bind keeps_identifier fun _ =>
      .build rfl (by simp)
  · exact .step (.expectWord _) fun _ => .map keeps_dottedName fun _ => rfl

theorem stored_keys (keys : List String) :
    stored (keys.map fun key => (⟨key, none⟩ : Property)) = stored keys := by
  induction keys with
  | nil => rfl
  | cons key keys ih => exact congrArg (key :: ·) ih

theorem keeps_unsetProperties : Keeps lost [] unsetProperties :=
  .step (.acceptWords _) fun _ => .step (.expect _) fun _ =>
    .bind (keeps_commaSeparated keeps_propertyKey) fun keys => .step (.expect _) fun _ =>
      .wrap (stored_keys keys)

theorem keeps_tableAction : Keeps lost [] tableAction := by
  refine .bind (keeps_chooseRule ?_) fun action => ?_
  · simp only [tableActionRules, List.forall_mem_cons, List.not_mem_nil, false_implies, implies_true,
      and_true]
    exact ⟨.map keeps_optionalPartition fun _ => rfl, keeps_renameAction,
      .map keeps_properties fun _ => rfl, keeps_unsetProperties, keeps_addAction, keeps_dropAction⟩
  · cases action with
    | some action => exact .wrap rfl
    | none =>
      intro i hi start mid
      refine .isWord (.ite (fun hword => keepsAt_changeColumn hi hword none) fun _ => .of hi ?_)
      exact .step (.acceptWords _) fun _ => .ite (.empty _) (saves_expected _)

theorem keeps_partitionAction (partition : Option PartitionSpec) :
    Keeps lost (stored partition) (partitionAction partition) := by
  refine .step (.acceptWords _) fun _ => .ite ?_ (.step (.acceptWords _) fun _ => .ite ?_ ?_)
  · exact .bind keeps_stringLiteral fun _ => .build rfl (by simp)
  · exact .bind keeps_columnDefinitions fun _ => .build rfl (by simp)
  · intro i hi start mid
    refine .isWord (.ite (fun hword => keepsAt_changeColumn hi hword partition) fun _ => .of hi ?_)
    cases partition with
    | none => exact keeps_tableAction
    | some partition => exact saves_expected _

theorem keeps_alterAction : Keeps lost [] alterAction := by
  refine .bind keeps_optionalPartition fun old => ?_
  cases old with
  | none => exact keeps_partitionAction none
  | some old =>
    refine .step (.acceptWords _) fun _ => .ite ?_ (keeps_partitionAction (some old))
    exact .bind keeps_partitionSpec fun _ => .build rfl (by simp)

/-! ## `ALTER` and `DROP` -/

theorem keeps_alterNamespaceAction : Keeps lost [] alterNamespaceAction := by
  refine .bind (keeps_chooseRule ?_) fun action => ?_
  · simp only [List.forall_mem_cons, List.not_mem_nil, false_implies, implies_true, and_true]
    exact ⟨.map keeps_stringLiteral fun _ => rfl, .map keeps_properties fun _ => rfl,
      .map keeps_properties fun _ => rfl⟩
  · cases action with
    | none => exact saves_expected _
    | some action => exact .wrap rfl

theorem keeps_alterNamespace (word : NamespaceWord) : Keeps lost [] (alterNamespace word) :=
  .bind keeps_dottedName fun _ => .step (.expectWord _) fun _ =>
    .bind keeps_alterNamespaceAction fun _ => .build rfl (by simp)

theorem quiet_viewOrTable : Quiet viewOrTable :=
  .bind (.acceptWord _) fun _ => .ite (.pure _) (.bind (.expectWord _) fun _ => .pure _)

theorem keeps_alterTable : Keeps lost [] alterTable := by
  refine .step quiet_viewOrTable fun view => .bind keeps_dottedName fun name => ?_
  intro i hi start mid
  refine .isWord (.ite (fun hview => ?_) fun _ => .of hi ?_)
  · rw [Bool.and_eq_true] at hview
    exact .skipKeyword hview.2 (.of hi (.bind keeps_query fun _ => .build rfl (by simp)))
  · exact .bind keeps_alterAction fun _ => .build rfl (by simp)

theorem keeps_alter : Keeps lost [] alter := by
  refine .step (.expectWord _) fun _ => .step (.choose _) fun word => ?_
  cases word with
  | none => exact keeps_alterTable
  | some word => exact keeps_alterNamespace word

theorem keeps_dropIndex : Keeps lost [] dropIndex :=
  .step (.acceptWords _) fun _ => .bind keeps_identifier fun _ => .step (.expectWord _) fun _ =>
    .step (.acceptWord _) fun _ => .bind keeps_dottedName fun _ => .build rfl (by simp)

theorem keeps_dropTable : Keeps lost [] dropTable := by
  refine .step quiet_viewOrTable fun view => .step (.acceptWords _) fun _ => ?_
  refine .bind keeps_dottedName fun _ => .ite ?_ ?_
  · exact .step (.pure _) fun _ => .wrap rfl
  · exact .step (.acceptWord _) fun _ => .wrap rfl

theorem keeps_drop : Keeps lost [] drop := by
  refine .step (.expectWord _) fun _ => .step (.choose _) fun word => ?_
  cases word with
  | some word =>
    exact .step (.acceptWords _) fun _ => .bind keeps_dottedName fun _ => .step (.choose _) fun _ =>
      .wrap rfl
  | none =>
    refine .step (.acceptWord _) fun _ => .step (.acceptWord _) fun _ => .ite ?_ (.ite (saves_expected _) ?_)
    · exact .step (.acceptWords _) fun _ => .map keeps_dottedName fun _ => rfl
    · exact .step (.acceptWord _) fun _ => .ite keeps_dropIndex keeps_dropTable

end Grammar

end SqlTidy
