import SqlTidy.Proofs.Keep.Define
import SqlTidy.Proofs.Keep.Setting

/-!
# Commands keep their literals

One lemma per command, but for `RESET`, which throws away what stands behind an equals sign.
-/

namespace SqlTidy

namespace Grammar

open Parse

variable {lost : Input → Nat → Prop} {i : Input} {start mid : Nat}

/-! ## Maintenance -/

theorem keeps_truncate : Keeps lost [] truncate :=
  .step (.expectWords _) fun _ => .bind keeps_dottedName fun _ => .bind keeps_optionalPartition fun _ =>
    .build rfl (by simp)

theorem quiet_repairOption : Quiet repairOption := by
  refine .bind (.choose _) fun option => ?_
  cases option with
  | none => exact .pure _
  | some option => exact .bind (.expectWord _) fun _ => .pure _

theorem keeps_repair : Keeps lost [] repair :=
  .step (.acceptWord _) fun _ => .step (.expectWords _) fun _ => .bind keeps_dottedName fun _ =>
    .step quiet_repairOption fun _ => .wrap rfl

theorem keeps_scope : Keeps lost [] scope := by
  refine .step (.choose _) fun word => ?_
  cases word with
  | none => exact .empty _
  | some word => exact .map keeps_dottedName fun _ => rfl

theorem keeps_analyzeTarget : Keeps lost [] analyzeTarget := by
  refine .bind (keeps_chooseRule ?_) fun target => ?_
  · simp only [List.forall_mem_cons, List.not_mem_nil, false_implies, implies_true, and_true]
    exact ⟨.empty _, .empty _, .map (keeps_commaSeparated keeps_dottedName) fun _ => rfl⟩
  · cases target with
    | none => exact .empty _
    | some target => exact .wrap rfl

theorem keeps_analyze : Keeps lost [] analyze := by
  refine .step (.expectWord _) fun _ => .step (.acceptWord _) fun _ => .ite ?_ ?_
  · exact .bind keeps_scope fun _ => .step (.expectWords _) fun _ => .step (.acceptWord _) fun _ =>
      .wrap rfl
  · exact .step (.expectWord _) fun _ => .bind keeps_dottedName fun _ =>
      .bind keeps_optionalPartition fun _ => .step (.expectWords _) fun _ =>
        .bind keeps_analyzeTarget fun _ => .build rfl (by simp)

theorem quiet_commentTarget : Quiet commentTarget := by
  refine .bind (.acceptWord _) fun _ => .ite (.pure _) (.bind (.choose _) fun word => ?_)
  cases word with
  | none => exact .expected _
  | some word => exact .pure _

theorem keeps_commentOn : Keeps lost [] commentOn := by
  have hstring : Keeps lost [] nullableString :=
    .step (.acceptWord _) fun _ => .ite (.empty _) (.map keeps_stringLiteral fun _ => rfl)
  exact .step (.expectWords _) fun _ => .step quiet_commentTarget fun _ => .bind keeps_dottedName fun _ =>
    .step (.expectWord _) fun _ => .bind hstring fun _ => .build rfl (by simp)

/-! ## Session -/

theorem keeps_use : Keeps lost [] use := by
  refine .step (.expectWord _) fun _ => .step (.peek _) fun _ => .ite ?_ ?_
  · exact .step (.choose _) fun _ => .bind keeps_dottedName fun _ => .wrap rfl
  · exact .step (.pure _) fun _ => .bind keeps_dottedName fun _ => .wrap rfl

theorem ends_isSetCatalog : Ends isSetCatalog i mid fun found next =>
    next = mid ∧ (found → (i.tokenAt mid).isKeyword "CATALOG") := by
  refine .peek_bind ?_
  show Ends (if (i.tokenAt mid).isKeyword "CATALOG" = true then _ else _) i mid _
  exact .ite (fun hword => .pure ⟨rfl, fun _ => hword⟩) fun _ => .pure ⟨rfl, nofun⟩

theorem keeps_set : Keeps lost [] set := by
  refine .step (.expectWord _) fun _ => ?_
  intro i hi start mid
  refine .lookFor ends_isSetCatalog fun found hfound => .ite (fun hcatalog => ?_) fun _ => .of hi ?_
  · refine .skipKeyword (hfound hcatalog) (.of hi (.map keeps_catalogName fun _ => rfl))
  · exact .bind keeps_rawSetting fun ⟨key, value⟩ => .build rfl (by simp)

/-! ## Questions to the catalog -/

theorem keeps_showPattern : Keeps lost [] showPattern := by
  refine .step (.acceptWord _) fun _ => .ite (.map keeps_stringLiteral fun _ => rfl) ?_
  refine .step .current fun _ => ?_
  split
  · exact .map keeps_stringLiteral fun _ => rfl
  · exact .empty _

theorem keeps_scopeAndPattern {make : Option Scope → Option ShowPattern → Show}
    (h : ∀ scope pattern, stored (make scope pattern) = [stored scope, stored pattern].flatten) :
    Keeps lost [] (scopeAndPattern make) :=
  .bind keeps_scope fun _ => .bind keeps_showPattern fun _ => .build (h _ _) (by simp)

theorem keeps_showTableExtended : Keeps lost [] showTableExtended := by
  refine .step (.expectWord _) fun _ => .bind keeps_scope fun _ => .step (.expectWord _) fun _ => ?_
  exact .bind keeps_stringLiteral fun _ => .bind keeps_optionalPartition fun _ => .build rfl (by simp)

theorem keeps_showColumns : Keeps lost [] showColumns := by
  refine .bind keeps_scope fun table => ?_
  cases table with
  | none => exact saves_expected _
  | some table => exact .bind keeps_scope fun _ => .build rfl (by simp)

theorem keeps_showPartitions : Keeps lost [] showPartitions :=
  .bind keeps_dottedName fun _ => .bind keeps_optionalPartition fun _ => .build rfl (by simp)

theorem keeps_showTableProperties : Keeps lost [] showTableProperties := by
  refine .bind keeps_dottedName fun _ => .bind (keeps_maybe (.accept _) ?_) fun _ => .build rfl (by simp)
  exact .bind keeps_propertyKey fun _ => .step (.expect _) fun _ => .wrap rfl

theorem keeps_showFunctions (kind : FunctionKind) : Keeps lost [] (showFunctions kind) :=
  .step (.expectWord _) fun _ => keeps_scopeAndPattern fun _ _ => rfl

theorem keeps_showCreateTable : Keeps lost [] showCreateTable :=
  .step (.expectWord _) fun _ => .bind keeps_dottedName fun _ => .step (.acceptWords _) fun _ => .wrap rfl

theorem keeps_show : Keeps lost [] show? := by
  refine .step (.expectWord _) fun _ => .bind (keeps_chooseRule ?_) fun target => ?_
  · have hlist {make : Option Scope → Option ShowPattern → Show}
        (h : ∀ scope pattern, stored (make scope pattern) = [stored scope, stored pattern].flatten) :
        Keeps lost [] (scopeAndPattern make) := keeps_scopeAndPattern h
    simp only [showRules, List.forall_mem_cons, List.not_mem_nil, false_implies, implies_true, and_true]
    refine ⟨hlist fun _ _ => rfl, hlist fun _ _ => rfl, hlist fun _ _ => rfl, hlist fun _ _ => rfl,
      keeps_showTableExtended, hlist fun _ _ => rfl, keeps_showColumns, keeps_showPartitions,
      keeps_showTableProperties, keeps_showFunctions _, keeps_showFunctions _, keeps_showFunctions _,
      hlist fun _ _ => rfl, keeps_showCreateTable, .map keeps_showPattern fun _ => rfl, ?_⟩
    exact .step (.expectWord _) fun _ => .empty _
  · cases target with
    | none => exact saves_expected _
    | some target => exact .wrap rfl

theorem quiet_isDescribedQuery : Quiet isDescribedQuery :=
  .bind (.isWord _) fun _ => .ite (.pure _) (.bind (.isWord _) fun _ => .ite (.pure _) quiet_isQueryStart)

theorem keeps_describeTable : Keeps lost [] describeTable := by
  refine .step (.acceptWord _) fun _ => .step (.choose _) fun _ => .bind keeps_dottedName fun _ => ?_
  refine .bind keeps_optionalPartition fun _ => ?_
  refine .bind (keeps_maybe (.bind .current fun _ => .pure _) keeps_dottedName) fun _ => ?_
  exact .build rfl (by simp)

theorem keeps_describeTarget : Keeps lost [] describeTarget := by
  refine .step quiet_isDescribedQuery fun _ => .ite ?_ (.step (.acceptWord _) fun _ => .ite ?_ ?_)
  · exact .step (.acceptWord _) fun _ => .map keeps_query fun _ => rfl
  · exact .step (.acceptWord _) fun _ => .map keeps_dottedName fun _ => rfl
  refine .step (.peek _) fun _ => .ite (.step (.choose _) fun word => ?_) keeps_describeTable
  cases word with
  | none => exact keeps_describeTable
  | some word => exact .step (.acceptWord _) fun _ => .map keeps_dottedName fun _ => rfl

theorem keepsAt_describe {word : String} (hi : i.Scanned) (hword : i.tokenAt mid = .word word) :
    KeepsAt lost [] describe i start mid :=
  .isWord (.skipWord hword (.of hi (.map keeps_describeTarget fun _ => rfl)))

/-! ## Moving data -/

theorem keeps_call : Keeps lost [] call := by
  refine .step (.expectWord _) fun _ => .bind keeps_dottedName fun _ => .step (.expect _) fun _ => ?_
  refine .bind (keeps_within fun _ h => keeps_callArgsBeforeParen h) fun _ => .step (.expect _) fun _ => ?_
  exact .build rfl (by simp)

theorem keeps_loadData : Keeps lost [] loadData := by
  refine .step (.acceptWord _) fun _ => .step (.expectWord _) fun _ => .bind keeps_stringLiteral fun _ => ?_
  refine .step (.acceptWord _) fun _ => .step (.expectWords _) fun _ => .bind keeps_dottedName fun _ => ?_
  exact .bind keeps_optionalPartition fun _ => .build rfl (by simp)

theorem keeps_loadFile : Keeps lost [] loadFile :=
  .bind keeps_stringLiteral fun _ => .step (.acceptWord _) fun _ => .bind keeps_dottedName fun _ =>
    .bind keeps_optionalOptions fun _ => .build rfl (by simp)

theorem keeps_load : Keeps lost [] load := by
  refine .step (.expectWords _) fun _ => .step .current fun _ => ?_
  split
  · exact .map keeps_loadFile fun _ => rfl
  · exact .map keeps_loadData fun _ => rfl

theorem keeps_exportTable (tables : Option WithClause) :
    Keeps lost (stored tables) (exportTable tables) := by
  refine .step (.expectWords _) fun _ => .bind keeps_dottedName fun _ => ?_
  refine .bind keeps_optionalPartition fun _ => .step (.expectWord _) fun _ => ?_
  exact .bind keeps_stringLiteral fun _ => .bind keeps_optionalOptions fun _ => .build rfl (by simp)

theorem keeps_mergeFiles : Keeps lost [] mergeFiles :=
  .step (.expectWords _) fun _ => .bind keeps_dottedName fun _ => .bind keeps_optionalPartition fun _ =>
    .bind keeps_optionalOptions fun _ => .build rfl (by simp)

/-! ## Tunnels -/

theorem keeps_tunnelScalar : Keeps lost [] tunnelScalar := by
  refine keeps_expectIf fun t s hs hlit => ⟨s, List.mem_singleton_self s, ?_⟩
  split at hs
  · cases hs
    exact List.infix_rfl
  · cases hs
    exact List.infix_rfl
  · contradiction
  · contradiction

theorem keeps_tunnelValue : Keeps lost [] tunnelValue := by
  refine saves_fix fun inner h => .step (.accept _) fun _ => .ite ?_ (.step (.accept _) fun _ => .ite ?_ ?_)
  · refine .bind (keeps_maybeList (.bind (.isSymbol _) fun _ => .pure _) (keeps_commaSeparated h))
      fun items => .step (.expect _) fun _ => .wrap ?_
    exact TunnelValue.itemStrings_eq items
  · refine .bind keeps_tunnelScalar fun text => .within fun s hs => ⟨"-" ++ text, ?_, ?_⟩
    · exact List.mem_singleton_self _
    · cases List.mem_singleton.1 hs
      rw [String.toList_append]
      exact (List.suffix_append _ _).isInfix
  · exact .map keeps_tunnelScalar fun _ => rfl

theorem keeps_tunnelProperty : Keeps lost [] tunnelProperty :=
  .bind keeps_propertyKey fun _ => .step (.expect _) fun _ => .bind keeps_tunnelValue fun _ =>
    .build rfl (by simp)

theorem keeps_tunnelOptions : Keeps lost [] tunnelOptions :=
  .step (.expectWord _) fun _ => .step (.expect _) fun _ => .step (.accept _) fun _ => .ite (.empty _) <|
    .bind (keeps_commaSeparated keeps_tunnelProperty) fun _ => .step (.expect _) fun _ => .wrap rfl

theorem keeps_tunnelEnd (keyword : String) : Keeps lost [] (tunnelEnd keyword) :=
  .step (.expectWord _) fun _ => .step (.expect _) fun _ => .bind keeps_stringLiteral fun _ =>
    .step (.expect _) fun _ => .wrap rfl

theorem keeps_dataTunnel : Keeps lost [] dataTunnel := by
  refine .step (.expectWord _) fun _ => .bind (keeps_tunnelEnd _) fun _ => .bind keeps_tunnelOptions fun _ => ?_
  refine .bind (keeps_maybe (.acceptWord _) (.step (.expect _) fun _ => keeps_stringLiteral)) fun _ => ?_
  exact .bind (keeps_tunnelEnd _) fun _ => .bind keeps_tunnelOptions fun _ => .build rfl (by simp)

end Grammar

end SqlTidy
