import SqlTidy.Proofs.Keep.Command
import SqlTidy.Proofs.Walk.Define

/-!
# Commands walk

A setting takes tokens as they come, so nothing can be said about its brackets: it only *roams*. All other
commands close what they open.
-/

namespace SqlTidy

open Parse

/-- Whether a statement keeps source text as it was written, as a setting or behind `EXPLAIN`. -/
def Statement.isSetting : Statement → Bool
  | .setCatalog _ | .setConfig _ | .reset _ => true
  | .explain _ s => s.isSetting
  | _ => false

namespace Parse

variable {α β : Type} {advances : α → Prop} {s : List Symbol} {n : Nat}

/-- A step that takes tokens as they come. -/
theorem Walks.roam {advances' : β → Prop} {p : Parse β} {k : β → Parse α}
    (hp : Walks n advances' (fun _ => False) [] p)
    (hk : ∀ b, Walks n advances (fun _ => False) s (k b)) :
    Walks n advances (fun _ => False) s (p >>= k) := fun i pos hpos =>
  .bind (fun _ => id) (hp i pos hpos) fun b mid hmid hlast _ =>
    (hk b i mid (hpos.ahead hmid hlast)).imp (fun _ => And.left) fun _ => id

/-- A result that is a setting owes nothing for its brackets. -/
theorem Walks.setting {p : Parse α} {f : α → Statement}
    (hp : Walks n (fun _ => False) (fun _ => False) [] p) (hf : ∀ a, (f a).isSetting = true) :
    Walks n (fun _ => False) (fun s => s.isSetting = false) []
      (p >>= fun a => Pure.pure (f a)) := by
  intro i pos hpos
  refine .map ((hp i pos hpos).imp (fun _ => id) fun a hfalse => ?_)
  rw [hf a] at hfalse
  contradiction

end Parse

namespace Grammar

variable {i : Input} {pos n : Nat}

/-! ## Maintenance -/

theorem takes_truncate : Takes n [] truncate :=
  .take (takes_expectWords _ _) fun _ => .bind takes_dottedName fun _ =>
    .mapPasses steps_optionalPartition.passes

theorem steps_repairOption : Steps n [] repairOption :=
  .matchTake (steps_choose rfl) (fun _ => .bind (takes_expectWord _) fun _ => .done _) .decline

theorem takes_repair : Takes n [] repair :=
  .bind (tests_acceptWord _) fun _ => .take (takes_expectWords _ _) fun _ =>
    .bind takes_dottedName fun _ => .mapPasses steps_repairOption.passes

theorem steps_scope : Steps n [] scope :=
  .matchTake (steps_choose rfl) (fun _ => .map takes_dottedName) .decline

theorem passes_analyzeTarget : Passes n [] analyzeTarget :=
  .matchTake
    (steps_rule rfl (.done _) <| steps_rule rfl (.done _) <|
      steps_rule rfl (.map (takes_commaSeparated takes_dottedName)) steps_noRule)
    (fun _ => .done _) (.done _)

theorem takes_analyzeTable : Takes n [] analyzeTable :=
  .take (takes_expectWord _) fun _ => .bind takes_dottedName fun _ =>
    .bind steps_optionalPartition fun _ => .bind (passes_expectWords _) fun _ =>
    .mapPasses passes_analyzeTarget

theorem takes_analyzeTables : Takes n [] analyzeTables :=
  .bind steps_scope fun _ => .take (takes_expectWords _ _) fun _ =>
    .mapPasses (tests_acceptWord _).passes

theorem takes_analyze : Takes n [] analyze :=
  .take (takes_expectWord _) fun _ =>
    .ifTake (tests_acceptWord _) takes_analyzeTables.passes takes_analyzeTable.passes

theorem takes_commentTarget : Takes n [] commentTarget :=
  .ifTake (tests_acceptWord _) (.done _) <|
    .matchTake steps_namespaceWord (fun _ => .done _) (walks_expected _)

theorem takes_nullableString : Takes n [] nullableString :=
  .ifTake (tests_acceptWord _) (.done _) (.map takes_stringLiteral)

theorem takes_commentOn : Takes n [] commentOn :=
  .take (takes_expectWords _ _) fun _ => .bind takes_commentTarget fun _ =>
    .bind takes_dottedName fun _ => .bind (takes_expectWord _) fun _ => .map takes_nullableString

/-! ## Session -/

theorem takes_use : Takes n [] use := by
  refine .take (takes_expectWord _) fun _ => .look (.peek _) fun _ => .ite ?_ ?_
  · exact .bind steps_namespaceWord fun _ => .map takes_dottedName
  · exact .map takes_dottedName

theorem looks_inStatement : Looks inStatement := by
  refine .bind .current fun t => ?_
  split
  · exact .pure _
  · exact .pure _
  · exact .pure _

/-- The statement goes on only where the text does. -/
theorem ne_eof_of_inStatement (h : inStatement i pos = (.ok true, pos)) : i.tokenAt pos ≠ .eof := by
  intro heof
  simp [inStatement, current, peek, Bind.bind, Pure.pure, heof] at h

theorem roams_skipToken :
    Walks n (fun a => a.isSome = true) (fun _ => False) [] skipToken := by
  intro i pos hpos
  obtain ⟨found, hfound⟩ := looks_inStatement i pos
  refine .stay hfound (.ite (fun htrue => ?_) fun _ => .of hpos .decline)
  subst htrue
  have hne := ne_eof_of_inStatement hfound
  have hrun : (skip >>= fun a => pure (some a)) i pos = (.ok (some ()), pos + 1) := by
    simp only [Bind.bind, skip_of_ne_eof hne]
    rfl
  exact .of_ok hrun ⟨Nat.le_succ pos, hpos.lt_last hne, fun _ => Nat.lt_succ_self pos, False.elim⟩

theorem roams_skipKeyToken :
    Walks n (fun a => a.isSome = true) (fun _ => False) [] skipKeyToken :=
  .look (.isSymbol _) fun _ => .ite .decline roams_skipToken

theorem looks_rawText (start stop : Nat) : Looks (rawText start stop) :=
  .bind (fun _ _ => ⟨_, rfl⟩) fun _ => .pure _

theorem looks_offset : Looks offset := fun _ _ => ⟨_, rfl⟩

theorem looks_previousEnd : Looks previousEnd := fun _ _ => ⟨_, rfl⟩

theorem roams_rawSetting : Walks n (fun _ => False) (fun _ => False) [] rawSetting := by
  refine .look looks_offset fun _ => .roam (walks_many roams_skipKeyToken) fun _ i pos hpos => ?_
  refine .isSymbol (.ite (fun heq => ?_) fun _ => .of hpos (.ite (.done _) ?_))
  · refine .look looks_offset fun _ => .look (looks_rawText _ _) fun _ => ?_
    refine .skipFirst hpos.succ (of_decide_eq_true heq) nofun rfl <| .look looks_offset fun _ => ?_
    refine .roam (walks_many roams_skipToken) fun _ => .ite (.done _) ?_
    exact .look looks_previousEnd fun _ => .look (looks_rawText _ _) fun _ => .done _
  · exact .look looks_previousEnd fun _ => .look (looks_rawText _ _) fun _ => .done _

theorem roams_catalogName : Walks n (fun _ => False) (fun _ => False) [] catalogName := by
  refine .look looks_offset fun _ => .roam (walks_many roams_skipToken) fun _ => ?_
  exact .look looks_previousEnd fun _ => Walks.imp (Looks.passes fun _ _ => ⟨_, rfl⟩) (fun _ => id) nofun

theorem looks_isSetCatalog : Looks isSetCatalog :=
  .bind (.peek _) fun _ => .bind (.isWord _) fun _ => .ite (.pure _) (.pure _)

theorem walks_set : Walks n (fun _ => True) (fun s => s.isSetting = false) [] set := by
  refine .take (takes_expectWord _) fun _ i pos hpos => ?_
  obtain ⟨found, hfound⟩ := looks_isSetCatalog i pos
  refine .stay hfound (.ite (fun htrue => ?_) fun _ => .of hpos ?_)
  · have hword := (ends_isSetCatalog found pos hfound).2 htrue
    exact .skipFirst hpos.succ rfl (ne_eof_of_isKeyword hword) (Token.nest_of_isKeyword hword [])
      (.setting roams_catalogName fun _ => rfl)
  · exact .setting roams_rawSetting fun _ => rfl

theorem walksAt_reset {word : String} (hpos : i.Leaves pos n) (hword : i.tokenAt pos = .word word) :
    WalksAt (fun _ => True) (fun s => s.isSetting = false) [] reset i pos :=
  .skipFirst hpos.succ hword nofun rfl (.setting roams_rawSetting fun _ => rfl)

/-! ## Questions to the catalog -/

theorem steps_showPattern : Steps n [] showPattern := by
  refine .ifTake (tests_acceptWord _) (.map takes_stringLiteral) <| .look .current fun _ => ?_
  split
  · exact .map takes_stringLiteral
  · exact .decline

theorem passes_scopeAndPattern (make : Option Scope → Option ShowPattern → Show) :
    Passes n [] (scopeAndPattern make) :=
  .bind steps_scope fun _ => .mapPasses steps_showPattern.passes

theorem passes_showTableExtended : Passes n [] showTableExtended :=
  .bind (takes_expectWord _) fun _ => .bind steps_scope fun _ => .bind (takes_expectWord _) fun _ =>
    .bind takes_stringLiteral fun _ => .mapPasses steps_optionalPartition.passes

theorem passes_showColumns : Passes n [] showColumns :=
  .matchTake steps_scope (fun _ => .mapPasses steps_scope.passes) (walks_expected _)

theorem passes_showPartitions : Passes n [] showPartitions :=
  .bind takes_dottedName fun _ => .mapPasses steps_optionalPartition.passes

theorem passes_showTableProperties : Passes n [] showTableProperties :=
  .bind takes_dottedName fun _ => .mapPasses <| Walks.passes <| steps_maybeOpen rfl <|
    .bind takes_propertyKey fun _ => .expect rfl (.done _)

theorem passes_showFunctions (kind : FunctionKind) : Passes n [] (showFunctions kind) :=
  .bind (takes_expectWord _) fun _ => passes_scopeAndPattern _

theorem passes_showCreateTable : Passes n [] showCreateTable :=
  .bind (takes_expectWord _) fun _ => .bind takes_dottedName fun _ =>
    .mapPasses (tests_acceptWords rfl).passes

theorem steps_showRule : Steps n [] (chooseRule showRules) :=
  steps_rule rfl (passes_scopeAndPattern _) <| steps_rule rfl (passes_scopeAndPattern _) <|
    steps_rule rfl (passes_scopeAndPattern _) <| steps_rule rfl (passes_scopeAndPattern _) <|
    steps_rule rfl passes_showTableExtended <| steps_rule rfl (passes_scopeAndPattern _) <|
    steps_rule rfl passes_showColumns <| steps_rule rfl passes_showPartitions <|
    steps_rule rfl passes_showTableProperties <| steps_rule rfl (passes_showFunctions _) <|
    steps_rule rfl (passes_showFunctions _) <| steps_rule rfl (passes_showFunctions _) <|
    steps_rule rfl (passes_scopeAndPattern _) <| steps_rule rfl passes_showCreateTable <|
    steps_rule rfl (.mapPasses steps_showPattern.passes) <|
    steps_rule rfl (.bind (takes_expectWord _) fun _ => .done _) steps_noRule

theorem takes_show : Takes n [] show? :=
  .take (takes_expectWord _) fun _ => .matchTake steps_showRule (fun _ => .done _) (walks_expected _)

theorem looks_isDescribedQuery : Looks isDescribedQuery :=
  .bind (.isWord _) fun _ => .ite (.pure _) <| .bind (.isWord _) fun _ =>
    .ite (.pure _) looks_isQueryStart

theorem takes_describeTable : Takes n [] describeTable :=
  .bind (tests_acceptWord _) fun _ => .bind (steps_choose rfl) fun _ => .take takes_dottedName fun _ =>
    .bind steps_optionalPartition fun _ => .mapPasses <| Walks.passes <|
    steps_maybeIf (Looks.passes (.bind .current fun _ => .pure _)) takes_dottedName

theorem takes_describeNamespace (word : NamespaceWord) : Takes n [] (describeNamespace word) :=
  .bind (tests_acceptWord _) fun _ => .map takes_dottedName

theorem takes_describeTarget : Takes n [] describeTarget := by
  refine .look looks_isDescribedQuery fun _ => .ite ?_ (.ifTake (tests_acceptWord _) ?_ ?_)
  · exact .bind (tests_acceptWord _) fun _ => .map takes_query
  · exact .bind (tests_acceptWord _) fun _ => .map takes_dottedName
  · refine .look (.peek _) fun _ => .ite ?_ takes_describeTable
    exact .matchTake steps_namespaceWord (fun word => (takes_describeNamespace word).passes)
      takes_describeTable

theorem walksAt_describe {word : String} (hpos : i.Leaves pos n) (hword : i.tokenAt pos = .word word) :
    WalksAt (fun _ => True) (fun _ => True) [] describe i pos :=
  .look (.isWord _) fun _ => .skipFirst hpos.succ hword nofun rfl (.map takes_describeTarget)

/-! ## Moving data -/

theorem takes_call : Takes n [] call :=
  .take (takes_expectWord _) fun _ => .bind takes_dottedName fun _ => .expect rfl <|
    .bind (walks_within fun _ _ h => passes_callArgsBeforeParen h) fun _ => .expect rfl (.done _)

theorem takes_loadData : Takes n [] loadData :=
  .bind (tests_acceptWord _) fun _ => .take (takes_expectWord _) fun _ =>
    .bind takes_stringLiteral fun _ => .bind (tests_acceptWord _) fun _ =>
    .bind (passes_expectWords _) fun _ => .bind takes_dottedName fun _ =>
    .mapPasses steps_optionalPartition.passes

theorem takes_loadFile : Takes n [] loadFile :=
  .take takes_stringLiteral fun _ => .bind (tests_acceptWord _) fun _ => .bind takes_dottedName fun _ =>
    .mapPasses passes_optionalOptions

theorem takes_load : Takes n [] load := by
  refine .take (takes_expectWords _ _) fun _ => .look .current fun _ => ?_
  split
  · exact .map takes_loadFile
  · exact .map takes_loadData

theorem takes_exportTable (tables : Option WithClause) : Takes n [] (exportTable tables) :=
  .take (takes_expectWords _ _) fun _ => .bind takes_dottedName fun _ =>
    .bind steps_optionalPartition fun _ => .bind (takes_expectWord _) fun _ =>
    .bind takes_stringLiteral fun _ => .mapPasses passes_optionalOptions

theorem takes_mergeFiles : Takes n [] mergeFiles :=
  .take (takes_expectWords _ _) fun _ => .bind takes_dottedName fun _ =>
    .bind steps_optionalPartition fun _ => .mapPasses passes_optionalOptions

/-! ## Tunnels -/

theorem takes_tunnelScalar : Takes n [] tunnelScalar :=
  takes_expectIf (nest_of_meaning fun _ => rfl)

theorem takes_tunnelValue : Takes n [] tunnelValue := by
  refine walks_fix fun n inner h => .acceptFirst rfl ?_ ?_
  · exact .bind (passes_maybeList (Looks.isSymbol _).not.passes (takes_commaSeparated h).passes)
      fun _ => .expect rfl (.done _)
  · exact .ifTake (tests_accept rfl) (.map takes_tunnelScalar) (.map takes_tunnelScalar)

theorem takes_tunnelProperty : Takes n [] tunnelProperty :=
  .take takes_propertyKey fun _ => .expect rfl (.map takes_tunnelValue)

theorem takes_tunnelOptions : Takes n [] tunnelOptions :=
  .take (takes_expectWord _) fun _ => .expect rfl <| .accept rfl (.done _) <|
    .bind (takes_commaSeparated takes_tunnelProperty) fun _ => .expect rfl (.done _)

theorem takes_tunnelEnd (keyword : String) : Takes n [] (tunnelEnd keyword) :=
  .take (takes_expectWord _) fun _ => .expect rfl <| .bind takes_stringLiteral fun _ =>
    .expect rfl (.done _)

theorem steps_tunnelTransform : Steps n [] tunnelTransform :=
  steps_maybe (tests_acceptWord _) <| .expect rfl takes_stringLiteral.passes

theorem takes_dataTunnel : Takes n [] dataTunnel :=
  .take (takes_expectWord _) fun _ => .bind (takes_tunnelEnd _) fun _ => .bind takes_tunnelOptions fun _ =>
    .bind steps_tunnelTransform fun _ => .bind (takes_tunnelEnd _) fun _ => .map takes_tunnelOptions

end Grammar

end SqlTidy
