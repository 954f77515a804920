import SqlTidy.Proofs.Render.Layout

/-!
# Expressions and queries carry their strings

**Theorem (`Tree.renders`).** The document of a tree, laid out as a condition or not, shows every string of
the tree and closes every bracket that it opens.

One case per constructor, and each case reads the layout of that constructor from left to right.
-/

namespace SqlTidy

open Text Doc Layout

/-! ## Data types -/

mutual

theorem DataType.renders : (t : DataType) → Renders t.strings t.doc
  | .primitive name params => by
    have hparams : Renders (stored params) (Doc.when (!params.isEmpty) (.parens (params.map Doc.text))) := by
      cases params with
      | nil => exact .nil
      | cons param params => exact .parens (.map (fun p => .leaf p) (param :: params))
    exact (Carries.leaf name).append hparams
  | .array _ element => .seq <| .leaf <| .word rfl <| .part element.renders <| .word rfl .nil
  | .map _ key value =>
    .seq <| .leaf <| .word rfl <| .part key.renders <| .word rfl <| .part value.renders <|
      .word rfl .nil
  | .struct _ fields =>
    .seq <| .leaf <| .word rfl <| .part (.commas (DataType.renders_fields fields)) <| .word rfl .nil
  | .interval _ stop => .seq <| .word rfl <| .leaf <| .part (.optText rfl stop) .nil

theorem DataType.renders_fields : (fs : List StructField) →
    Each Renders (DataType.fieldStrings fs) (DataType.fieldDocs fs)
  | [] => .nil
  | f :: fs => .cons f.renders (DataType.renders_fields fs)

theorem StructField.renders : (f : StructField) → Renders f.strings f.doc
  | ⟨name, _, type, notNull, comment⟩ =>
    .seq <| .part (renders_ident name) <| .skip (.ite (.word rfl) (.word rfl)) <|
      .part type.renders <| .skip (.when notNull (.word rfl)) <| .part (.optText rfl comment) .nil

end

/-! ## Small parts of trees -/

namespace Layout

theorem renders_minusGap (op : UnaryOp) (e : Expr) : Renders [] (minusGap op e) := by
  unfold minusGap
  split
  · exact .word rfl
  · exact .nil

theorem awaiting_joinKind (kind : JoinKind) : awaiting [] kind.spelling.toList = some [] := by
  match kind with
  | .inner true | .inner false | .left true | .left false | .right true | .right false => rfl
  | .full true | .full false | .semi true | .semi false | .anti true | .anti false => rfl
  | .cross => rfl

theorem renders_typedLiteralGap (type : String) : Renders [] (typedLiteralGap type) :=
  .ite .nil (.word rfl)

theorem renders_pivotColumns (names : List DottedName) :
    Renders (stored names) (pivotColumns names) := by
  match names with
  | [name] =>
    rw [Stored.stored_cons, Stored.stored_nil, List.append_nil]
    exact renders_name name
  | [] => exact .parens .nil
  | first :: second :: rest => exact .parens (.map renders_name (first :: second :: rest))

/-- A condition on a new line below its keyword. -/
theorem renders_conditionLine {ss : List String} {d : Doc} {w : String}
    (hw : awaiting [] w.toList = some []) (h : Renders ss d) :
    Renders ss (.line ++ conditionClause w d) :=
  Carries.line.after (.conditionClause hw h)

/-- The sort keys of an ordered set aggregate, if there are any. -/
theorem renders_withinGroup {ss : List String} {ds : List Doc} : Each Renders ss ds →
    Renders ss
      (match ds with
        | [] => .nil
        | ds => .seq [" WITHIN GROUP (ORDER BY ", .commas ds, ")"])
  | .nil => .nil
  | .cons head tail => .seqOne <| .word rfl <| .part (.commas (.cons head tail)) <| .word rfl .nil

/-- The column names of a lateral view, if there are any. -/
theorem renders_viewColumns (names : List Ident) :
    Renders (stored names)
      (match names with
        | [] => .nil
        | names => " " ++ Doc.commas (names.map fun i => i.written)) := by
  cases names with
  | nil => exact .nil
  | cons name names => exact (Carries.word rfl).after (.commas (renders_idents (name :: names)))

end Layout


/-- What a tree of each category is rendered to, with the strings that it carries. -/
def Category.Renders : (c : Category) → List String → c.Rendered → Prop
  | .list c => Each c.Renders
  | .option c => Maybe c.Renders
  | .expr | .call | .callArg | .caseBranch
  | .window | .windowDefinition | .frame | .frameBound
  | .orderItem | .selectItem
  | .query | .withClause | .commonTable | .queryBody | .fromBody
  | .select | .hint | .hintFunction
  | .fromClause | .relation | .tableFactor | .sample | .join | .joinConstraint | .lateralView | .pivot
  | .groupBy | .groupingItem | .groupingElement | .namedWindow
  | .organization | .limit => Doc.Renders

/-! ## Trees -/

/-- The document of a tree shows its strings and closes what it opens. -/
theorem Tree.renders : {c : Category} → (broken : Bool) → (t : Tree c) →
    c.Renders t.strings (t.render broken)
  | _, _, .nil => Each.nil
  | _, _, .cons head tail => Each.cons (head.renders false) (tail.renders false)
  | _, _, .none => Maybe.none
  | _, _, .some value => Maybe.some (value.renders false)
  -- Expressions.
  | _, _, .ident name => renders_ident name
  | _, _, .compound parts => Carries.sep rfl (renders_idents parts)
  | _, _, .wildcard => Carries.word rfl
  | _, _, .qualifiedWildcard qualifier => Carries.seqOne <| .part (renders_name qualifier) <| .word rfl .nil
  | _, _, .literal value => renders_literal value
  | _, _, .typedLiteral type _ => Carries.seq <| .leaf <| .skip (renders_typedLiteralGap type) <| .leaf .nil
  | _, _, .interval parts upTo =>
    Carries.seq <| .word rfl <| .part (.row (.map renders_intervalPart parts)) <|
      .part (.optText rfl upTo) .nil
  | _, _, .unary op operand =>
    Carries.seqOne <| .skip (.word (by cases op <;> rfl)) <| .skip (renders_minusGap op operand) <|
      .part (operand.renders false) .nil
  | _, broken, .binary op left right =>
    Carries.seq <| .part (left.renders _) <| .skip (.ite .line (.word rfl)) <|
      .skip (.word (by cases op <;> rfl)) <| .word rfl <| .part (right.renders _) .nil
  | _, _, .between tested negated low high =>
    Carries.seq <| .part (tested.renders false) <| .word rfl <| .skip (renders_notWord negated) <|
      .word rfl <| .part (low.renders false) <| .word rfl <| .part (high.renders false) .nil
  | _, _, .inList tested negated items =>
    Carries.seq <| .part (tested.renders false) <| .word rfl <| .skip (renders_notWord negated) <|
      .word rfl <| .part (.parens (items.renders false)) .nil
  | _, _, .inQuery tested negated q =>
    Carries.seq <| .part (tested.renders false) <| .word rfl <| .skip (renders_notWord negated) <|
      .word rfl <| .part (.enclosed (q.renders false)) .nil
  | _, _, .like tested negated op pattern escape =>
    Carries.seq <| .part (tested.renders false) <| .word rfl <| .skip (renders_notWord negated) <|
      .skip (.word (by cases op <;> rfl)) <| .word rfl <| .part (pattern.renders false) <|
      .part (.optText rfl escape) .nil
  | _, _, .is tested negated test =>
    Carries.seqOne <| .part (tested.renders false) <| .word rfl <| .skip (renders_notWord negated) <|
      .skip (.word (by cases test <;> rfl)) .nil
  | _, _, .distinctFrom tested negated other =>
    Carries.seq <| .part (tested.renders false) <| .word rfl <| .skip (renders_notWord negated) <|
      .word rfl <| .part (other.renders false) .nil
  | _, _, .function c => c.renders false
  | _, _, .case operand branches otherwise =>
    Carries.seq <| .word rfl <| .part (.optBehind rfl (operand.renders false)) <|
      .part (.nest (.onLines (branches.renders false))) <| .skip .line <|
      .part (.optFollowed (.word rfl) (.behind rfl (otherwise.renders false))) <| .word rfl .nil
  | _, _, .cast .shorthand operand type =>
    Carries.seq <| .part (operand.renders false) <| .word rfl <| .part type.renders .nil
  | _, _, .cast .cast operand type =>
    Carries.seq <| .word rfl <| .part (operand.renders false) <| .word rfl <| .part type.renders <|
      .word rfl .nil
  | _, _, .cast .tryCast operand type =>
    Carries.seq <| .word rfl <| .part (operand.renders false) <| .word rfl <| .part type.renders <|
      .word rfl .nil
  | _, _, .extract _ source =>
    Carries.seq <| .word rfl <| .leaf <| .word rfl <| .part (source.renders false) <| .word rfl .nil
  | _, _, .substring _ source start length keywordForm => by
    have hfor : Renders length.strings
        (optBehind (if keywordForm then " FOR " else ", ") (length.render false)) := by
      cases keywordForm with
      | true => exact .optBehind rfl (length.renders false)
      | false => exact .optBehind rfl (length.renders false)
    exact Carries.seq <| .leaf <| .word rfl <| .part (source.renders false) <|
      .skip (.ite (.word rfl) (.word rfl)) <| .part (start.renders false) <| .part hfor <|
      .word rfl .nil
  | _, _, .trim side characters source =>
    Carries.seq <| .word rfl <| .skip (.optWordGap (by rintro ⟨⟩ <;> rfl) side) <|
      .part (.optFollowed (.word rfl) (characters.renders false)) <| .skip (.when _ (.word rfl)) <|
      .part (source.renders false) <| .word rfl .nil
  | _, _, .position needle haystack =>
    Carries.seq <| .word rfl <| .part (needle.renders false) <| .word rfl <|
      .part (haystack.renders false) <| .word rfl .nil
  | _, _, .overlay target placing start length =>
    Carries.seq <| .word rfl <| .part (target.renders false) <| .word rfl <|
      .part (placing.renders false) <| .word rfl <| .part (start.renders false) <|
      .part (.optBehind rfl (length.renders false)) <| .word rfl .nil
  | _, _, .firstLast last operand ignoreNulls => by
    have hclose : RendersSeq [operand.strings] [')'] []
        [operand.render false, .when ignoreNulls " IGNORE NULLS", ")"] :=
      .part (operand.renders false) <| .skip (.when _ (.word rfl)) <| .word rfl .nil
    cases last with
    | true => exact Carries.seqOne (.word rfl hclose)
    | false => exact Carries.seqOne (.word rfl hclose)
  | _, _, .datetime _ unit args =>
    Carries.seq <| .leaf <| .word rfl <| .part (.commas (.cons (R := Renders) (.leaf unit) (args.renders false))) <|
      .word rfl .nil
  | _, _, .currentValue name => Carries.leaf name
  | _, _, .struct fields => Carries.seqOne <| .word rfl <| .part (.parens (fields.renders false)) .nil
  | _, _, .existsQuery q => Carries.seqOne <| .word rfl <| .part (.enclosed (q.renders false)) .nil
  | _, _, .subquery q => Carries.enclosed (q.renders false)
  | _, _, .row items => Carries.parens (items.renders false)
  | _, _, .paren inner => Carries.parensOne (inner.renders false)
  | _, _, .lambda params _ body =>
    Carries.seq <| .part (.ite (.parens (renders_idents params)) (.commas (renders_idents params))) <|
      .word rfl <| .part (body.renders false) .nil
  | _, _, .subscript base index =>
    Carries.seq <| .part (base.renders false) <| .word rfl <| .part (index.renders false) <|
      .word rfl .nil
  | _, _, .field base name =>
    Carries.seq <| .part (base.renders false) <| .word rfl <| .part (renders_ident name) .nil
  -- Calls.
  -- A filter is laid out as a condition, so it is looked into here.
  | _, _, .call name quantifier args withinGroup .none nullTreatment overWindow =>
    Carries.seq <| .part (renders_name name) <| .word rfl <|
      .skip (.optWordGap (by rintro ⟨⟩ <;> rfl) quantifier) <| .part (.commas (args.renders false)) <|
      .word rfl <| .part (renders_withinGroup (withinGroup.renders false)) <|
      .part .nil <|
      .skip (.optWord (by rintro ⟨⟩ <;> rfl) nullTreatment) <|
      .part (.optBehind rfl (overWindow.renders false)) .nil
  | _, _, .call name quantifier args withinGroup (.some condition) nullTreatment overWindow =>
    Carries.seq <| .part (renders_name name) <| .word rfl <|
      .skip (.optWordGap (by rintro ⟨⟩ <;> rfl) quantifier) <| .part (.commas (args.renders false)) <|
      .word rfl <| .part (renders_withinGroup (withinGroup.renders false)) <|
      .part ((Carries.word rfl).after (.enclosed (.conditionClause rfl (condition.renders true)))) <|
      .skip (.optWord (by rintro ⟨⟩ <;> rfl) nullTreatment) <|
      .part (.optBehind rfl (overWindow.renders false)) .nil
  | _, _, .positional value => value.renders false
  | _, _, .named name value =>
    Carries.seq <| .part (renders_ident name) <| .word rfl <| .part (value.renders false) .nil
  | _, _, .branch condition result =>
    Carries.seq <| .word rfl <| .part (condition.renders false) <| .word rfl <|
      .part (result.renders false) .nil
  -- Windows.
  | _, _, .windowName name => renders_ident name
  | _, _, .windowNameParen name => Carries.parensOne (renders_ident name)
  | _, _, .windowInline definition => definition.renders false
  | _, _, .windowDefinition partitionBy distribute orderBy sort clusterBy bounds =>
    Carries.seq <| .word rfl <| .part (.windowParts <|
        .cons ⟨by split <;> rfl, partitionBy.renders false⟩ <|
        .cons ⟨by split <;> rfl, orderBy.renders false⟩ <|
        .cons ⟨rfl, clusterBy.renders false⟩ .nil) <|
      .part (.frameLine (bounds.renders false)) <| .word rfl .nil
  | _, _, .frame unit start .none =>
    Carries.seq <| .skip (.word (by cases unit <;> rfl)) <| .word rfl <| .part (start.renders false) <|
      .blank .nil
  | _, _, .frame unit start (.some stop) =>
    Carries.seqOne <| .skip (.word (by cases unit <;> rfl)) <| .word rfl <|
      .part (.seq <| .word rfl <| .part (start.renders false) <| .word rfl <|
        .part (stop.renders false) .nil) .nil
  | _, _, .currentRow => Carries.word rfl
  | _, _, .unboundedPreceding => Carries.word rfl
  | _, _, .unboundedFollowing => Carries.word rfl
  | _, _, .preceding distance => Carries.seqOne <| .part (distance.renders false) <| .word rfl .nil
  | _, _, .following distance => Carries.seqOne <| .part (distance.renders false) <| .word rfl .nil
  | _, _, .orderItem key direction nulls =>
    Carries.seqOne <| .part (key.renders false) <| .skip (.optWord (by rintro ⟨⟩ <;> rfl) direction) <|
      .skip (.optWord (by rintro ⟨⟩ <;> rfl) nulls) .nil
  | _, _, .selectItem value asName =>
    Carries.seq <| .part (value.renders false) <| .part (renders_selectAlias asName) .nil
  -- Queries.
  | _, _, .query tables body clauses =>
    Carries.seq <| .part (.optFollowed .line (tables.renders false)) <| .part (body.renders false) <|
      .part (clauses.renders false) .nil
  | _, _, .withClause tables =>
    Carries.seqOne <| .word rfl <|
      .part (.row (.intersperse ((Carries.word rfl).after .line) (tables.renders false))) .nil
  | _, _, .commonTable name columns q =>
    Carries.seq <| .part (renders_ident name) <| .part (renders_columnList columns) <| .word rfl <|
      .part (.enclosed (q.renders false)) .nil
  | _, _, .selectBody s => s.renders false
  | _, _, .setOperation left op quantifier right =>
    Carries.seq <| .part (left.renders false) <| .skip .line <| .skip (.word (by cases op <;> rfl)) <|
      .skip (.optWord (by rintro ⟨⟩ <;> rfl) quantifier) <| .skip .line <| .part (right.renders false) .nil
  | _, _, .nestedQuery q => Carries.enclosed (q.renders false)
  | _, _, .valuesBody rows asName =>
    Carries.seq <| .part (.values (rows.renders false)) <| .part (renders_tableAlias asName) .nil
  | _, _, .tableBody name => Carries.seqOne <| .word rfl <| .part (renders_name name) .nil
  | _, _, .fromFirst source bodies =>
    Carries.seq <| .part (source.renders false) <| .part (.onLines (bodies.renders false)) .nil
  | _, _, .fromBody s clauses =>
    Carries.seq <| .part (s.renders false) <| .part (clauses.renders false) .nil
  -- So are the conditions of a select.
  | _, _, .select hints quantifier items source .none grouping .none windows =>
    Carries.seq <| .word rfl <| .part (.row (hints.renders false)) <|
      .skip (.optWord (by rintro ⟨⟩ <;> rfl) quantifier) <| .part (.items (items.renders false)) <|
      .part (.optLine (source.renders false)) <| .part .nil <|
      .part (.optLine (grouping.renders false)) <| .part .nil <|
      .part (.windowClause (windows.renders false)) .nil
  | _, _, .select hints quantifier items source .none grouping (.some having) windows =>
    Carries.seq <| .word rfl <| .part (.row (hints.renders false)) <|
      .skip (.optWord (by rintro ⟨⟩ <;> rfl) quantifier) <| .part (.items (items.renders false)) <|
      .part (.optLine (source.renders false)) <| .part .nil <|
      .part (.optLine (grouping.renders false)) <| .part (renders_conditionLine rfl (having.renders true)) <|
      .part (.windowClause (windows.renders false)) .nil
  | _, _, .select hints quantifier items source (.some condition) grouping .none windows =>
    Carries.seq <| .word rfl <| .part (.row (hints.renders false)) <|
      .skip (.optWord (by rintro ⟨⟩ <;> rfl) quantifier) <| .part (.items (items.renders false)) <|
      .part (.optLine (source.renders false)) <| .part (renders_conditionLine rfl (condition.renders true)) <|
      .part (.optLine (grouping.renders false)) <| .part .nil <|
      .part (.windowClause (windows.renders false)) .nil
  | _, _, .select hints quantifier items source (.some condition) grouping (.some having) windows =>
    Carries.seq <| .word rfl <| .part (.row (hints.renders false)) <|
      .skip (.optWord (by rintro ⟨⟩ <;> rfl) quantifier) <| .part (.items (items.renders false)) <|
      .part (.optLine (source.renders false)) <| .part (renders_conditionLine rfl (condition.renders true)) <|
      .part (.optLine (grouping.renders false)) <| .part (renders_conditionLine rfl (having.renders true)) <|
      .part (.windowClause (windows.renders false)) .nil
  | _, _, .hint functions =>
    Carries.seqOne <| .word rfl <| .part (.commas (functions.renders false)) <| .word rfl .nil
  | _, _, .hintFunction name .none => Carries.seq <| .part (renders_ident name) <| .skip .nil <| .blank .nil
  | _, _, .hintFunction name (.some args) =>
    Carries.seq <| .part (renders_ident name) <| .part (.parens (args.renders false)) .nil
  -- The `FROM` clause.
  | _, _, .fromClause relations views pivoting =>
    Carries.seq <| .part (.clause rfl (relations.renders false)) <|
      .part (.nest (.seq <| .part (.onLines (views.renders false)) <|
        .part (.optLine (pivoting.renders false)) .nil)) .nil
  | _, _, .relation primary joins =>
    Carries.seq <| .part (primary.renders false) <| .part (.onLines (joins.renders false)) .nil
  | _, _, .table name sampling asName =>
    Carries.seq <| .part (renders_name name) <| .part (.optBehind rfl (sampling.renders false)) <|
      .part (renders_tableAlias asName) .nil
  | _, _, .derived q sampling asName =>
    Carries.seq <| .part (.enclosed (q.renders false)) <|
      .part (.optBehind rfl (sampling.renders false)) <| .part (renders_tableAlias asName) .nil
  | _, _, .valuesTable rows asName =>
    Carries.seq <| .part (.values (rows.renders false)) <| .part (renders_tableAlias asName) .nil
  | _, _, .tableFunction name args asName =>
    Carries.seq <| .part (renders_name name) <| .part (.parens (args.renders false)) <|
      .part (renders_tableAlias asName) .nil
  | _, _, .nestedRelation inner asName =>
    Carries.seq <| .part (.enclosed (inner.renders false)) <| .part (renders_tableAlias asName) .nil
  | _, _, .samplePercent amount =>
    Carries.seqOne <| .word rfl <| .part (amount.renders false) <| .word rfl .nil
  | _, _, .sampleRows amount =>
    Carries.seqOne <| .word rfl <| .part (amount.renders false) <| .word rfl .nil
  | _, _, .sampleBucket _ _ key =>
    Carries.seq <| .word rfl <| .leaf <| .word rfl <| .leaf <|
      .part (.optBehind rfl (key.renders false)) <| .word rfl .nil
  | _, _, .join natural kind factor constraint =>
    Carries.seq <| .skip (.when natural (.word rfl)) <| .skip (.word (awaiting_joinKind kind)) <|
      .word rfl <| .part (factor.renders false) <| .part (.optBehind rfl (constraint.renders false)) .nil
  | _, _, .on condition => Carries.seqOne <| .word rfl <| .part (.nest (condition.renders true)) .nil
  | _, _, .using columns => Carries.seqOne <| .word rfl <| .part (renders_identList columns) .nil
  | _, _, .lateralView outer name args asName explicitAs columns =>
    Carries.seq <| .word rfl <| .skip (.when outer (.word rfl)) <| .part (renders_name name) <|
      .part (.block (args.renders false)) <| .part (renders_optIdent asName) <|
      .skip (.when explicitAs (.word rfl)) <| .part (renders_viewColumns columns) .nil
  | _, _, .pivot aggregates columns values =>
    Carries.seqOne <| .word rfl <|
      .part (.nest (.seq <| .part (.commaLines (aggregates.renders false)) <| .skip .line <| .word rfl <|
        .part (renders_pivotColumns columns) <| .word rfl <|
        .part (.parens (values.renders false)) .nil)) <|
      .skip .line <| .word rfl .nil
  -- The clauses after it.
  | _, _, .groupBy items modifier =>
    Carries.seqOne <| .part (.clause rfl (items.renders false)) <|
      .skip (.optKeyword rfl (by rintro ⟨⟩ <;> rfl) modifier) .nil
  | _, _, .groupingExpr value => value.renders false
  | _, _, .analytics kind elements =>
    Carries.seqOne <| .skip (.word (by cases kind <;> rfl)) <| .word rfl <|
      .part (.block (elements.renders false)) .nil
  | _, _, .elementSet members => Carries.parens (members.renders false)
  | _, _, .elementExpr value => value.renders false
  | _, _, .namedWindow name w =>
    Carries.seq <| .part (renders_ident name) <| .word rfl <| .part (w.renders false) .nil
  | _, _, .organization orderBy clusterBy distributeBy sortBy rowLimit offset =>
    Carries.seq <| .part (.clauseLine rfl (orderBy.renders false)) <|
      .part (.clauseLine rfl (clusterBy.renders false)) <|
      .part (.clauseLine rfl (distributeBy.renders false)) <|
      .part (.clauseLine rfl (sortBy.renders false)) <| .part (.optLine (rowLimit.renders false)) <|
      .part (.optLine (.behind rfl (offset.renders false))) .nil
  | _, _, .limitAll => Carries.word rfl
  | _, _, .limitCount count => Carries.seqOne <| .word rfl <| .part (count.renders false) .nil

end SqlTidy
