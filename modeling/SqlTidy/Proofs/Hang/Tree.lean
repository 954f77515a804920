import SqlTidy.Proofs.Hang.Basic
import SqlTidy.Layout.Statement

/-!
# Nothing hangs from a deeper line: expressions and queries

**Theorem (`Tree.hangsLow`).** Every tree passes the check of `Doc.HangsLow`. Most trees pass it wherever they
stand (`Doc.Calm`), because a query within them stands in parentheses, on lines of its own. The others are the
queries and what may stand at the front of them or of a `FROM` clause: they may start with `VALUES`, so they
pass it only where the line is low.

The lemmas about layouts say how the flag gets through each of them. A document on a new line finds the flag
up, which is what lists with one item to a line and documents in parentheses rely on.
-/

namespace SqlTidy

open Doc Layout

/-! ## Layouts -/

namespace Doc

variable {b : Bool} {d a c : Doc} {ds : List Doc} {o : Option Doc}

/-- Behind a document that ends on a low line. -/
theorem HangsLow.after (ha : Calm a) (hend : endsLow b a = true) (hc : HangsLow true c) : HangsLow b (a ++ c) := by
  refine ⟨ha.hangsLow, ?_⟩
  rw [hend]
  exact hc

/-- In front of a document that stands anywhere. -/
theorem HangsLow.append (ha : HangsLow b a) (hc : Calm c) : HangsLow b (a ++ c) := ⟨ha, hc.hangsLow⟩

/-- Documents that are calm one by one. -/
def AllCalm (ds : List Doc) : Prop := ∀ d ∈ ds, Calm d

namespace AllCalm

theorem nil : AllCalm [] := List.forall_mem_nil _

theorem part (hd : Calm d) (hds : AllCalm ds) : AllCalm (d :: ds) := List.forall_mem_cons.2 ⟨hd, hds⟩

theorem word {s : String} (hds : AllCalm ds) : AllCalm (text s :: ds) := part ⟨trivial⟩ hds

theorem line (hds : AllCalm ds) : AllCalm (Doc.line :: ds) := part ⟨trivial⟩ hds

theorem head (h : AllCalm (d :: ds)) : Calm d := h d List.mem_cons_self

theorem tail (h : AllCalm (d :: ds)) : AllCalm ds := fun e he => h e (List.mem_cons_of_mem d he)

theorem one (h : Calm d) : AllCalm [d] := part h nil

theorem map {α : Type} {f : α → Doc} (h : ∀ x, Calm (f x)) (xs : List α) : AllCalm (xs.map f) :=
  List.forall_mem_map.2 fun x _ => h x

theorem texts {α : Type} (f : α → String) (xs : List α) : AllCalm (xs.map fun x => text (f x)) :=
  List.forall_mem_map.2 fun _ _ => ⟨trivial⟩

/-- On lines of their own. -/
theorem hangsLow (h : AllCalm ds) : ∀ d ∈ ds, HangsLow true d := fun d hd => (h d hd).hangsLow

theorem intersperse {separator : Doc} (hsep : Calm separator) (h : AllCalm ds) : AllCalm (ds.intersperse separator) := by
  induction ds with
  | nil => exact nil
  | cons d ds ih =>
    cases ds with
    | nil => exact h
    | cons next ds => exact part h.head (part hsep (ih h.tail))

end AllCalm

/-- A document that may be missing, and is calm if it is there. -/
def MaybeCalm (o : Option Doc) : Prop := ∀ d ∈ o, Calm d

namespace MaybeCalm

theorem map {α : Type} {f : α → Doc} (h : ∀ x, Calm (f x)) (x : Option α) : MaybeCalm (x.map f) := by
  intro d hd
  obtain ⟨x, -, rfl⟩ := Option.map_eq_some_iff.1 hd
  exact h x

/-- With a text in front. -/
theorem behind (before : String) (h : MaybeCalm o) : MaybeCalm (o.map fun d => (before : Doc) ++ d) := by
  intro d hd
  obtain ⟨e, he, rfl⟩ := Option.map_eq_some_iff.1 hd
  exact ⟨.append trivial (h e he)⟩

/-- On a line of its own. -/
theorem hangsLow (h : MaybeCalm o) : ∀ d ∈ o, HangsLow true d := fun d hd => (h d hd).hangsLow

end MaybeCalm

namespace Calm

theorem nil : Calm Doc.nil := ⟨trivial⟩

theorem text (s : String) : Calm (Doc.text s) := ⟨trivial⟩

theorem line : Calm Doc.line := ⟨trivial⟩

theorem clauseBreak : Calm Doc.clauseBreak := ⟨trivial⟩

theorem append (ha : Calm a) (hc : Calm c) : Calm (a ++ c) := ⟨.append ha.low hc⟩

/-- On a new line the flag is up. -/
theorem line_append (hd : HangsLow true d) : Calm (Doc.line ++ d) := ⟨trivial, hd⟩

theorem nest (h : Calm d) : Calm (nest d) := ⟨h.low⟩

theorem seq (h : AllCalm ds) : Calm (seq ds) := by
  induction ds with
  | nil => exact nil
  | cons d ds ih => exact append h.head (ih h.tail)

theorem sep (separator : String) (h : AllCalm ds) : Calm (sep separator ds) := by
  induction ds with
  | nil => exact nil
  | cons d ds ih =>
    cases ds with
    | nil => exact h.head
    | cons next ds => exact append h.head (append (text _) (ih h.tail))

theorem commas (h : AllCalm ds) : Calm (commas ds) := sep ", " h

theorem parens (h : AllCalm ds) : Calm (parens ds) := append (append (text "(") (commas h)) (text ")")

theorem commaLines (h : ∀ d ∈ ds, HangsLow true d) : Calm (commaLines ds) := by
  induction ds with
  | nil => exact nil
  | cons d ds ih =>
    rw [List.forall_mem_cons] at h
    cases ds with
    | nil => exact line_append h.1
    | cons next ds => exact line_append (.append h.1 (append (text ",") (ih h.2)))

theorem lines (h : ∀ d ∈ ds, HangsLow true d) : Calm (lines ds) := nest (commaLines h)

theorem onLines (h : ∀ d ∈ ds, HangsLow true d) : Calm (onLines ds) := by
  induction ds with
  | nil => exact nil
  | cons d ds ih =>
    rw [List.forall_mem_cons] at h
    exact line_append (.append h.1 (ih h.2))

theorem items (h : AllCalm ds) : Calm (items ds) := by
  unfold Doc.items
  split
  · exact append (text " ") h.head
  · exact lines h.hangsLow

theorem clause (keyword : String) (h : AllCalm ds) : Calm (clause keyword ds) := by
  unfold Doc.clause
  split
  · exact append (text keyword) (nest (append clauseBreak h.head))
  · exact append (text keyword) (lines h.hangsLow)

theorem block (h : AllCalm ds) : Calm (block ds) := by
  unfold Doc.block
  split
  · exact text "()"
  · exact append (append (append (text "(") (lines h.hangsLow)) line) (text ")")

/-- In parentheses a document stands on lines of its own. -/
theorem enclosed (h : HangsLow true d) : Calm (enclosed d) :=
  append (append (append (text "(") (nest (line_append h))) line) (text ")")

theorem optText (before : String) (s : Option String) : Calm (optText before s) := by
  cases s with
  | none => exact nil
  | some s => exact append (text before) (text s)

theorem ite {p : Prop} [Decidable p] (ha : Calm a) (hc : Calm c) : Calm (if p then a else c) := by
  split
  · exact ha
  · exact hc

theorem when (b : Bool) (h : Calm d) : Calm (when b d) := ite h nil

theorem optLine (h : ∀ d ∈ o, HangsLow true d) : Calm (optLine o) := by
  cases o with
  | none => exact nil
  | some d => exact line_append (h d rfl)

theorem optBehind (before : String) (h : MaybeCalm o) : Calm (optBehind before o) := by
  cases o with
  | none => exact nil
  | some d => exact append (text before) (h d rfl)

theorem optFollowed (hafter : Calm a) (h : MaybeCalm o) : Calm (optFollowed a o) := by
  cases o with
  | none => exact nil
  | some d => exact append (h d rfl) hafter

theorem optWordGap (s : Option String) : Calm (optWordGap s) := by
  cases s with
  | none => exact nil
  | some s => exact append (text s) (text " ")

theorem frameLine (h : MaybeCalm o) : Calm (frameLine o) := by
  cases o with
  | none => exact nil
  | some d => exact append (nest (append line (h d rfl))) line

theorem clauseLine (keyword : String) (h : AllCalm ds) : Calm (clauseLine keyword ds) := by
  unfold Layout.clauseLine
  split
  · exact nil
  · exact append line (clause keyword h)

theorem windowClause (h : AllCalm ds) : Calm (windowClause ds) := by
  cases ds with
  | nil => exact nil
  | cons d ds =>
    refine seq <| .line <| .word <| .part h.head <| .part (seq ?_) .nil
    exact List.forall_mem_map.2 fun d hd => append (text ",") (nest (append line (h.tail d hd)))

theorem windowParts {parts : List (String × List Doc)} (h : ∀ part ∈ parts, AllCalm part.2) :
    Calm (windowParts parts) := by
  refine sep " " fun d hd => ?_
  obtain ⟨⟨keyword, ds⟩, hpart, hd⟩ := List.mem_filterMap.1 hd
  cases ds with
  | nil => contradiction
  | cons first ds =>
    obtain rfl := Option.some.inj hd
    exact append (text keyword) (commas (h _ hpart))

theorem conditionClause (keyword : String) (h : Calm d) : Calm (conditionClause keyword d) :=
  append (text keyword) (nest (append line h))

theorem conditionLine (keyword : String) (h : Calm d) : Calm (Doc.line ++ Layout.conditionClause keyword d) :=
  append line (conditionClause keyword h)

end Calm

theorem endsLow_optFollowed (h : ∀ b, endsLow b a = true) (o : Option Doc) : endsLow true (optFollowed a o) = true := by
  cases o with
  | none => rfl
  | some d => exact h _

theorem endsLow_ite {p : Prop} [Decidable p] (ha : endsLow b a = true) (hc : endsLow b c = true) :
    endsLow b (if p then a else c) = true := by
  split
  · exact ha
  · exact hc

theorem endsLow_when (b : Bool) (h : endsLow true d = true) : endsLow true (Doc.when b d) = true := endsLow_ite h rfl

theorem endsLow_optWordGap (s : Option String) : endsLow true (optWordGap s) = true := by
  cases s <;> rfl

theorem HangsLow.seq (h : AllCalm ds) : HangsLow b (Doc.seq ds) := (Calm.seq h).hangsLow

/-- `VALUES` goes up to its line, so the line has to be low. -/
theorem HangsLow.values (h : AllCalm ds) : HangsLow true (values ds) :=
  ⟨trivial, rfl, (Calm.lines h.hangsLow).hangsLow⟩

/-- The only item of a clause may stand on the line of the keyword. -/
theorem HangsLow.clause (keyword : String) (h : ∀ d ∈ ds, HangsLow true d) : HangsLow true (clause keyword ds) := by
  unfold Doc.clause
  split
  · exact ⟨trivial, trivial, h _ List.mem_cons_self⟩
  · exact .after (.text _) rfl (Calm.lines h).hangsLow

end Doc

/-! ## Parts without expressions -/

namespace Layout

theorem calm_identList (names : List Ident) : Calm (identList names) := .parens (.texts Ident.written names)

theorem calm_columnList (names : List Ident) : Calm (columnList names) := by
  cases names with
  | nil => exact .nil
  | cons name names => exact calm_identList (name :: names)

theorem calm_literal (l : Literal) : Calm (literal l) := by
  unfold literal
  split
  · exact .text _
  · exact .text _
  · exact .text _
  · exact .text _
  · exact .sep " " (.texts id _)

theorem calm_intervalPart (part : IntervalPart) : Calm (intervalPart part) :=
  .seq <| .word <| .word <| .part (.optText _ _) .nil

theorem calm_asWord (explicitAs : Bool) : Calm (asWord explicitAs) := .ite (.text _) (.text _)

theorem calm_selectAlias (a : Option Alias) : Calm (selectAlias a) := by
  unfold selectAlias
  split
  · exact .nil
  · exact .append (calm_asWord _) (.text _)
  · exact .append (calm_asWord _) (calm_identList _)

theorem calm_tableAlias (a : Option TableAlias) : Calm (tableAlias a) := by
  unfold tableAlias
  split
  · exact .nil
  · exact .append (.append (calm_asWord _) (.text _)) (calm_columnList _)

theorem calm_notWord (negated : Bool) : Calm (notWord negated) := .when negated (.text _)

theorem calm_optWord (s : Option String) : Calm (optWord s) := .optText " " s

theorem calm_minusGap (op : UnaryOp) (e : Expr) : Calm (minusGap op e) := by
  unfold minusGap
  split
  · exact .text _
  · exact .nil

theorem calm_pivotColumns (names : List DottedName) : Calm (pivotColumns names) := by
  unfold pivotColumns
  split
  · exact .text _
  · exact .parens (.texts DottedName.written _)

/-- The sort keys of an ordered set aggregate, if there are any. -/
theorem calm_withinGroup {ds : List Doc} : AllCalm ds →
    Calm
      (match ds with
        | [] => .nil
        | ds => .seq [" WITHIN GROUP (ORDER BY ", .commas ds, ")"]) := by
  intro h
  split
  · exact .nil
  · exact .seq <| .word <| .part (.commas h) <| .word .nil

/-- A call, with the condition that it filters by. -/
theorem calm_call {name : String} {quantifier nullTreatment : Option String} {args : List Doc} {group filter : Doc}
    {overWindow : Option Doc} (hargs : AllCalm args) (hgroup : Calm group) (hfilter : Calm filter)
    (hwindow : MaybeCalm overWindow) :
    Calm (Doc.seq [name, "(", optWordGap quantifier, .commas args, ")", group, filter, optWord nullTreatment,
      optBehind " OVER " overWindow]) :=
  .seq <| .word <| .word <| .part (.optWordGap _) <| .part (.commas hargs) <| .word <| .part hgroup <|
    .part hfilter <| .part (calm_optWord _) <| .part (.optBehind _ hwindow) .nil

/-- A select, with its two conditions. A `FROM` clause starts a line in it. -/
theorem calm_select {quantifier : Option String} {hints items windows : List Doc} {source grouping : Option Doc}
    {condition having : Doc} (hhints : AllCalm hints) (hitems : AllCalm items)
    (hsource : ∀ d ∈ source, HangsLow true d) (hcondition : Calm condition) (hgrouping : MaybeCalm grouping)
    (hhaving : Calm having) (hwindows : AllCalm windows) :
    Calm (Doc.seq ["SELECT", .seq hints, optWord quantifier, .items items, optLine source, condition,
      optLine grouping, having, windowClause windows]) :=
  .seq <| .word <| .part (.seq hhints) <| .part (calm_optWord _) <| .part (.items hitems) <|
    .part (.optLine hsource) <| .part hcondition <| .part (.optLine hgrouping.hangsLow) <| .part hhaving <|
    .part (.windowClause hwindows) .nil

/-- The column names of a lateral view, if there are any. -/
theorem calm_viewColumns (names : List Ident) :
    Calm
      (match names with
        | [] => .nil
        | names => " " ++ Doc.commas (names.map fun i => i.written)) := by
  split
  · exact .nil
  · exact .append (.text _) (.commas (.texts Ident.written _))

end Layout

/-! ## Data types -/

mutual

theorem DataType.calm : (t : DataType) → Calm t.doc
  | .primitive _ params => .append (.text _) (.when _ (.parens (AllCalm.texts id params)))
  | .array _ element => .seq <| .word <| .word <| .part element.calm <| .word .nil
  | .map _ key value => .seq <| .word <| .word <| .part key.calm <| .word <| .part value.calm <| .word .nil
  | .struct _ fields => .seq <| .word <| .word <| .part (.commas (DataType.calm_fields fields)) <| .word .nil
  | .interval _ stop => .seq <| .word <| .word <| .part (.optText _ stop) .nil

theorem DataType.calm_fields : (fs : List StructField) → AllCalm (DataType.fieldDocs fs)
  | [] => .nil
  | f :: fs => .part f.calm (DataType.calm_fields fs)

theorem StructField.calm : (f : StructField) → Calm f.doc
  | ⟨_, _, type, notNull, comment⟩ =>
    .seq <| .word <| .part (.ite (.text _) (.text _)) <| .part type.calm <| .part (.when notNull (.text _)) <|
      .part (.optText _ comment) .nil

end

/-! ## Trees -/

/-- What the document of a tree of each category has to pass. -/
def Category.HangsLow : (c : Category) → c.Rendered → Prop
  | .list c => fun (ds : List c.Rendered) => ∀ d ∈ ds, c.HangsLow d
  | .option c => fun (o : Option c.Rendered) => ∀ d ∈ o, c.HangsLow d
  | .query | .queryBody | .fromClause | .relation | .tableFactor | .join => Doc.HangsLow true
  | .expr | .call | .callArg | .caseBranch
  | .window | .windowDefinition | .frame | .frameBound
  | .orderItem | .selectItem
  | .withClause | .commonTable | .fromBody
  | .select | .hint | .hintFunction
  | .sample | .joinConstraint | .lateralView | .pivot
  | .groupBy | .groupingItem | .groupingElement | .namedWindow
  | .organization | .limit => Calm

/-- Every tree passes the check, at a place where the line is low. -/
theorem Tree.hangsLow : {c : Category} → (broken : Bool) → (t : Tree c) → c.HangsLow (t.render broken)
  | _, _, .nil => List.forall_mem_nil _
  | _, _, .cons head tail => List.forall_mem_cons.2 ⟨head.hangsLow false, tail.hangsLow false⟩
  | _, _, .none => fun d h => absurd h (Option.not_mem_none d)
  | _, _, .some value => fun _ h => Option.some.inj h ▸ value.hangsLow false
  -- Expressions.
  | _, _, .ident _ => Calm.text _
  | _, _, .compound parts => Calm.sep "." (.texts Ident.written parts)
  | _, _, .wildcard => Calm.text _
  | _, _, .qualifiedWildcard _ => Calm.seq <| .word <| .word .nil
  | _, _, .literal value => calm_literal value
  | _, _, .typedLiteral _ _ => Calm.seq <| .word <| .part (.ite .nil (.text _)) <| .word .nil
  | _, _, .interval parts upTo =>
    Calm.seq <| .word <| .part (.seq (.map calm_intervalPart parts)) <| .part (.optText _ upTo) .nil
  | _, _, .unary op operand =>
    Calm.seq <| .word <| .part (calm_minusGap op operand) <| .part (operand.hangsLow false) .nil
  | _, _, .binary _ left right =>
    Calm.seq <| .part (left.hangsLow _) <| .part (.ite .line (.text _)) <| .word <| .word <|
      .part (right.hangsLow _) .nil
  | _, _, .between tested negated low high =>
    Calm.seq <| .part (tested.hangsLow false) <| .word <| .part (calm_notWord negated) <| .word <|
      .part (low.hangsLow false) <| .word <| .part (high.hangsLow false) .nil
  | _, _, .inList tested negated items =>
    Calm.seq <| .part (tested.hangsLow false) <| .word <| .part (calm_notWord negated) <| .word <|
      .part (.parens (items.hangsLow false)) .nil
  | _, _, .inQuery tested negated q =>
    Calm.seq <| .part (tested.hangsLow false) <| .word <| .part (calm_notWord negated) <| .word <|
      .part (.enclosed (q.hangsLow false)) .nil
  | _, _, .like tested negated _ pattern escape =>
    Calm.seq <| .part (tested.hangsLow false) <| .word <| .part (calm_notWord negated) <| .word <| .word <|
      .part (pattern.hangsLow false) <| .part (.optText _ escape) .nil
  | _, _, .is tested negated _ =>
    Calm.seq <| .part (tested.hangsLow false) <| .word <| .part (calm_notWord negated) <| .word .nil
  | _, _, .distinctFrom tested negated other =>
    Calm.seq <| .part (tested.hangsLow false) <| .word <| .part (calm_notWord negated) <| .word <|
      .part (other.hangsLow false) .nil
  | _, _, .function c => c.hangsLow false
  | _, _, .case operand branches otherwise =>
    Calm.seq <| .word <| .part (.optBehind _ (operand.hangsLow false)) <|
      .part (.nest (.onLines (AllCalm.hangsLow (branches.hangsLow false)))) <| .line <|
      .part (.optFollowed (.text _) (.behind _ (otherwise.hangsLow false))) <| .word .nil
  | _, _, .cast .shorthand operand type => Calm.seq <| .part (operand.hangsLow false) <| .word <| .part type.calm .nil
  | _, _, .cast .cast operand type =>
    Calm.seq <| .word <| .part (operand.hangsLow false) <| .word <| .part type.calm <| .word .nil
  | _, _, .cast .tryCast operand type =>
    Calm.seq <| .word <| .part (operand.hangsLow false) <| .word <| .part type.calm <| .word .nil
  | _, _, .extract _ source => Calm.seq <| .word <| .word <| .word <| .part (source.hangsLow false) <| .word .nil
  | _, _, .substring _ source start length _ =>
    Calm.seq <| .word <| .word <| .part (source.hangsLow false) <| .part (.ite (.text _) (.text _)) <|
      .part (start.hangsLow false) <| .part (.optBehind _ (length.hangsLow false)) <| .word .nil
  | _, _, .trim _ characters source =>
    Calm.seq <| .word <| .part (.optWordGap _) <| .part (.optFollowed (.text _) (characters.hangsLow false)) <|
      .part (.when _ (.text _)) <| .part (source.hangsLow false) <| .word .nil
  | _, _, .position needle haystack =>
    Calm.seq <| .word <| .part (needle.hangsLow false) <| .word <| .part (haystack.hangsLow false) <| .word .nil
  | _, _, .overlay target placing start length =>
    Calm.seq <| .word <| .part (target.hangsLow false) <| .word <| .part (placing.hangsLow false) <| .word <|
      .part (start.hangsLow false) <| .part (.optBehind _ (length.hangsLow false)) <| .word .nil
  | _, _, .firstLast _ operand _ =>
    Calm.seq <| .part (.ite (.text _) (.text _)) <| .part (operand.hangsLow false) <|
      .part (.when _ (.text _)) <| .word .nil
  | _, _, .datetime _ _ args =>
    Calm.seq <| .word <| .word <| .part (.commas (.word (args.hangsLow false))) <| .word .nil
  | _, _, .currentValue _ => Calm.text _
  | _, _, .struct fields => Calm.seq <| .word <| .part (.parens (fields.hangsLow false)) .nil
  | _, _, .existsQuery q => Calm.seq <| .word <| .part (.enclosed (q.hangsLow false)) .nil
  | _, _, .subquery q => Calm.enclosed (q.hangsLow false)
  | _, _, .row items => Calm.parens (items.hangsLow false)
  | _, _, .paren inner => Calm.parens (.one (inner.hangsLow false))
  | _, _, .lambda params _ body =>
    have hnames := AllCalm.texts Ident.written params
    Calm.seq <| .part (.ite (.parens hnames) (.commas hnames)) <| .word <| .part (body.hangsLow false) .nil
  | _, _, .subscript base index =>
    Calm.seq <| .part (base.hangsLow false) <| .word <| .part (index.hangsLow false) <| .word .nil
  | _, _, .field base _ => Calm.seq <| .part (base.hangsLow false) <| .word <| .word .nil
  -- Calls.
  -- A filter is laid out as a condition, so it is looked into here.
  | _, _, .call _ _ args withinGroup .none _ overWindow =>
    calm_call (args.hangsLow false) (calm_withinGroup (withinGroup.hangsLow false)) .nil (overWindow.hangsLow false)
  | _, _, .call _ _ args withinGroup (.some condition) _ overWindow =>
    have hfilter := Calm.enclosed (Calm.conditionClause "WHERE" (condition.hangsLow true)).hangsLow
    calm_call (args.hangsLow false) (calm_withinGroup (withinGroup.hangsLow false)) (.append (.text _) hfilter)
      (overWindow.hangsLow false)
  | _, _, .positional value => value.hangsLow false
  | _, _, .named _ value => Calm.seq <| .word <| .word <| .part (value.hangsLow false) .nil
  | _, _, .branch condition result =>
    Calm.seq <| .word <| .part (condition.hangsLow false) <| .word <| .part (result.hangsLow false) .nil
  -- Windows.
  | _, _, .windowName _ => Calm.text _
  | _, _, .windowNameParen _ => Calm.parens (.one (.text _))
  | _, _, .windowInline definition => definition.hangsLow false
  | _, _, .windowDefinition partitionBy _ orderBy _ clusterBy bounds =>
    Calm.seq <| .word <|
      .part (.windowParts (List.forall_mem_cons.2 ⟨partitionBy.hangsLow false,
        List.forall_mem_cons.2 ⟨orderBy.hangsLow false, List.forall_mem_singleton.2 (clusterBy.hangsLow false)⟩⟩)) <|
      .part (.frameLine (bounds.hangsLow false)) <| .word .nil
  | _, _, .frame _ start .none => Calm.seq <| .word <| .word <| .part (start.hangsLow false) .nil
  | _, _, .frame _ start (.some stop) =>
    Calm.seq <| .word <| .word <|
      .part (.seq <| .word <| .part (start.hangsLow false) <| .word <| .part (stop.hangsLow false) .nil) .nil
  | _, _, .currentRow => Calm.text _
  | _, _, .unboundedPreceding => Calm.text _
  | _, _, .unboundedFollowing => Calm.text _
  | _, _, .preceding distance => Calm.seq <| .part (distance.hangsLow false) <| .word .nil
  | _, _, .following distance => Calm.seq <| .part (distance.hangsLow false) <| .word .nil
  | _, _, .orderItem key _ _ =>
    Calm.seq <| .part (key.hangsLow false) <| .part (calm_optWord _) <| .part (calm_optWord _) .nil
  | _, _, .selectItem value asName => Calm.seq <| .part (value.hangsLow false) <| .part (calm_selectAlias asName) .nil
  -- Queries.
  | _, _, .query tables body clauses =>
    HangsLow.after (.optFollowed .line (tables.hangsLow false)) (endsLow_optFollowed (fun _ => rfl) _)
      (.append (body.hangsLow false) (.append (clauses.hangsLow false) .nil))
  | _, _, .withClause tables =>
    Calm.seq <| .word <| .part (.seq (.intersperse (.append (.text _) .line) (tables.hangsLow false))) .nil
  | _, _, .commonTable _ columns q =>
    Calm.seq <| .word <| .part (calm_columnList columns) <| .word <| .part (.enclosed (q.hangsLow false)) .nil
  | _, _, .selectBody s => Calm.hangsLow (s.hangsLow false)
  | _, _, .setOperation left _ _ right =>
    HangsLow.append (left.hangsLow false) <| .append .line <| .append (.text _) <| .append (calm_optWord _) <|
      .line_append (.append (right.hangsLow false) .nil)
  | _, _, .nestedQuery q => (Calm.enclosed (q.hangsLow false)).hangsLow
  | _, _, .valuesBody rows asName =>
    HangsLow.append (.values (rows.hangsLow false)) (.append (calm_tableAlias asName) .nil)
  | _, _, .tableBody _ => ⟨trivial, trivial, trivial⟩
  | _, _, .fromFirst source bodies =>
    HangsLow.append (source.hangsLow false)
      (.append (.onLines (AllCalm.hangsLow (bodies.hangsLow false))) .nil)
  | _, _, .fromBody s clauses => Calm.seq <| .part (s.hangsLow false) <| .part (clauses.hangsLow false) .nil
  -- So are the conditions of a select.
  | _, _, .select hints _ items source .none grouping .none windows =>
    calm_select (hints.hangsLow false) (items.hangsLow false) (source.hangsLow false) .nil
      (grouping.hangsLow false) .nil (windows.hangsLow false)
  | _, _, .select hints _ items source .none grouping (.some having) windows =>
    calm_select (hints.hangsLow false) (items.hangsLow false) (source.hangsLow false) .nil
      (grouping.hangsLow false) (.conditionLine _ (having.hangsLow true)) (windows.hangsLow false)
  | _, _, .select hints _ items source (.some condition) grouping .none windows =>
    calm_select (hints.hangsLow false) (items.hangsLow false) (source.hangsLow false)
      (.conditionLine _ (condition.hangsLow true)) (grouping.hangsLow false) .nil (windows.hangsLow false)
  | _, _, .select hints _ items source (.some condition) grouping (.some having) windows =>
    calm_select (hints.hangsLow false) (items.hangsLow false) (source.hangsLow false)
      (.conditionLine _ (condition.hangsLow true)) (grouping.hangsLow false) (.conditionLine _ (having.hangsLow true))
      (windows.hangsLow false)
  | _, _, .hint functions => Calm.seq <| .word <| .part (.commas (functions.hangsLow false)) <| .word .nil
  | _, _, .hintFunction _ .none => Calm.seq <| .word <| .part .nil .nil
  | _, _, .hintFunction _ (.some args) => Calm.seq <| .word <| .part (.parens (args.hangsLow false)) .nil
  -- The `FROM` clause.
  | _, _, .fromClause relations views pivoting =>
    HangsLow.append (.clause _ (relations.hangsLow false))
      (.append (.nest (.seq <| .part (.onLines (AllCalm.hangsLow (views.hangsLow false))) <|
        .part (.optLine (MaybeCalm.hangsLow (pivoting.hangsLow false))) .nil)) .nil)
  | _, _, .relation primary joins =>
    HangsLow.append (primary.hangsLow false) (.append (.onLines (joins.hangsLow false)) .nil)
  | _, _, .table _ sampling asName =>
    HangsLow.seq <| .word <| .part (.optBehind _ (sampling.hangsLow false)) <| .part (calm_tableAlias asName) .nil
  | _, _, .derived q sampling asName =>
    HangsLow.seq <| .part (.enclosed (q.hangsLow false)) <| .part (.optBehind _ (sampling.hangsLow false)) <|
      .part (calm_tableAlias asName) .nil
  | _, _, .valuesTable rows asName =>
    HangsLow.append (.values (rows.hangsLow false)) (.append (calm_tableAlias asName) .nil)
  | _, _, .tableFunction _ args asName =>
    HangsLow.seq <| .word <| .part (.parens (args.hangsLow false)) <| .part (calm_tableAlias asName) .nil
  | _, _, .nestedRelation inner asName =>
    HangsLow.seq <| .part (.enclosed (inner.hangsLow false)) <| .part (calm_tableAlias asName) .nil
  | _, _, .samplePercent amount => Calm.seq <| .word <| .part (amount.hangsLow false) <| .word .nil
  | _, _, .sampleRows amount => Calm.seq <| .word <| .part (amount.hangsLow false) <| .word .nil
  | _, _, .sampleBucket _ _ key =>
    Calm.seq <| .word <| .word <| .word <| .word <| .part (.optBehind _ (key.hangsLow false)) <| .word .nil
  | _, _, .join natural _ factor constraint =>
    HangsLow.after (.when natural (.text _)) (endsLow_when natural rfl) <| .after (.text _) rfl <|
      .after (.text _) rfl <| .append (factor.hangsLow false) <|
      .append (.optBehind _ (constraint.hangsLow false)) .nil
  | _, _, .on condition => Calm.seq <| .word <| .part (.nest (condition.hangsLow true)) .nil
  | _, _, .using columns => Calm.seq <| .word <| .part (calm_identList columns) .nil
  | _, _, .lateralView _ _ args _ _ columns =>
    Calm.seq <| .word <| .part (.when _ (.text _)) <| .word <| .part (.block (args.hangsLow false)) <|
      .part (calm_optWord _) <| .part (.when _ (.text _)) <| .part (calm_viewColumns columns) .nil
  | _, _, .pivot aggregates columns values =>
    Calm.seq <| .word <|
      .part (.nest (.seq <| .part (.commaLines (AllCalm.hangsLow (aggregates.hangsLow false))) <| .line <| .word <|
        .part (calm_pivotColumns columns) <| .word <| .part (.parens (values.hangsLow false)) .nil)) <|
      .line <| .word .nil
  -- The clauses after it.
  | _, _, .groupBy items _ => Calm.seq <| .part (.clause _ (items.hangsLow false)) <| .part (.optText _ _) .nil
  | _, _, .groupingExpr value => value.hangsLow false
  | _, _, .analytics _ elements => Calm.seq <| .word <| .word <| .part (.block (elements.hangsLow false)) .nil
  | _, _, .elementSet members => Calm.parens (members.hangsLow false)
  | _, _, .elementExpr value => value.hangsLow false
  | _, _, .namedWindow _ w => Calm.seq <| .word <| .word <| .part (w.hangsLow false) .nil
  | _, _, .organization orderBy clusterBy distributeBy sortBy rowLimit offset =>
    Calm.seq <| .part (.clauseLine _ (orderBy.hangsLow false)) <|
      .part (.clauseLine _ (clusterBy.hangsLow false)) <| .part (.clauseLine _ (distributeBy.hangsLow false)) <|
      .part (.clauseLine _ (sortBy.hangsLow false)) <|
      .part (.optLine (MaybeCalm.hangsLow (rowLimit.hangsLow false))) <|
      .part (.optLine (MaybeCalm.behind _ (offset.hangsLow false)).hangsLow) .nil
  | _, _, .limitAll => Calm.text _
  | _, _, .limitCount count => Calm.seq <| .word <| .part (count.hangsLow false) .nil

end SqlTidy
