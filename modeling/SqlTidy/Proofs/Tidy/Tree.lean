import SqlTidy.Proofs.Tidy.Page

/-!
# Trees that are printed without stray blanks

`tidy x` says that `x` is fit for a tidy page. A string is tidy if it is solid as a text, so a name is, and a tree if its
document is solid. The clauses behind a query may all be missing and start lines otherwise, so they only have to keep what
is in front of them. What there is to say about a value is found by its type alone.

There is one lemma for each kind of node, which says of which parts it has to be built. Some lists must not be empty:
those that stand behind a space with nothing behind them.
-/

namespace SqlTidy

open Text Doc Layout

/-! ## The class -/

/-- Types whose values are printed. -/
class Tidy (α : Type) where
  tidy : α → Prop

export Tidy (tidy)

namespace Tidy

variable {α β : Type}

instance [Tidy α] : Tidy (List α) := ⟨fun as => ∀ a ∈ as, tidy a⟩

instance [Tidy α] : Tidy (Option α) := ⟨fun o => ∀ a ∈ o, tidy a⟩

instance [Tidy α] [Tidy β] : Tidy (α × β) := ⟨fun p => tidy p.1 ∧ tidy p.2⟩

instance : Tidy Bool := ⟨fun _ => True⟩

instance : Tidy String := ⟨fun s => settle false s.toList = some true⟩

instance : Tidy Ident := ⟨fun i => tidy i.written⟩

instance : Tidy DottedName := ⟨fun n => tidy n.written⟩

variable [Tidy α] {a : α} {as : List α} {o : Option α} {f : α → Doc}

theorem tidy_none : tidy (none : Option α) := by simp [tidy]

theorem tidy_some (h : tidy a) : tidy (some a) := by
  intro _ heq
  cases heq
  exact h

theorem tidy_nil : tidy ([] : List α) := by simp [tidy]

theorem tidy_cons (h : tidy a) (hs : tidy as) : tidy (a :: as) := List.forall_mem_cons.2 ⟨h, hs⟩

/-- Tidy values make solid documents. -/
theorem solid_map (hf : ∀ a, tidy a → Solid (f a)) (h : tidy as) : ∀ d ∈ as.map f, Solid d := by
  intro d hd
  obtain ⟨a, ha, rfl⟩ := List.mem_map.1 hd
  exact hf a (h a ha)

theorem solid_optionMap (hf : ∀ a, tidy a → Solid (f a)) (h : tidy o) : ∀ d ∈ o.map f, Solid d := by
  intro d hd
  obtain ⟨a, ha, rfl⟩ := Option.map_eq_some_iff.1 hd
  exact hf a (h a ha)

end Tidy

open Tidy

/-! ## Parts without expressions -/

instance : Tidy Literal := ⟨fun l => Solid (literal l)⟩

instance : Tidy IntervalPart := ⟨fun part => Solid (intervalPart part)⟩

instance : Tidy Alias := ⟨fun a => Solid (selectAlias a)⟩

instance : Tidy TableAlias := ⟨fun a => Solid (tableAlias a)⟩

namespace Layout

variable {names : List Ident} {b : Bool}

theorem solid_idents (h : tidy names) : ∀ d ∈ names.map fun i => Doc.text i.written, Solid d :=
  solid_map (fun _ hi => .text hi) h

theorem solid_identList (h : tidy names) : Solid (identList names) := .parens (solid_idents h)

theorem lands_columnList (h : tidy names) : Lands b (columnList names) b := by
  cases names with
  | nil => exact .nil
  | cons name names => exact (solid_identList h).stay

theorem solid_strings {pieces : List String} (h : tidy pieces) : ∀ d ∈ pieces.map Doc.text, Solid d :=
  solid_map (fun _ hs => .text hs) h

theorem tidy_stringPieces {pieces : List String} (hne : pieces ≠ []) (h : tidy pieces) :
    tidy (Literal.string pieces) :=
  Lands.sep_ne_nil rfl (by simpa using hne) (solid_strings h)

theorem tidy_intervalPart {value : String} {unit : Option String} (h : tidy value) (hunit : tidy unit) :
    tidy (IntervalPart.mk value unit) :=
  Lands.seq <| .word rfl <| .word h <| .part (.optText hunit rfl) .nil

theorem loose_asWord (explicitAs : Bool) : Loose (asWord explicitAs) := .ite (.text rfl) (.text rfl)

theorem tidy_aliasName {name : Ident} (explicitAs : Bool) (h : tidy name) :
    tidy (Alias.mk explicitAs (.single name)) :=
  Lands.append (loose_asWord explicitAs) (.text h)

theorem tidy_aliasNames (explicitAs : Bool) (h : tidy names) :
    tidy (Alias.mk explicitAs (.multi names)) :=
  Lands.append (loose_asWord explicitAs) (solid_identList h)

theorem lands_selectAlias {a : Option Alias} (h : tidy a) : Lands b (selectAlias a) b := by
  cases a with
  | none => exact .nil
  | some a => exact .stay (h a rfl)

theorem tidy_tableAlias {name : Ident} (explicitAs : Bool) (h : tidy name) (hnames : tidy names) :
    tidy (TableAlias.mk explicitAs name names) :=
  Lands.append (.append (loose_asWord explicitAs) (.text h)) (lands_columnList hnames)

theorem lands_tableAlias {a : Option TableAlias} (h : tidy a) : Lands b (tableAlias a) b := by
  cases a with
  | none => exact .nil
  | some a => exact .stay (h a rfl)

theorem loose_notWord (negated : Bool) : Loose (notWord negated) := .when (.text rfl)

theorem loose_minusGap (op : UnaryOp) (e : Expr) : Loose (minusGap op e) := by
  unfold minusGap
  split
  · exact .text rfl
  · exact .nil

theorem lands_pivotColumns {names : List DottedName} (h : tidy names) : Solid (pivotColumns names) := by
  unfold pivotColumns
  split
  · exact .text (h _ (by simp))
  · exact .parens (solid_map (fun _ hn => .text hn) h)

end Layout

/-! ## Data types -/

instance : Tidy DataType := ⟨fun t => Solid t.doc⟩

instance : Tidy StructField := ⟨fun f => Solid f.doc⟩

namespace DataType

theorem tidy_primitive {name : String} {params : List String} (h : tidy name) (hparams : tidy params) :
    tidy (primitive name params) := by
  refine Lands.append (.text h) ?_
  cases params with
  | nil => exact .nil
  | cons param params => exact Lands.anywhere (.parens (solid_strings hparams))

theorem tidy_array {word : String} {element : DataType} (h : tidy word) (helement : tidy element) :
    tidy (array word element) :=
  Lands.seq <| .word h <| .word rfl <| .solid helement <| .word rfl .nil

theorem tidy_map {word : String} {key value : DataType} (h : tidy word) (hkey : tidy key)
    (hvalue : tidy value) : tidy (map word key value) :=
  Lands.seq <| .word h <| .word rfl <| .solid hkey <| .word rfl <| .solid hvalue <| .word rfl .nil

theorem solid_fieldDocs {fields : List StructField} (h : tidy fields) :
    ∀ d ∈ fieldDocs fields, Solid d := by
  induction fields with
  | nil => simp [fieldDocs]
  | cons f fs ih =>
    obtain ⟨hf, hfs⟩ := List.forall_mem_cons.1 h
    exact List.forall_mem_cons.2 ⟨hf, ih hfs⟩

theorem tidy_struct {word : String} {fields : List StructField} (h : tidy word)
    (hfields : tidy fields) : tidy (struct word fields) :=
  Lands.seq <| .word h <| .word rfl <| .part (.commas (solid_fieldDocs hfields)) <| .word rfl .nil

theorem tidy_interval {start : String} {stop : Option String} (h : tidy start) (hstop : tidy stop) :
    tidy (interval start stop) :=
  Lands.seq <| .word rfl <| .word h <| .part (.optText hstop rfl) .nil

theorem tidy_field {name : Ident} {type : DataType} {comment : Option String} (colon notNull : Bool)
    (h : tidy name) (htype : tidy type) (hcomment : tidy comment) :
    tidy (StructField.mk name colon type notNull comment) :=
  Lands.seq <| .word h <| .part (.ite (.text rfl) (.text rfl)) <| .solid htype <|
    .part (.when (.text rfl)) <| .part (.optText hcomment rfl) .nil

end DataType

/-! ## Trees -/

/-- How the document of a tree of each category may start and end. -/
def Category.Settles : (c : Category) → c.Rendered → Prop
  | .list c => fun ds => ∀ d ∈ (show List c.Rendered from ds), c.Settles d
  | .option c => fun od => ∀ d ∈ (show Option c.Rendered from od), c.Settles d
  | .organization => Doc.Keeps
  | .expr | .call | .callArg | .caseBranch
  | .window | .windowDefinition | .frame | .frameBound
  | .orderItem | .selectItem
  | .query | .withClause | .commonTable | .queryBody | .fromBody
  | .select | .hint | .hintFunction
  | .fromClause | .relation | .tableFactor | .sample | .join | .joinConstraint | .lateralView | .pivot
  | .groupBy | .groupingItem | .groupingElement | .namedWindow
  | .limit => Doc.Solid

instance {c : Category} : Tidy (Tree c) := ⟨fun t => ∀ broken, c.Settles (t.render broken)⟩

namespace Tree

variable {c : Category}

theorem tidy_ofList {ts : List (Tree c)} (h : tidy ts) : tidy (ofList ts) := by
  intro broken
  rw [render_list, toList_ofList]
  intro d hd
  obtain ⟨t, ht, rfl⟩ := List.mem_map.1 hd
  exact h t ht false

theorem tidy_ofOption {o : Option (Tree c)} (h : tidy o) : tidy (ofOption o) := by
  intro broken
  rw [render_option, toOption_ofOption]
  intro d hd
  obtain ⟨t, ht, rfl⟩ := Option.map_eq_some_iff.1 hd
  exact h t ht false

/-! ### Expressions -/

variable {name : Ident} {path : DottedName} {word word' : String} {e e₁ e₂ e₃ : Expr} {oe : Tree (.option .expr)}
  {es : Tree (.list .expr)} {q : Query}

theorem tidy_ident (h : tidy name) : tidy (ident name) := fun _ => Lands.text h

theorem tidy_compound {parts : List Ident} (hne : parts ≠ []) (h : tidy parts) : tidy (compound parts) :=
  fun _ => Lands.sep_ne_nil rfl (by simpa using hne) (solid_idents h)

theorem tidy_wildcard : tidy wildcard := fun _ => Lands.text rfl

theorem tidy_qualifiedWildcard (h : tidy path) : tidy (qualifiedWildcard path) :=
  fun _ => Lands.seq <| .word h <| .word rfl .nil

theorem tidy_literal {value : Literal} (h : tidy value) : tidy (literal value) := fun _ => h

theorem tidy_typedLiteral (h : tidy word) (h' : tidy word') : tidy (typedLiteral word word') :=
  fun _ => Lands.seq <| .word h <| .part (.ite (.loosen .nil) (.text rfl)) <| .word h' .nil

theorem tidy_interval {parts : List IntervalPart} {upTo : Option String} (h : tidy parts)
    (hupTo : tidy upTo) : tidy (interval parts upTo) :=
  fun _ => Lands.seq <| .word rfl <| .part (.row (solid_map (fun _ hp => hp) h)) <|
    .part (.optText hupTo rfl) .nil

theorem tidy_unary (op : UnaryOp) (h : tidy e) : tidy (unary op e) := by
  intro _
  have hop : Loose op.spelling := by cases op <;> exact .loosen (.text rfl)
  exact Lands.seq <| .part hop <| .part (loose_minusGap op e) <| .solid (h false) .nil

theorem tidy_binary (op : BinaryOp) (h₁ : tidy e₁) (h₂ : tidy e₂) : tidy (binary op e₁ e₂) :=
  fun broken => Lands.seq <| .solid (h₁ _) <| .part (.ite .line (.text rfl)) <|
    .word (by cases op <;> rfl) <| .word rfl <| .solid (h₂ _) .nil

theorem tidy_between (negated : Bool) (h : tidy e) (h₁ : tidy e₁) (h₂ : tidy e₂) :
    tidy (between e negated e₁ e₂) :=
  fun _ => Lands.seq <| .solid (h false) <| .word rfl <| .part (loose_notWord negated) <| .word rfl <|
    .solid (h₁ false) <| .word rfl <| .solid (h₂ false) .nil

theorem tidy_inList (negated : Bool) (h : tidy e) (hs : tidy es) : tidy (inList e negated es) :=
  fun _ => Lands.seq <| .solid (h false) <| .word rfl <| .part (loose_notWord negated) <| .word rfl <|
    .solid (.parens (hs false)) .nil

theorem tidy_inQuery (negated : Bool) (h : tidy e) (hq : tidy q) : tidy (inQuery e negated q) :=
  fun _ => Lands.seq <| .solid (h false) <| .word rfl <| .part (loose_notWord negated) <| .word rfl <|
    .solid (.enclosed (hq false)) .nil

theorem tidy_like {escape : Option String} (negated : Bool) (op : LikeOp) (h₁ : tidy e₁) (h₂ : tidy e₂)
    (hescape : tidy escape) : tidy (like e₁ negated op e₂ escape) :=
  fun _ => Lands.seq <| .solid (h₁ false) <| .word rfl <| .part (loose_notWord negated) <|
    .word (by cases op <;> rfl) <| .word rfl <| .solid (h₂ false) <| .part (.optText hescape rfl) .nil

theorem tidy_is (negated : Bool) (test : IsTest) (h : tidy e) : tidy (is e negated test) :=
  fun _ => Lands.seq <| .solid (h false) <| .word rfl <| .part (loose_notWord negated) <|
    .word (by cases test <;> rfl) .nil

theorem tidy_distinctFrom (negated : Bool) (h₁ : tidy e₁) (h₂ : tidy e₂) :
    tidy (distinctFrom e₁ negated e₂) :=
  fun _ => Lands.seq <| .solid (h₁ false) <| .word rfl <| .part (loose_notWord negated) <| .word rfl <|
    .solid (h₂ false) .nil

theorem tidy_function {call : Call} (h : tidy call) : tidy (function call) := fun _ => h false

theorem tidy_case {operand otherwise : Tree (.option .expr)} {branches : Tree (.list .caseBranch)}
    (h : tidy operand) (hbranches : tidy branches) (hotherwise : tidy otherwise) :
    tidy (case operand branches otherwise) := by
  intro _
  have helse : ∀ d ∈ Option.map (fun d => Doc.text "ELSE " ++ d) (otherwise.render false), Solid d := by
    intro d hd
    obtain ⟨d, hmem, rfl⟩ := Option.map_eq_some_iff.1 hd
    exact .append (.text rfl) (hotherwise false d hmem)
  exact Lands.seq <| .word rfl <| .part (.optBehind rfl (h false)) <|
    .part (.nest (.onLines (hbranches false))) <| .line <| .part (.optFollowed (.text rfl) helse) <|
    .word rfl .nil

theorem tidy_branch (h₁ : tidy e₁) (h₂ : tidy e₂) : tidy (branch e₁ e₂) :=
  fun _ => Lands.seq <| .word rfl <| .solid (h₁ false) <| .word rfl <| .solid (h₂ false) .nil

theorem tidy_cast {type : DataType} (form : CastForm) (h : tidy e) (htype : tidy type) :
    tidy (cast form e type) := by
  intro _
  cases form with
  | shorthand => exact Lands.seq <| .solid (h false) <| .word rfl <| .solid htype .nil
  | cast =>
    exact Lands.seq <| .word rfl <| .solid (h false) <| .word rfl <| .solid htype <| .word rfl .nil
  | tryCast =>
    exact Lands.seq <| .word rfl <| .solid (h false) <| .word rfl <| .solid htype <| .word rfl .nil

theorem tidy_extract (h : tidy word) (he : tidy e) : tidy (extract word e) :=
  fun _ => Lands.seq <| .word rfl <| .word h <| .word rfl <| .solid (he false) <| .word rfl .nil

theorem tidy_substring (keywordForm : Bool) (h : tidy word) (h₁ : tidy e₁) (h₂ : tidy e₂) (ho : tidy oe) :
    tidy (substring word e₁ e₂ oe keywordForm) := by
  intro _
  have hfor : settle false (if keywordForm then " FOR " else ", ").toList = Option.some false := by
    cases keywordForm <;> rfl
  exact Lands.seq <| .word h <| .word rfl <| .solid (h₁ false) <| .part (.ite (.text rfl) (.text rfl)) <|
    .solid (h₂ false) <| .part (.optBehind hfor (ho false)) <| .word rfl .nil

theorem tidy_trim (side : Option TrimSide) (ho : tidy oe) (h : tidy e) : tidy (trim side oe e) :=
  fun _ => Lands.seq <| .word rfl <| .part (.anywhere (.optWordGap (by intro side; cases side <;> rfl) side)) <|
    .part (.optFollowed (.text rfl) (ho false)) <| .part (.when (.text rfl)) <| .solid (h false) <|
    .word rfl .nil

theorem tidy_position (h₁ : tidy e₁) (h₂ : tidy e₂) : tidy (position e₁ e₂) :=
  fun _ => Lands.seq <| .word rfl <| .solid (h₁ false) <| .word rfl <| .solid (h₂ false) <| .word rfl .nil

theorem tidy_overlay (h₁ : tidy e₁) (h₂ : tidy e₂) (h₃ : tidy e₃) (ho : tidy oe) :
    tidy (overlay e₁ e₂ e₃ oe) :=
  fun _ => Lands.seq <| .word rfl <| .solid (h₁ false) <| .word rfl <| .solid (h₂ false) <| .word rfl <|
    .solid (h₃ false) <| .part (.optBehind rfl (ho false)) <| .word rfl .nil

theorem tidy_firstLast (last ignoreNulls : Bool) (h : tidy e) : tidy (firstLast last e ignoreNulls) :=
  fun _ => Lands.seq <| .part (.ite (.text rfl) (.text rfl)) <| .solid (h false) <|
    .part (.when (.text rfl)) <| .word rfl .nil

theorem tidy_datetime (h : tidy word) (h' : tidy word') (hs : tidy es) : tidy (datetime word word' es) := by
  intro _
  have hargs : ∀ d ∈ Doc.text word' :: es.render false, Solid d :=
    List.forall_mem_cons.2 ⟨.text h', hs false⟩
  exact Lands.seq <| .word h <| .word rfl <| .part (.commas hargs) <| .word rfl .nil

theorem tidy_currentValue (h : tidy word) : tidy (currentValue word) := fun _ => Lands.text h

theorem tidy_struct {fields : Tree (.list .selectItem)} (h : tidy fields) : tidy (struct fields) :=
  fun _ => Lands.seq <| .word rfl <| .solid (.parens (h false)) .nil

theorem tidy_existsQuery (h : tidy q) : tidy (existsQuery q) :=
  fun _ => Lands.seq <| .word rfl <| .solid (.enclosed (h false)) .nil

theorem tidy_subquery (h : tidy q) : tidy (subquery q) := fun _ => Lands.enclosed (h false)

theorem tidy_row {items : Tree (.list .selectItem)} (h : tidy items) : tidy (row items) :=
  fun _ => Lands.parens (h false)

theorem tidy_paren (h : tidy e) : tidy (paren e) :=
  fun _ => Lands.parens (List.forall_mem_cons.2 ⟨h false, by simp⟩)

/-- Parameters without parentheses start the page of a lambda, so there has to be one. -/
theorem tidy_lambda {params : List Ident} (parenthesized : Bool) (hne : params ≠ []) (h : tidy params)
    (he : tidy e) : tidy (lambda params parenthesized e) := by
  intro _
  have hparams := solid_idents h
  exact Lands.seq <|
    .part (.ite (.parens hparams) (.sep_ne_nil rfl (by simpa using hne) hparams)) <| .word rfl <|
    .solid (he false) .nil

theorem tidy_subscript (h₁ : tidy e₁) (h₂ : tidy e₂) : tidy (subscript e₁ e₂) :=
  fun _ => Lands.seq <| .solid (h₁ false) <| .word rfl <| .solid (h₂ false) <| .word rfl .nil

theorem tidy_field (h : tidy e) (hname : tidy name) : tidy (field e name) :=
  fun _ => Lands.seq <| .solid (h false) <| .word rfl <| .word hname .nil

/-! ### Calls and windows -/

theorem tidy_call {args : Tree (.list .callArg)} {withinGroup : Tree (.list .orderItem)}
    {filter : Option Expr} {window : Tree (.option .window)} (quantifier : Option Quantifier)
    (nullTreatment : Option NullTreatment) (h : tidy path) (hargs : tidy args)
    (hgroup : tidy withinGroup) (hfilter : tidy filter) (hwindow : tidy window) :
    tidy (call path quantifier args withinGroup (ofOption filter) nullTreatment window) := by
  intro _
  have hstart {ds : List Doc} (hds : LandsRow true ds true) :
      LandsRow false (path.written :: "(" :: optWordGap (quantifier.map Quantifier.spelling) ::
        Doc.commas (args.render false) :: ")" :: ds) true :=
    .word h <| .word rfl <| .part (.anywhere (.optWordGap (by intro x; cases x <;> rfl) quantifier)) <|
      .part (.commas (hargs false)) <| .word rfl hds
  have hend : LandsRow true [Layout.optWord (nullTreatment.map NullTreatment.spelling),
      Layout.optBehind " OVER " (window.render false)] true :=
    .part (.optWord (by intro x; cases x <;> rfl) nullTreatment) <|
      .part (.optBehind rfl (hwindow false)) .nil
  -- A filter is laid out as a condition, so it is looked into here.
  cases filter with
  | none =>
    refine Lands.seq <| hstart <| .part (?_ : Keeps _) <| .part .nil hend
    cases withinGroup with
    | nil => exact .nil
    | cons => exact .seq <| .word rfl <| .part (.commas (hgroup false)) <| .word rfl .nil
  | some condition =>
    refine Lands.seq <| hstart <| .part (?_ : Keeps _) <| .solid
      (.append (.text rfl) (.enclosed (.conditionClause rfl (hfilter condition rfl true)))) hend
    cases withinGroup with
    | nil => exact .nil
    | cons => exact .seq <| .word rfl <| .part (.commas (hgroup false)) <| .word rfl .nil

theorem tidy_positional (h : tidy e) : tidy (positional e) := fun _ => h false

theorem tidy_named (hname : tidy name) (h : tidy e) : tidy (named name e) :=
  fun _ => Lands.seq <| .word hname <| .word rfl <| .solid (h false) .nil

theorem tidy_windowName (h : tidy name) : tidy (windowName name) := fun _ => Lands.text h

theorem tidy_windowNameParen (h : tidy name) : tidy (windowNameParen name) :=
  fun _ => Lands.parens (List.forall_mem_cons.2 ⟨.text h, by simp⟩)

theorem tidy_windowInline {w : WindowDefinition} (h : tidy w) : tidy (windowInline w) := fun _ => h false

theorem tidy_windowDefinition {keys : Tree (.list .orderItem)} {bounds : Tree (.option .frame)}
    {clusterBy : Tree (.list .expr)} (distribute sort : Bool) (h : tidy es) (hkeys : tidy keys)
    (hcluster : tidy clusterBy) (hbounds : tidy bounds) :
    tidy (windowDefinition es distribute keys sort clusterBy bounds) := by
  intro _
  refine Lands.seq <| .word rfl <| .part (.windowParts ?_) <| .part (.frameLine (hbounds false)) <|
    .word rfl .nil
  simp only [List.forall_mem_cons, List.not_mem_nil, false_implies, implies_true, and_true]
  refine ⟨⟨⟨false, ?_⟩, h false⟩, ⟨⟨false, ?_⟩, hkeys false⟩, ⟨false, rfl⟩, hcluster false⟩
  · cases distribute <;> rfl
  · cases sort <;> rfl

theorem tidy_frame {start : FrameBound} {stop : Tree (.option .frameBound)} (unit : FrameUnit)
    (h : tidy start) (hstop : tidy stop) : tidy (frame unit start stop) := by
  intro _
  refine Lands.seq <| .word (by cases unit <;> rfl) <| .word rfl <| .part (?_ : Solid _) .nil
  cases stop with
  | none => exact h false
  | some stop =>
    exact .seq <| .word rfl <| .solid (h false) <| .word rfl <| .solid (hstop false _ rfl) .nil

theorem tidy_currentRow : tidy currentRow := fun _ => Lands.text rfl

theorem tidy_unboundedPreceding : tidy unboundedPreceding := fun _ => Lands.text rfl

theorem tidy_unboundedFollowing : tidy unboundedFollowing := fun _ => Lands.text rfl

theorem tidy_preceding (h : tidy e) : tidy (preceding e) :=
  fun _ => Lands.seq <| .solid (h false) <| .word rfl .nil

theorem tidy_following (h : tidy e) : tidy (following e) :=
  fun _ => Lands.seq <| .solid (h false) <| .word rfl .nil

theorem tidy_orderItem (direction : Option SortDirection) (nulls : Option NullsOrder) (h : tidy e) :
    tidy (orderItem e direction nulls) :=
  fun _ => Lands.seq <| .solid (h false) <|
    .part (.optWord (by intro x; cases x <;> rfl) direction) <|
    .part (.optWord (by intro x; cases x <;> rfl) nulls) .nil

theorem tidy_selectItem {asName : Option Alias} (h : tidy e) (ha : tidy asName) :
    tidy (selectItem e asName) :=
  fun _ => Lands.seq <| .solid (h false) <| .part (lands_selectAlias ha) .nil

/-! ### Queries -/

theorem tidy_query {tables : Tree (.option .withClause)} {body : QueryBody} {clauses : Organization}
    (htables : tidy tables) (hbody : tidy body) (hclauses : tidy clauses) :
    tidy (query tables body clauses) :=
  fun _ => Lands.seq <| .part (.optFollowed .line (htables false)) <| .solid (hbody false) <|
    .part (hclauses false) .nil

theorem tidy_withClause {tables : List CommonTable} (hne : tables ≠ []) (h : tidy tables) :
    tidy (withClause (ofList tables)) := by
  intro _
  have hds := tidy_ofList h false
  refine Lands.seq <| .word rfl <| .solid (.intersperse ?_ hds) .nil
  cases tables with
  | nil => contradiction
  | cons => exact List.cons_ne_nil _ _

theorem tidy_commonTable {columns : List Ident} (h : tidy name) (hcolumns : tidy columns) (hq : tidy q) :
    tidy (commonTable name columns q) :=
  fun _ => Lands.seq <| .word h <| .part (lands_columnList hcolumns) <| .word rfl <|
    .solid (.enclosed (hq false)) .nil

theorem tidy_selectBody {s : Select} (h : tidy s) : tidy (selectBody s) := fun _ => h false

theorem tidy_setOperation {left right : QueryBody} (op : SetOp) (quantifier : Option Quantifier)
    (h : tidy left) (h' : tidy right) : tidy (setOperation left op quantifier right) :=
  fun _ => Lands.seq <| .solid (h false) <| .line <| .word (by cases op <;> rfl) <|
    .part (.optWord (by intro x; cases x <;> rfl) quantifier) <| .line <| .solid (h' false) .nil

theorem tidy_nestedQuery (h : tidy q) : tidy (nestedQuery q) := fun _ => Lands.enclosed (h false)

theorem tidy_valuesBody {asName : Option TableAlias} (h : tidy es) (ha : tidy asName) :
    tidy (valuesBody es asName) :=
  fun _ => Lands.seq <| .solid (.values (h false)) <| .part (lands_tableAlias ha) .nil

theorem tidy_tableBody (h : tidy path) : tidy (tableBody path) :=
  fun _ => Lands.seq <| .word rfl <| .word h .nil

theorem tidy_fromFirst {source : FromClause} {bodies : Tree (.list .fromBody)} (h : tidy source)
    (hbodies : tidy bodies) : tidy (fromFirst source bodies) :=
  fun _ => Lands.seq <| .solid (h false) <| .part (.onLines (hbodies false)) .nil

theorem tidy_fromBody {s : Select} {clauses : Organization} (h : tidy s) (hclauses : tidy clauses) :
    tidy (fromBody s clauses) :=
  fun _ => Lands.seq <| .solid (h false) <| .part (hclauses false) .nil

/-- The conditions are laid out as such, so they are looked into here. -/
theorem tidy_select {hints : Tree (.list .hint)} {items : Tree (.list .selectItem)}
    {source : Tree (.option .fromClause)} {condition having : Option Expr}
    {grouping : Tree (.option .groupBy)} {windows : Tree (.list .namedWindow)}
    (quantifier : Option Quantifier) (hhints : tidy hints) (hitems : tidy items) (hsource : tidy source)
    (hcondition : tidy condition) (hgrouping : tidy grouping) (hhaving : tidy having)
    (hwindows : tidy windows) :
    tidy (select hints quantifier items source (ofOption condition) grouping (ofOption having)
      windows) := by
  intro _
  have hline {word : String} {e : Expr} (hword : settle false word.toList = Option.some true) (he : tidy e) :
      Keeps (.line ++ conditionClause word (e.render true)) :=
    .append .line (.conditionClause hword (he true))
  have hstart {ds : List Doc} (hds : LandsRow true ds true) :
      LandsRow false (Doc.text "SELECT" :: Doc.seq (hints.render false) ::
        optWord (quantifier.map Quantifier.spelling) :: Doc.items (items.render false) ::
        optLine (source.render false) :: ds) true :=
    .word rfl <| .part (.row (hhints false)) <|
      .part (.optWord (by intro x; cases x <;> rfl) quantifier) <| .part (.items (hitems false)) <|
      .part (.optLine (hsource false)) hds
  have hgroup : Keeps (optLine (grouping.render false)) := .optLine (hgrouping false)
  have hend : LandsRow true [windowClause (windows.render false)] true :=
    .part (.windowClause (hwindows false)) .nil
  cases condition with
  | none =>
    cases having with
    | none => exact Lands.seq <| hstart <| .part .nil <| .part hgroup <| .part .nil hend
    | some e => exact Lands.seq <| hstart <| .part .nil <| .part hgroup <| .part (hline rfl (hhaving e rfl)) hend
  | some e =>
    have he := hcondition e rfl
    cases having with
    | none => exact Lands.seq <| hstart <| .part (hline rfl he) <| .part hgroup <| .part .nil hend
    | some e' =>
      exact Lands.seq <| hstart <| .part (hline rfl he) <| .part hgroup <|
        .part (hline rfl (hhaving e' rfl)) hend

theorem tidy_hint {functions : Tree (.list .hintFunction)} (h : tidy functions) : tidy (hint functions) :=
  fun _ => Lands.seq <| .word rfl <| .part (.commas (h false)) <| .word rfl .nil

theorem tidy_hintFunction {args : Tree (.option (.list .expr))} (h : tidy name) (hargs : tidy args) :
    tidy (hintFunction name args) := by
  intro _
  refine Lands.seq <| .word h <| .part (?_ : Keeps _) .nil
  cases args with
  | none => exact .nil
  | some args => exact Lands.anywhere (.parens (hargs false _ rfl))

/-! ### The `FROM` clause -/

theorem tidy_fromClause {relations : Tree (.list .relation)} {views : Tree (.list .lateralView)}
    {pivoting : Tree (.option .pivot)} (h : tidy relations) (hviews : tidy views)
    (hpivoting : tidy pivoting) : tidy (fromClause relations views pivoting) :=
  fun _ => Lands.seq <| .solid (.clause rfl (h false)) <|
    .part (.nest (.seq <| .part (.onLines (hviews false)) <| .part (.optLine (hpivoting false)) .nil)) .nil

theorem tidy_relation {factor : TableFactor} {joins : Tree (.list .join)} (h : tidy factor)
    (hjoins : tidy joins) : tidy (relation factor joins) :=
  fun _ => Lands.seq <| .solid (h false) <| .part (.onLines (hjoins false)) .nil

variable {sampling : Tree (.option .sample)} {asName : Option TableAlias}

theorem tidy_table (h : tidy path) (hs : tidy sampling) (ha : tidy asName) :
    tidy (table path sampling asName) :=
  fun _ => Lands.seq <| .word h <| .part (.optBehind rfl (hs false)) <| .part (lands_tableAlias ha) .nil

theorem tidy_derived (h : tidy q) (hs : tidy sampling) (ha : tidy asName) :
    tidy (derived q sampling asName) :=
  fun _ => Lands.seq <| .solid (.enclosed (h false)) <| .part (.optBehind rfl (hs false)) <|
    .part (lands_tableAlias ha) .nil

theorem tidy_valuesTable (h : tidy es) (ha : tidy asName) : tidy (valuesTable es asName) :=
  fun _ => Lands.seq <| .solid (.values (h false)) <| .part (lands_tableAlias ha) .nil

theorem tidy_tableFunction {args : Tree (.list .callArg)} (h : tidy path) (hargs : tidy args)
    (ha : tidy asName) : tidy (tableFunction path args asName) :=
  fun _ => Lands.seq <| .word h <| .solid (.parens (hargs false)) <| .part (lands_tableAlias ha) .nil

theorem tidy_nestedRelation {inner : Relation} (h : tidy inner) (ha : tidy asName) :
    tidy (nestedRelation inner asName) :=
  fun _ => Lands.seq <| .solid (.enclosed (h false)) <| .part (lands_tableAlias ha) .nil

theorem tidy_samplePercent (h : tidy e) : tidy (samplePercent e) :=
  fun _ => Lands.seq <| .word rfl <| .solid (h false) <| .word rfl .nil

theorem tidy_sampleRows (h : tidy e) : tidy (sampleRows e) :=
  fun _ => Lands.seq <| .word rfl <| .solid (h false) <| .word rfl .nil

theorem tidy_sampleBucket (h : tidy word) (h' : tidy word') (ho : tidy oe) :
    tidy (sampleBucket word word' oe) :=
  fun _ => Lands.seq <| .word rfl <| .word h <| .word rfl <| .word h' <|
    .part (.optBehind rfl (ho false)) <| .word rfl .nil

theorem tidy_join {factor : TableFactor} {constraint : Tree (.option .joinConstraint)} (natural : Bool)
    (kind : JoinKind) (h : tidy factor) (hc : tidy constraint) :
    tidy (join natural kind factor constraint) := by
  intro _
  have hkind : settle false kind.spelling.toList = Option.some true := by
    cases kind with
    | cross => rfl
    | inner b | left b | right b | full b | semi b | anti b => cases b <;> rfl
  exact Lands.seq <| .part (.when (.text rfl)) <| .word hkind <| .word rfl <| .solid (h false) <|
    .part (.optBehind rfl (hc false)) .nil

theorem tidy_on (h : tidy e) : tidy (on e) :=
  fun _ => Lands.seq <| .word rfl <| .solid (.nest (h true)) .nil

theorem tidy_using {columns : List Ident} (h : tidy columns) : tidy (Tree.using columns) :=
  fun _ => Lands.seq <| .word rfl <| .solid (solid_identList h) .nil

theorem tidy_lateralView {view : Option Ident} {columns : List Ident} (outer explicitAs : Bool)
    (h : tidy path) (hargs : tidy es) (hview : tidy view) (hcolumns : tidy columns) :
    tidy (lateralView outer path es view explicitAs columns) := by
  intro _
  have hname : ∀ w ∈ view.map Ident.written, settle false w.toList = Option.some true := by
    intro w hw
    obtain ⟨i, hi, rfl⟩ := Option.map_eq_some_iff.1 hw
    exact hview i hi
  refine Lands.seq <| .word rfl <| .part (.when (.text rfl)) <| .word h <| .solid (.block (hargs false)) <|
    .part (.optText hname rfl) <| .part (.when (.text rfl)) <| .part (?_ : Keeps _) .nil
  cases columns with
  | nil => exact .nil
  | cons => exact .append (.text rfl) (.anywhere (.sep_cons rfl (solid_idents hcolumns)))

theorem tidy_pivot {aggregates values : Tree (.list .selectItem)} {columns : List DottedName}
    (h : tidy aggregates) (hcolumns : tidy columns) (hvalues : tidy values) :
    tidy (pivot aggregates columns values) :=
  fun _ => Lands.seq <| .word rfl <|
    .part (.nest (.seq <| .part (.commaLines (h false)) <| .line <| .word rfl <|
      .solid (lands_pivotColumns hcolumns) <| .word rfl <| .solid (.parens (hvalues false)) .nil)) <|
    .line <| .word rfl .nil

/-! ### The clauses after it -/

theorem tidy_groupBy {items : Tree (.list .groupingItem)} (modifier : Option GroupingKind)
    (h : tidy items) : tidy (groupBy items modifier) :=
  fun _ => Lands.seq <| .solid (.clause rfl (h false)) <|
    .part (.optKeyword rfl (by intro x; cases x <;> rfl) modifier) .nil

theorem tidy_groupingExpr (h : tidy e) : tidy (groupingExpr e) := fun _ => h false

theorem tidy_analytics {elements : Tree (.list .groupingElement)} (kind : GroupingKind)
    (h : tidy elements) : tidy (analytics kind elements) :=
  fun _ => Lands.seq <| .word (by cases kind <;> rfl) <| .word rfl <| .solid (.block (h false)) .nil

theorem tidy_elementSet (h : tidy es) : tidy (elementSet es) := fun _ => Lands.parens (h false)

theorem tidy_elementExpr (h : tidy e) : tidy (elementExpr e) := fun _ => h false

theorem tidy_namedWindow {w : Window} (h : tidy name) (hw : tidy w) : tidy (namedWindow name w) :=
  fun _ => Lands.seq <| .word h <| .word rfl <| .solid (hw false) .nil

theorem tidy_organization {orderBy sortBy : Tree (.list .orderItem)}
    {clusterBy distributeBy : Tree (.list .expr)} {rowLimit : Tree (.option .limit)}
    {offset : Tree (.option .expr)} (horder : tidy orderBy) (hcluster : tidy clusterBy)
    (hdistribute : tidy distributeBy) (hsort : tidy sortBy) (hlimit : tidy rowLimit)
    (hoffset : tidy offset) :
    tidy (organization orderBy clusterBy distributeBy sortBy rowLimit offset) := by
  intro _
  have hwords : ∀ d ∈ Option.map (fun d => Doc.text "OFFSET " ++ d) (offset.render false), Solid d := by
    intro d hd
    obtain ⟨d, hmem, rfl⟩ := Option.map_eq_some_iff.1 hd
    exact .append (.text rfl) (hoffset false d hmem)
  exact Lands.seq <| .part (.clauseLine rfl (horder false)) <| .part (.clauseLine rfl (hcluster false)) <|
    .part (.clauseLine rfl (hdistribute false)) <| .part (.clauseLine rfl (hsort false)) <|
    .part (.optLine (hlimit false)) <| .part (.optLine hwords) .nil

theorem tidy_limitAll : tidy limitAll := fun _ => Lands.text rfl

theorem tidy_limitCount (h : tidy e) : tidy (limitCount e) :=
  fun _ => Lands.seq <| .word rfl <| .solid (h false) .nil

end Tree

end SqlTidy
