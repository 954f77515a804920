import SqlTidy.Proofs.Render.Basic

/-!
# Lists, options and small parts

How the combinators of documents and the shared pieces of layout carry strings. A list of documents carries
the strings of its items one after the other (`Each`), an optional document those of its value (`Maybe`).
-/

namespace SqlTidy

open Text

/-! ## Lists and options -/

section

variable {ρ α : Type} (R : List String → ρ → Prop)

/-- Every item carries its own strings. -/
inductive Each : List String → List ρ → Prop where
  | nil : Each [] []
  | cons {ss ss' : List String} {r : ρ} {rs : List ρ} (head : R ss r) (tail : Each ss' rs) :
      Each (ss ++ ss') (r :: rs)

/-- The value carries the strings, if there is one. -/
inductive Maybe : List String → Option ρ → Prop where
  | none : Maybe [] none
  | some {ss : List String} {r : ρ} (value : R ss r) : Maybe ss (some r)

variable {R} {f : α → ρ}

theorem Each.map [Stored α] (h : ∀ x, R (stored x) (f x)) (xs : List α) :
    Each R (stored xs) (xs.map f) := by
  induction xs with
  | nil => exact .nil
  | cons x xs ih => exact .cons (h x) ih

theorem Maybe.map [Stored α] (h : ∀ x, R (stored x) (f x)) (x : Option α) :
    Maybe R (stored x) (x.map f) := by
  cases x with
  | none => exact .none
  | some x => exact .some (h x)

/-- Values that keep no string. -/
theorem Maybe.blank (h : ∀ x, R [] (f x)) (x : Option α) : Maybe R [] (x.map f) := by
  cases x with
  | none => exact .none
  | some x => exact .some (h x)

end

/-- An optional document behind a word. -/
theorem Maybe.behind {ss : List String} {od : Option Doc} {w : String}
    (hw : awaiting [] w.toList = Option.some []) (h : Maybe Doc.Renders ss od) :
    Maybe Doc.Renders ss (od.map fun d => Doc.text w ++ d) := by
  cases h with
  | none => exact .none
  | some value => exact .some ((Doc.Carries.word hw).after value)

/-- A document without strings between the items. -/
theorem Each.intersperse {ss : List String} {ds : List Doc} {e : Doc} (he : Doc.Renders [] e)
    (h : Each Doc.Renders ss ds) :
    Each Doc.Renders ss (ds.intersperse e) := by
  induction h with
  | nil => exact .nil
  | cons head tail ih =>
    cases tail with
    | nil => exact .cons head .nil
    | cons head' tail =>
      have hrest : Each Doc.Renders ([] ++ _) (e :: _) := .cons he ih
      exact .cons head hrest

namespace Doc

namespace Carries

variable {ss : List String} {d : Doc} {ds : List Doc} {od : Option Doc}

/-! ## Combinators of documents -/

/-- A document in parentheses. -/
theorem inParens (h : Renders ss d) : Renders ss ("(" ++ d ++ ")") :=
  ((Carries.word rfl).after (h.frame [')'])).before (.word rfl)

theorem sep {w : String} (hw : awaiting [] w.toList = some []) (h : Each Renders ss ds) :
    Renders ss (sep w ds) := by
  induction h with
  | nil => exact .nil
  | cons head tail ih =>
    cases tail with
    | nil =>
      rw [List.append_nil]
      exact head
    | cons => exact head.append ((Carries.word hw).after ih)

theorem commas (h : Each Renders ss ds) : Renders ss (commas ds) := sep rfl h

theorem parens (h : Each Renders ss ds) : Renders ss (parens ds) := inParens (commas h)

theorem parensOne (h : Renders ss d) : Renders ss (Doc.parens [d]) := inParens h

theorem row (h : Each Renders ss ds) : Renders ss (Doc.seq ds) := by
  induction h with
  | nil => exact .nil
  | cons head _ ih => exact head.append ih

theorem commaLines (h : Each Renders ss ds) : Renders ss (commaLines ds) := by
  induction h with
  | nil => exact .nil
  | cons head tail ih =>
    cases tail with
    | nil =>
      rw [List.append_nil]
      exact Carries.line.after head
    | cons => exact Carries.line.after (head.append ((Carries.word rfl).after ih))

theorem lines (h : Each Renders ss ds) : Renders ss (lines ds) := (commaLines h).nest

theorem onLines (h : Each Renders ss ds) : Renders ss (onLines ds) := by
  induction h with
  | nil => exact .nil
  | cons head _ ih => exact Carries.line.after (head.append ih)

/-- A list whose single item is laid out in a way of its own. -/
theorem singleOr {ways : List Doc → Doc} (h : Each Renders ss ds)
    (hone : ∀ {ss d}, Renders ss d → Renders ss (ways [d]))
    (hmany : ds.length ≠ 1 → Renders ss (ways ds)) : Renders ss (ways ds) := by
  cases h with
  | nil => exact hmany (by simp)
  | cons head tail =>
    cases tail with
    | nil =>
      rw [List.append_nil]
      exact hone head
    | cons => exact hmany (by simp)

theorem items (h : Each Renders ss ds) : Renders ss (items ds) := by
  refine singleOr h (fun hd => (Carries.word rfl).after hd) fun hlen => ?_
  unfold Doc.items
  split
  · contradiction
  · exact lines h

theorem clause {w : String} (hw : awaiting [] w.toList = some []) (h : Each Renders ss ds) :
    Renders ss (clause w ds) := by
  have word := Carries.word hw
  refine singleOr h (fun hd => word.after (Carries.clauseBreak.after hd).nest) fun hlen => ?_
  unfold Doc.clause
  split
  · contradiction
  · exact word.after (lines h)

theorem block (h : Each Renders ss ds) : Renders ss (block ds) := by
  unfold Doc.block
  split
  · cases h
    exact .word rfl
  · exact (((Carries.word rfl).after ((lines h).frame [')'])).before .line).before (.word rfl)

theorem enclosed (h : Renders ss d) : Renders ss (enclosed d) :=
  (((Carries.word rfl).after ((Carries.line.after h).nest.frame [')'])).before .line).before
    (.word rfl)

theorem optText {w : String} (hw : awaiting [] w.toList = some []) (s : Option String) :
    Renders (stored s) (optText w s) := by
  cases s with
  | none => exact .nil
  | some s => exact (Carries.word hw).after (.leaf s)

/-! ## Optional parts -/

theorem optBehind {w : String} (hw : awaiting [] w.toList = some []) (h : Maybe Renders ss od) :
    Renders ss (Layout.optBehind w od) := by
  cases h with
  | none => exact .nil
  | some value => exact (Carries.word hw).after value

theorem optFollowed (hd : Renders [] d) (h : Maybe Renders ss od) :
    Renders ss (Layout.optFollowed d od) := by
  cases h with
  | none => exact .nil
  | some value => exact value.before hd

theorem optLine (h : Maybe Renders ss od) : Renders ss (Layout.optLine od) := by
  cases h with
  | none => exact .nil
  | some value => exact Carries.line.after value

theorem frameLine (h : Maybe Renders ss od) : Renders ss (Layout.frameLine od) := by
  cases h with
  | none => exact .nil
  | some value => exact (Carries.line.after value).nest.before .line

/-- An optional keyword behind a word, from a table whose words have no brackets. -/
theorem optKeyword {α : Type} {w : String} {spelling : α → String}
    (hw : awaiting [] w.toList = some []) (h : ∀ x, awaiting [] (spelling x).toList = some [])
    (x : Option α) : Renders [] (Doc.optText w (x.map spelling)) := by
  cases x with
  | none => exact .nil
  | some x => exact (Carries.word hw).after (.word (h x))

theorem optWord {α : Type} {spelling : α → String}
    (h : ∀ x, awaiting [] (spelling x).toList = some []) (x : Option α) :
    Renders [] (Layout.optWord (x.map spelling)) :=
  optKeyword rfl h x

theorem optWordGap {α : Type} {spelling : α → String}
    (h : ∀ x, awaiting [] (spelling x).toList = some []) (x : Option α) :
    Renders [] (Layout.optWordGap (x.map spelling)) := by
  cases x with
  | none => exact .nil
  | some x => exact (Carries.word (h x)).after (.word rfl)

/-! ## Shared pieces of layout -/

theorem clauseLine {w : String} (hw : awaiting [] w.toList = some []) (h : Each Renders ss ds) :
    Renders ss (Layout.clauseLine w ds) := by
  unfold Layout.clauseLine
  split
  · cases h
    exact .nil
  · exact Carries.line.after (clause hw h)

theorem conditionClause {w : String} (hw : awaiting [] w.toList = some []) (h : Renders ss d) :
    Renders ss (Layout.conditionClause w d) :=
  (Carries.word hw).after (Carries.line.after h).nest

theorem windowClause (h : Each Renders ss ds) : Renders ss (Layout.windowClause ds) := by
  have rest {ss ds} (h : Each Renders ss ds) :
      Each Renders ss (ds.map fun d => "," ++ Doc.nest (.line ++ d)) := by
    induction h with
    | nil => exact .nil
    | cons head _ ih => exact .cons ((Carries.word rfl).after (Carries.line.after head).nest) ih
  cases h with
  | nil => exact .nil
  | cons head tail =>
    exact Carries.line.after ((Carries.word rfl).after (head.append ((row (rest tail)).before .nil)))

theorem values (h : Each Renders ss ds) : Renders ss (Layout.values ds) :=
  (Carries.word rfl).after (lines h).hang

/-- The parts of a window definition, of which the empty ones are left out. -/
theorem windowParts {parts : List (String × List Doc)}
    (h : Each (fun ss (keyword, ds) => awaiting [] keyword.toList = some [] ∧ Each Renders ss ds)
      ss parts) :
    Renders ss (Layout.windowParts parts) := by
  refine sep rfl ?_
  induction h with
  | nil => exact .nil
  | @cons _ _ part _ hpart _ ih =>
    obtain ⟨keyword, ds⟩ := part
    obtain ⟨hword, hds⟩ := hpart
    cases hds with
    | nil => exact ih
    | cons head tail =>
      exact .cons ((Carries.word hword).after (commas (.cons head tail))) ih

end Carries

end Doc

/-! ## Parts without expressions -/

namespace Layout

open Doc

theorem renders_ident (i : Ident) : Renders (stored i) i.written := .leaf i.written

theorem renders_optIdent (i : Option Ident) :
    Renders (stored i) (optWord (i.map Ident.written)) := by
  cases i with
  | none => exact .nil
  | some i => exact (Carries.word rfl).after (renders_ident i)

theorem renders_idents (names : List Ident) :
    Each Renders (stored names) (names.map fun i => i.written) :=
  .map renders_ident names

/-- The parts of a dotted name stand in one text. -/
theorem renders_name (n : DottedName) : Renders (stored n) n.written := by
  obtain ⟨parts⟩ := n
  show Renders (stored parts) (text (".".intercalate (parts.map Ident.written)))
  induction parts with
  | nil => exact .word rfl
  | cons first rest ih =>
    cases rest with
    | nil => exact renders_ident first
    | cons second rest =>
      rw [List.map_cons, List.map_cons, String.intercalate_cons_cons]
      exact ((renders_ident first).glue (.word rfl)).glue ih

theorem renders_identList (names : List Ident) : Renders (stored names) (identList names) :=
  .parens (renders_idents names)

theorem renders_columnList (names : List Ident) : Renders (stored names) (columnList names) := by
  cases names with
  | nil => exact .nil
  | cons name names => exact renders_identList (name :: names)

theorem renders_literal (l : Literal) : Renders (stored l) (literal l) := by
  match l with
  | .null | .boolean true | .boolean false => exact .word rfl
  | .number digits => exact .leaf digits
  | .string pieces => exact .sep rfl (.map (fun piece => .leaf piece) pieces)

theorem renders_intervalPart (p : IntervalPart) : Renders (stored p) (intervalPart p) :=
  .seq <| .word rfl <| .leaf <| .part (.optText rfl p.unit) <| .nil

theorem renders_asWord (explicitAs : Bool) : Renders [] (asWord explicitAs) :=
  .ite (.word rfl) (.word rfl)

theorem renders_selectAlias (a : Option Alias) : Renders (stored a) (selectAlias a) := by
  match a with
  | none => exact .nil
  | some ⟨explicitAs, .single name⟩ => exact (renders_asWord explicitAs).after (renders_ident name)
  | some ⟨explicitAs, .multi names⟩ =>
    exact (renders_asWord explicitAs).after (renders_identList names)

theorem renders_tableAlias (a : Option TableAlias) : Renders (stored a) (tableAlias a) := by
  match a with
  | none => exact .nil
  | some ⟨explicitAs, name, columns⟩ =>
    exact ((renders_asWord explicitAs).after (renders_ident name)).append
      (renders_columnList columns)

theorem renders_notWord (negated : Bool) : Renders [] (notWord negated) :=
  .when negated (.word rfl)

end Layout
end SqlTidy
