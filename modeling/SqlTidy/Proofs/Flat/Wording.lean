import SqlTidy.Proofs.Spread

/-!
# Flat queries

A flat query is one `SELECT` with plain expressions, from tables and joins of tables, with any of the
clauses that filter, group, order and limit its rows. No other query stands inside it.

**Wordings.** A `Wording` of a category names some of its trees and lists their pieces. Two facts carry over
from the wordings of the parts to the wording of the whole.

* The document lays the pieces (`Wording.lays_query`).
* Trees that are the same after folding have pieces that are alike, and equal pieces make them equal
  (`Wording.recasts_query`).
-/

namespace SqlTidy

open Text Piece Doc

/-! ## Words and names -/

namespace Piece

/-- A text of keywords, cut at its spaces. -/
def phrase (s : String) : List Piece :=
  sepBy [.gap] ((s.toList.splitOn ' ').map fun w => [.keyword (String.ofList w)])

/-- Keywords behind a gap, if there are any. -/
def optPhrase : Option String → List Piece
  | none => []
  | some s => .gap :: phrase s

def parens (ps : List Piece) : List Piece := symbol .lparen :: (ps ++ [symbol .rparen])

def names (is : List Ident) : List Piece := commas (is.map fun i => [i.piece])

/-- The gap in front of an alias, with the word `AS` or without. -/
def asWord (explicitAs : Bool) : List Piece :=
  if explicitAs then [.gap, .keyword "AS", .gap] else [.gap]

def aliasName : AliasName → List Piece
  | .single name => [name.piece]
  | .multi is => parens (names is)

def selectAlias : Option Alias → List Piece
  | none => []
  | some a => asWord a.explicitAs ++ aliasName a.name

def columnList : List Ident → List Piece
  | [] => []
  | is => parens (names is)

def tableAlias : Option TableAlias → List Piece
  | none => []
  | some a => asWord a.explicitAs ++ ([a.name.piece] ++ columnList a.columns)

theorem textOf_words (ws : List (List Char)) :
    textOf (sepBy [.gap] (ws.map fun w => [.keyword (String.ofList w)])) =
      [' '].intercalate ws := by
  induction ws with
  | nil => rfl
  | cons w ws ih =>
    have hw : textOf [.keyword (String.ofList w)] = w := by simp [textOf, text]
    cases ws with
    | nil => simpa [sepBy, List.intercalate] using hw
    | cons w' ws =>
      show textOf ([.keyword (String.ofList w)] ++ ([.gap] ++ _)) = _
      rw [textOf_append, hw, textOf_append, ih, List.intercalate_cons_cons]
      simp [textOf, text]

theorem textOf_phrase (s : String) : textOf (phrase s) = s.toList := by
  rw [phrase, textOf_words, List.intercalate_splitOn]

theorem ordinary_phrase (s : String) : (phrase s).all ordinary := by
  refine all_sepBy rfl fun ps hps => ?_
  obtain ⟨w, -, rfl⟩ := List.mem_map.1 hps
  rfl

theorem lays_phrase (s : String) : (Doc.text s).Lays (phrase s) :=
  .text (textOf_phrase s) (ordinary_phrase s)

theorem lays_optWord (o : Option String) : (Layout.optWord o).Lays (optPhrase o) := by
  cases o with
  | none => exact .nil
  | some s =>
    have hgap : (Doc.text " ").Lays [.gap] := .text rfl rfl
    exact hgap.append (lays_phrase s)

theorem lays_ident (i : Ident) : (Doc.text i.written).Lays [i.piece] :=
  .text i.textOf_piece (Ident.ordinary_dotted [i])

theorem lays_dottedName (n : DottedName) : (Doc.text n.written).Lays (Ident.dotted n.parts) :=
  .text (Ident.textOf_dotted _) (Ident.ordinary_dotted _)

theorem lays_identList (is : List Ident) : (Layout.identList is).Lays (parens (names is)) := by
  have hinline : (Layout.identList is).Inline (parens (names is)) :=
    .parens (.sep rfl fun i _ => .text i.textOf_piece)
  have hnames : (names is).all ordinary := by
    refine all_sepBy rfl fun ps hps => ?_
    obtain ⟨i, -, rfl⟩ := List.mem_map.1 hps
    exact Ident.ordinary_dotted [i]
  refine hinline.lays ?_
  simp [parens, hnames, symbol, ordinary]

theorem lays_asWord (explicitAs : Bool) : (Layout.asWord explicitAs).Lays (asWord explicitAs) := by
  cases explicitAs with
  | false => exact .text rfl rfl
  | true => exact .text rfl rfl

theorem lays_selectAlias (a : Option Alias) : (Layout.selectAlias a).Lays (selectAlias a) := by
  cases a with
  | none => exact .nil
  | some a =>
    obtain ⟨explicitAs, name⟩ := a
    cases name with
    | single name => exact (lays_asWord explicitAs).append (lays_ident name)
    | multi is => exact (lays_asWord explicitAs).append (lays_identList is)

theorem lays_tableAlias (a : Option TableAlias) : (Layout.tableAlias a).Lays (tableAlias a) := by
  cases a with
  | none => exact .nil
  | some a =>
    obtain ⟨explicitAs, name, columns⟩ := a
    have hcolumns : (Layout.columnList columns).Lays (columnList columns) := by
      cases columns with
      | nil => exact .nil
      | cons i is => exact lays_identList (i :: is)
    have hall := ((lays_asWord explicitAs).append (lays_ident name)).append hcolumns
    rwa [List.append_assoc] at hall

/-! Folding changes no keyword, and names show what it changes. -/

theorem Reveals.refl {P : Prop} (hP : P) (ps : List Piece) : Reveals P ps ps :=
  ⟨.refl ps, fun _ => hP⟩

theorem Reveals.parens {P : Prop} {ps qs : List Piece} (h : Reveals P ps qs) :
    Reveals P (parens ps) (parens qs) :=
  (h.before [symbol .rparen]).after [symbol .lparen]

end Piece

/-! ## Wordings -/

/-- Some trees of a category, and the pieces that they are written as. -/
structure Wording (c : Category) where
  covers : Tree c → Prop
  pieces : Tree c → List Piece

namespace Wording

variable {c : Category}

/-- The wording survives folding, and the pieces show what folding has forgotten. -/
def Recasts (w : Wording c) : Prop :=
  ∀ {t t' : Tree c}, w.covers t → t'.foldCase = t.foldCase →
    w.covers t' ∧ Reveals (t = t') (w.pieces t) (w.pieces t')

/-- A part that may be absent, behind some pieces. -/
def option (w : Wording c) (front : List Piece) : Wording (.option c) where
  covers t := ∀ u ∈ t.toOption, w.covers u
  pieces t := t.toOption.elim [] fun u => front ++ w.pieces u

/-- A list with commas between its items, behind some pieces; nothing if the list is empty. -/
def list (w : Wording c) (front : List Piece) : Wording (.list c) where
  covers ts := ∀ t ∈ ts.toList, w.covers t
  pieces ts := if ts.toList = [] then [] else front ++ commas (ts.toList.map w.pieces)

/-- Trees in a row, each behind a gap. -/
def row (w : Wording c) : Wording (.list c) where
  covers ts := ∀ t ∈ ts.toList, w.covers t
  pieces ts := ts.toList.flatMap fun t => .gap :: w.pieces t

/-! ### Folding -/

section Recasts

variable {w : Wording c}

theorem Recasts.option (h : w.Recasts) (front : List Piece) : (w.option front).Recasts := by
  intro t t' ht hfold
  cases t with
  | none =>
    rw [Tree.eq_none_of_foldCase hfold]
    exact ⟨ht, .refl rfl _⟩
  | some t =>
    cases t' with
    | none => cases hfold
    | some t' =>
      injection hfold with _ hfold
      obtain ⟨hcovers, hreveals⟩ := h (ht t rfl) hfold
      refine ⟨?_, (hreveals.after front).imp (congrArg _)⟩
      rintro _ ⟨⟩
      exact hcovers

/-- Lists that are the same after folding are recast item by item. -/
theorem Recasts.forall₂ (h : w.Recasts) {ts ts' : List (Tree c)} (hts : ∀ t ∈ ts, w.covers t)
    (hfold : ts'.map Tree.foldCase = ts.map Tree.foldCase) :
    (∀ t ∈ ts', w.covers t) ∧ List.Forall₂ (fun t t' =>
      Reveals (t = t') (w.pieces t) (w.pieces t')) ts ts' := by
  induction ts generalizing ts' with
  | nil =>
    rw [List.map_eq_nil_iff.1 hfold]
    exact ⟨nofun, .nil⟩
  | cons t ts ih =>
    obtain ⟨t', ts', rfl, ht', hts'⟩ := List.map_eq_cons_iff.1 hfold
    obtain ⟨ht, hts⟩ := List.forall_mem_cons.1 hts
    obtain ⟨hcovers, hreveals⟩ := h ht ht'
    obtain ⟨hall, hrest⟩ := ih hts hts'
    exact ⟨List.forall_mem_cons.2 ⟨hcovers, hall⟩, .cons hreveals hrest⟩

theorem toList_of_foldCase {ts ts' : Tree (.list c)} (h : ts'.foldCase = ts.foldCase) :
    ts'.toList.map Tree.foldCase = ts.toList.map Tree.foldCase := by
  rw [← Tree.toList_foldCase, h, Tree.toList_foldCase]

theorem toList_inj {ts ts' : Tree (.list c)} (h : ts.toList = ts'.toList) : ts = ts' := by
  rw [← Tree.ofList_toList ts, h, Tree.ofList_toList]

theorem Recasts.list (h : w.Recasts) (front : List Piece) : (w.list front).Recasts := by
  intro ts ts' hts hfold
  have hmap := toList_of_foldCase hfold
  obtain ⟨hcovers, hitems⟩ := h.forall₂ hts hmap
  refine ⟨hcovers, ?_⟩
  by_cases hnil : ts.toList = []
  · have hnil' : ts'.toList = [] := by
      rw [hnil] at hmap
      exact List.map_eq_nil_iff.1 hmap
    simp only [Wording.list, hnil, hnil', if_true]
    exact .refl (toList_inj (hnil.trans hnil'.symm)) []
  · have hnil' : ts'.toList ≠ [] := by
      intro hnil'
      rw [hnil'] at hmap
      exact hnil (List.map_eq_nil_iff.1 hmap.symm)
    simp only [Wording.list, hnil, hnil', if_false]
    exact ((reveals_commas hitems).after front).imp toList_inj

theorem Recasts.row (h : w.Recasts) : w.row.Recasts := by
  intro ts ts' hts hfold
  obtain ⟨hcovers, hitems⟩ := h.forall₂ hts (toList_of_foldCase hfold)
  have hrow {ts ts' : List (Tree c)}
      (h : List.Forall₂ (fun t t' => Reveals (t = t') (w.pieces t) (w.pieces t')) ts ts') :
      Reveals (ts = ts') (ts.flatMap fun t => .gap :: w.pieces t)
        (ts'.flatMap fun t => .gap :: w.pieces t) := by
    induction h with
    | nil => exact .refl rfl _
    | cons h _ ih =>
      refine ((h.after [.gap]).append ih).imp ?_
      rintro ⟨rfl, htail⟩
      rw [htail]
  exact ⟨hcovers, (hrow hitems).imp toList_inj⟩

end Recasts

/-! ### Lists in documents -/

section Lays

variable {w : Wording c} {doc : Tree c → Doc} {ts : Tree (.list c)}

theorem lays_items (h : ∀ t ∈ ts.toList, (doc t).Lays (w.pieces t)) :
    (Doc.items (ts.toList.map doc)).Lays ((w.list [.gap]).pieces ts) := by
  cases hts : ts.toList with
  | nil => 
    simp only [list, hts, if_true]
    exact Lays.nil.nest
  | cons t rest =>
    simp only [list, hts, reduceCtorEq, if_false]
    exact .items t rest (hts ▸ h)

theorem lays_clause {keyword : String} (h : ∀ t ∈ ts.toList, (doc t).Lays (w.pieces t)) :
    (Doc.clause keyword (ts.toList.map doc)).Lays
      (phrase keyword ++ (w.list [.gap]).pieces ts) := by
  cases hts : ts.toList with
  | nil =>
    simp only [list, hts, if_true]
    exact (lays_phrase keyword).append Lays.nil.nest
  | cons t rest =>
    simp only [list, hts, reduceCtorEq, if_false]
    exact .clause (lays_phrase keyword) t rest (hts ▸ h)

theorem lays_clauseLine {keyword : String} (h : ∀ t ∈ ts.toList, (doc t).Lays (w.pieces t)) :
    (Layout.clauseLine keyword (ts.toList.map doc)).Lays
      ((w.list (.gap :: (phrase keyword ++ [.gap]))).pieces ts) := by
  cases hts : ts.toList with
  | nil =>
    simp only [list, hts, if_true]
    exact .nil
  | cons t rest =>
    simp only [list, hts, reduceCtorEq, if_false]
    have hclause := Lays.line.append (Lays.clause (lays_phrase keyword) t rest (hts ▸ h))
    rw [List.cons_append, List.append_assoc]
    exact hclause

theorem lays_optBehind {before : String} {front : List Piece} {t : Tree (.option c)}
    (hfront : (Doc.text before).Lays front) (h : ∀ u ∈ t.toOption, (doc u).Lays (w.pieces u)) :
    (Layout.optBehind before (t.toOption.map doc)).Lays ((w.option front).pieces t) := by
  cases t with
  | none => exact .nil
  | some u => exact hfront.append (h u rfl)

theorem lays_optLine {t : Tree (.option c)} (h : ∀ u ∈ t.toOption, (doc u).Lays (w.pieces u)) :
    (Layout.optLine (t.toOption.map doc)).Lays ((w.option [.gap]).pieces t) := by
  cases t with
  | none => exact .nil
  | some u => exact Lays.line.append (h u rfl)

end Lays

/-! ## The parts of a flat query -/

def expr : Wording .expr where
  covers := Tree.Plain
  pieces := Tree.pieces

def selectItem : Wording .selectItem where
  covers
    | .selectItem value _ => value.Plain
  pieces
    | .selectItem value asName => value.pieces ++ selectAlias asName

def orderItem : Wording .orderItem where
  covers
    | .orderItem key _ _ => key.Plain
  pieces
    | .orderItem key direction nulls =>
      key.pieces ++ (optPhrase (direction.map SortDirection.spelling) ++
        optPhrase (nulls.map NullsOrder.spelling))

/-- A table by its name. -/
def factor : Wording .tableFactor where
  covers
    | .table _ .none _ => True
    | _ => False
  pieces
    | .table name _ asName => Ident.dotted name.parts ++ tableAlias asName
    | _ => []

def constraint : Wording .joinConstraint where
  covers
    | .on condition => condition.Plain
    | .using _ => True
  pieces
    | .on condition => [.keyword "ON", .gap] ++ condition.pieces
    | .using columns => [.keyword "USING", .gap] ++ parens (names columns)

def join : Wording .join where
  covers
    | .join _ _ table condition => factor.covers table ∧ (constraint.option [.gap]).covers condition
  pieces
    | .join natural kind table condition =>
      (if natural then [.keyword "NATURAL", .gap] else []) ++ (phrase kind.spelling ++ ([.gap] ++
        (factor.pieces table ++ (constraint.option [.gap]).pieces condition)))

def relation : Wording .relation where
  covers
    | .relation primary joins => factor.covers primary ∧ join.row.covers joins
  pieces
    | .relation primary joins => factor.pieces primary ++ join.row.pieces joins

def source : Wording .fromClause where
  covers
    | .fromClause relations .nil .none => (relation.list [.gap]).covers relations
    | _ => False
  pieces
    | .fromClause relations _ _ => phrase "FROM" ++ (relation.list [.gap]).pieces relations

def groupingItem : Wording .groupingItem where
  covers
    | .groupingExpr value => value.Plain
    | _ => False
  pieces
    | .groupingExpr value => value.pieces
    | _ => []

def grouping : Wording .groupBy where
  covers
    | .groupBy items _ => (groupingItem.list [.gap]).covers items
  pieces
    | .groupBy items modifier => phrase "GROUP BY" ++ ((groupingItem.list [.gap]).pieces items ++
        optPhrase (modifier.map fun kind => "WITH " ++ kind.spelling))

def limit : Wording .limit where
  covers
    | .limitAll => True
    | .limitCount count => count.Plain
  pieces
    | .limitAll => phrase "LIMIT ALL"
    | .limitCount count => [.keyword "LIMIT", .gap] ++ count.pieces

/-- The pieces in front of what a clause holds. -/
def behind (keyword : String) : List Piece := .gap :: (phrase keyword ++ [.gap])

def organization : Wording .organization where
  covers
    | .organization orderBy clusterBy distributeBy sortBy rowLimit offset =>
      (orderItem.list []).covers orderBy ∧ (expr.list []).covers clusterBy ∧
        (expr.list []).covers distributeBy ∧ (orderItem.list []).covers sortBy ∧
        (limit.option []).covers rowLimit ∧ (expr.option []).covers offset
  pieces
    | .organization orderBy clusterBy distributeBy sortBy rowLimit offset =>
      (orderItem.list (behind "ORDER BY")).pieces orderBy ++
        ((expr.list (behind "CLUSTER BY")).pieces clusterBy ++
        ((expr.list (behind "DISTRIBUTE BY")).pieces distributeBy ++
        ((orderItem.list (behind "SORT BY")).pieces sortBy ++
        ((limit.option [.gap]).pieces rowLimit ++ (expr.option (behind "OFFSET")).pieces offset))))

def select : Wording .select where
  covers
    | .select .nil _ items origin condition groups having .nil =>
      (selectItem.list []).covers items ∧ (source.option []).covers origin ∧
        (expr.option []).covers condition ∧ (grouping.option []).covers groups ∧
        (expr.option []).covers having
    | _ => False
  pieces
    | .select _ quantifier items origin condition groups having _ =>
      phrase "SELECT" ++ (optPhrase (quantifier.map Quantifier.spelling) ++
        ((selectItem.list [.gap]).pieces items ++ ((source.option [.gap]).pieces origin ++
        ((expr.option (behind "WHERE")).pieces condition ++
        ((grouping.option [.gap]).pieces groups ++ (expr.option (behind "HAVING")).pieces having)))))

/-- A query that is a single `SELECT`. -/
def query : Wording .query where
  covers
    | .query .none (.selectBody body) clauses => select.covers body ∧ organization.covers clauses
    | _ => False
  pieces
    | .query _ (.selectBody body) clauses => select.pieces body ++ organization.pieces clauses
    | _ => []

/-! ### Deciding -/

section Decidable

variable (w : Wording c) [DecidablePred w.covers] (front : List Piece)

instance : DecidablePred (w.option front).covers := fun t =>
  inferInstanceAs (Decidable (∀ u ∈ t.toOption, w.covers u))

instance : DecidablePred (w.list front).covers := fun ts =>
  inferInstanceAs (Decidable (∀ t ∈ ts.toList, w.covers t))

instance : DecidablePred w.row.covers := fun ts =>
  inferInstanceAs (Decidable (∀ t ∈ ts.toList, w.covers t))

end Decidable

instance : DecidablePred expr.covers := fun e => inferInstanceAs (Decidable e.Plain)

instance : DecidablePred selectItem.covers
  | .selectItem value _ => inferInstanceAs (Decidable value.Plain)

instance : DecidablePred orderItem.covers
  | .orderItem key _ _ => inferInstanceAs (Decidable key.Plain)

instance : DecidablePred factor.covers
  | .table _ .none _ => isTrue trivial
  | .table _ (.some _) _ => isFalse id
  | .derived .. | .valuesTable .. | .tableFunction .. | .nestedRelation .. => isFalse id

instance : DecidablePred constraint.covers
  | .on condition => inferInstanceAs (Decidable condition.Plain)
  | .using _ => isTrue trivial

instance : DecidablePred join.covers
  | .join _ _ table condition =>
    inferInstanceAs (Decidable (factor.covers table ∧ (constraint.option [.gap]).covers condition))

instance : DecidablePred relation.covers
  | .relation primary joins =>
    inferInstanceAs (Decidable (factor.covers primary ∧ join.row.covers joins))

instance : DecidablePred source.covers
  | .fromClause relations .nil .none =>
    inferInstanceAs (Decidable ((relation.list [.gap]).covers relations))
  | .fromClause _ .nil (.some _) | .fromClause _ (.cons ..) _ => isFalse id

instance : DecidablePred groupingItem.covers
  | .groupingExpr value => inferInstanceAs (Decidable value.Plain)
  | .analytics .. => isFalse id

instance : DecidablePred grouping.covers
  | .groupBy items _ => inferInstanceAs (Decidable ((groupingItem.list [.gap]).covers items))

instance : DecidablePred limit.covers
  | .limitAll => isTrue trivial
  | .limitCount count => inferInstanceAs (Decidable count.Plain)

instance : DecidablePred organization.covers
  | .organization orderBy clusterBy distributeBy sortBy rowLimit offset =>
    inferInstanceAs (Decidable ((orderItem.list []).covers orderBy ∧
      (expr.list []).covers clusterBy ∧ (expr.list []).covers distributeBy ∧
      (orderItem.list []).covers sortBy ∧ (limit.option []).covers rowLimit ∧
      (expr.option []).covers offset))

instance : DecidablePred select.covers
  | .select .nil _ items origin condition groups having .nil =>
    inferInstanceAs (Decidable ((selectItem.list []).covers items ∧
      (source.option []).covers origin ∧ (expr.option []).covers condition ∧
      (grouping.option []).covers groups ∧ (expr.option []).covers having))
  | .select .nil _ _ _ _ _ _ (.cons ..) | .select (.cons ..) _ _ _ _ _ _ _ => isFalse id

instance : DecidablePred query.covers
  | .query .none (.selectBody body) clauses =>
    inferInstanceAs (Decidable (select.covers body ∧ organization.covers clauses))
  | .query .none (.setOperation ..) _ | .query .none (.nestedQuery _) _
  | .query .none (.valuesBody ..) _ | .query .none (.tableBody _) _
  | .query .none (.fromFirst ..) _ | .query (.some _) _ _ => isFalse id

/-! ### Their documents -/

theorem lays_selectItem {t : SelectItem} (h : selectItem.covers t) :
    (t.doc : Doc).Lays (selectItem.pieces t) := by
  cases t with
  | selectItem value asName =>
    exact (Tree.Plain.lays_render h false).cons (lays_selectAlias asName).last

theorem lays_orderItem {t : OrderItem} (h : orderItem.covers t) :
    (t.doc : Doc).Lays (orderItem.pieces t) := by
  cases t with
  | orderItem key direction nulls =>
    exact (Tree.Plain.lays_render h false).cons ((lays_optWord _).cons (lays_optWord _).last)

theorem lays_factor {t : TableFactor} (h : factor.covers t) :
    (t.doc : Doc).Lays (factor.pieces t) := by
  cases t with
  | table name sample asName =>
    cases sample with
    | none => exact (lays_dottedName name).cons (.skip .nil (lays_tableAlias asName).last)
    | some => exact h.elim
  | _ => exact h.elim

theorem lays_constraint {t : JoinConstraint} (h : constraint.covers t) :
    (t.doc : Doc).Lays (constraint.pieces t) := by
  cases t with
  | on condition =>
    have hword : (Doc.text "ON ").Lays [.keyword "ON", .gap] := .text rfl rfl
    exact hword.cons (Tree.Plain.lays_render h true).nest.last
  | «using» columns =>
    have hword : (Doc.text "USING ").Lays [.keyword "USING", .gap] := .text rfl rfl
    exact hword.cons (lays_identList columns).last

theorem lays_join {t : Join} (h : join.covers t) : (t.doc : Doc).Lays (join.pieces t) := by
  cases t with
  | join natural kind table condition =>
    obtain ⟨htable, hcondition⟩ := h
    have hnatural : (Doc.when natural "NATURAL ").Lays
        (if natural then [.keyword "NATURAL", .gap] else []) := by
      cases natural with
      | false => exact .nil
      | true => exact .text rfl rfl
    have hgap : (Doc.text " ").Lays [.gap] := .text rfl rfl
    refine hnatural.cons ((lays_phrase _).cons (hgap.cons ((lays_factor htable).cons (Lays.last ?_))))
    rw [Tree.render_option]
    exact lays_optBehind hgap fun u hu => lays_constraint (hcondition u hu)

theorem lays_relation {t : Relation} (h : relation.covers t) :
    (t.doc : Doc).Lays (relation.pieces t) := by
  cases t with
  | relation primary joins =>
    obtain ⟨hprimary, hjoins⟩ := h
    refine (lays_factor hprimary).cons (Lays.last ?_)
    rw [Tree.render_list]
    exact .onLines joins.toList fun t ht => lays_join (hjoins t ht)

theorem lays_source {t : FromClause} (h : source.covers t) :
    (t.doc : Doc).Lays (source.pieces t) := by
  cases t with
  | fromClause relations views pivoting =>
    cases views with
    | cons => exact h.elim
    | nil => ?_
    cases pivoting with
    | some => exact h.elim
    | none => ?_
    refine Lays.before ?_ (.last (.nest (.skip .nil (.last .nil))))
    rw [Tree.render_list]
    exact lays_clause fun t ht => lays_relation (h t ht)

theorem lays_groupingItem {t : GroupingItem} (h : groupingItem.covers t) :
    (t.doc : Doc).Lays (groupingItem.pieces t) := by
  cases t with
  | groupingExpr value => exact Tree.Plain.lays_render h false
  | analytics => exact h.elim

theorem lays_grouping {t : GroupBy} (h : grouping.covers t) :
    (t.doc : Doc).Lays (grouping.pieces t) := by
  cases t with
  | groupBy items modifier =>
    have hmodifier : (Doc.optText " WITH " (modifier.map GroupingKind.spelling)).Lays
        (optPhrase (modifier.map fun kind => "WITH " ++ kind.spelling)) := by
      cases modifier with
      | none => exact .nil
      | some kind =>
        have hword : (Doc.text " WITH ").Lays [.gap, .keyword "WITH", .gap] := .text rfl rfl
        have hkind : (Doc.text kind.spelling).Lays (phrase kind.spelling) := lays_phrase _
        cases kind <;> exact hword.append hkind
    have hitems : (Doc.clause "GROUP BY" (items.render false)).Lays
        (phrase "GROUP BY" ++ (groupingItem.list [.gap]).pieces items) := by
      rw [Tree.render_list]
      exact lays_clause fun t ht => lays_groupingItem (h t ht)
    have hall := hitems.cons hmodifier.last
    rwa [List.append_assoc] at hall

theorem lays_limit {t : Limit} (h : limit.covers t) : (t.doc : Doc).Lays (limit.pieces t) := by
  cases t with
  | limitAll => exact lays_phrase "LIMIT ALL"
  | limitCount count =>
    have hword : (Doc.text "LIMIT ").Lays [.keyword "LIMIT", .gap] := .text rfl rfl
    exact hword.cons (Tree.Plain.lays_render h false).last

theorem lays_organization {t : Organization} (h : organization.covers t) :
    (t.doc : Doc).Lays (organization.pieces t) := by
  cases t with
  | organization orderBy clusterBy distributeBy sortBy rowLimit offset =>
    obtain ⟨horder, hcluster, hdistribute, hsort, hlimit, hoffset⟩ := h
    have hkeys {keyword : String} {ts : Tree (.list .orderItem)}
        (h : (orderItem.list []).covers ts) : (Layout.clauseLine keyword (ts.render false)).Lays
          ((orderItem.list (behind keyword)).pieces ts) := by
      rw [Tree.render_list]
      exact lays_clauseLine fun t ht => lays_orderItem (h t ht)
    have hexprs {keyword : String} {ts : Tree (.list .expr)} (h : (expr.list []).covers ts) :
        (Layout.clauseLine keyword (ts.render false)).Lays
          ((expr.list (behind keyword)).pieces ts) := by
      rw [Tree.render_list]
      exact lays_clauseLine (w := expr) fun t ht => Tree.Plain.lays_render (h t ht) false
    have hrows : (Layout.optLine (rowLimit.render false)).Lays
        ((limit.option [.gap]).pieces rowLimit) := by
      rw [Tree.render_option]
      exact lays_optLine fun t ht => lays_limit (hlimit t ht)
    refine (hkeys horder).cons ((hexprs hcluster).cons ((hexprs hdistribute).cons
      ((hkeys hsort).cons (hrows.cons (Lays.last ?_)))))
    cases offset with
    | none => exact .nil
    | some e =>
      have hword : (Doc.text "OFFSET ").Lays [.keyword "OFFSET", .gap] := .text rfl rfl
      exact Lays.line.append (hword.append (Tree.Plain.lays_render (hoffset e rfl) false))

/-- A condition on the lines below its keyword, if there is one. -/
def conditionLine (keyword : String) (t : Tree (.option .expr)) : Doc :=
  t.toOption.elim .nil fun e => .line ++ Layout.conditionClause keyword (e.render true)

theorem lays_conditionLine (keyword : String) {t : Tree (.option .expr)}
    (h : (expr.option []).covers t) :
    (conditionLine keyword t).Lays ((expr.option (behind keyword)).pieces t) := by
  cases t with
  | none => exact .nil
  | some e =>
    have hbody := (Lays.line.append (Tree.Plain.lays_render (h e rfl) true)).nest
    have hall := Lays.line.append ((lays_phrase keyword).append hbody)
    show Lays _ (behind keyword ++ e.pieces)
    rw [behind, List.cons_append, List.append_assoc]
    exact hall

theorem lays_select {t : Select} (h : select.covers t) : (t.doc : Doc).Lays (select.pieces t) := by
  cases t with
  | select hints quantifier items origin condition groups having windows =>
    cases hints with
    | cons => exact h.elim
    | nil => ?_
    cases windows with
    | cons => exact h.elim
    | nil => ?_
    obtain ⟨hitems, horigin, hcondition, hgroups, hhaving⟩ := h
    have hlist : (Doc.items (items.render false)).Lays ((selectItem.list [.gap]).pieces items) := by
      rw [Tree.render_list]
      exact lays_items fun t ht => lays_selectItem (hitems t ht)
    have hsource : (Layout.optLine (origin.render false)).Lays
        ((source.option [.gap]).pieces origin) := by
      rw [Tree.render_option]
      exact lays_optLine fun t ht => lays_source (horigin t ht)
    have hgrouping : (Layout.optLine (groups.render false)).Lays
        ((grouping.option [.gap]).pieces groups) := by
      rw [Tree.render_option]
      exact lays_optLine fun t ht => lays_grouping (hgroups t ht)
    have hquantifier := lays_optWord (quantifier.map Quantifier.spelling)
    have hwhere := lays_conditionLine "WHERE" hcondition
    have hhaving := lays_conditionLine "HAVING" hhaving
    have hhints : (Doc.seq []).Lays [] := .nil
    have hwindows : (Doc.seq [Layout.windowClause []]).Lays [] := .last .nil
    -- The layout looks whether there are conditions, so they have to be known.
    cases condition <;> cases having <;>
      exact (lays_phrase "SELECT").cons (hhints.skip (hquantifier.cons (hlist.cons (hsource.cons
        (hwhere.cons (hgrouping.cons (hhaving.before hwindows)))))))

/-- The document of a flat query lays the pieces of the query. -/
theorem lays_query {t : Query} (h : query.covers t) : (t.doc : Doc).Lays (query.pieces t) := by
  cases t with
  | query tables body clauses =>
    cases tables with
    | some => exact h.elim
    | none => ?_
    cases body with
    | selectBody body => exact .skip .nil ((lays_select h.1).cons (lays_organization h.2).last)
    | _ => exact h.elim

/-! ### Their folded forms -/

end Wording

end SqlTidy
