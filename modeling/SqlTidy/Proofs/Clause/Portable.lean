import SqlTidy.Proofs.Fence.Define
import SqlTidy.Proofs.Fence.Followed
import SqlTidy.Proofs.Modifier

/-!
# Rules that end by themselves

The clauses of a `CREATE TABLE` follow each other without a separator, so each of them has to end by itself. What such a rule
reads of some tokens it reads wherever these tokens stand, whatever stands in front of them or behind them (`Portable`). Its
last token is one that it cannot do without: a name, a literal, a keyword or a closing parenthesis. In parentheses anything may
be read, because the closing parenthesis is a fence (`Portable.parens`), and an optional part is asked for by a keyword where
otherwise another token is needed (`Portable.test`).
-/

namespace SqlTidy

open Parse

variable {α β : Type}

/-- What the rule reads of some tokens it reads wherever these tokens stand. -/
def Portable (p : Parse α) : Prop :=
  ∀ ⦃i j : Input⦄ ⦃w front back : List Token⦄, i.Lists w → j.Lists (front ++ w ++ back) →
    ∀ ⦃pos : Nat⦄ ⦃a : α⦄ ⦃next : Nat⦄, Runs p i pos a next → Runs p j (pos + front.length) a (next + front.length)

section

variable {i j : Input} {w front back : List Token} {pos : Nat}

theorem Input.Lists.lt_length (hi : i.Lists w) (hne : i.tokenAt pos ≠ .eof) : pos < w.length := by
  rw [← hi.last]
  exact hi.capped.lt_last hne

/-- What stands there stands there between other tokens. -/
theorem Input.Lists.moved (hi : i.Lists w) (hj : j.Lists (front ++ w ++ back)) (hne : i.tokenAt pos ≠ .eof) :
    j.tokenAt (pos + front.length) = i.tokenAt pos :=
  hi.tokenAt_eq hj (hi.lt_length hne)

theorem Input.Lists.moved_symbol {sym : Symbol} (hi : i.Lists w) (hj : j.Lists (front ++ w ++ back))
    (hsym : i.tokenAt pos = .symbol sym) : j.tokenAt (pos + front.length) = .symbol sym :=
  (hi.moved hj (by simp [hsym])).trans hsym

theorem Input.Lists.moved_words {words : List String} (hi : i.Lists w) (hj : j.Lists (front ++ w ++ back))
    (hwords : i.HasWords pos words) : j.HasWords (pos + front.length) words := by
  induction words generalizing pos with
  | nil => trivial
  | cons word rest ih =>
    refine ⟨?_, ?_⟩
    · rw [hi.moved hj (ne_eof_of_isKeyword hwords.1)]
      exact hwords.1
    · rw [Nat.add_right_comm]
      exact ih hwords.2

end

namespace Portable

theorem pure (a : α) : Portable (Pure.pure a) := by
  intro i j w front back hi hj pos b next hrun
  cases hrun
  exact runs_pure j _ a

theorem bind {p : Parse α} {k : α → Parse β} (hp : Portable p) (hk : ∀ a, Portable (k a)) : Portable (p >>= k) := by
  intro i j w front back hi hj pos b next hrun
  obtain ⟨a, mid, ha, hrun⟩ := Runs.exists_of_bind hrun
  exact (hp hi hj ha).bind (hk a hi hj hrun)

theorem map {p : Parse α} {f : α → β} (hp : Portable p) : Portable (p >>= fun a => Pure.pure (f a)) :=
  hp.bind fun a => .pure (f a)

/-- A token that has to be there. -/
theorem expectIf (what : String) (meaning : Token → Option α) : Portable (Parse.expectIf what meaning) := by
  intro i j w front back hi hj pos a next hrun
  obtain ⟨hne, ha, rfl⟩ := eq_of_runs_expectIf hrun
  have hsame := hi.moved hj hne
  rw [Nat.add_right_comm]
  exact runs_expectIf (hsame ▸ hne) (hsame ▸ ha)

theorem expect (sym : Symbol) : Portable (Parse.expect sym) := by
  intro i j w front back hi hj pos a next hrun
  obtain ⟨hsym, rfl⟩ := eq_of_runs_expect hrun
  rw [Nat.add_right_comm]
  exact runs_expect (hi.moved_symbol hj hsym)

theorem expectWord (keyword : String) : Portable (Parse.expectWord keyword) := by
  intro i j w front back hi hj pos a next hrun
  obtain ⟨hkeyword, rfl⟩ := eq_of_runs_expectWord hrun
  rw [Nat.add_right_comm]
  refine runs_expectWord ?_
  rwa [hi.moved hj (ne_eof_of_isKeyword hkeyword)]

/-- A part that is asked for by keywords, where otherwise another token is needed. -/
theorem test {keyword : String} {keywords : List String} {k : Bool → Parse α} (hyes : Portable (k true))
    (hno : Portable (k false)) (hnext : ∀ i pos a next, Runs (k false) i pos a next →
      i.tokenAt pos ≠ .eof ∧ ¬ (i.tokenAt pos).isKeyword keyword) : Portable (acceptWords (keyword :: keywords) >>= k) := by
  intro i j w front back hi hj pos a next hrun
  by_cases hwords : i.HasWords pos (keyword :: keywords)
  · have hrun := hyes hi hj (Runs.behind (p := acceptWords _) hrun (runs_acceptWords hwords))
    rw [Nat.add_right_comm] at hrun
    exact (runs_acceptWords (hi.moved_words hj hwords)).bind hrun
  · have hrun := Runs.behind (p := acceptWords _) hrun (runs_acceptWords_false hwords)
    obtain ⟨hne, hkeyword⟩ := hnext i pos a next hrun
    rw [← hi.moved hj hne] at hkeyword
    exact (runs_acceptWords_false fun hright : j.HasWords _ (keyword :: keywords) => hkeyword hright.1).bind
      (hno hi hj hrun)

/-- What is read in parentheses is read wherever these stand. -/
theorem parens {p : Parse α} {k : α → Parse β} (hwalk : ∀ n, Passes n [] p) (hp : ∀ f : Fence, f.Alike → Firm f [] p)
    (hk : ∀ a, Portable (k a)) : Portable (do
      Parse.expect .lparen
      let a ← p
      Parse.expect .rparen
      k a) := by
  intro i j w front back hi hj pos b next hrun
  obtain ⟨_, _, hexpect, hrun⟩ := Runs.exists_of_bind hrun
  obtain ⟨hopen, rfl⟩ := eq_of_runs_expect hexpect
  obtain ⟨a, stop, ha, hrun⟩ := Runs.exists_of_bind hrun
  have hbehind := ((expect .rparen).bind fun _ => hk a) hi hj hrun
  obtain ⟨_, _, hexpect', -⟩ := Runs.exists_of_bind hrun
  obtain ⟨hclose, -⟩ := eq_of_runs_expect hexpect'
  have hopen' := hi.moved_symbol hj hopen
  have hclose' := hi.moved_symbol hj hclose
  -- The closing parenthesis is a fence.
  have hstart : pos + 1 ≤ w.length := hi.lt_length (by simp [hopen])
  have hstop : stop < w.length := hi.lt_length (by simp [hclose])
  have hpos : i.Leaves (pos + 1) (w.length + 1) := hi.leaves.ahead (Nat.zero_le _) (hi.last ▸ hstart)
  have hnests := ((hwalk _ i (pos + 1) hpos).ok a stop ha).nests trivial
  let f := Fence.inside hi hj stop (.inr hclose) (.inr hclose')
  have hat : f.At [] (pos + 1) := Fence.inside_at (Nat.le_of_lt hstop) hnests
  have hinside := ((hp f (hclose'.trans hclose.symm) (pos + 1) hat).runs ha).1
  refine (runs_expect hopen').bind (Runs.bind ?_ hbehind)
  rw [Nat.add_right_comm]
  exact hinside

end Portable

/-! ## Choices by keywords -/

/-- What a choice has read starts with the words of one of its rules. -/
theorem exists_of_chooseRule {rules : List (List String × Parse α)} {i : Input} {pos next : Nat} {a : α}
    (hrun : Runs (chooseRule rules) i pos (some a) next) :
    ∃ rule ∈ rules, i.HasWords pos rule.1 ∧ Runs rule.2 i (pos + rule.1.length) a next := by
  obtain ⟨found, mid, hfound, hrun⟩ := Runs.exists_of_bind (p := choose rules) hrun
  have hends : Ends (choose rules) i pos fun found mid => ∀ p ∈ found, ∃ rule ∈ rules, i.HasWords pos rule.1 ∧
      p = rule.2 ∧ mid = pos + rule.1.length :=
    .choose nofun fun rule hrule hwords p hp => ⟨rule, hrule, hwords, (Option.some.inj hp).symm, rfl⟩
  cases found with
  | none => cases hrun
  | some p =>
    obtain ⟨rule, hrule, hwords, rfl, rfl⟩ := hends _ _ hfound p rfl
    obtain ⟨_, _, ha, hend⟩ := Runs.exists_of_bind hrun
    cases hend
    exact ⟨rule, hrule, hwords, ha⟩

/-- Whether the first words of two phrases differ. -/
def apart : List String → List String → Bool
  | keyword :: _, keyword' :: _ => Text.upper keyword ≠ Text.upper keyword'
  | _, _ => false

theorem not_hasWords_of_apart {phrase phrase' : List String} {i : Input} {pos : Nat} (h : apart phrase phrase' = true)
    (hwords : i.HasWords pos phrase') : ¬ i.HasWords pos phrase := by
  match phrase, phrase', h with
  | _ :: _, _ :: _, h => exact fun hwords' => Grammar.not_isKeyword hwords.1 (Ne.symm (of_decide_eq_true h)) hwords'.1

theorem runs_chooseRule {rules : List (List String × Parse α)} {rule : List String × Parse α} {i : Input} {pos next : Nat}
    {a : α} (hapart : (rules.map Prod.fst).Pairwise (apart · · = true)) (hrule : rule ∈ rules) (hwords : i.HasWords pos rule.1)
    (hrun : Runs rule.2 i (pos + rule.1.length) a next) : Runs (chooseRule rules) i pos (some a) next := by
  induction rules with
  | nil => cases hrule
  | cons first rest ih =>
    rw [List.map_cons, List.pairwise_cons] at hapart
    rw [chooseRule_cons]
    rcases List.mem_cons.1 hrule with rfl | hrule
    · exact (runs_acceptWords hwords).bind (hrun.bind (runs_pure i _ _))
    · have hfirst := not_hasWords_of_apart (hapart.1 rule.1 (List.mem_map_of_mem hrule)) hwords
      exact (runs_acceptWords_false hfirst).bind (ih hapart.2 hrule)

/-- A rule that a keyword has chosen is chosen wherever its tokens stand. -/
theorem Portable.chooseRule {rules : List (List String × Parse α)} (hapart : (rules.map Prod.fst).Pairwise (apart · · = true))
    (hrules : ∀ rule ∈ rules, Portable rule.2) {i j : Input} {w front back : List Token} {pos next : Nat} {a : α}
    (hi : i.Lists w) (hj : j.Lists (front ++ w ++ back)) (hrun : Runs (Parse.chooseRule rules) i pos (some a) next) :
    Runs (Parse.chooseRule rules) j (pos + front.length) (some a) (next + front.length) := by
  obtain ⟨rule, hrule, hwords, ha⟩ := exists_of_chooseRule hrun
  have ha := hrules rule hrule hi hj ha
  rw [Nat.add_right_comm] at ha
  exact runs_chooseRule hapart hrule (hi.moved_words hj hwords) ha

/-! ## Clauses -/

namespace Grammar

theorem portable_identifierList : Portable identifierList :=
  .parens (fun _ => (takes_commaSeparated takes_identifier).passes) (fun _ _ => firm_identifier.commaSeparated) fun _ => .pure _

theorem portable_partitionFields : Portable partitionFields :=
  .parens (fun _ => (takes_commaSeparated takes_partitionField).passes)
    (fun _ h => (firm_partitionField h).commaSeparated) fun _ => .pure _

/-- What stands between the parentheses of properties. -/
def propertyEntries : Parse (List Property) := do
  if ← isSymbol .rparen then return [] else commaSeparated property

theorem properties_eq : properties = (do
    expect .lparen
    let entries ← propertyEntries
    expect .rparen
    return entries) := by
  refine bind_congr fun _ => funext fun i => funext fun pos => ?_
  by_cases hclose : i.tokenAt pos = .symbol .rparen
  · have hnone : Runs propertyEntries i pos [] pos := by
      refine (runs_isSymbol i pos .rparen).bind ?_
      rw [decide_eq_true hclose]
      exact runs_pure i pos []
    have hright : Runs (propertyEntries >>= fun entries => expect .rparen >>= fun _ => pure entries) i pos [] (pos + 1) :=
      hnone.bind ((runs_expect hclose).bind (runs_pure i _ []))
    exact ((runs_accept hclose).bind (runs_pure i _ [])).trans hright.symm
  · have hsome : propertyEntries i pos = commaSeparated property i pos := by
      refine (bind_apply (runs_isSymbol i pos .rparen)).trans ?_
      rw [decide_eq_false hclose]
      rfl
    refine (bind_apply (runs_accept_false hclose)).trans ?_
    rw [if_neg Bool.false_ne_true]
    simp only [Bind.bind, hsome]

theorem portable_properties : Portable properties := by
  rw [properties_eq]
  refine .parens (fun _ => ?_) (fun f h => ?_) fun _ => .pure _
  · exact .look (.isSymbol _) fun _ => .ite (.done _) (takes_commaSeparated takes_property).passes
  · intro pos hat
    refine .ask rfl rfl (by rw [Nat.add_zero, h.tokenAt_eq hat, Nat.add_zero]) ?_
    exact .ite (fun _ => .of hat (.pure _)) fun _ => .of hat (firm_property h).commaSeparated

theorem portable_bucketSpec : Portable bucketSpec := by
  have hrest (columns : List Ident) (sortedBy : List OrderItem) : Portable (do
      expectWord "INTO"
      let buckets ← number
      expectWord "BUCKETS"
      return { columns, sortedBy, buckets : BucketSpec }) :=
    (Portable.expectWord _).bind fun _ => (Portable.expectIf _ _).bind fun _ => (Portable.expectWord _).bind fun _ => .pure _
  have hsorted : Portable (do
      expect .lparen
      let items ← within orderItems
      expect .rparen
      return items) :=
    .parens (fun _ => (walks_within fun _ _ h => takes_orderItems h : Parse.Takes _ [] _).passes)
      (fun _ _ => firm_within fun _ _ h => tracks_orderItems h) fun _ => .pure _
  refine portable_identifierList.bind fun columns => ?_
  rw [sortedBy, maybeList, bind_assoc]
  refine .test (hsorted.bind fun items => hrest columns items) (hrest columns []) fun i pos a next hrun => ?_
  obtain ⟨_, _, hinto, -⟩ := Runs.exists_of_bind (p := expectWord "INTO") hrun
  have hinto := (eq_of_runs_expectWord hinto).1
  exact ⟨ne_eof_of_isKeyword hinto, not_isKeyword hinto (by decide +kernel)⟩

theorem portable_tableClauseRules : ∀ rule ∈ tableClauseRules, Portable rule.2 := by
  simp only [tableClauseRules, List.forall_mem_cons]
  exact ⟨portable_identifierList.map, portable_partitionFields.map, portable_bucketSpec.map, .map (.expectIf _ _),
    .map (.expectIf _ _), .map (.expectIf _ _), portable_properties.map, portable_properties.map, .map (.expectIf _ _), List.forall_mem_nil _⟩

end Grammar

end SqlTidy
