import SqlTidy.Proofs.Abreast.Command

/-!
# Statements abreast

Every rule but one agrees with itself on two inputs abreast. The exception is `SET CATALOG` without a name, which is
another statement in front of a semicolon (`Statement.isBareCatalog`). So for statements the comparison allows for it
(`Follows`), and since nothing recovers from a failed statement it is about runs that succeed only.
-/

namespace SqlTidy

/-- The word `CATALOG` where the key of a setting stands, with nothing behind it; it may be explained. -/
def Statement.isBareCatalog : Statement → Bool
  | .setConfig ⟨some key, none⟩ => Text.upper key = "CATALOG"
  | .explain _ inner => inner.isBareCatalog
  | _ => false

open Parse

namespace Parse

variable {α β : Type} {e : Pair} {odd : α → Prop}

/-- What `p` reads in the first input, `q` reads in the second, unless it is something odd. -/
def Follows (e : Pair) (odd : α → Prop) (p q : Parse α) : Prop :=
  ∀ ⦃pos pos'⦄, e.Abreast pos pos' → Ends p e.left pos fun a next =>
    odd a ∨ ∃ next', Runs q e.right pos' a next' ∧ e.Abreast next next'

theorem AgreesAt.exists_runs {p q : Parse α} {pos pos' next : Nat} {a : α} (h : AgreesAt e p q pos pos')
    (hp : Runs p e.left pos a next) : ∃ next', Runs q e.right pos' a next' ∧ e.Abreast next next' := by
  rwa [AgreesAt, hp] at h

theorem Agrees.follows {p q : Parse α} (h : Agrees e p q) : Follows e odd p q :=
  fun _ _ habreast _ _ hrun => .inr (AgreesAt.exists_runs (h habreast) hrun)

theorem Agrees.bindFollows {p q : Parse β} {k k' : β → Parse α} (hp : Agrees e p q)
    (hk : ∀ b, Follows e odd (k b) (k' b)) : Follows e odd (p >>= k) (q >>= k') := by
  intro pos pos' habreast a next hrun
  obtain ⟨b, mid, hb, hrest⟩ := Runs.exists_of_bind hrun
  obtain ⟨mid', hb', hmid⟩ := AgreesAt.exists_runs (hp habreast) hb
  rcases hk b hmid a next hrest with hodd | ⟨next', hrest', hnext⟩
  · exact .inl hodd
  · exact .inr ⟨next', Runs.bind hb' hrest', hnext⟩

theorem Follows.map {odd' : β → Prop} {p q : Parse α} {f : α → β} (h : Follows e odd p q)
    (hodd : ∀ a, odd a → odd' (f a)) :
    Follows e odd' (do return f (← p)) (do return f (← q)) := by
  intro pos pos' habreast b next hrun
  obtain ⟨a, mid, ha, hrest⟩ := Runs.exists_of_bind hrun
  cases hrest
  rcases h habreast a _ ha with hodd' | ⟨next', ha', hnext⟩
  · exact .inl (hodd a hodd')
  · exact .inr ⟨next', ha'.bind (runs_pure _ _ _), hnext⟩

theorem Follows.ite {c : Prop} [Decidable c] {p p' q q' : Parse α} (hp : Follows e odd p p')
    (hq : Follows e odd q q') : Follows e odd (if c then p else q) (if c then p' else q') := by
  split
  · exact hp
  · exact hq

theorem follows_nested {rule : Parse α → Parse α}
    (h : ∀ p q, Follows e odd p q → Follows e odd (rule p) (rule q)) {n m : Nat} (hnm : n ≤ m) :
    Follows e odd (nested rule n) (nested rule m) := by
  induction n generalizing m with
  | zero => exact (agrees_endless _).follows
  | succ n ih =>
    obtain ⟨m, rfl⟩ : ∃ k, m = k + 1 := ⟨m - 1, by omega⟩
    exact h _ _ (ih (Nat.le_of_succ_le_succ hnm))

theorem follows_fix {rule : Parse α → Parse α}
    (h : ∀ p q, Follows e odd p q → Follows e odd (rule p) (rule q)) :
    Follows e odd (fix rule) (fix rule) :=
  fun _ _ habreast => follows_nested h (Nat.succ_le_succ habreast.remaining) habreast

end Parse

namespace Grammar

variable {e : Pair}

/-! ## Catalogs -/

/-- The statements that a semicolon behind them changes. -/
def Odd (e : Pair) (s : Statement) : Prop := e.closed ∧ s.isBareCatalog = true

/-- The rest of `SET CATALOG`, from the word `CATALOG` on. -/
abbrev catalogOf : Parse Statement := do
  skip
  return .setCatalog (← catalogName)

/-- The rest of any other `SET`. -/
abbrev settingOf : Parse Statement := do
  let (key, value) ← rawSetting
  return .setConfig { key, value }

/-- The rest of `SET`, by whether a catalog is named. -/
abbrev setRest (named : Bool) : Parse Statement := if named then catalogOf else settingOf

theorem agreesAt_catalogOf {pos pos' : Nat} (h : e.Abreast pos pos') (hword : e.left.tokenAt pos ≠ .eof)
    (hname : e.left.tokenAt (pos + 1) ≠ .eof) : AgreesAt e catalogOf catalogOf pos pos' := by
  obtain ⟨n, hspan⟩ := exists_span endsStatement e.capped_left rfl (pos + 1)
  have hword' : e.right.tokenAt pos' ≠ .eof := by rwa [h.tokenAt_eq hword]
  have hlast : e.left.tokenAt (pos + n) ≠ .eof := by
    cases n with
    | zero => exact hword
    | succ n =>
      rw [Nat.add_comm n, ← Nat.add_assoc]
      exact hspan.ne_eof rfl (Nat.lt_succ_self n)
  have hstart := h.start 1 hname
  have hstop := h.stop n hlast
  rw [Nat.add_right_comm, Nat.add_right_comm pos] at hstop
  have hsize : e.left.endBefore (pos + 1 + n) ≤ e.left.source.utf8ByteSize := by
    rw [Nat.add_right_comm]
    exact e.scanned_left.endBefore_le_size hlast
  have hright := runs_catalogName e.capped_right (span_right h.succ rfl rfl hspan)
  rw [hstart, hstop, e.slice _ _ hsize] at hright
  exact .of_ok ((runs_skip hword).bind ((runs_catalogName e.capped_left hspan).bind (runs_pure _ _ _)))
    ((runs_skip hword').bind (hright.bind (runs_pure _ _ _))) (h.succ.add n)

theorem stable_settingOf : Stable e settingOf := stable_rawSetting.map

/-- A word with the end behind it is the key of a setting. -/
theorem runs_settingOf_word {i : Input} {pos : Nat} {w : String} (hi : i.Scanned)
    (hword : i.tokenAt pos = .word w) (hsolid : (Token.word w).IsSolid)
    (hend : i.tokenAt (pos + 1) = .eof) :
    Runs settingOf i pos (.setConfig ⟨some w, none⟩) (pos + 1) := by
  have hspan : Span i endsKey pos 1 := by
    refine ⟨fun k hk => ?_, by rw [hend]; rfl⟩
    obtain rfl : k = 0 := by omega
    rw [Nat.add_zero, hword]
    rfl
  have hsetting := runs_rawSetting_key hi.capped hspan (by rw [hend]; nofun)
  have htext := hi.textOf_one (by simp [hword]) (hword ▸ hsolid)
  rw [hword, Token.lexeme, String.ofList_toList] at htext
  rw [htext] at hsetting
  exact hsetting.bind (runs_pure _ _ _)

/-- The two inputs disagree on whether a catalog is named only if there is the bare word. -/
theorem bare_of_namesCatalog {pos pos' : Nat} (h : e.Abreast pos pos')
    (hleft : namesCatalog e.left pos = false) (hright : namesCatalog e.right pos' = true) :
    e.closed ∧ (e.left.tokenAt pos).isKeyword "CATALOG" ∧ e.left.tokenAt (pos + 1) = .eof := by
  simp only [namesCatalog, Bool.and_eq_true, decide_eq_true_eq, ne_eq] at hright
  obtain ⟨hword, hne, heof⟩ := hright
  rw [isKeyword_eq h] at hword
  rcases h.alike 1 with heq | ⟨hclosed, hend, -⟩
  · rw [namesCatalog, hword, ← heq] at hleft
    simp [hne, heof] at hleft
  · exact ⟨hclosed, hword, hend⟩

theorem follows_setRest {pos pos' next : Nat} {s : Statement} (h : e.Abreast pos pos')
    (hrun : Runs (setRest (namesCatalog e.left pos)) e.left pos s next) :
    Odd e s ∨ ∃ next', Runs (setRest (namesCatalog e.right pos')) e.right pos' s next' ∧
      e.Abreast next next' := by
  cases hleft : namesCatalog e.left pos with
  | true =>
    rw [hleft] at hrun
    simp only [namesCatalog, Bool.and_eq_true, decide_eq_true_eq, ne_eq] at hleft
    obtain ⟨hword, hne, heof⟩ := hleft
    have hname : e.right.tokenAt (pos' + 1) = e.left.tokenAt (pos + 1) := h.succ.tokenAt_eq heof
    have hright : namesCatalog e.right pos' = true := by
      simp [namesCatalog, isKeyword_eq h, hword, hname, hne, heof]
    rw [hright]
    exact .inr (AgreesAt.exists_runs (agreesAt_catalogOf h (ne_eof_of_isKeyword hword) heof) hrun)
  | false =>
    rw [hleft] at hrun
    cases hright : namesCatalog e.right pos' with
    | false => exact .inr (AgreesAt.exists_runs (stable_settingOf h) hrun)
    | true =>
      obtain ⟨hclosed, hword, hend⟩ := bare_of_namesCatalog h hleft hright
      obtain ⟨w, hw, hupper⟩ := Token.exists_of_isKeyword hword
      have hsolid : (Token.word w).IsSolid :=
        Token.isSolid_of_upper (hupper ▸ ⟨nofun, Scan.startsWithout_cons.2 rfl, Scan.startsWithout_cons.2 rfl⟩)
      obtain ⟨rfl, -⟩ := (runs_settingOf_word e.scanned_left hw hsolid hend).unique hrun
      exact .inl ⟨hclosed, decide_eq_true (hupper.trans (by decide +kernel))⟩

theorem follows_set : Follows e (Odd e) set set := by
  refine (stable_expectWord _).bindFollows fun _ => ?_
  intro pos pos' h s next hrun
  refine (follows_setRest h (Runs.behind hrun (runs_isSetCatalog e.left pos))).imp_right ?_
  exact fun ⟨next', hright, hnext⟩ => ⟨next', (runs_isSetCatalog e.right pos').bind hright, hnext⟩

/-! ## All statements -/

theorem stable_queryStatement (tables : Option WithClause) : Stable e (queryStatement tables) :=
  (stable_within fun _ _ h => agrees_queryAfterWith h tables).map

theorem stable_insertSource : Stable e insertSource :=
  (stable_within fun _ _ h => agrees_fromClause h).bind fun _ => (stable_isWord _).bind fun _ =>
    .ite (.pure _) (.pure none)

theorem stable_fromStatement (tables : Option WithClause) : Stable e (fromStatement tables) := by
  refine stable_insertSource.rewinding.bind fun source => ?_
  cases source with
  | none => exact stable_queryStatement tables
  | some source => exact stable_multiInsertBody.many.map

theorem stable_withStatement : Stable e withStatement := by
  refine (stable_within fun _ _ h => agrees_withClause h).bind fun tables => ?_
  refine (stable_isWord _).bind fun _ => .ite (stable_insert (some tables)).map ?_
  refine (stable_isWord _).bind fun _ => .ite (stable_fromStatement (some tables)) ?_
  refine (stable_isWord _).bind fun _ => .ite ?_ (stable_queryStatement (some tables))
  exact (stable_exportTable (some tables)).map

theorem follows_explain {inner inner' : Parse Statement} (h : Follows e (Odd e) inner inner') :
    Follows e (Odd e) (explain inner) (explain inner') :=
  (stable_expectWord _).bindFollows fun _ => (stable_choose _).bindFollows fun _ => h.map fun _ => id

theorem follows_statementOf {inner inner' : Parse Statement} (h : Follows e (Odd e) inner inner')
    (word : String) : Follows e (Odd e) (statementOf inner word) (statementOf inner' word) := by
  unfold statementOf
  split
  · exact stable_query.map.follows
  · exact stable_query.map.follows
  · exact stable_query.map.follows
  · exact stable_withStatement.follows
  · exact (stable_fromStatement none).follows
  · exact (stable_insert none).map.follows
  · exact stable_update.map.follows
  · exact stable_delete.map.follows
  · exact (Agrees.bind (stable_peekWord _ _) fun _ => .ite stable_mergeFiles.map stable_merge.map).follows
  · exact stable_create.follows
  · exact stable_create.follows
  · exact stable_alter.follows
  · exact stable_drop.follows
  · exact stable_truncate.map.follows
  · exact stable_repair.map.follows
  · exact stable_repair.map.follows
  · exact stable_analyze.follows
  · exact stable_commentOn.map.follows
  · exact stable_use.map.follows
  · exact follows_set
  · exact stable_reset.follows
  · exact stable_show.map.follows
  · exact stable_describe.map.follows
  · exact stable_describe.map.follows
  · exact follows_explain h
  · exact stable_call.map.follows
  · exact stable_load.follows
  · exact (stable_exportTable none).map.follows
  · exact stable_dataTunnel.map.follows
  · exact Agrees.follows (.ite (agrees_failWith rfl) (agrees_expected _ _))

theorem follows_statement : Follows e (Odd e) statement statement := by
  refine follows_fix fun inner inner' h => ?_
  refine (stable_isSymbol _).bindFollows fun _ => .ite stable_query.map.follows ?_
  refine stable_currentWord.bindFollows fun word => ?_
  cases word with
  | none => exact (agrees_expected _ _).follows
  | some word => exact follows_statementOf h word

/-- From positions abreast a whole text is read in the second input as in the first. -/
theorem Whole.right {s : Statement} {first mid first' : Nat} (h : Whole e.left s first mid)
    (habreast : e.Abreast first first') (hbefore : ∀ k < first', e.right.tokenAt k = .symbol .semicolon)
    (hodd : ¬ Odd e s) : ∃ mid', Whole e.right s first' mid' := by
  have hne : e.left.tokenAt first ≠ .eof := by
    intro heof
    have hstarts := h.starts
    rw [heof] at hstarts
    contradiction
  obtain ⟨mid', hruns, hmid⟩ := (follows_statement habreast s mid h.runs).resolve_left hodd
  refine ⟨mid', hbefore, ?_, hruns, fun k hk => ?_⟩
  · rw [habreast.tokenAt_eq hne]
    exact h.starts
  · have halike := hmid.alike (k - mid')
    rw [Nat.add_sub_cancel' hk] at halike
    rcases halike with heq | ⟨-, -, hsemicolon⟩
    · rw [heq]
      exact h.behind _ (Nat.le_add_right mid _)
    · rw [hsemicolon]
      rfl

end Grammar

end SqlTidy
