import SqlTidy.Grammar.Statement
import SqlTidy.Proofs.Keep.Command

/-!
# Statements account for their literals

Every literal of a statement stands in its tree or is one of those that the statement loses
(`Statement.Loses`). There are two ways to lose one: a clause of a new table, view or namespace may be
overwritten by a later one of its kind, and `RESET` throws away what stands behind an equals sign.

**Theorem (`Statement.held_of_parse`).** If a text is read as a statement, every literal among its tokens
stands in a string of the tree or is lost in one of these ways.
-/

namespace SqlTidy

open Parse Grammar

/-- The tokens that a statement of this kind may lose. -/
def Statement.Loses : Statement → Input → Nat → Prop
  | .createTable _ => Overwritten (chooseRule tableClauseRules) TableClause.ctorIdx
  | .createView _ => Overwritten (chooseRule viewClauseRules) ViewClause.ctorIdx
  | .createNamespace _ => Overwritten (chooseRule namespaceClauseRules) NamespaceClause.ctorIdx
  | .reset _ => fun i k => ∃ pos < k, i.tokenAt pos = .symbol .eq
  | .explain _ s => s.Loses
  | _ => fun _ _ => False

namespace Parse

variable {p : Parse Statement} {given : List String} {i : Input} {start mid : Nat}

/-- From a position on, behind tokens that are held by `given`. -/
abbrev AccountsAt (given : List String) (p : Parse Statement) (i : Input) (start mid : Nat) : Prop :=
  SavesAt (fun _ _ => False) (fun i s k => i.Held s.Loses (stored s) k) given p i start mid

/-- Every literal stands in the statement or is lost by it. -/
abbrev Accounts (given : List String) (p : Parse Statement) : Prop :=
  Saves (fun _ _ => False) (fun i s k => i.Held s.Loses (stored s) k) given p

/-- A rule whose statements all lose the same tokens. -/
theorem accounts_of_loses {lost : Input → Nat → Prop} (h : Keeps lost given p)
    (hlost : ∀ i pos, Ends p i pos fun s _ => s.Loses = lost) : Accounts given p := by
  intro i hi start mid hgiven
  refine ((h i hi start mid ?_).and (hlost i mid)).mono ?_
  · exact fun k hstart hk => (hgiven k hstart hk).imp False.elim
  · rintro s next ⟨hs, rfl⟩
    exact hs

/-- A rule that loses nothing. -/
theorem accounts_of_keeps (h : Keeps (fun _ _ => False) given p) : Accounts given p :=
  fun i hi start mid hgiven => (h i hi start mid hgiven).mono fun _ _ hs k hstart hk =>
    (hs k hstart hk).imp False.elim

/-- A rule for the contents of a statement that loses nothing. -/
theorem accounts_map {α : Type} [Stored α] {q : Parse α} {make : α → Statement}
    (h : Keeps (fun _ _ => False) given q) (hmake : ∀ a, stored (make a) = stored a) :
    Accounts given (do return make (← q)) :=
  accounts_of_keeps (.pass h fun a => .wrap (hmake a))

end Parse

namespace Grammar

/-! ## `CREATE` -/

theorem accounts_createTable (mode : CreateMode) (external : Bool) :
    Accounts [] (createTable mode external) :=
  accounts_of_loses (keeps_createTable mode external fun _ _ h => h) fun _ _ =>
    .step fun _ _ => .step fun _ _ => .step fun _ _ => .step fun _ _ => .step fun _ _ =>
      .step fun _ _ => .pure rfl

theorem accounts_createNamespace (word : NamespaceWord) : Accounts [] (createNamespace word) :=
  accounts_of_loses (keeps_createNamespace word fun _ _ h => h) fun _ _ =>
    .step fun _ _ => .step fun _ _ => .step fun _ _ => .pure rfl

theorem accounts_createView (orReplace global temporary : Bool) :
    Accounts [] (createView orReplace global temporary) := by
  refine .step (.acceptWords _) fun ifNotExists => .bind keeps_dottedName fun name => ?_
  refine .step quiet_isSourceView fun _ => .ite ?_ ?_
  · exact accounts_of_keeps (keeps_sourceView orReplace global name)
  · exact accounts_of_loses (keeps_queryView orReplace global temporary ifNotExists name fun _ _ h => h)
      fun _ _ => .step fun _ _ => .step fun _ _ => .step fun _ _ => .step fun _ _ => .pure rfl

theorem accounts_createModified (orReplace : Bool) : Accounts [] (createModified orReplace) := by
  have htemporary : Quiet (do if ← acceptWord "TEMPORARY" then return true else acceptWord "TEMP") :=
    .bind (.acceptWord _) fun _ => .ite (.pure _) (.acceptWord _)
  refine .step (.acceptWord _) fun _ => .step htemporary fun _ => .step (.acceptWord _) fun _ => .ite ?_ ?_
  · exact accounts_createView _ _ _
  refine .ite (saves_expected _) (.step (.acceptWord _) fun _ => .ite ?_ (.ite (saves_expected _) ?_))
  · exact accounts_of_keeps (keeps_createFunction _ _)
  refine .step (.choose _) fun word => ?_
  cases word with
  | some word => exact accounts_createNamespace word
  | none =>
    exact .step (.acceptWord _) fun _ => .ite (accounts_of_keeps keeps_createIndex) (saves_expected _)

theorem accounts_create : Accounts [] create := by
  refine .step (.acceptWord _) fun _ => .ite ?_ (.step (.expectWord _) fun _ => ?_)
  · exact .step (.expectWord _) fun _ => accounts_createTable _ _
  refine .step (.acceptWords _) fun _ => .step (.acceptWord _) fun _ => .ite ?_ ?_
  · exact .step (.expectWord _) fun _ => accounts_createTable _ _
  · exact .step (.acceptWord _) fun _ => .ite (accounts_createTable _ _) (accounts_createModified _)

/-! ## `RESET` -/

variable {i : Input} {start mid : Nat} {word : String}

theorem accountsAt_reset (hi : i.Scanned) (hword : i.tokenAt mid = .word word) :
    AccountsAt [] reset i start mid := by
  refine .skipWord hword fun hgiven => (ends_rawSetting hi).bind fun setting next hsetting => ?_
  refine .pure fun k hstart hk => ?_
  rcases Nat.lt_or_ge k (mid + 1) with hmid | hmid
  · exact ((hgiven k hstart hmid).imp False.elim).mono (List.nil_subset _)
  · intro hlit
    rcases hsetting k hmid hk hlit with ⟨s, hs, hinfix⟩ | ⟨-, heq⟩
    · exact .inr ⟨s, Stored.mem_stored_option hs, hinfix⟩
    · exact .inl heq

/-! ## Statements that start with `WITH` or `FROM` -/

theorem accounts_queryStatement (tables : Option WithClause) :
    Accounts (stored tables) (queryStatement tables) :=
  accounts_map (keeps_within fun _ h => keeps_queryAfterWith h tables) fun _ => rfl

theorem keepsSome_insertSource {lost : Input → Nat → Prop} : KeepsSome lost [] insertSource := by
  refine .bind (keeps_within fun _ h => keeps_fromClause h) fun source => .step (.isWord _) fun _ => ?_
  refine .ite (.result fun _ _ hheld x hx => ?_) .decline
  cases hx
  exact hheld

theorem accounts_fromStatement (tables : Option WithClause) :
    Accounts (stored tables) (fromStatement tables) := by
  refine .bind (keeps_rewinding keepsSome_insertSource) fun source => ?_
  cases source with
  | none =>
    have h := accounts_queryStatement tables
    rwa [← List.append_nil (stored tables)] at h
  | some source =>
    refine accounts_of_keeps (.bind (keeps_many keeps_multiInsertBody) fun _ => .build rfl (by simp))

theorem accounts_withStatement : Accounts [] withStatement := by
  refine .bind (keeps_within fun _ h => keeps_withClause h) fun tables => ?_
  refine .step (.isWord _) fun _ => .ite (accounts_map (keeps_insert (some tables)) fun _ => rfl) ?_
  refine .step (.isWord _) fun _ => .ite (accounts_fromStatement (some tables)) ?_
  refine .step (.isWord _) fun _ => .ite (accounts_map (keeps_exportTable (some tables)) fun _ => rfl) ?_
  exact accounts_queryStatement (some tables)

/-! ## All statements -/

theorem accounts_explain {inner : Parse Statement} (h : Accounts [] inner) :
    Accounts [] (explain inner) := by
  refine .step (.expectWord _) fun _ => .step (.choose _) fun mode => ?_
  intro i hi start mid hgiven
  exact (h i hi start mid hgiven).bind fun _ _ hs => .pure hs

theorem accountsAt_describe (hi : i.Scanned) (hword : i.tokenAt mid = .word word) :
    AccountsAt [] (do return .describe (← describe)) i start mid :=
  .bind (keepsAt_describe hi hword) fun _ _ => .of hi (accounts_of_keeps (.wrap rfl))

theorem accountsAt_statementOf {inner : Parse Statement} (h : Accounts [] inner) (hi : i.Scanned)
    (hword : i.tokenAt mid = .word word) (first : String) :
    AccountsAt [] (statementOf inner first) i start mid := by
  unfold statementOf
  split
  · exact .of hi (accounts_map keeps_query fun _ => rfl)
  · exact .of hi (accounts_map keeps_query fun _ => rfl)
  · exact .of hi (accounts_map keeps_query fun _ => rfl)
  · exact .of hi accounts_withStatement
  · exact .of hi (accounts_fromStatement none)
  · exact .of hi (accounts_map (keeps_insert none) fun _ => rfl)
  · exact .of hi (accounts_map keeps_update fun _ => rfl)
  · exact .of hi (accounts_map keeps_delete fun _ => rfl)
  · refine .of hi (.step (.of_stays fun _ _ => .peek_bind (.pure rfl)) fun _ => .ite ?_ ?_)
    · exact accounts_map keeps_mergeFiles fun _ => rfl
    · exact accounts_map keeps_merge fun _ => rfl
  · exact .of hi accounts_create
  · exact .of hi accounts_create
  · exact .of hi (accounts_of_keeps keeps_alter)
  · exact .of hi (accounts_of_keeps keeps_drop)
  · exact .of hi (accounts_map keeps_truncate fun _ => rfl)
  · exact .of hi (accounts_map keeps_repair fun _ => rfl)
  · exact .of hi (accounts_map keeps_repair fun _ => rfl)
  · exact .of hi (accounts_of_keeps keeps_analyze)
  · exact .of hi (accounts_map keeps_commentOn fun _ => rfl)
  · exact .of hi (accounts_map keeps_use fun _ => rfl)
  · exact .of hi (accounts_of_keeps keeps_set)
  · exact accountsAt_reset hi hword
  · exact .of hi (accounts_map keeps_show fun _ => rfl)
  · exact accountsAt_describe hi hword
  · exact accountsAt_describe hi hword
  · exact .of hi (accounts_explain h)
  · exact .of hi (accounts_map keeps_call fun _ => rfl)
  · exact .of hi (accounts_of_keeps keeps_load)
  · exact .of hi (accounts_map (keeps_exportTable none) fun _ => rfl)
  · exact .of hi (accounts_map keeps_dataTunnel fun _ => rfl)
  · exact .of hi (.ite (saves_failWith _) (saves_expected _))

theorem accounts_statement : Accounts [] statement := by
  refine saves_fix fun inner h => ?_
  intro i hi start mid
  refine .isSymbol (.ite (fun _ => .of hi (accounts_map keeps_query fun _ => rfl)) fun _ => ?_)
  refine .lookFor ends_currentWord fun w hw => ?_
  cases w with
  | none => exact .of hi (saves_expected _)
  | some w =>
    obtain ⟨word, hword⟩ := hw rfl
    exact accountsAt_statementOf h hi hword w

/-! ## Whole texts -/

/-- Every literal of a whole statement is accounted for, since only the end mark is left behind it. -/
theorem ends_wholeStatement (hi : i.Scanned) : Ends wholeStatement i 0 fun s next =>
    (∀ k < next, i.Held s.Loses (stored s) k) ∧ i.tokenAt next = .eof := by
  have hsemicolons : Quiet (many skipSemicolon) := .many (.maybe (.accept _) (.pure _))
  refine (hsemicolons i 0).bind fun _ pos hpos => ?_
  show Ends (if decide (i.tokenAt pos = .eof) = true then _ else _) i pos _
  refine .ite (fun _ => nofun) fun _ => ?_
  refine (accounts_statement i hi 0 pos fun k hk hk' => ?_).bind fun s next hs => ?_
  · exact Input.held_of_not_isLiteral (hpos k hk hk')
  refine (hsemicolons i next).bind fun _ last hlast => ?_
  show Ends (if decide (i.tokenAt last = .eof) = true then _ else _) i last _
  refine .ite (fun heof => .pure ⟨fun k hk => ?_, of_decide_eq_true heof⟩) fun _ => ?_
  · rcases Nat.lt_or_ge k next with hlt | hge
    · exact hs k (Nat.zero_le k) hlt
    · exact Input.held_of_not_isLiteral (hlast k hge hk)
  · exact .step fun _ _ => ends_fail _ _

end Grammar

/-- Behind the end mark there is no literal. -/
theorem Input.Scanned.lt_of_isLiteral {i : Input} (h : i.Scanned) {k last : Nat}
    (hlast : i.tokenAt last = .eof) (hlit : (i.tokenAt k).isLiteral) : k < last := by
  obtain ⟨ts, htokens, hts⟩ := (Token.tiles_of_scan h).ends (.start _)
  obtain ⟨t, ht, htoken⟩ := Input.exists_of_tokenAt (Token.ne_eof_of_isLiteral hlit)
  rw [← Array.getElem?_toList, htokens] at ht
  have hk : k < ts.length := by
    refine Nat.lt_of_not_le fun hle => Token.ne_eof_of_isLiteral hlit ?_
    rw [List.getElem?_append_right hle] at ht
    rw [← htoken, List.mem_singleton.1 (List.mem_of_getElem? ht)]
  refine Nat.lt_of_not_le fun hle => ?_
  -- Then the token at `last` is one of those before the end mark.
  have hlt : last < ts.length := by omega
  have hat : i.tokens[last]? = some ts[last] := by
    rw [← Array.getElem?_toList, htokens, List.getElem?_append_left hlt, List.getElem?_eq_getElem hlt]
  rw [tokenAt, hat] at hlast
  exact hts _ (List.getElem_mem hlt) hlast

/-- Every literal of a text stands in the statement that is read from it, or the statement loses it. -/
theorem Statement.held_of_parse {text : String} {tree : Statement} (h : parse text = .ok tree) :
    ∃ tokens, Token.scan text = .ok tokens ∧
      ∀ k, Input.Held ⟨text, tokens.toArray⟩ tree.Loses (stored tree) k := by
  rw [parse] at h
  cases hscan : Token.scan text with
  | error e =>
    rw [hscan] at h
    contradiction
  | ok tokens =>
    rw [hscan] at h
    refine ⟨tokens, rfl, fun k hlit => ?_⟩
    have hi : Input.Scanned ⟨text, tokens.toArray⟩ := hscan
    have hrun : wholeStatement ⟨text, tokens.toArray⟩ 0 = (.ok tree, _) := Prod.ext h rfl
    obtain ⟨hheld, hlast⟩ := ends_wholeStatement hi tree _ hrun
    exact hheld k (hi.lt_of_isLiteral hlast hlit) hlit

end SqlTidy
