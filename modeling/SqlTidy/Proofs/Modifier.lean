import SqlTidy.Format
import SqlTidy.Proofs.Runs

/-!
# The modifiers of `CREATE`

The words between `CREATE` and the name of a new object are read before its kind is known, and each kind has a tree
and a layout of its own. `Head` is what stands in front of the name, read off the tokens without the grammar.

**Theorem (`format_of_create`).** The page of a `CREATE` begins with the head of its source, `TEMP` spelled
`TEMPORARY`, and goes on with the same name, except that a namespace and an index lose `OR REPLACE`, and a view over
a data source loses `IF NOT EXISTS`.

The trees of these three kinds have no field for the modifier, although the rule in front of them takes it. So the
head of the page is the head of the source without what the kind loses (`Head.kept`), and the proof follows the rule
for every kind: what it took (`Input.Offers`) and what its document writes first (`Doc.Opens`).
-/

namespace SqlTidy

open Parse

/-! ## Heads -/

/-- What stands between `CREATE` and the name of the new object. -/
structure Head where
  orReplace : Bool
  external : Bool
  global : Bool
  temporary : Bool
  /-- The word for the kind of the object. -/
  word : String
  ifNotExists : Bool
deriving DecidableEq

/-- Some of the phrases come next, or none of them does. A phrase that is there is taken. -/
def Input.Offers (i : Input) (pos : Nat) (phrases : List (List String)) : Bool → Nat → Prop
  | true, next => ∃ phrase ∈ phrases, i.HasWords pos phrase ∧ next = pos + phrase.length
  | false, next => (∀ phrase ∈ phrases, ¬ i.HasWords pos phrase) ∧ next = pos

/-- The words for what can be created. -/
def objectWords : List String :=
  ["TABLE", "VIEW", "FUNCTION", "DATABASE", "SCHEMA", "NAMESPACE", "INDEX"]

namespace Head

/-- A word that is written only if it is there. -/
def ifThere (present : Bool) (words : String) : String := if present then words else ""

@[simp] theorem ifThere_false_append (words t : String) : ifThere false words ++ t = t := by
  rw [ifThere, if_neg Bool.false_ne_true, String.empty_append]

/-- The head as it is printed, and a name behind it. -/
def before (h : Head) (name : String) : String :=
  "CREATE " ++ (ifThere h.orReplace "OR REPLACE " ++ (ifThere h.external "EXTERNAL " ++
    (ifThere h.global "GLOBAL " ++ (ifThere h.temporary "TEMPORARY " ++ (h.word ++ " " ++
      (ifThere h.ifNotExists "IF NOT EXISTS " ++ name))))))

/-- The tokens from `pos` up to `stop` are those of the head in front of the word for the kind. -/
def Modified (h : Head) (i : Input) (pos stop : Nat) : Prop :=
  ∃ p q r, i.Offers pos [["OR", "REPLACE"]] h.orReplace p ∧ i.Offers p [["EXTERNAL"]] h.external q ∧
    i.Offers q [["GLOBAL"]] h.global r ∧ i.Offers r [["TEMPORARY"], ["TEMP"]] h.temporary stop

/-- The tokens from `CREATE` at `pos` up to `stop` are those of the head. -/
structure Spelled (h : Head) (i : Input) (pos stop : Nat) : Prop where
  create : (i.tokenAt pos).isKeyword "CREATE"
  kind : h.word ∈ objectWords
  words : ∃ mid, h.Modified i (pos + 1) mid ∧ (i.tokenAt mid).isKeyword h.word ∧
    i.Offers (mid + 1) [["IF", "NOT", "EXISTS"]] h.ifNotExists stop

/-- The part of a head that is printed with a statement. -/
def kept (h : Head) : Statement → Head
  | .createNamespace _ | .createIndex _ => { h with orReplace := false }
  | .createSourceView _ => { h with ifNotExists := false }
  | _ => h

end Head

/-! ## What a document writes first -/

theorem Printer.write_of_not_pending {p : Printer} (h : p.pending = false) (s : String) :
    p.write s = { p with output := p.output ++ s } := by
  unfold Printer.write
  split
  · rename_i hempty
    rw [String.isEmpty_iff.1 hempty, String.append_empty]
  · rw [h]
    rfl

namespace Doc

/-- Behind a line's first character, the document begins with a text. -/
def Opens (d : Doc) (s : String) : Prop :=
  ∀ layout (p : Printer), p.pending = false → ∃ rest, (d.run layout p).output = p.output ++ s ++ rest

/-- What has been written stays. -/
theorem exists_output_run (layout : ClauseLayout) (d : Doc) (p : Printer) :
    ∃ rest, (d.run layout p).output = p.output ++ rest := by
  have hwrite (p : Printer) (s : String) : ∃ rest, (p.write s).output = p.output ++ rest := by
    unfold Printer.write
    split
    · exact ⟨"", by simp⟩
    · split
      · exact ⟨_, String.append_assoc ..⟩
      · exact ⟨s, rfl⟩
  induction d generalizing p with
  | nil => exact ⟨"", by simp [run]⟩
  | text s => exact hwrite p s
  | line => exact ⟨"\n", rfl⟩
  | clauseBreak =>
    cases layout with
    | stacked => exact ⟨"\n", rfl⟩
    | compact => exact hwrite p " "
  | append a b iha ihb =>
    obtain ⟨first, hfirst⟩ := iha p
    obtain ⟨second, hsecond⟩ := ihb (a.run layout p)
    exact ⟨first ++ second, by rw [run, hsecond, hfirst, String.append_assoc]⟩
  | nest d ih => exact ih p.enter
  | hang d ih => exact ih (p.setDepth _)

theorem opens_empty (d : Doc) : d.Opens "" := by
  intro layout p _
  rw [String.append_empty]
  exact exists_output_run layout d p

variable {d : Doc} {ds : List Doc} {s t : String}

theorem Opens.cons (h : (seq ds).Opens t) {s' : String} (hs : s = s') :
    (seq (text s :: ds)).Opens (s' ++ t) := by
  intro layout p hp
  have hwrite := Printer.write_of_not_pending hp s
  obtain ⟨rest, hrest⟩ := h layout (p.write s) (by rw [hwrite]; exact hp)
  refine ⟨rest, ?_⟩
  show ((seq ds).run layout (p.write s)).output = _
  rw [hrest, hwrite, hs, ← String.append_assoc]

/-- Two texts that make one. -/
theorem Opens.cons_cons (h : (seq ds).Opens t) {s' r : String} (hs : s ++ s' = r) :
    (seq (text s :: text s' :: ds)).Opens (r ++ t) := by
  rw [← hs, String.append_assoc]
  exact (h.cons rfl).cons rfl

/-- Two texts that are cut elsewhere. -/
theorem Opens.regroup (h : (seq ds).Opens t) {s' r r' : String} (hs : s ++ s' = r ++ r') :
    (seq (text s :: text s' :: ds)).Opens (r ++ (r' ++ t)) := by
  rw [← String.append_assoc]
  exact h.cons_cons hs

/-- One text that makes two. -/
theorem Opens.halves (h : (seq ds).Opens t) {r r' : String} (hs : s = r ++ r') :
    (seq (text s :: ds)).Opens (r ++ (r' ++ t)) := by
  rw [← String.append_assoc]
  exact h.cons hs

theorem Opens.when (h : (seq ds).Opens t) (b : Bool) (s : String) :
    (seq (.when b (text s) :: ds)).Opens (Head.ifThere b s ++ t) := by
  cases b with
  | true => exact h.cons rfl
  | false =>
    rw [Head.ifThere_false_append]
    exact h

/-- A name at the front begins with its first part. -/
theorem opens_dottedName (first : Ident) (rest : List Ident) (ds : List Doc) :
    (seq (text (DottedName.written ⟨first :: rest⟩) :: ds)).Opens first.written := by
  obtain ⟨behind, hbehind⟩ : ∃ behind, DottedName.written ⟨first :: rest⟩ = first.written ++ behind := by
    cases rest with
    | nil => exact ⟨"", by simp [DottedName.written]⟩
    | cons second rest =>
      rw [DottedName.written, List.map_cons, List.map_cons, String.intercalate_cons_cons]
      exact ⟨_, String.append_assoc ..⟩
  intro layout p hp
  obtain ⟨tail, htail⟩ := (opens_empty (seq ds)).cons (s := first.written ++ behind) rfl layout p hp
  refine ⟨behind ++ tail, ?_⟩
  rw [hbehind, htail, String.append_empty]
  simp only [String.append_assoc]

theorem Opens.exists_page (h : d.Opens s) (style : Style) : ∃ rest, d.print style = .ok (s ++ rest) := by
  obtain ⟨rest, hrest⟩ := h style.layout (.ofWidth style.indentWidth) rfl
  refine ⟨rest, ?_⟩
  rw [print_eq_ok, hrest]
  simp [Printer.ofWidth]

end Doc

/-! ### The heads of the documents -/

section

open Doc

variable {first : Ident} {rest : List Ident}

theorem CreateTable.opens_doc (c : CreateTable) (hname : c.name = ⟨first :: rest⟩) (hmode : c.mode ≠ .replace) :
    c.doc.Opens (Head.before ⟨c.mode = .createOrReplace, c.external, false, false, "TABLE", c.ifNotExists⟩
      first.written) := by
  obtain ⟨mode, external, ifNotExists, name, columns, provider, clauses, query⟩ := c
  cases hname
  have hhead : mode.spelling ++ " " = "CREATE " ++ Head.ifThere (mode = .createOrReplace) "OR REPLACE " := by
    cases mode with
    | replace => contradiction
    | _ => rfl
  simp only [Head.before, Head.ifThere_false_append]
  exact .regroup (.when (.cons (.when (opens_dottedName first rest _) ifNotExists _) rfl) external _) hhead

theorem CreateView.opens_doc (c : CreateView) (hname : c.name = ⟨first :: rest⟩) :
    c.doc.Opens (Head.before ⟨c.orReplace, false, c.global, c.temporary, "VIEW", c.ifNotExists⟩ first.written) := by
  obtain ⟨orReplace, global, temporary, ifNotExists, name, columns, comment, partitionedOn, properties, query⟩ := c
  cases hname
  simp only [Head.before, Head.ifThere_false_append]
  refine .cons (.when (.when (.when (.cons (.when ?_ ifNotExists _) rfl) temporary _) global _) orReplace _) rfl
  exact opens_dottedName first rest _

theorem CreateSourceView.opens_doc (c : CreateSourceView) (hname : c.name = ⟨first :: rest⟩) :
    c.doc.Opens (Head.before ⟨c.orReplace, false, c.global, true, "VIEW", false⟩ first.written) := by
  obtain ⟨orReplace, global, name, columns, provider, options⟩ := c
  cases hname
  simp only [Head.before, Head.ifThere_false_append]
  refine .cons (.when (.when (.halves ?_ ?_) global _) orReplace _) rfl
  · exact opens_dottedName first rest _
  · rfl

theorem CreateNamespace.opens_doc (c : CreateNamespace) (hname : c.name = ⟨first :: rest⟩) :
    c.doc.Opens (Head.before ⟨false, false, false, false, c.word.spelling, c.ifNotExists⟩ first.written) := by
  obtain ⟨word, ifNotExists, name, comment, location, dbWord, properties⟩ := c
  cases hname
  simp only [Head.before, Head.ifThere_false_append]
  exact .cons (.cons_cons (.when (opens_dottedName first rest _) ifNotExists _) rfl) rfl

theorem CreateFunction.opens_doc (c : CreateFunction) (hname : c.name = ⟨first :: rest⟩) :
    c.doc.Opens (Head.before ⟨c.orReplace, false, false, c.temporary, "FUNCTION", c.ifNotExists⟩ first.written) := by
  obtain ⟨orReplace, temporary, ifNotExists, name, className, resources⟩ := c
  cases hname
  simp only [Head.before, Head.ifThere_false_append]
  refine .cons (.when (.when (.cons (.when ?_ ifNotExists _) rfl) temporary _) orReplace _) rfl
  exact opens_dottedName first rest _

theorem CreateIndex.opens_doc (c : CreateIndex) :
    c.doc.Opens (Head.before ⟨false, false, false, false, "INDEX", c.ifNotExists⟩ c.name.written) := by
  obtain ⟨ifNotExists, name, tableWord, table, indexType, columns, options⟩ := c
  simp only [Head.before, Head.ifThere_false_append]
  refine .halves (.when ?_ ifNotExists _) ?_
  · exact opens_dottedName name [] _
  · rfl

end

/-! ## What the rules take -/

namespace Parse

variable {i : Input} {pos : Nat}

theorem ends_acceptWords_offers (keywords : List String) :
    Ends (acceptWords keywords) i pos (i.Offers pos [keywords]) := by
  intro found next hrun
  by_cases hwords : i.HasWords pos keywords
  · obtain ⟨rfl, rfl⟩ := (runs_acceptWords hwords).unique hrun
    exact ⟨keywords, List.mem_singleton_self _, hwords, rfl⟩
  · obtain ⟨rfl, rfl⟩ := (runs_acceptWords_false hwords).unique hrun
    exact ⟨fun phrase hphrase => (List.mem_singleton.1 hphrase) ▸ hwords, rfl⟩

theorem ends_acceptWord_offers (keyword : String) :
    Ends (acceptWord keyword) i pos (i.Offers pos [[keyword]]) := by
  intro found next hrun
  by_cases hword : (i.tokenAt pos).isKeyword keyword
  · obtain ⟨rfl, rfl⟩ := (runs_acceptWord hword).unique hrun
    exact ⟨[keyword], List.mem_singleton_self _, ⟨hword, trivial⟩, rfl⟩
  · obtain ⟨rfl, rfl⟩ := (runs_acceptWord_false hword).unique hrun
    refine ⟨fun phrase hphrase hthere => hword ?_, rfl⟩
    rw [List.mem_singleton.1 hphrase] at hthere
    exact hthere.1

/-- A second spelling is tried where the first one is missing. -/
theorem ends_acceptEither_offers (first second : String) :
    Ends (do if ← acceptWord first then return true else acceptWord second) i pos
      (i.Offers pos [[first], [second]]) := by
  refine (ends_acceptWord_offers first).bind fun found mid hfirst => ?_
  cases found with
  | true =>
    obtain ⟨phrase, hphrase, hwords, rfl⟩ := hfirst
    exact .pure ⟨phrase, List.mem_of_mem_head? (by simpa using (List.mem_singleton.1 hphrase).symm), hwords, rfl⟩
  | false =>
    obtain ⟨hmissing, rfl⟩ := hfirst
    refine (ends_acceptWord_offers second).mono fun found next hsecond => ?_
    cases found with
    | true =>
      obtain ⟨phrase, hphrase, hwords, rfl⟩ := hsecond
      exact ⟨phrase, List.mem_cons_of_mem _ hphrase, hwords, rfl⟩
    | false => exact ⟨List.forall_mem_cons.2 ⟨hmissing _ (List.mem_singleton_self _), hsecond.1⟩, hsecond.2⟩

end Parse

namespace Grammar

variable {i : Input} {pos stop : Nat} {head : Head}

theorem ends_dottedName_first : Ends dottedName i pos fun name _ =>
    ∃ first rest, name = ⟨first :: rest⟩ ∧ i.tokenAt pos = first.token :=
  ends_identifier.bind fun first _ hfirst => .step fun rest _ => .pure ⟨first, rest, rfl, hfirst.1⟩

/-- Behind a head comes a name, and the statement is printed with what it keeps of the head and with that name. -/
def Opened (i : Input) (stop : Nat) (head : Head) (s : Statement) : Prop :=
  ∃ name : Ident, i.tokenAt stop = name.token ∧ s.doc.Opens ((head.kept s).before name.written)

/-- A rule that reads the rest of a statement behind the word for its kind. -/
def Completes (p : Parse Statement) (i : Input) (pos : Nat) (head : Head) : Prop :=
  Ends p i pos fun s _ => ∃ there stop, i.Offers pos [["IF", "NOT", "EXISTS"]] there stop ∧
    Opened i stop { head with ifNotExists := there } s

theorem completes_createTable (orReplace external : Bool) :
    Completes (createTable (if orReplace then .createOrReplace else .create) external) i pos
      ⟨orReplace, external, false, false, "TABLE", false⟩ := by
  refine (ends_acceptWords_offers _).bind fun there stop hthere => ?_
  refine ends_dottedName_first.bind fun name mid hname => ?_
  obtain ⟨first, rest, rfl, hfirst⟩ := hname
  refine .step fun columns _ => .step fun provider _ => .step fun clauses _ => .step fun query _ => .pure ?_
  refine ⟨there, stop, hthere, first, hfirst, ?_⟩
  cases orReplace with
  | true => exact CreateTable.opens_doc ⟨.createOrReplace, _, _, _, _, _, _, _⟩ rfl nofun
  | false => exact CreateTable.opens_doc ⟨.create, _, _, _, _, _, _, _⟩ rfl nofun

/-- The clauses of a view do not touch its head. -/
theorem foldl_addViewClause (clauses : List ViewClause) (view : CreateView) :
    ∃ comment partitionedOn tableProperties,
      clauses.foldl addViewClause view = { view with comment, partitionedOn, tableProperties } := by
  induction clauses generalizing view with
  | nil => exact ⟨_, _, _, rfl⟩
  | cons clause clauses ih =>
    cases clause with
    | comment text => exact ih _
    | partitionedOn columns => exact ih _
    | tableProperties properties => exact ih _

/-- The clauses of a namespace do not touch its head. -/
theorem foldl_addNamespaceClause (clauses : List NamespaceClause) (create : CreateNamespace) :
    ∃ comment location dbWord properties,
      clauses.foldl addNamespaceClause create = { create with comment, location, dbWord, properties } := by
  induction clauses generalizing create with
  | nil => exact ⟨_, _, _, _, rfl⟩
  | cons clause clauses ih =>
    cases clause with
    | comment text => exact ih _
    | location path => exact ih _
    | properties dbWord properties => exact ih _

theorem completes_createView (orReplace global temporary : Bool) :
    Completes (createView orReplace global temporary) i pos
      ⟨orReplace, false, global, temporary, "VIEW", false⟩ := by
  refine (ends_acceptWords_offers _).bind fun there stop hthere => ?_
  refine ends_dottedName_first.bind fun name mid hname => ?_
  obtain ⟨first, rest, rfl, hfirst⟩ := hname
  refine .step fun source _ => .ite (fun hsource => ?_) fun _ => ?_
  · obtain ⟨rfl, -⟩ := Bool.and_eq_true_iff.1 hsource
    refine .step fun columns _ => .step fun _ _ => .step fun provider _ => .step fun options _ => .pure ?_
    exact ⟨there, stop, hthere, first, hfirst, CreateSourceView.opens_doc ⟨_, _, _, _, _, _⟩ rfl⟩
  · refine .step fun columns _ => .step fun clauses _ => .step fun _ _ => .step fun query _ => .pure ?_
    obtain ⟨comment, partitionedOn, properties, hview⟩ := foldl_addViewClause clauses
      ⟨orReplace, global, temporary, there, ⟨first :: rest⟩, columns, none, [], [], query⟩
    rw [hview]
    exact ⟨there, stop, hthere, first, hfirst, CreateView.opens_doc ⟨_, _, _, _, _, _, _, _, _, _⟩ rfl⟩

theorem completes_createNamespace (orReplace : Bool) (word : NamespaceWord) :
    Completes (createNamespace word) i pos ⟨orReplace, false, false, false, word.spelling, false⟩ := by
  refine (ends_acceptWords_offers _).bind fun there stop hthere => ?_
  refine ends_dottedName_first.bind fun name mid hname => ?_
  obtain ⟨first, rest, rfl, hfirst⟩ := hname
  refine .step fun clauses _ => .pure ?_
  obtain ⟨comment, location, dbWord, properties, hcreate⟩ := foldl_addNamespaceClause clauses
    ⟨word, there, ⟨first :: rest⟩, none, none, true, []⟩
  rw [hcreate]
  exact ⟨there, stop, hthere, first, hfirst, CreateNamespace.opens_doc ⟨_, _, _, _, _, _, _⟩ rfl⟩

theorem completes_createFunction (orReplace temporary : Bool) :
    Completes (createFunction orReplace temporary) i pos
      ⟨orReplace, false, false, temporary, "FUNCTION", false⟩ := by
  refine (ends_acceptWords_offers _).bind fun there stop hthere => ?_
  refine ends_dottedName_first.bind fun name mid hname => ?_
  obtain ⟨first, rest, rfl, hfirst⟩ := hname
  refine .step fun _ _ => .step fun className _ => .step fun resources _ => .pure ?_
  exact ⟨there, stop, hthere, first, hfirst, CreateFunction.opens_doc ⟨_, _, _, _, _, _⟩ rfl⟩

theorem completes_createIndex (orReplace : Bool) :
    Completes createIndex i pos ⟨orReplace, false, false, false, "INDEX", false⟩ := by
  refine (ends_acceptWords_offers _).bind fun there stop hthere => ?_
  refine ends_identifier.bind fun name mid hname => ?_
  refine .step fun _ _ => .step fun tableWord _ => .step fun table _ => .step fun indexType _ => ?_
  refine .step fun _ _ => .step fun columns _ => .step fun _ _ => .step fun options _ => .pure ?_
  exact ⟨there, stop, hthere, name, hname.1, CreateIndex.opens_doc ⟨_, _, _, _, _, _, _⟩⟩

/-! ## All kinds -/

/-- A word that is there is no other one. -/
theorem not_isKeyword {t : Token} {word keyword : String} (h : t.isKeyword word)
    (hne : Text.upper word ≠ Text.upper keyword) : ¬ t.isKeyword keyword := by
  intro hkeyword
  obtain ⟨w, rfl, hw⟩ := Token.exists_of_isKeyword h
  obtain ⟨w', ⟨⟩, hw'⟩ := Token.exists_of_isKeyword hkeyword
  exact hne (hw.symm.trans hw')

/-- Where one word stands, no phrase with another first word does. -/
theorem offers_false {word : String} (keywords : List String) (h : (i.tokenAt pos).isKeyword word)
    (hne : ∀ keyword ∈ keywords, Text.upper word ≠ Text.upper keyword) :
    i.Offers pos (keywords.map fun keyword => [keyword]) false pos := by
  refine ⟨fun phrase hphrase hthere => ?_, rfl⟩
  obtain ⟨keyword, hkeyword, rfl⟩ := List.mem_map.1 hphrase
  exact not_isKeyword h (hne keyword hkeyword) hthere.1

/-- A statement is printed with what it keeps of the head from `pos` on. -/
def Begins (i : Input) (pos : Nat) (s : Statement) : Prop :=
  ∃ (head : Head) (stop : Nat), head.Spelled i pos stop ∧ Opened i stop head s

variable {p : Parse Statement} {q mid : Nat}

theorem Completes.begins (hp : Completes p i (mid + 1) head) (hcreate : (i.tokenAt pos).isKeyword "CREATE")
    (hmodified : head.Modified i (pos + 1) mid) (hkind : head.word ∈ objectWords)
    (hword : (i.tokenAt mid).isKeyword head.word) : Ends p i (mid + 1) fun s _ => Begins i pos s := by
  refine hp.mono fun s _ hs => ?_
  obtain ⟨there, stop, hthere, hopened⟩ := hs
  exact ⟨{ head with ifNotExists := there }, stop, ⟨hcreate, hkind, mid, hmodified, hword, hthere⟩, hopened⟩

section

variable {orReplace : Bool} (hcreate : (i.tokenAt pos).isKeyword "CREATE")

include hcreate

theorem begins_createOther (h : Head.Modified ⟨orReplace, false, false, false, "", false⟩ i (pos + 1) mid) :
    Ends createOther i mid fun s _ => Begins i pos s := by
  have hwords : ∀ r ∈ [(["DATABASE"], NamespaceWord.database), (["SCHEMA"], .schema), (["NAMESPACE"], .namespace)],
      r.1 = [NamespaceWord.spelling r.2] := by decide
  refine ((ends_choose_word NamespaceWord.spelling hwords).and (ends_choose _)).bind fun word next hnext => ?_
  cases word with
  | some word =>
    obtain ⟨rfl, hword⟩ := hnext.1 word rfl
    refine (completes_createNamespace orReplace word).begins hcreate h ?_ hword
    cases word <;> simp [objectWords, NamespaceWord.spelling]
  | none =>
    obtain rfl := hnext.2 rfl
    refine Ends.bind (P := fun found k => found = true → k = next + 1 ∧ (i.tokenAt next).isKeyword "INDEX")
      (.acceptWord nofun fun hword _ => ⟨rfl, hword⟩) fun found k hfound => .ite (fun htrue => ?_) fun _ => ?_
    · obtain ⟨rfl, hword⟩ := hfound htrue
      exact (completes_createIndex orReplace).begins hcreate h (by simp [objectWords]) hword
    · exact ends_expected _ _

theorem begins_createModified (horReplace : i.Offers (pos + 1) [["OR", "REPLACE"]] orReplace q)
    (hexternal : i.Offers q [["EXTERNAL"]] false q) :
    Ends (createModified orReplace) i q fun s _ => Begins i pos s := by
  refine (ends_acceptWord_offers "GLOBAL").bind fun global r hglobal => ?_
  refine (ends_acceptEither_offers "TEMPORARY" "TEMP").bind fun temporary mid htemporary => ?_
  have hmodified (word : String) : Head.Modified ⟨orReplace, false, global, temporary, word, false⟩ i (pos + 1) mid :=
    ⟨q, q, r, horReplace, hexternal, hglobal, htemporary⟩
  have hkind (keyword : String) : Ends (acceptWord keyword) i mid fun found k =>
      (found = true → k = mid + 1 ∧ (i.tokenAt mid).isKeyword keyword) ∧ (found = false → k = mid) :=
    .acceptWord ⟨nofun, fun _ => rfl⟩ fun hword => ⟨fun _ => ⟨rfl, hword⟩, nofun⟩
  refine (hkind "VIEW").bind fun found k hview => .ite (fun htrue => ?_) fun hfalse => ?_
  · obtain ⟨rfl, hword⟩ := hview.1 htrue
    exact (completes_createView orReplace global temporary).begins hcreate (hmodified _) (by simp [objectWords]) hword
  obtain rfl := hview.2 (Bool.eq_false_iff.2 hfalse)
  refine .ite (fun _ => ends_expected _ _) fun hglobal => ?_
  obtain rfl := Bool.eq_false_iff.2 hglobal
  refine (hkind "FUNCTION").bind fun found k' hfunction => .ite (fun htrue => ?_) fun hfalse => ?_
  · obtain ⟨rfl, hword⟩ := hfunction.1 htrue
    exact (completes_createFunction orReplace temporary).begins hcreate (hmodified _) (by simp [objectWords]) hword
  obtain rfl := hfunction.2 (Bool.eq_false_iff.2 hfalse)
  refine .ite (fun _ => ends_expected _ _) fun htemporary => ?_
  obtain rfl := Bool.eq_false_iff.2 htemporary
  exact begins_createOther hcreate (hmodified _)

/-- A table has neither `GLOBAL` nor `TEMPORARY`, since its own word comes next. -/
theorem begins_createTable {external : Bool} (horReplace : i.Offers (pos + 1) [["OR", "REPLACE"]] orReplace q)
    (hexternal : i.Offers q [["EXTERNAL"]] external mid) (hword : (i.tokenAt mid).isKeyword "TABLE") :
    Ends (createTable (if orReplace then .createOrReplace else .create) external) i (mid + 1)
      fun s _ => Begins i pos s := by
  refine (completes_createTable orReplace external).begins hcreate ?_ (by simp [objectWords]) hword
  refine ⟨q, mid, mid, horReplace, hexternal, ?_, ?_⟩
  · exact offers_false ["GLOBAL"] hword (by decide)
  · exact offers_false ["TEMPORARY", "TEMP"] hword (by decide)

theorem begins_createAfter : Ends createAfter i (pos + 1) fun s _ => Begins i pos s := by
  refine (ends_acceptWords_offers _).bind fun orReplace q horReplace => ?_
  refine (ends_acceptWord_offers "EXTERNAL").bind fun external mid hexternal => ?_
  cases external with
  | true =>
    refine Ends.bind (P := fun _ k => k = mid + 1 ∧ (i.tokenAt mid).isKeyword "TABLE")
      (.expectWord fun hword => ⟨rfl, hword⟩) fun _ k hk => ?_
    obtain ⟨rfl, hword⟩ := hk
    exact begins_createTable hcreate horReplace hexternal hword
  | false =>
    obtain rfl := hexternal.2
    refine Ends.bind (P := fun found k => (found = true → k = mid + 1 ∧ (i.tokenAt mid).isKeyword "TABLE") ∧
      (found = false → k = mid)) (.acceptWord ⟨nofun, fun _ => rfl⟩ fun hword => ⟨fun _ => ⟨rfl, hword⟩, nofun⟩)
      fun found k hk => .ite (fun htrue => ?_) fun hfalse => ?_
    · obtain ⟨rfl, hword⟩ := hk.1 htrue
      exact begins_createTable hcreate horReplace hexternal hword
    · obtain rfl := hk.2 (Bool.eq_false_iff.2 hfalse)
      exact begins_createModified hcreate horReplace hexternal

/-- Every statement that the rule for `CREATE` reads begins with its head. -/
theorem begins_create : Ends create i pos fun s _ => Begins i pos s := by
  have hreplace : ¬ (i.tokenAt pos).isKeyword "REPLACE" := not_isKeyword hcreate (by decide)
  intro s next hrun
  have hrun := Runs.behind hrun (runs_acceptWord_false hreplace)
  have hafter : Ends (expectWord "CREATE" >>= fun _ => createAfter) i pos fun s _ => Begins i pos s :=
    .bind (P := fun _ k => k = pos + 1) (.expectWord fun _ => rfl) fun _ k hk => hk ▸ begins_createAfter hcreate
  exact hafter s next hrun

end

/-- A whole text whose first token is `CREATE`, semicolons aside. -/
theorem begins_of_whole {s : Statement} {first : Nat} (h : Whole i s first mid)
    (hbefore : ∀ k < pos, i.tokenAt k = .symbol .semicolon) (hcreate : (i.tokenAt pos).isKeyword "CREATE") :
    Begins i pos s := by
  obtain ⟨w, hw, hupper⟩ := Token.exists_of_isKeyword hcreate
  have hfirst : first = pos := by
    rcases Nat.lt_trichotomy first pos with hlt | heq | hgt
    · have hstarts := h.starts
      rw [hbefore first hlt] at hstarts
      contradiction
    · exact heq
    · rw [h.before pos hgt] at hw
      contradiction
  obtain rfl := hfirst
  obtain ⟨inner, hrun⟩ := exists_runs_statementOf h.runs hw
  rw [hupper] at hrun
  exact begins_create hcreate s mid hrun

end Grammar

/-! ## Whole texts -/

open Grammar

/-- The page of a `CREATE` begins with its head, apart from what its kind has no place for. -/
theorem format_of_create {text : String} {tree : Statement} {tokens : List Spanned} {pos : Nat}
    (hparse : Statement.parse (Text.trim text) = .ok tree) (hscan : Token.scan (Text.trim text) = .ok tokens)
    (hbefore : ∀ k < pos, Input.tokenAt ⟨Text.trim text, tokens.toArray⟩ k = .symbol .semicolon)
    (hcreate : (Input.tokenAt ⟨Text.trim text, tokens.toArray⟩ pos).isKeyword "CREATE") :
    ∃ (head : Head) (stop : Nat) (name : Ident), head.Spelled ⟨Text.trim text, tokens.toArray⟩ pos stop ∧
      Input.tokenAt ⟨Text.trim text, tokens.toArray⟩ stop = name.token ∧
      ∀ style, ∃ rest, format style text = .ok ((head.kept tree).before name.written ++ rest) := by
  obtain ⟨tokens', next, hscan', hrun⟩ := Statement.exists_run_of_parse hparse
  obtain rfl := Except.ok.inj (hscan.symm.trans hscan')
  have hi : Input.Capped ⟨Text.trim text, tokens.toArray⟩ := Input.Scanned.capped hscan
  obtain ⟨first, mid, hwhole⟩ := exists_whole_of_runs hi hrun
  obtain ⟨head, stop, hspelled, name, hname, hopens⟩ := begins_of_whole hwhole hbefore hcreate
  refine ⟨head, stop, name, hspelled, hname, fun style => ?_⟩
  rw [format, hparse]
  exact hopens.exists_page style

/-- A function behind a semicolon, with `TEMPORARY` in its short spelling. -/
theorem format_of_create_function : ∃ tree tokens head stop name,
    Token.scan (Text.trim ";create temp function f as 'a'") = .ok tokens ∧
      Head.Spelled head ⟨Text.trim ";create temp function f as 'a'", tokens.toArray⟩ 1 stop ∧
      ∀ style, ∃ rest, format style ";create temp function f as 'a'" =
        .ok ((head.kept tree).before (Ident.written name) ++ rest) := by
  have hread : (Statement.parse (Text.trim ";create temp function f as 'a'")).toOption.any (fun _ => true) = true := by
    decide +kernel
  obtain ⟨tree, hparse, -⟩ := Statement.exists_of_parse hread
  have hscan : Token.scan (Text.trim ";create temp function f as 'a'") =
      .ok [⟨.symbol .semicolon, 0, 1⟩, ⟨.word "create", 1, 7⟩, ⟨.word "temp", 8, 12⟩, ⟨.word "function", 13, 21⟩,
        ⟨.word "f", 22, 23⟩, ⟨.word "as", 24, 26⟩, ⟨.string "'a'", 27, 30⟩, ⟨.eof, 30, 30⟩] := rfl
  have hbefore : ∀ k < 1, Input.tokenAt ⟨Text.trim ";create temp function f as 'a'", #[⟨.symbol .semicolon, 0, 1⟩,
      ⟨.word "create", 1, 7⟩, ⟨.word "temp", 8, 12⟩, ⟨.word "function", 13, 21⟩, ⟨.word "f", 22, 23⟩,
      ⟨.word "as", 24, 26⟩, ⟨.string "'a'", 27, 30⟩, ⟨.eof, 30, 30⟩]⟩ k = .symbol .semicolon := by
    intro k hk
    obtain rfl := Nat.lt_one_iff.1 hk
    rfl
  obtain ⟨head, stop, name, hspelled, -, hformat⟩ := format_of_create hparse hscan hbefore rfl
  exact ⟨tree, _, head, stop, name, hscan, hspelled, hformat⟩

/-- The rule for namespaces has no place for the `OR REPLACE` that was taken before. -/
theorem not_format_of_create : ¬ ∀ text tree tokens head stop, Statement.parse (Text.trim text) = .ok tree →
    Token.scan (Text.trim text) = .ok tokens → Head.Spelled head ⟨Text.trim text, tokens.toArray⟩ 0 stop →
      ∀ style, ∃ name rest, format style text = .ok (head.before name ++ rest) := by
  intro h
  have hread : (Statement.parse (Text.trim "CREATE OR REPLACE DATABASE d")).toOption.any (fun _ => true) = true := by
    decide +kernel
  obtain ⟨tree, hparse, -⟩ := Statement.exists_of_parse hread
  have hscan : Token.scan (Text.trim "CREATE OR REPLACE DATABASE d") =
      .ok [⟨.word "CREATE", 0, 6⟩, ⟨.word "OR", 7, 9⟩, ⟨.word "REPLACE", 10, 17⟩, ⟨.word "DATABASE", 18, 26⟩,
        ⟨.word "d", 27, 28⟩, ⟨.eof, 28, 28⟩] := rfl
  have hdatabase : (Input.tokenAt ⟨Text.trim "CREATE OR REPLACE DATABASE d", #[⟨.word "CREATE", 0, 6⟩, ⟨.word "OR", 7, 9⟩,
      ⟨.word "REPLACE", 10, 17⟩, ⟨.word "DATABASE", 18, 26⟩, ⟨.word "d", 27, 28⟩, ⟨.eof, 28, 28⟩]⟩ 3).isKeyword
        "DATABASE" := rfl
  have hspelled : Head.Spelled ⟨true, false, false, false, "DATABASE", false⟩ ⟨Text.trim "CREATE OR REPLACE DATABASE d",
      #[⟨.word "CREATE", 0, 6⟩, ⟨.word "OR", 7, 9⟩, ⟨.word "REPLACE", 10, 17⟩, ⟨.word "DATABASE", 18, 26⟩,
        ⟨.word "d", 27, 28⟩, ⟨.eof, 28, 28⟩]⟩ 0 4 := by
    refine ⟨rfl, by simp [objectWords], 3, ⟨3, 3, 3, ?_, ?_, ?_, ?_⟩, rfl, ?_⟩
    · exact ⟨["OR", "REPLACE"], by simp, ⟨rfl, rfl, trivial⟩, rfl⟩
    · exact offers_false ["EXTERNAL"] hdatabase (by decide)
    · exact offers_false ["GLOBAL"] hdatabase (by decide)
    · exact offers_false ["TEMPORARY", "TEMP"] hdatabase (by decide)
    · exact ⟨by simp [Input.HasWords, Input.tokenAt]; decide, rfl⟩
  obtain ⟨name, rest, hpage⟩ := h _ _ _ _ _ hparse hscan hspelled .default
  have hformat : (format .default "CREATE OR REPLACE DATABASE d").toOption = some "CREATE DATABASE d" := by
    decide +kernel
  rw [hpage] at hformat
  have hprefix := congrArg (fun s => s.toList.take 9) (Option.some.inj hformat)
  simp [Head.before, Head.ifThere] at hprefix

end SqlTidy
