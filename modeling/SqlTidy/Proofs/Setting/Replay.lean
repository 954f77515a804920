import SqlTidy.Format
import SqlTidy.Proofs.Command
import SqlTidy.Proofs.Setting.Source

/-!
# Settings are replayed

**Theorem (`Statement.replay`).** A text that is read as `SET`, `SET CATALOG` or `RESET` and whose source is clean is
printed alike in all styles, and its page is read as the same statement.

A comment in front of an equals sign is part of the key, and on the page it swallows the value
(`Statement.not_replay`). There are two more exceptions: `SET CATALOG` with a semicolon and no name has an empty name,
and its page without the semicolon is an ordinary setting. A `RESET` drops its value, and with it the end of a hint that
starts in the key.
-/

namespace SqlTidy

open Text Parse

/-! ## Printing -/

open Scan Scan.Part Grammar

variable {ks vs ns : List Part}

theorem Piece.textOf_cut (before : List Piece) (ks : List Part) :
    textOf (Piece.option before ((cut ks).map Token.word)) = if ks = [] then [] else textOf before ++ Part.text ks := by
  by_cases hks : ks = []
  · rw [hks]
    rfl
  · rw [if_neg hks, cut_of_ne_nil hks]
    simp [Piece.option, textOf, Piece.text, Token.lexeme]

theorem Scan.Part.text_keyParts (ks : List Part) :
    Part.text (keyParts ks) = if ks = [] then [] else ' ' :: Part.text ks := by
  unfold keyParts
  split <;> rfl

theorem Scan.Part.text_valueParts (vs : List Part) :
    Part.text (valueParts vs) = if vs = [] then [] else [' ', '=', ' '] ++ Part.text vs := by
  unfold valueParts
  split <;> rfl

namespace Statement

/-- The statement is printed alike in all styles, and that page is read as the statement. -/
def Replayed (s : Statement) : Prop :=
  ∃ page, (∀ style, s.print style = .ok page) ∧ parse (trim page) = .ok s

theorem print_setConfig (ks vs : List Part) (style : Style) : (Statement.setConfig ⟨cut ks, cut vs⟩).print style =
    .ok (String.ofList (Part.text (setWord :: (keyParts ks ++ valueParts vs)))) := by
  have hkey : (Doc.optText " " (cut ks)).Writes (Piece.option [.gap] ((cut ks).map .word)) :=
    Doc.writes_option rfl .word (fun _ => rfl) (cut ks)
  have hvalue : (Doc.optText " = " (cut vs)).Writes (Piece.option [.gap, .symbol .eq, .gap] ((cut vs).map .word)) :=
    Doc.writes_option rfl .word (fun _ => rfl) (cut vs)
  have hword : (Doc.text "SET").Writes [.keyword "SET"] := Doc.writes_text rfl
  have hprint := (hword.cons (hkey.cons hvalue.last)).print style
  rw [Piece.textOf_append, Piece.textOf_append, Piece.textOf_cut, Piece.textOf_cut] at hprint
  rw [text_cons, text_append, text_keyParts, text_valueParts]
  exact hprint

theorem print_reset (ks : List Part) (style : Style) : (Statement.reset (cut ks)).print style =
    .ok (String.ofList (Part.text (resetWord :: (keyParts ks ++ valueParts [])))) := by
  have hkey : (Doc.optText " " (cut ks)).Writes (Piece.option [.gap] ((cut ks).map .word)) :=
    Doc.writes_option rfl .word (fun _ => rfl) (cut ks)
  have hword : (Doc.text "RESET").Writes [.keyword "RESET"] := Doc.writes_text rfl
  have hprint := (hword.cons hkey.last).print style
  rw [Piece.textOf_append, Piece.textOf_cut] at hprint
  rw [text_cons, text_append, text_keyParts, text_valueParts, if_pos rfl, List.append_nil]
  exact hprint

theorem print_setCatalog (ns : List Part) (style : Style) :
    (Statement.setCatalog (String.ofList (Part.text ns))).print style =
      .ok (String.ofList (Part.text (setWord :: (keyParts (catalogParts ns) ++ valueParts [])))) := by
  have hwords : (Doc.text "SET CATALOG ").Writes [.keyword "SET", .gap, .keyword "CATALOG", .gap] :=
    Doc.writes_text rfl
  have hname : (Doc.text (String.ofList (Part.text ns))).Writes [.token (.word (String.ofList (Part.text ns)))] :=
    Doc.writes_text (Piece.textOf_singleton _)
  have htext : Piece.textOf [.token (.word (String.ofList (Part.text ns)))] = Part.text ns :=
    (Piece.textOf_singleton _).trans String.toList_ofList
  have hprint := (hwords.cons hname.last).print style
  rw [Piece.textOf_append, htext] at hprint
  rw [text_cons, text_append, text_keyParts, text_valueParts, if_pos rfl, List.append_nil, if_neg (by simp)]
  exact hprint

end Statement

/-! ## Whole pages -/

namespace Grammar

theorem startsWithout_reverse_append (cs : List Char) {ds : List Char} (hds : ds ≠ [])
    (h : StartsWithout isWhiteSpace ds.reverse) : StartsWithout isWhiteSpace (cs ++ ds).reverse := by
  intro c hc
  rw [List.reverse_append, List.head?_append_of_ne_nil _ (by simpa using hds)] at hc
  exact h c hc

/-- A page has no white space at its ends. -/
theorem trim_page {c : Char} {cs : List Char} (hfirst : isWhiteSpace c = false)
    (hlast : StartsWithout isWhiteSpace (c :: cs).reverse) (hkey : ks = [] ∨ Tight ks) (hvalue : vs = [] ∨ Tight vs) :
    trim (String.ofList (Part.text (word c cs :: (keyParts ks ++ valueParts vs)))) =
      String.ofList (Part.text (word c cs :: (keyParts ks ++ valueParts vs))) := by
  refine trim_eq_self ?_ ?_
  · rw [String.toList_ofList]
    exact startsWithout_cons.2 hfirst
  · rw [String.toList_ofList, text_cons, text_append, text_keyParts, text_valueParts]
    rcases hvalue with rfl | hvalue
    · rcases hkey with rfl | hkey
      · rw [if_pos rfl, if_pos rfl, List.append_nil, List.append_nil]
        exact hlast
      · rw [if_pos rfl, List.append_nil, if_neg hkey.ne_nil]
        exact startsWithout_reverse_append _ (by simp) (startsWithout_reverse_append [' '] hkey.text_ne_nil hkey.ends)
    · rw [if_neg hvalue.ne_nil, ← List.append_assoc, ← List.append_assoc]
      exact startsWithout_reverse_append _ hvalue.text_ne_nil hvalue.ends

namespace Setting

variable {body : List Token} (h : Setting body ks vs)

include h

theorem hintOpen_body (inHint : Bool) : hintOpen inHint body = hintOpen (hintOpen inHint (words ks)) (words vs) := by
  rcases h.body with ⟨rfl, rfl⟩ | rfl
  · rfl
  · rw [hintOpen_append]
    rfl

theorem replayed_set (hhint : hintOpen false body = false)
    (hcatalog : namesCatalog (input (setWord :: (Part.keyParts ks ++ Part.valueParts vs))) 1 = false) :
    Statement.Replayed (.setConfig ⟨cut ks, cut vs⟩) := by
  refine ⟨_, Statement.print_setConfig ks vs, ?_⟩
  rw [trim_page (by decide) (startsWithout_cons.2 rfl) h.key h.value]
  rw [h.hintOpen_body] at hhint
  exact parse_page_set (parts_page (Token.wellFormed_word rfl) h.keyParts h.valueParts) hhint h.key h.keyWords h.value h.valueWords hcatalog

theorem replayed_reset (hhint : hintOpen false (words ks) = false) : Statement.Replayed (.reset (cut ks)) := by
  refine ⟨_, Statement.print_reset ks, ?_⟩
  rw [trim_page (by decide) (startsWithout_cons.2 rfl) h.key (.inl rfl)]
  exact parse_page_reset (parts_page (Token.wellFormed_word rfl) h.keyParts (.inl rfl)) hhint h.key h.keyWords

end Setting

theorem replayed_setCatalog (hname : Tight ns) (hparts : ∀ s, Breaks s → Scan.Parts s ⟨false, false⟩ ns)
    (hns : ∀ t ∈ words ns, endsStatement t = false) (heq : (words ns).head? ≠ some (.symbol .eq))
    (hhint : hintOpen false (words ns) = false) :
    Statement.Replayed (.setCatalog (String.ofList (Part.text ns))) := by
  have hcatalog : ∀ s, Breaks s → Scan.Parts s ⟨false, false⟩ (catalogParts ns) := fun s hs =>
    ⟨item_word_part (Token.wellFormed_word rfl) (.inr rfl), item_of_isBlank rfl _, hparts s hs⟩
  have htight : Tight (catalogParts ns) := by
    obtain ⟨ns', p, t, hlast, hp⟩ := hname.last
    refine ⟨⟨⟨_, _, _, rfl, rfl⟩, ⟨catalogWord :: blank :: ns', p, t, by rw [hlast]; rfl, hp⟩⟩, ?_, ?_⟩
    · exact startsWithout_cons.2 (by decide)
    · exact startsWithout_reverse_append "CATALOG ".toList hname.text_ne_nil hname.ends
  refine ⟨_, Statement.print_setCatalog ns, ?_⟩
  rw [trim_page (by decide) (startsWithout_cons.2 rfl) (.inr htight) (.inl rfl)]
  exact parse_page_catalog (parts_page (Token.wellFormed_word rfl) (.inr hcatalog) (.inl rfl)) hhint hname hns heq

/-! ## From the source to the page -/

variable {as body post : List Part} {p : Part} {w : String}

theorem headD_valueParts (vs : List Part) : (words (Part.valueParts vs)).headD .eof = .eof ∨
    (words (Part.valueParts vs)).headD .eof = .symbol .eq := by
  unfold Part.valueParts
  split
  · exact .inl rfl
  · exact .inr rfl

/-- A setting that is no catalog in its source is none on its page. -/
theorem Setting.namesCatalog_page (h : Setting (words body) ks vs) (hsource : Source as p body post w)
    (hnames : namesCatalog (input (as ++ (p :: (body ++ post)))) ((words as).length + 1) = false) :
    namesCatalog (input (setWord :: (Part.keyParts ks ++ Part.valueParts vs))) 1 = false := by
  have hwords : words (Part.keyParts ks ++ Part.valueParts vs) = words ks ++ words (Part.valueParts vs) := by
    obtain ⟨g, hg, hgap⟩ := exists_keyParts ks
    rw [words_append, hg, words_append, hgap, List.nil_append]
  have hpage (k : Nat) : (input (setWord :: (Part.keyParts ks ++ Part.valueParts vs))).tokenAt (1 + k) =
      (words ks ++ words (Part.valueParts vs))[k]?.getD .eof := by
    rw [← hwords]
    exact tokenAt_input [setWord] (Part.keyParts ks ++ Part.valueParts vs) k
  have hfirst := hpage 0
  have hsecond := hpage 1
  unfold namesCatalog
  match hks : words ks with
  | [] =>
    rw [hks, List.nil_append, ← List.head?_eq_getElem?, ← List.headD_eq_head?_getD] at hfirst
    rw [show 1 + 0 = 1 from rfl] at hfirst
    rw [hfirst]
    rcases headD_valueParts vs with hvalue | hvalue <;> (rw [hvalue]; rfl)
  | [t] =>
    rw [hks, List.singleton_append, List.getElem?_cons_succ, ← List.head?_eq_getElem?,
      ← List.headD_eq_head?_getD] at hsecond
    rw [hsecond]
    rcases headD_valueParts vs with hvalue | hvalue <;> (rw [hvalue]; simp)
  | t :: u :: ts =>
    -- Both tokens are in the key, and so they are the same in the source.
    rw [hks] at hfirst hsecond
    obtain ⟨us, hbody⟩ : ∃ us, words body = t :: u :: us := by
      rcases h.body with ⟨hbody, -⟩ | hbody
      · exact ⟨ts, hbody.trans hks⟩
      · exact ⟨_, by rw [hbody, hks]; rfl⟩
    have hfirst' := hsource.tokenAt_body 0 (by simp [hbody])
    have hsecond' := hsource.tokenAt_body 1 (by simp [hbody])
    simp only [hbody, List.getElem_cons_zero, List.getElem_cons_succ, Nat.add_zero] at hfirst' hsecond'
    rw [namesCatalog, hfirst', hsecond'] at hnames
    rw [show 1 + 0 = 1 from rfl] at hfirst
    rw [hfirst, hsecond]
    exact hnames

namespace Source

variable {tree : Statement} {mid : Nat} (h : Source as p body post w)

include h

/-- No hint is open behind the statement. -/
theorem hintOpen_body (hhint : hintOpen false (words (as ++ (p :: (body ++ post)))) = false)
    (hbehind : ∀ k, (words as).length + 1 + (words body).length ≤ k →
      endsStatement ((input (as ++ (p :: (body ++ post)))).tokenAt k) = true) : hintOpen false (words body) = false := by
  have hpost : ∀ t ∈ words post, t ≠ .symbol .hintStart ∧ t ≠ .symbol .hintEnd := by
    intro t ht
    obtain ⟨k, hk, rfl⟩ := List.getElem_of_mem ht
    have htoken := tokenAt_input (as ++ (p :: body)) post k
    have hassoc : as ++ (p :: body) ++ post = as ++ (p :: (body ++ post)) := by simp
    have hlength : (words (as ++ (p :: body))).length = (words as).length + 1 + (words body).length := by
      rw [words_append, words_cons h.word, List.length_append, List.length_cons]
      omega
    rw [hassoc, hlength, List.getElem?_eq_getElem hk, Option.getD_some] at htoken
    have hends := hbehind _ (Nat.le_add_right _ k)
    rw [htoken] at hends
    rcases endsStatement_iff.1 hends with heof | hsemicolon
    · rw [heof]
      exact ⟨nofun, nofun⟩
    · rw [hsemicolon]
      exact ⟨nofun, nofun⟩
  have hwords : words (as ++ (p :: (body ++ post))) = words (as ++ [p]) ++ (words body ++ words post) := by
    rw [words_append, words_cons h.word, words_append, words_append, words_cons h.word]
    simp
  have hstart : hintOpen false (words (as ++ [p])) = false := by
    have hinHint := h.inHint_start (g := [])
    rwa [Context.behind_nil, inHint_behind] at hinHint
  rwa [hwords, hintOpen_append, hstart, hintOpen_append, hintOpen_of_ordinary hpost] at hhint

theorem replayed_setConfig (hi : (input (as ++ (p :: (body ++ post)))).Capped)
    (hhint : hintOpen false (words (as ++ (p :: (body ++ post)))) = false)
    (hclean : (input (as ++ (p :: (body ++ post)))).Clean ((words as).length + 1))
    (hnames : namesCatalog (input (as ++ (p :: (body ++ post)))) ((words as).length + 1) = false)
    (hrun : Runs (setRest false) (input (as ++ (p :: (body ++ post)))) ((words as).length + 1) tree mid)
    (hbehind : ∀ k, mid ≤ k → endsStatement ((input (as ++ (p :: (body ++ post)))).tokenAt k) = true) :
    tree.Replayed := by
  obtain ⟨ks, vs, hsetting, hraw⟩ := h.exists_setting hi hclean
  have hset : Runs (setRest false) _ _ (.setConfig ⟨cut ks, cut vs⟩) _ := hraw.bind (runs_pure _ _ _)
  obtain ⟨rfl, rfl⟩ := hset.unique hrun
  exact hsetting.replayed_set (h.hintOpen_body hhint hbehind) (hsetting.namesCatalog_page h hnames)

theorem replayed_reset (hi : (input (as ++ (p :: (body ++ post)))).Capped)
    (hhint : hintOpen false (words (as ++ (p :: (body ++ post)))) = false)
    (hclean : (input (as ++ (p :: (body ++ post)))).Clean ((words as).length + 1))
    (hlost : .symbol .eq ∈ words body → .symbol .hintStart ∉ words body)
    (hrun : Runs reset (input (as ++ (p :: (body ++ post)))) (words as).length tree mid)
    (hbehind : ∀ k, mid ≤ k → endsStatement ((input (as ++ (p :: (body ++ post)))).tokenAt k) = true) :
    tree.Replayed := by
  obtain ⟨ks, vs, hsetting, hraw⟩ := h.exists_setting hi hclean
  obtain ⟨rfl, rfl⟩ := (runs_reset h.tokenAt_first hraw).unique hrun
  refine hsetting.replayed_reset ?_
  have hbody := h.hintOpen_body hhint hbehind
  rcases hsetting.body with ⟨heq, -⟩ | heq
  · rwa [← heq]
  · rw [heq] at hlost
    exact hintOpen_false fun t ht hstart => hlost (by simp) (by rw [← hstart]; simp [ht])

theorem replayed_setCatalog (hi : (input (as ++ (p :: (body ++ post)))).Scanned)
    (hhint : hintOpen false (words (as ++ (p :: (body ++ post)))) = false)
    (hclean : (input (as ++ (p :: (body ++ post)))).Clean ((words as).length + 2))
    (hnames : namesCatalog (input (as ++ (p :: (body ++ post)))) ((words as).length + 1) = true)
    (hrun : Runs (setRest true) (input (as ++ (p :: (body ++ post)))) ((words as).length + 1) tree mid)
    (hname : tree ≠ .setCatalog "")
    (hbehind : ∀ k, mid ≤ k → endsStatement ((input (as ++ (p :: (body ++ post)))).tokenAt k) = true) :
    tree.Replayed := by
  obtain ⟨g, c, body, w', rfl, hg, hcatalog⟩ := h.exists_catalog hnames
  have hassoc : as ++ (p :: (g ++ c :: body ++ post)) = (as ++ p :: g) ++ (c :: (body ++ post)) := by simp
  have hlength : (words as).length + 1 = (words (as ++ p :: g)).length := by
    rw [words_append, words_cons h.word, hg, List.length_append]
    rfl
  rw [hassoc] at hi hhint hclean hnames hrun hbehind
  rw [hlength] at hnames hrun
  rw [show (words as).length + 2 = (words as).length + 1 + 1 from rfl, hlength] at hclean
  have hne : (input ((as ++ p :: g) ++ (c :: (body ++ post)))).tokenAt (words (as ++ p :: g)).length ≠ .eof := by
    rw [hcatalog.tokenAt_first]
    nofun
  obtain ⟨name, next, hcatalogName, hpure⟩ := (Runs.behind hrun (runs_skip hne)).exists_of_bind
  obtain ⟨rfl, rfl⟩ := (runs_pure _ _ (Statement.setCatalog name)).unique hpure
  obtain ⟨ns, htight, hparts, hwords, rfl, rfl⟩ :=
    hcatalog.exists_name hi hclean hcatalogName fun hempty => hname (by rw [hempty])
  have hbody := hcatalog.body
  have hclosed := hcatalog.hintOpen_body hhint hbehind
  rw [← hwords] at hbody hclosed
  refine Grammar.replayed_setCatalog htight hparts hbody (fun heq => ?_) hclosed
  obtain ⟨ts, hts⟩ := List.head?_eq_some_iff.1 heq
  have htoken := hcatalog.tokenAt_body 0 (by simp [← hwords, hts])
  simp only [← hwords, hts, List.getElem_cons_zero, Nat.add_zero] at htoken
  rw [namesCatalog, htoken, Bool.and_eq_true] at hnames
  exact absurd hnames.2 (by decide)

theorem replayed_set (hi : (input (as ++ (p :: (body ++ post)))).Scanned) (hupper : upper w = "SET")
    (hhint : hintOpen false (words (as ++ (p :: (body ++ post)))) = false)
    (hclean : (input (as ++ (p :: (body ++ post)))).Clean ((words as).length + tree.leadingWords))
    (hrun : Runs set (input (as ++ (p :: (body ++ post)))) (words as).length tree mid) (hname : tree ≠ .setCatalog "")
    (hbehind : ∀ k, mid ≤ k → endsStatement ((input (as ++ (p :: (body ++ post)))).tokenAt k) = true) :
    tree.Replayed := by
  have hrest := runs_setRest h.tokenAt_first hupper hrun
  cases hnames : namesCatalog (input (as ++ (p :: (body ++ post)))) ((words as).length + 1) with
  | false =>
    rw [hnames] at hrest
    obtain ⟨setting, next, -, hpure⟩ := Runs.exists_of_bind (p := rawSetting) hrest
    obtain ⟨rfl, -⟩ := (runs_pure _ _ (Statement.setConfig ⟨setting.1, setting.2⟩)).unique hpure
    exact h.replayed_setConfig hi.capped hhint hclean hnames hrest hbehind
  | true =>
    rw [hnames] at hrest
    obtain ⟨_, _, -, hcatalogName⟩ := Runs.exists_of_bind (p := skip) hrest
    obtain ⟨name, next, -, hpure⟩ := hcatalogName.exists_of_bind
    obtain ⟨rfl, -⟩ := (runs_pure _ _ (Statement.setCatalog name)).unique hpure
    exact h.replayed_setCatalog hi hhint hclean hnames hrest hname hbehind

end Source

end Grammar

/-- A setting whose source is clean is printed alike in all styles, and its page is read as the same setting. -/
theorem Statement.replay {text : String} {tree : Statement} {tokens : List Spanned} {pos : Nat}
    (hparse : parse (trim text) = .ok tree) (hkind : tree.kind ∈ ["set", "set_catalog", "reset"])
    (hscan : Token.scan (trim text) = .ok tokens)
    (hbefore : ∀ k < pos, Input.tokenAt ⟨trim text, tokens.toArray⟩ k = .symbol .semicolon)
    (hfirst : Input.tokenAt ⟨trim text, tokens.toArray⟩ pos ≠ .symbol .semicolon)
    (hclean : Input.Clean ⟨trim text, tokens.toArray⟩ (pos + tree.leadingWords)) (hname : tree ≠ .setCatalog "")
    (hlost : tree.kind = "reset" → ∀ j k, Input.tokenAt ⟨trim text, tokens.toArray⟩ j = .symbol .eq →
      Input.tokenAt ⟨trim text, tokens.toArray⟩ k ≠ .symbol .hintStart) :
    ∃ page, (∀ style, format style text = .ok page) ∧ parse (trim page) = .ok tree := by
  obtain ⟨keyword, hkeyword⟩ : ∃ keyword, tree.keyword? = some keyword := by
    cases tree <;> first | exact ⟨_, rfl⟩ | simp [kind] at hkind
  obtain ⟨tokens', first, mid, w, inner, hscan', hwhole, hword, hupper, hrun⟩ := exists_command hparse hkeyword
  obtain rfl := Except.ok.inj (hscan.symm.trans hscan')
  obtain rfl : first = pos := by
    rcases Nat.lt_trichotomy first pos with hlt | heq | hgt
    · exact absurd ((hbefore first hlt).symm.trans hword) nofun
    · exact heq
    · exact absurd (hwhole.before pos hgt) hfirst
  have hscanned : Input.Scanned ⟨trim text, tokens.toArray⟩ := hscan
  obtain ⟨ps, hinput, hparts, hhint⟩ := exists_input hscan
  have hbehind := hwhole.behind
  rw [hinput] at hscanned hbefore hword hrun hclean hbehind hlost
  obtain ⟨as, p, body, post, rfl, hsource, rfl⟩ := exists_source hparts hbefore hword
  suffices hreplayed : tree.Replayed by
    obtain ⟨page, hprint, hpage⟩ := hreplayed
    refine ⟨page, fun style => ?_, hpage⟩
    rw [format, hparse]
    exact hprint style
  have hset (hkeyword : keyword = "SET") : tree.Replayed := by
    subst hkeyword
    exact hsource.replayed_set hscanned hupper hhint hclean hrun hname hbehind
  cases tree with
  | setConfig setting => exact hset (Option.some.inj hkeyword).symm
  | setCatalog name => exact hset (Option.some.inj hkeyword).symm
  | reset key =>
    obtain rfl := Option.some.inj hkeyword
    refine hsource.replayed_reset hscanned.capped hhint hclean (fun heq hstart => ?_) hrun hbehind
    obtain ⟨j, hj, heq⟩ := List.getElem_of_mem heq
    obtain ⟨k, hk, hstart⟩ := List.getElem_of_mem hstart
    exact hlost rfl _ _ ((hsource.tokenAt_body j hj).trans heq) ((hsource.tokenAt_body k hk).trans hstart)
  | _ => simp [kind] at hkind

/-- Semicolons around it, comments and a line end inside the key and the value, and words in small letters. -/
theorem Statement.replay_setting : ∃ tree page, parse (trim ";set a.b/* k */c\t= 'x' -- d\n, e ;") = .ok tree ∧
    (∀ style, format style ";set a.b/* k */c\t= 'x' -- d\n, e ;" = .ok page) ∧ parse (trim page) = .ok tree := by
  have hread : (parse (trim ";set a.b/* k */c\t= 'x' -- d\n, e ;")).toOption.any (fun s => s.kind = "set") = true := by
    decide +kernel
  obtain ⟨tree, hparse, hkind⟩ := exists_of_parse hread
  rw [decide_eq_true_eq] at hkind
  have hscan : Token.scan (trim ";set a.b/* k */c\t= 'x' -- d\n, e ;") =
      .ok [⟨.symbol .semicolon, 0, 1⟩, ⟨.word "set", 1, 4⟩, ⟨.word "a", 5, 6⟩, ⟨.symbol .dot, 6, 7⟩, ⟨.word "b", 7, 8⟩,
        ⟨.word "c", 15, 16⟩, ⟨.symbol .eq, 17, 18⟩, ⟨.string "'x'", 19, 22⟩, ⟨.symbol .comma, 28, 29⟩,
        ⟨.word "e", 30, 31⟩, ⟨.symbol .semicolon, 32, 33⟩, ⟨.eof, 33, 33⟩] := by
    decide +kernel
  have hlead : tree.leadingWords = 1 := by
    cases tree <;> first | rfl | simp [kind] at hkind
  have hclean : Input.Clean ⟨trim ";set a.b/* k */c\t= 'x' -- d\n, e ;", List.toArray [⟨.symbol .semicolon, 0, 1⟩,
      ⟨.word "set", 1, 4⟩, ⟨.word "a", 5, 6⟩, ⟨.symbol .dot, 6, 7⟩, ⟨.word "b", 7, 8⟩, ⟨.word "c", 15, 16⟩,
      ⟨.symbol .eq, 17, 18⟩, ⟨.string "'x'", 19, 22⟩, ⟨.symbol .comma, 28, 29⟩, ⟨.word "e", 30, 31⟩,
      ⟨.symbol .semicolon, 32, 33⟩, ⟨.eof, 33, 33⟩]⟩ (1 + tree.leadingWords) := by
    rw [hlead]
    decide +kernel
  obtain ⟨page, hformat, hpage⟩ := replay hparse (by simp [hkind]) hscan (by decide +kernel) (by decide +kernel) hclean
    (by rintro rfl; simp [kind] at hkind) (by simp [hkind])
  exact ⟨tree, page, hparse, hformat, hpage⟩

/-- The value of a setting. -/
def Statement.settingValue? : Statement → Option String
  | .setConfig setting => setting.value
  | _ => none

/-- The cut in front of an equals sign takes a comment along, and the page has no line end behind it: what was the
value is part of the comment now. -/
theorem Statement.not_replay : ¬ ∀ text tree, parse (trim text) = .ok tree →
    tree.kind ∈ ["set", "set_catalog", "reset"] →
      ∀ style, ∃ page, format style text = .ok page ∧ parse (trim page) = .ok tree := by
  intro h
  have hread : (parse (trim "SET a -- c\n = b")).toOption.any
      (fun s => s.kind = "set" && s.settingValue?.isSome) = true := by decide +kernel
  have hlost : (format .default "SET a -- c\n = b").toOption.any
      (fun page => (parse (trim page)).toOption.any (·.settingValue?.isNone)) = true := by decide +kernel
  obtain ⟨tree, hparse, hvalue⟩ := exists_of_parse hread
  rw [Bool.and_eq_true, decide_eq_true_eq] at hvalue
  obtain ⟨page, hformat, hpage⟩ := h _ _ hparse (by simp [hvalue.1]) .default
  rw [hformat] at hlost
  have hnone : tree.settingValue?.isNone = true := by simpa [Except.toOption, hpage] using hlost
  rw [Option.isNone_iff_eq_none] at hnone
  rw [hnone] at hvalue
  exact absurd hvalue.2 (by simp)

end SqlTidy
