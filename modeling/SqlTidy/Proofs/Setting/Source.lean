import SqlTidy.Proofs.Setting.Page

/-!
# Sources of settings

A source that is read as a setting is taken apart: semicolons and gaps, the first word, the other tokens of the
statement, and what stands behind it (`Source`). If the source is *clean* (`Input.Clean`), the rules cut whole parts out
of it, and these parts can be moved to a page (`Source.exists_setting`, `Source.exists_name`).

White space at the end of a word is dropped when the cut is trimmed. A comment in front of the equals sign gets into the
key, and there it swallows what the page has behind the key. A dot right behind the first word is no decimal point, but
on the page there is a space in between, so the tokens of the page would be other ones.
-/

namespace SqlTidy

open Text Parse

/-! ## Reading a source -/

/-- How many words a setting starts with. -/
def Statement.leadingWords : Statement → Nat
  | .setCatalog _ => 2
  | _ => 1

/-- What the rules for settings rely on, from the first token behind the words of the statement: that token is no dot,
no token has white space at its ends, and in front of the first equals sign there is no comment. -/
structure Input.Clean (i : Input) (pos : Nat) : Prop where
  notDot : i.tokenAt pos ≠ .symbol .dot
  solid (k : Nat) (hk : pos ≤ k) (h : i.tokenAt k ≠ .eof) : (i.tokenAt k).IsSolid
  blank (k : Nat) (hk : pos < k) (heq : i.tokenAt k = .symbol .eq)
    (hfirst : ∀ j, pos ≤ j → j < k → i.tokenAt j ≠ .symbol .eq) : ∀ c ∈ (i.gapBefore k).toList, isBlank c

namespace Input

theorem startsWithout_iff {p : Char → Bool} {cs : List Char} : Scan.StartsWithout p cs ↔ cs.head?.any p = false := by
  cases cs <;> simp

theorem isSolid_iff {t : Token} : t.IsSolid ↔ t.lexeme ≠ [] ∧ t.lexeme.head?.any isWhiteSpace = false ∧
    t.lexeme.reverse.head?.any isWhiteSpace = false := by
  rw [← startsWithout_iff, ← startsWithout_iff]
  exact ⟨fun h => ⟨h.ne_nil, h.starts, h.ends⟩, fun ⟨hne, hstarts, hends⟩ => ⟨hne, hstarts, hends⟩⟩

instance (t : Token) : Decidable t.IsSolid := decidable_of_iff _ isSolid_iff.symm

/-- There are finitely many tokens to look at. -/
theorem clean_iff {i : Input} {pos : Nat} : i.Clean pos ↔ i.tokenAt pos ≠ .symbol .dot ∧
    ∀ k < i.tokens.size, (pos ≤ k → i.tokenAt k ≠ .eof → (i.tokenAt k).IsSolid) ∧
      (pos < k → i.tokenAt k = .symbol .eq → (∀ j < k, pos ≤ j → i.tokenAt j ≠ .symbol .eq) →
        (i.gapBefore k).toList.all isBlank) := by
  have hlt {k : Nat} (h : i.tokenAt k ≠ .eof) : k < i.tokens.size := by
    obtain ⟨t, ht, -⟩ := exists_of_tokenAt h
    exact (Array.getElem?_eq_some_iff.1 ht).1
  simp only [List.all_eq_true]
  constructor
  · intro h
    exact ⟨h.notDot, fun k _ => ⟨h.solid k, fun hk heq hfirst => h.blank k hk heq fun j hj hjk => hfirst j hjk hj⟩⟩
  · rintro ⟨hdot, htokens⟩
    refine ⟨hdot, fun k hk hne => (htokens k (hlt hne)).1 hk hne, fun k hk heq hfirst => ?_⟩
    exact (htokens k (hlt (by rw [heq]; nofun))).2 hk heq fun j hjk hj => hfirst j hj hjk

instance (i : Input) (pos : Nat) : Decidable (i.Clean pos) :=
  have (k : Nat) : Decidable (pos < k → i.tokenAt k = .symbol .eq →
      (∀ j < k, pos ≤ j → i.tokenAt j ≠ .symbol .eq) → (i.gapBefore k).toList.all isBlank) := inferInstance
  decidable_of_iff _ clean_iff.symm

end Input

namespace Grammar

open Scan Scan.Part

variable {as body post ps ks g : List Part} {p : Part} {ctx : Context} {pos : Nat} {w : String}

theorem exists_input {text : String} {tokens : List Spanned} (h : Token.scan text = .ok tokens) :
    ∃ ps, Input.mk text tokens.toArray = input ps ∧ Scan.Parts [] .start ps ∧ hintOpen false (words ps) = false := by
  obtain ⟨ps, htext, hparts, hhint⟩ := Token.exists_parts_of_scan h
  rw [inHint_behind] at hhint
  cases h.symm.trans (Token.scan_parts htext hparts (by rw [inHint_behind]; exact hhint))
  refine ⟨ps, ?_, hparts, hhint⟩
  rw [input, htext, String.ofList_toList]

/-- A source up to its statement, the first word of the statement, its other tokens and what stands behind. -/
structure Source (as : List Part) (p : Part) (body post : List Part) (w : String) : Prop where
  parts : Scan.Parts [] .start (as ++ (p :: (body ++ post)))
  before : ∀ t ∈ words as, t ≠ .symbol .hintStart ∧ t ≠ .symbol .hintEnd
  word : p.item.token = some (.word w)
  body : ∀ t ∈ words body, endsStatement t = false
  post : post = [] ∨ ∃ q t post', post = q :: post' ∧ q.item.token = some t ∧ endsStatement t = true

theorem exists_source (hparts : Scan.Parts [] .start ps) (hbefore : ∀ k < pos, (input ps).tokenAt k = .symbol .semicolon)
    (hpos : (input ps).tokenAt pos = .word w) : ∃ as p body post, ps = as ++ (p :: (body ++ post)) ∧
      Source as p body post w ∧ (words as).length = pos := by
  obtain ⟨as, bs, rfl, has, hbs⟩ := exists_upTo isOther ps
  have hsemicolons : ∀ t ∈ words as, t = .symbol .semicolon := by
    intro t ht
    simpa [isOther] using has t ht
  have hhead : (input (as ++ bs)).tokenAt (words as).length = (words bs).headD .eof := by
    have htoken := tokenAt_input as bs 0
    rwa [Nat.add_zero, ← List.head?_eq_getElem?, ← List.headD_eq_head?_getD] at htoken
  have hother : (words bs).headD .eof ≠ .symbol .semicolon := by
    rcases hbs with rfl | ⟨p, t, bs', rfl, hp, ht⟩
    · simp
    · rw [words_cons hp, List.headD_cons]
      simpa [isOther] using ht
  have hlength : (words as).length = pos := by
    rcases Nat.lt_trichotomy (words as).length pos with hlt | heq | hgt
    · exact absurd (hhead.symm.trans (hbefore _ hlt)) hother
    · exact heq
    · have hinside := tokenAt_input [] (as ++ bs) pos
      rw [words_nil, List.length_nil, Nat.zero_add, List.nil_append, words_append, List.getElem?_append_left hgt,
        List.getElem?_eq_getElem hgt, hpos] at hinside
      have hsemicolon := hsemicolons _ (List.getElem_mem hgt)
      rw [← show Token.word w = (words as)[pos] from hinside] at hsemicolon
      contradiction
  rw [hlength, hpos] at hhead
  rcases hbs with rfl | ⟨p, t, bs', rfl, hp, -⟩
  · contradiction
  rw [words_cons hp, List.headD_cons] at hhead
  obtain ⟨body, post, rfl, hbody, hpost⟩ := exists_upTo endsStatement bs'
  refine ⟨as, p, body, post, rfl, ⟨hparts, fun t ht => ?_, hhead ▸ hp, hbody, hpost⟩, hlength⟩
  rw [hsemicolons t ht]
  exact ⟨by simp, by simp⟩

namespace Source

variable (h : Source as p body post w)

include h

theorem headD_post : endsStatement ((words post).headD .eof) = true := by
  rcases h.post with rfl | ⟨q, t, post', rfl, hq, ht⟩
  · rfl
  · rw [words_cons hq]
    exact ht

/-- The context in front of the tokens behind the first word. -/
theorem inHint_start : ((Context.start.behind (as ++ [p])).behind g).inHint = hintOpen false (words g) := by
  have hordinary : ∀ t ∈ words (as ++ [p]), t ≠ .symbol .hintStart ∧ t ≠ .symbol .hintEnd := by
    intro t ht
    rw [words_append, words_cons h.word, List.mem_append] at ht
    rcases ht with ht | ht
    · exact h.before t ht
    · rw [List.mem_singleton.1 ht]
      exact ⟨by simp, by simp⟩
  rw [inHint_behind, inHint_behind, hintOpen_of_ordinary hordinary]
  rfl

end Source

/-- Behind a gap no name stands in front. -/
theorem afterName_behind (hg : words g = []) (hne : g ≠ []) (ctx : Context) : (ctx.behind g).afterName = false := by
  obtain ⟨g', q, rfl⟩ := List.eq_nil_or_concat g |>.resolve_left hne
  have hq : q.item.token = none := by
    cases hq : q.item.token with
    | none => rfl
    | some t => simp [words_cons hq] at hg
  rw [List.concat_eq_append, Context.behind_append]
  simp [Context.after, hq]

theorem item_dot {i : Item} {inHint : Bool} {cs : List Char} (h : Scan.item ⟨inHint, true⟩ '.' cs = .ok i) :
    i.token = some (.symbol .dot) := by
  have hword : isWordStart '.' = false := rfl
  simp only [Scan.item, isBlank, symbolAt, hword] at h
  simp at h
  rw [← h]

namespace Source

variable {e : Part} {gap gap' g' rest vs : List Part} (h : Source as p body post w)

include h

/-- A piece of the statement and what stands behind it. -/
theorem parts_of_split {xs ys zs : List Part} (hsplit : body ++ post = xs ++ (ys ++ zs)) :
    Scan.Parts (Part.text zs) ((Context.start.behind (as ++ [p])).behind xs) ys ∧
      Scan.Parts [] (((Context.start.behind (as ++ [p])).behind xs).behind ys) zs := by
  have hparts := h.parts
  rw [hsplit, ← List.singleton_append, ← List.append_assoc, parts_append] at hparts
  have hrest := parts_append.1 (parts_append.1 hparts.2).2
  rw [List.append_nil] at hrest
  exact hrest

/-- A key or a name may be moved to a page. -/
theorem parts_key (hsplit : body ++ post = g ++ (ks ++ (gap ++ rest))) (hg : words g = []) (hgap : words gap = [])
    (hks : Bounded ks)
    (hrest : rest = [] ∨ ∃ q t rest', rest = q :: rest' ∧ q.item.token = some t ∧ endsKey t = true)
    (hdot : (words ks).head? ≠ some (.symbol .dot)) {s : List Char} (hs : Breaks s) : Scan.Parts s ⟨false, false⟩ ks := by
  obtain ⟨hparts, hbehind⟩ := h.parts_of_split hsplit
  refine hparts.moved hks (still_text hbehind hgap hrest) hs.calm ?_ ?_ ?_
  · rcases hs with rfl | hs
    · nofun
    · rw [hs]
      simp
  · rw [h.inHint_start, hg]
    rfl
  · by_cases hne : g = []
    · -- The first word stands right in front, and behind a name a dot is never a decimal point.
      subst hne
      refine .inr fun q hq hfirst => hdot ?_
      obtain ⟨q', t, ks', rfl, hq'⟩ := hks.first
      obtain rfl := Option.some.inj hq
      have hname : Context.start.behind (as ++ [p]) = ⟨false, true⟩ := by
        have hinHint := h.inHint_start (g := [])
        have hafter : (Context.start.behind (as ++ [p])).afterName = true := by
          rw [Context.behind_append, Context.behind_cons, Context.behind_nil, Context.after, h.word]
          rfl
        rw [Context.behind_nil] at hinHint
        generalize Context.start.behind (as ++ [p]) = ctx at hinHint hafter ⊢
        cases ctx
        cases hinHint
        cases hafter
        rfl
      have hitem := hparts.1
      rw [hfirst, Context.behind_nil, hname] at hitem
      rw [words_cons hq', item_dot hitem |>.symm.trans hq' |> Option.some.inj]
      rfl
    · exact .inl (afterName_behind hg hne _).symm

/-- A value may be moved to the end of a page. -/
theorem parts_value (hsplit : body ++ post = g ++ (ks ++ (gap ++ e :: (g' ++ (vs ++ (gap' ++ rest))))))
    (hg : words g = []) (hgap : words gap = []) (he : e.item.token = some (.symbol .eq)) (hg' : words g' = [])
    (hgap' : words gap' = []) (hvs : Bounded vs)
    (hrest : rest = [] ∨ ∃ q t rest', rest = q :: rest' ∧ q.item.token = some t ∧ endsKey t = true) :
    Scan.Parts [] ⟨hintOpen false (words ks), false⟩ vs := by
  have hassoc : body ++ post = (g ++ (ks ++ (gap ++ e :: g'))) ++ (vs ++ (gap' ++ rest)) := by
    rw [hsplit]
    simp
  obtain ⟨hparts, hbehind⟩ := h.parts_of_split hassoc
  refine hparts.moved hvs (still_text hbehind hgap' hrest) (startsWithout_nil _) nofun ?_ (.inl ?_)
  · rw [h.inHint_start, words_append, hg, words_append, words_append, hgap, words_cons he, hg', List.nil_append,
      List.nil_append, hintOpen_append]
    rfl
  · rw [Context.behind_append, Context.behind_append, Context.behind_append]
    by_cases hne : g' = []
    · rw [hne, Context.behind_cons, Context.behind_nil, Context.after, he]
      rfl
    · rw [Context.behind_cons]
      exact (afterName_behind hg' hne _).symm

theorem tokenAt_first : (input (as ++ (p :: (body ++ post)))).tokenAt (words as).length = .word w := by
  have htoken := tokenAt_input as (p :: (body ++ post)) 0
  rw [words_cons h.word] at htoken
  exact htoken

theorem tokenAt_body (k : Nat) (hk : k < (words body).length) :
    (input (as ++ (p :: (body ++ post)))).tokenAt ((words as).length + 1 + k) = (words body)[k] := by
  have htoken := tokenAt_input (as ++ [p]) (body ++ post) k
  rw [List.append_assoc, words_append, List.length_append, words_cons h.word, words_append,
    List.getElem?_append_left hk, List.getElem?_eq_getElem hk] at htoken
  exact htoken

theorem ne_eof {t : Token} (ht : t ∈ words body) : t ≠ .eof := by
  rintro rfl
  exact absurd (h.body _ ht) (by decide)

theorem solid {n : Nat} (hclean : (input (as ++ (p :: (body ++ post)))).Clean n) (hn : n ≤ (words as).length + 1) :
    ∀ t ∈ words body, t.IsSolid := by
  intro t ht
  obtain ⟨k, hk, rfl⟩ := List.getElem_of_mem ht
  have htoken := h.tokenAt_body k hk
  rw [← htoken]
  refine hclean.solid _ (Nat.le_trans hn (Nat.le_add_right _ _)) ?_
  rw [htoken]
  exact h.ne_eof ht

end Source

/-- A key and a value that can be moved to a page, and the tokens they come from. -/
structure Setting (body : List Token) (ks vs : List Part) : Prop where
  key : ks = [] ∨ Tight ks
  keyParts : ks = [] ∨ ∀ s, Breaks s → Scan.Parts s ⟨false, false⟩ ks
  keyWords : ∀ t ∈ words ks, endsKey t = false
  value : vs = [] ∨ Tight vs
  valueParts : vs = [] ∨ Scan.Parts [] ⟨hintOpen false (words ks), false⟩ vs
  valueWords : ∀ t ∈ words vs, endsStatement t = false
  body : body = words ks ∧ vs = [] ∨ body = words ks ++ .symbol .eq :: words vs

namespace Source

variable (h : Source as p body post w)

include h

theorem headD_ne_dot (hclean : (input (as ++ (p :: (body ++ post)))).Clean ((words as).length + 1)) :
    (words body).head? ≠ some (.symbol .dot) := by
  intro hhead
  obtain ⟨ts, hts⟩ := List.head?_eq_some_iff.1 hhead
  have htoken := h.tokenAt_body 0 (by simp [hts])
  simp only [hts, List.getElem_cons_zero, Nat.add_zero] at htoken
  exact hclean.notDot htoken

variable {gap gap' g' rest vs : List Part} {e : Part}

theorem endsKey_post :
    post = [] ∨ ∃ q t post', post = q :: post' ∧ q.item.token = some t ∧ endsKey t = true := by
  refine h.post.imp_right ?_
  rintro ⟨q, t, post', hpost, hq, ht⟩
  exact ⟨q, t, post', hpost, hq, by rw [endsKey, ht, Bool.or_true]⟩

/-- A key can be moved to a page. -/
theorem key_moves (hsplit : body ++ post = g ++ (ks ++ (gap ++ rest))) (hg : words g = []) (hgap : words gap = [])
    (hks : ks = [] ∨ Bounded ks)
    (hrest : rest = [] ∨ ∃ q t rest', rest = q :: rest' ∧ q.item.token = some t ∧ endsKey t = true)
    (hdot : (words ks).head? ≠ some (.symbol .dot)) (hsolid : ∀ t ∈ words ks, t.IsSolid) :
    (ks = [] ∨ Tight ks) ∧ (ks = [] ∨ ∀ s, Breaks s → Scan.Parts s ⟨false, false⟩ ks) := by
  rcases hks with hnil | hks
  · exact ⟨.inl hnil, .inl hnil⟩
  · exact ⟨.inr (hks.tight (h.parts_of_split hsplit).1 hsolid),
      .inr fun s hs => h.parts_key hsplit hg hgap hks hrest hdot hs⟩

theorem length_start : (words (as ++ [p])).length = (words as).length + 1 := by
  rw [words_append, words_cons h.word, List.length_append]
  rfl

end Source

theorem Source.setting_bare {gap : List Part} (h : Source as p (g ++ (ks ++ gap)) post w)
    (hi : (input (as ++ (p :: ((g ++ (ks ++ gap)) ++ post)))).Capped)
    (hclean : (input (as ++ (p :: ((g ++ (ks ++ gap)) ++ post)))).Clean ((words as).length + 1))
    (hg : words g = []) (hgap : words gap = []) (hks : ks = [] ∨ Bounded ks)
    (hkeyWords : ∀ t ∈ words ks, endsKey t = false) :
    Setting (words ks) ks [] ∧ Runs rawSetting (input (as ++ (p :: ((g ++ (ks ++ gap)) ++ post))))
      ((words as).length + 1) (cut ks, none) ((words as).length + 1 + (words ks).length) := by
  have hwords : words (g ++ (ks ++ gap)) = words ks := by simp [hg, hgap]
  have hsolid := h.solid hclean (Nat.le_refl _)
  have hdot := h.headD_ne_dot hclean
  rw [hwords] at hsolid hdot
  have hsplit : (g ++ (ks ++ gap)) ++ post = g ++ (ks ++ (gap ++ post)) := by simp
  obtain ⟨hkey, hmoves⟩ := h.key_moves hsplit hg hgap hks h.endsKey_post hdot hsolid
  refine ⟨⟨hkey, hmoves, hkeyWords, .inl rfl, .inl rfl, nofun, .inl ⟨rfl, rfl⟩⟩, ?_⟩
  have hinput : as ++ (p :: ((g ++ (ks ++ gap)) ++ post)) = (as ++ [p]) ++ (g ++ (ks ++ (gap ++ post))) := by simp
  have hrest : endsStatement ((words (gap ++ post)).headD .eof) = true := by
    rw [words_append, hgap]
    exact h.headD_post
  rw [hinput] at hi ⊢
  rw [← h.length_start]
  exact runs_rawSetting_bare (as ++ [p]) hi hg hkey hkeyWords hrest

/-- In front of the first equals sign there are only blanks. -/
theorem Source.blank_gap {gap rest : List Part} {e : Part} (h : Source as p body post w)
    (hclean : (input (as ++ (p :: (body ++ post)))).Clean ((words as).length + 1))
    (hsplit : body ++ post = g ++ (ks ++ (gap ++ e :: rest))) (hg : words g = []) (hgap : words gap = [])
    (hks : Bounded ks) (hkeyWords : ∀ t ∈ words ks, endsKey t = false) (he : e.item.token = some (.symbol .eq)) :
    ∀ c ∈ Part.text gap, isBlank c := by
  have hinput : as ++ (p :: (body ++ post)) = (as ++ [p] ++ g) ++ (ks ++ (gap ++ e :: rest)) := by
    rw [hsplit]
    simp
  have hlength : (words (as ++ [p] ++ g)).length = (words as).length + 1 := by
    rw [words_append, hg, List.append_nil, h.length_start]
  have hgapText := hks.gapBefore (as ++ [p] ++ g) rest hgap he
  have heq := tokenAt_behind (as ++ [p] ++ g) ks (gap ++ e :: rest)
  have hhead : (words (gap ++ e :: rest)).headD .eof = .symbol .eq := by simp [hgap, words_cons he]
  rw [hhead] at heq
  rw [hinput] at hclean
  rw [hlength] at hgapText heq
  have hpos := List.length_pos_iff.2 hks.words_ne_nil
  have hblank := hclean.blank _ (by omega) heq fun j hj hjk hsign => ?_
  · rwa [hgapText, String.toList_ofList] at hblank
  · obtain ⟨m, rfl⟩ := Nat.exists_eq_add_of_le hj
    have htoken := tokenAt_input (as ++ [p] ++ g) (ks ++ (gap ++ e :: rest)) m
    have hm : m < (words ks).length := by omega
    rw [hlength, words_append, List.getElem?_append_left hm, List.getElem?_eq_getElem hm, hsign] at htoken
    have hkey := hkeyWords _ (List.getElem_mem hm)
    rw [← show Token.symbol .eq = (words ks)[m] from htoken] at hkey
    contradiction

theorem Source.setting_eq {gap g' vs gap' : List Part} {e : Part}
    (h : Source as p ((g ++ (ks ++ gap)) ++ e :: (g' ++ (vs ++ gap'))) post w)
    (hi : (input (as ++ (p :: ((g ++ (ks ++ gap)) ++ e :: (g' ++ (vs ++ gap')) ++ post)))).Capped)
    (hclean : (input (as ++ (p :: ((g ++ (ks ++ gap)) ++ e :: (g' ++ (vs ++ gap')) ++ post)))).Clean
      ((words as).length + 1))
    (hg : words g = []) (hgap : words gap = []) (hks : ks = [] ∧ gap = [] ∨ Bounded ks)
    (hkeyWords : ∀ t ∈ words ks, endsKey t = false) (he : e.item.token = some (.symbol .eq)) (hg' : words g' = [])
    (hgap' : words gap' = []) (hvs : vs = [] ∨ Bounded vs) :
    Setting (words ks ++ .symbol .eq :: words vs) ks vs ∧
      Runs rawSetting (input (as ++ (p :: ((g ++ (ks ++ gap)) ++ e :: (g' ++ (vs ++ gap')) ++ post))))
        ((words as).length + 1) (cut ks, cut vs)
        ((words as).length + 1 + (words ks ++ .symbol .eq :: words vs).length) := by
  have hwords : words ((g ++ (ks ++ gap)) ++ e :: (g' ++ (vs ++ gap'))) = words ks ++ .symbol .eq :: words vs := by
    rw [words_append, words_cons he]
    simp [hg, hgap, hg', hgap']
  have hbody := h.body
  have hsolid := h.solid hclean (Nat.le_refl _)
  have hdot := h.headD_ne_dot hclean
  rw [hwords, List.forall_mem_append, List.forall_mem_cons] at hsolid hbody
  have hkeyDot : (words ks).head? ≠ some (.symbol .dot) := by
    rw [hwords] at hdot
    cases hnil : words ks with
    | nil => nofun
    | cons t ts =>
      rw [hnil] at hdot
      exact hdot
  have hsplit : (g ++ (ks ++ gap)) ++ e :: (g' ++ (vs ++ gap')) ++ post =
      g ++ (ks ++ (gap ++ e :: (g' ++ (vs ++ (gap' ++ post))))) := by simp
  obtain ⟨hkey, hmoves⟩ := h.key_moves hsplit hg hgap (hks.imp_left And.left)
    (.inr ⟨e, _, _, rfl, he, rfl⟩) hkeyDot hsolid.1
  have hblank : ∀ c ∈ Part.text gap, isBlank c := by
    rcases hks with ⟨-, rfl⟩ | hks
    · nofun
    · exact h.blank_gap hclean hsplit hg hgap hks hkeyWords he
  have hvalueParts : vs = [] ∨ Scan.Parts [] ⟨hintOpen false (words ks), false⟩ vs :=
    hvs.imp_right fun hvs => h.parts_value hsplit hg hgap he hg' hgap' hvs h.endsKey_post
  have hvalue : vs = [] ∨ Tight vs := by
    rcases hvs with hnil | hvs
    · exact .inl hnil
    · rcases hvalueParts with hnil | hparts
      · exact .inl hnil
      · exact .inr (hvs.tight hparts hsolid.2.2)
  refine ⟨⟨hkey, hmoves, hkeyWords, hvalue, hvalueParts, hbody.2.2, .inr rfl⟩, ?_⟩
  have hinput : as ++ (p :: ((g ++ (ks ++ gap)) ++ e :: (g' ++ (vs ++ gap')) ++ post)) =
      (as ++ [p]) ++ (g ++ (ks ++ (gap ++ e :: (g' ++ (vs ++ (gap' ++ post)))))) := by simp
  have hrest : endsStatement ((words (gap' ++ post)).headD .eof) = true := by
    rw [words_append, hgap']
    exact h.headD_post
  have hnext : (words as).length + 1 + (words ks ++ Token.symbol .eq :: words vs).length =
      (words (as ++ [p])).length + (words ks).length + 1 + (words vs).length := by
    rw [h.length_start, List.length_append, List.length_cons]
    omega
  rw [hinput] at hi ⊢
  rw [hnext, ← h.length_start]
  exact runs_rawSetting_eq (as ++ [p]) hi hg hkey hkeyWords hgap hblank he hg' hvalue hbody.2.2 hrest

/-- The key and the value of a source that is clean. -/
theorem Source.exists_setting (h : Source as p body post w) (hi : (input (as ++ (p :: (body ++ post)))).Capped)
    (hclean : (input (as ++ (p :: (body ++ post)))).Clean ((words as).length + 1)) : ∃ ks vs,
      Setting (words body) ks vs ∧ Runs rawSetting (input (as ++ (p :: (body ++ post)))) ((words as).length + 1)
        (cut ks, cut vs) ((words as).length + 1 + (words body).length) := by
  obtain ⟨kside, vside, rfl, hkside, hvside⟩ := exists_upTo (fun t => t = .symbol .eq) body
  obtain ⟨g, ks, gap, rfl, hg, hgap, hks⟩ := exists_core kside
  have hwords : words (g ++ (ks ++ gap)) = words ks := by simp [hg, hgap]
  have hkeyWords : ∀ t ∈ words ks, endsKey t = false := by
    intro t ht
    rw [← hwords] at ht
    rw [endsKey, Bool.or_eq_false_iff]
    exact ⟨hkside t ht, h.body t (by rw [words_append]; exact List.mem_append_left _ ht)⟩
  rcases hvside with rfl | ⟨e, t, rest, rfl, he, heq⟩
  · rw [List.append_nil] at h hi hclean ⊢
    rw [hwords]
    exact ⟨ks, [], h.setting_bare hi hclean hg hgap (hks.imp_left And.left) hkeyWords⟩
  · obtain rfl : t = .symbol .eq := by simpa using heq
    obtain ⟨g', vs, gap', rfl, hg', hgap', hvs⟩ := exists_core rest
    have hbody : words (g ++ (ks ++ gap) ++ e :: (g' ++ (vs ++ gap'))) = words ks ++ .symbol .eq :: words vs := by
      rw [words_append, words_cons he]
      simp [hg, hgap, hg', hgap']
    rw [hbody]
    exact ⟨ks, vs, h.setting_eq hi hclean hg hgap hks hkeyWords he hg' hgap' (hvs.imp_left And.left)⟩

/-! ## The name of a catalog -/

/-- Between offsets that do not increase there is nothing. -/
theorem getD_slice?_of_le {text : String} {start stop : Nat} (h : stop ≤ start) :
    (slice? text start stop).getD "" = "" := by
  unfold slice?
  split
  · rw [Nat.sub_eq_zero_of_le h]
    cases dropBytes start text.toList with
    | none => rfl
    | some cs => cases cs <;> rfl
  · rfl

/-- The source behind `SET CATALOG` starts with the word `CATALOG`. -/
theorem Source.exists_catalog (h : Source as p body post w)
    (hnames : namesCatalog (input (as ++ (p :: (body ++ post)))) ((words as).length + 1) = true) :
    ∃ g c body' w', body = g ++ c :: body' ∧ words g = [] ∧ Source (as ++ p :: g) c body' post w' := by
  rw [namesCatalog, Bool.and_eq_true] at hnames
  obtain ⟨w', hw', -⟩ := Token.exists_of_isKeyword hnames.1
  obtain ⟨g, rest, rfl, hg, hrest⟩ := exists_upTo (fun _ => true) body
  have hgap : words g = [] := List.eq_nil_iff_forall_not_mem.2 fun t ht => by simpa using hg t ht
  have htoken := tokenAt_behind (as ++ [p]) g (rest ++ post)
  rw [h.length_start, hgap] at htoken
  have hassoc : as ++ [p] ++ (g ++ (rest ++ post)) = as ++ (p :: (g ++ rest ++ post)) := by simp
  rw [hassoc, List.length_nil, Nat.add_zero, hw'] at htoken
  rcases hrest with rfl | ⟨c, t, body', rfl, hc, -⟩
  · -- The statement ends behind its first word.
    have hends := h.headD_post
    rw [← show Token.word w' = (words post).headD .eof from htoken] at hends
    contradiction
  · refine ⟨g, c, body', w', rfl, hgap, ?_, ?_, ?_, ?_, h.post⟩
    · have hparts := h.parts
      simpa using hparts
    · intro t ht
      rw [words_append, words_cons h.word, hgap, List.mem_append, List.mem_singleton] at ht
      rcases ht with ht | rfl
      · exact h.before t ht
      · exact ⟨by simp, by simp⟩
    · rw [hc]
      rw [List.cons_append, words_cons hc] at htoken
      exact congrArg some htoken.symm
    · intro t ht
      refine h.body t ?_
      rw [words_append, words_cons hc]
      simp [ht]

/-- The name of a catalog in a source that is clean. -/
theorem Source.exists_name (h : Source as p body post w) (hi : (input (as ++ (p :: (body ++ post)))).Scanned)
    (hclean : (input (as ++ (p :: (body ++ post)))).Clean ((words as).length + 1)) {name : String} {next : Nat}
    (hrun : Runs catalogName (input (as ++ (p :: (body ++ post)))) ((words as).length + 1) name next)
    (hname : name ≠ "") : ∃ ns, Tight ns ∧ (∀ s, Breaks s → Scan.Parts s ⟨false, false⟩ ns) ∧ words ns = words body ∧
      name = String.ofList (Part.text ns) ∧ next = (words as).length + 1 + (words body).length := by
  obtain ⟨g, ns, gap, rfl, hg, hgap, hns⟩ := exists_core body
  have hwords : words (g ++ (ns ++ gap)) = words ns := by simp [hg, hgap]
  have hbody := h.body
  have hsolid := h.solid hclean (Nat.le_refl _)
  have hdot := h.headD_ne_dot hclean
  rw [hwords] at hsolid hdot hbody
  have hsplit : (g ++ (ns ++ gap)) ++ post = g ++ (ns ++ (gap ++ post)) := by simp
  have hinput : as ++ (p :: ((g ++ (ns ++ gap)) ++ post)) = (as ++ [p]) ++ (g ++ (ns ++ (gap ++ post))) := by simp
  have hrest : endsStatement ((words (gap ++ post)).headD .eof) = true := by
    rw [words_append, hgap]
    exact h.headD_post
  rcases hns with ⟨rfl, rfl⟩ | hns
  · -- Without tokens the cut ends before it starts.
    have hnone : ∀ t ∈ words g, endsStatement t = false := by simp [hg]
    have hspan := span_input (as ++ [p]) hnone h.headD_post
    have hassoc : as ++ [p] ++ (g ++ post) = as ++ (p :: (g ++ ([] ++ []) ++ post)) := by simp
    rw [h.length_start, hassoc, hg] at hspan
    have hempty := (runs_catalogName hi.capped hspan).unique hrun
    have hne : (input (as ++ (p :: (g ++ ([] ++ []) ++ post)))).tokenAt (words as).length ≠ .eof := by
      rw [h.tokenAt_first]
      nofun
    rw [List.length_nil, Nat.add_zero, getD_slice?_of_le (hi.endBefore_le_startAt hne (Nat.lt_succ_self _))] at hempty
    exact absurd hempty.1.symm hname
  · obtain ⟨hkey, hmoves⟩ := h.key_moves hsplit hg hgap (.inr hns) h.endsKey_post hdot hsolid
    have hne : ns ≠ [] := fun hnil => hns.words_ne_nil (by rw [hnil, words_nil])
    have htight := hkey.resolve_left hne
    rw [hinput] at hi hrun
    rw [← h.length_start] at hrun ⊢
    obtain ⟨rfl, rfl⟩ := (runs_catalogName_input (as ++ [p]) hi.capped hg htight hbody hrest).unique hrun
    exact ⟨ns, htight, hmoves.resolve_left hne, hwords.symm, rfl, by rw [hwords]⟩

end Grammar

end SqlTidy
