import SqlTidy.Proofs.Abreast.Semicolon

/-!
# Settings cut out of parts

The rules for settings count tokens and cut the source text between them. Here a source is a list of parts, so a cut
is a sublist: behind any parts `as`, the rule for a setting takes the parts of the key and of the value, whatever
stands in the gaps (`runs_rawSetting_bare`, `runs_rawSetting_eq`). Two sources with the same key and the same value
are the same setting.

What a cut gives back is trimmed, so the parts of a key or value must be *tight*: they start and end with tokens, and
no white space is at the ends of these tokens. In front of an equals sign only blanks may stand, because the cut goes
up to that sign.
-/

namespace SqlTidy

open Text Parse

/-- A blank between tokens is white space. -/
theorem Text.isWhiteSpace_of_isBlank {c : Char} (h : isBlank c) : isWhiteSpace c := by
  simp only [isBlank, Bool.or_eq_true, decide_eq_true_eq] at h
  rcases h with (((rfl | rfl) | rfl) | rfl) | rfl <;> decide

/-- What stands between a token and the one before it. -/
def Input.gapBefore (i : Input) (k : Nat) : String := (slice? i.source (i.endBefore k) (i.startAt k)).getD ""

namespace Scan.Part

/-- The tokens of parts without their places. -/
def words (ps : List Part) : List Token := ps.filterMap (·.item.token)

@[simp] theorem words_nil : words [] = [] := rfl

@[simp] theorem words_append (ps qs : List Part) : words (ps ++ qs) = words ps ++ words qs :=
  List.filterMap_append

theorem words_cons {p : Part} {t : Token} (hp : p.item.token = some t) (ps : List Part) :
    words (p :: ps) = t :: words ps := by
  simp [words, hp]

theorem map_token_tokens (offset : Nat) (ps : List Part) : (tokens offset ps).map (·.token) = words ps := by
  induction ps generalizing offset with
  | nil => rfl
  | cons p ps ih =>
    cases hp : p.item.token with
    | none => simpa [tokens, words, hp] using ih _
    | some t => simpa [tokens, words, hp] using ih _

theorem length_tokens (offset : Nat) (ps : List Part) : (tokens offset ps).length = (words ps).length := by
  rw [← map_token_tokens offset ps, List.length_map]

/-- The input that is scanned to some parts. -/
def input (ps : List Part) : Input :=
  ⟨String.ofList (text ps), (tokens 0 ps ++ [Spanned.mk .eof (byteSize (text ps)) (byteSize (text ps))]).toArray⟩

variable {as bs ks gap : List Part} {p : Part} {t : Token}

theorem getElem?_input (as bs : List Part) (k : Nat) :
    (input (as ++ bs)).tokens[(words as).length + k]? = (tokens (byteSize (text as)) bs ++
      [⟨.eof, byteSize (text (as ++ bs)), byteSize (text (as ++ bs))⟩])[k]? := by
  rw [input, List.getElem?_toArray, tokens_append, List.append_assoc, Nat.zero_add,
    ← length_tokens 0 as, List.getElem?_append_right (Nat.le_add_right _ _), Nat.add_sub_cancel_left]

theorem tokenAt_input (as bs : List Part) (k : Nat) :
    (input (as ++ bs)).tokenAt ((words as).length + k) = (words bs)[k]?.getD .eof := by
  rw [Input.tokenAt, getElem?_input, ← map_token_tokens (byteSize (text as)) bs, List.getElem?_map]
  rcases Nat.lt_trichotomy k (tokens (byteSize (text as)) bs).length with hlt | heq | hgt
  · rw [List.getElem?_append_left hlt, List.getElem?_eq_getElem hlt]
    rfl
  · rw [List.getElem?_append_right (Nat.le_of_eq heq.symm), heq, Nat.sub_self,
      List.getElem?_eq_none (Nat.le_refl _)]
    rfl
  · rw [List.getElem?_eq_none (by simp; omega), List.getElem?_eq_none (Nat.le_of_lt hgt)]
    rfl

theorem tokenAt_end (ps : List Part) : (input ps).tokenAt (words ps).length = .eof := by
  have hend := tokenAt_input ps [] 0
  rwa [List.append_nil] at hend

theorem startAt_input (hp : p.item.token = some t) (as bs : List Part) :
    (input (as ++ p :: bs)).startAt (words as).length = byteSize (text as) := by
  have hget := getElem?_input as (p :: bs) 0
  simp only [Nat.add_zero, tokens, hp, List.cons_append, List.getElem?_cons_zero] at hget
  rw [Input.startAt, hget]

theorem endBefore_input (hp : p.item.token = some t) (as bs : List Part) :
    (input (as ++ p :: bs)).endBefore ((words as).length + 1) = byteSize (text as) + byteSize p.chars := by
  have hget := getElem?_input as (p :: bs) 0
  simp only [Nat.add_zero, tokens, hp, List.cons_append, List.getElem?_cons_zero] at hget
  rw [Input.endBefore, hget]

theorem slice?_input (as ks bs : List Part) :
    Text.slice? (input (as ++ (ks ++ bs))).source (byteSize (text as)) (byteSize (text as) + byteSize (text ks)) =
      some (String.ofList (text ks)) := by
  have hremains : Remains (input (as ++ (ks ++ bs))).source (byteSize (text as)) (text ks ++ text bs) := by
    refine ⟨text as, ?_, rfl⟩
    rw [input, String.toList_ofList, text_append, text_append]
  exact hremains.slice?

/-! ## Tight parts -/

/-- Parts that start and end with tokens. -/
structure Bounded (ks : List Part) : Prop where
  first : ∃ p t ks', ks = p :: ks' ∧ p.item.token = some t
  last : ∃ ks' p t, ks = ks' ++ [p] ∧ p.item.token = some t

/-- Parts that start and end with tokens, and not with white space. -/
structure Tight (ks : List Part) : Prop extends Bounded ks where
  starts : StartsWithout isWhiteSpace (text ks)
  ends : StartsWithout isWhiteSpace (text ks).reverse

namespace Bounded

theorem words_ne_nil (h : Bounded ks) : words ks ≠ [] := by
  obtain ⟨p, t, ks', rfl, hp⟩ := h.first
  rw [words_cons hp]
  exact List.cons_ne_nil _ _

theorem ne_nil (h : Bounded ks) : ks ≠ [] := fun hnil => h.words_ne_nil (by rw [hnil, words_nil])

theorem text_ne_nil (h : Bounded ks) : text ks ≠ [] := by
  obtain ⟨p, t, ks', rfl, hp⟩ := h.first
  simp [chars]

theorem startAt (h : Bounded ks) (as bs : List Part) :
    (input (as ++ (ks ++ bs))).startAt (words as).length = byteSize (text as) := by
  obtain ⟨p, t, ks', rfl, hp⟩ := h.first
  exact startAt_input hp as (ks' ++ bs)

theorem endBefore (h : Bounded ks) (as bs : List Part) :
    (input (as ++ (ks ++ bs))).endBefore ((words as).length + (words ks).length) =
      byteSize (text as) + byteSize (text ks) := by
  obtain ⟨ks', p, t, rfl, hp⟩ := h.last
  have hend := endBefore_input hp (as ++ ks') bs
  have hlength : (words (ks' ++ [p])).length = (words ks').length + 1 := by
    rw [words_append, words_cons hp, words_nil, List.length_append, List.length_singleton]
  rw [hlength]
  simpa [Nat.add_assoc] using hend

/-- What stands between the last token of some parts and the next token. -/
theorem gapBefore {e : Part} (h : Bounded ks) (as rest : List Part) (hgap : words gap = [])
    (he : e.item.token = some t) :
    (input (as ++ (ks ++ (gap ++ e :: rest)))).gapBefore ((words as).length + (words ks).length) =
      String.ofList (text gap) := by
  have hstop := startAt_input he (as ++ (ks ++ gap)) rest
  have hslice := slice?_input (as ++ ks) gap (e :: rest)
  have hlength : (words (as ++ (ks ++ gap))).length = (words as).length + (words ks).length := by simp [hgap]
  have hassoc : as ++ (ks ++ gap) ++ e :: rest = as ++ (ks ++ (gap ++ e :: rest)) := by simp
  have hsize : byteSize (text (as ++ (ks ++ gap))) =
      byteSize (text as) + byteSize (text ks) + byteSize (text gap) := by simp [Nat.add_assoc]
  rw [hlength, hassoc] at hstop
  rw [List.append_assoc, text_append, byteSize_append] at hslice
  rw [Input.gapBefore, h.endBefore, hstop, hsize, hslice, Option.getD_some]

end Bounded

namespace Tight

/-- Trimming leaves tight parts as they are. -/
theorem trim_text (h : Tight ks) : trim (String.ofList (text ks)) = String.ofList (text ks) :=
  trim_eq_self (by simpa using h.starts) (by simpa using h.ends)

theorem isEmpty_text (h : Tight ks) : (String.ofList (text ks)).isEmpty = false := by
  rw [Bool.eq_false_iff, ne_eq, String.isEmpty_iff, ← String.toList_inj, String.toList_ofList]
  exact h.text_ne_nil

/-- The text of the tokens of tight parts is what the parts are read from. -/
theorem textOf (h : Tight ks) (as bs : List Part) :
    (input (as ++ (ks ++ bs))).textOf (words as).length (words ks).length = some (String.ofList (text ks)) := by
  have hne : (words ks).length ≠ 0 := by simpa using h.words_ne_nil
  rw [Input.textOf, if_neg hne, Input.trimmed, h.startAt, h.endBefore, slice?_input, Option.getD_some, h.trim_text]
  simp only [h.isEmpty_text]
  rfl

/-- White space behind tight parts is trimmed. -/
theorem trim_append (h : Tight ks) {blanks : List Char} (hblanks : ∀ c ∈ blanks, isWhiteSpace c) :
    trim (String.ofList (text ks ++ blanks)) = String.ofList (text ks) := by
  have hstarts : (text ks ++ blanks).dropWhile isWhiteSpace = text ks ++ blanks := by
    match hks : text ks with
    | [] => exact absurd hks h.text_ne_nil
    | c :: cs =>
      have hc := h.starts c (by rw [hks]; rfl)
      rw [List.cons_append, List.dropWhile_cons_of_neg (by simpa using hc)]
  have hends : ((text ks ++ blanks).reverse).dropWhile isWhiteSpace = (text ks).reverse := by
    rw [List.reverse_append, List.dropWhile_append_of_pos (by simpa using hblanks)]
    match hks : (text ks).reverse with
    | [] => rfl
    | c :: cs =>
      have hc := h.ends c (by rw [hks]; rfl)
      rw [List.dropWhile_cons_of_neg (by simpa using hc)]
  rw [trim, String.toList_ofList, hstarts, hends, List.reverse_reverse]

end Tight

/-- What is cut out for some parts, if there are any. -/
def cut (ks : List Part) : Option String := if ks = [] then none else some (String.ofList (text ks))

theorem cut_of_ne_nil (h : ks ≠ []) : cut ks = some (String.ofList (text ks)) := if_neg h

theorem Tight.cut (h : Tight ks) : cut ks = some (String.ofList (text ks)) :=
  cut_of_ne_nil h.ne_nil

/-! ## The rule for settings -/

open Grammar

variable {g g' vs rest : List Part} {e : Part}

theorem tokenAt_behind (as ks rest : List Part) :
    (input (as ++ (ks ++ rest))).tokenAt ((words as).length + (words ks).length) = (words rest).headD .eof := by
  rw [tokenAt_input, words_append, List.getElem?_append_right (Nat.le_refl _), Nat.sub_self,
    ← List.head?_eq_getElem?, ← List.headD_eq_head?_getD]

theorem span_input {ends : Token → Bool} (as : List Part) (hks : ∀ t ∈ words ks, ends t = false)
    (hrest : ends ((words rest).headD .eof) = true) :
    Grammar.Span (input (as ++ (ks ++ rest))) ends (words as).length (words ks).length where
  inside k hk := by
    rw [tokenAt_input, words_append, List.getElem?_append_left hk, List.getElem?_eq_getElem hk]
    exact hks _ (List.getElem_mem hk)
  stop := by
    rw [tokenAt_behind]
    exact hrest

/-- A setting without an equals sign. -/
theorem runs_rawSetting_bare (as : List Part) (hi : (input (as ++ (g ++ (ks ++ rest)))).Capped) (hg : words g = [])
    (htight : ks = [] ∨ Tight ks) (hks : ∀ t ∈ words ks, endsKey t = false)
    (hrest : endsStatement ((words rest).headD .eof) = true) :
    Runs rawSetting (input (as ++ (g ++ (ks ++ rest)))) (words as).length (cut ks, none)
      ((words as).length + (words ks).length) := by
  have hlength : (words (as ++ g)).length = (words as).length := by simp [hg]
  rw [← List.append_assoc] at hi ⊢
  rw [← hlength]
  have hends : endsKey ((words rest).headD .eof) = true := by rw [endsKey, hrest, Bool.or_true]
  have hspan := span_input (as ++ g) hks hends
  have hend : (input (as ++ g ++ (ks ++ rest))).tokenAt ((words (as ++ g)).length + (words ks).length) ≠ .symbol .eq := by
    rw [tokenAt_behind]
    intro heq
    rw [heq] at hrest
    contradiction
  have hrun := runs_rawSetting_key hi hspan hend
  rcases htight with rfl | htight
  · exact hrun
  · rwa [htight.textOf, ← htight.cut] at hrun

/-- The cut in front of an equals sign. -/
theorem trimmed_before (as : List Part) (htight : ks = [] ∨ Tight ks) (hgap : words gap = [])
    (hblank : ∀ c ∈ text gap, isBlank c) (he : e.item.token = some t) :
    (input (as ++ (ks ++ (gap ++ e :: rest)))).trimmed
      ((input (as ++ (ks ++ (gap ++ e :: rest)))).startAt (words as).length)
      ((input (as ++ (ks ++ (gap ++ e :: rest)))).startAt ((words as).length + (words ks).length)) = cut ks := by
  have hstop := startAt_input he (as ++ (ks ++ gap)) rest
  have hlength : (words (as ++ (ks ++ gap))).length = (words as).length + (words ks).length := by simp [hgap]
  have hassoc : as ++ (ks ++ gap) ++ e :: rest = as ++ (ks ++ (gap ++ e :: rest)) := by simp
  rw [hlength, hassoc] at hstop
  rcases htight with rfl | htight
  · have hempty := slice?_input (as ++ gap) [] (e :: rest)
    have hassoc : as ++ gap ++ ([] ++ e :: rest) = as ++ ([] ++ (gap ++ e :: rest)) := by simp
    rw [hassoc] at hempty
    simp only [words_nil, List.length_nil, Nat.add_zero, List.nil_append, text_nil, byteSize_nil] at hstop hempty ⊢
    rw [hstop, Input.trimmed, hempty]
    rfl
  · have hslice := slice?_input as (ks ++ gap) (e :: rest)
    have hassoc : as ++ (ks ++ gap ++ e :: rest) = as ++ (ks ++ (gap ++ e :: rest)) := by simp
    have hsize : byteSize (text (as ++ (ks ++ gap))) = byteSize (text as) + byteSize (text (ks ++ gap)) := by simp
    rw [hassoc] at hslice
    rw [htight.startAt, hstop, Input.trimmed, hsize, hslice, Option.getD_some, text_append,
      htight.trim_append fun c hc => isWhiteSpace_of_isBlank (hblank c hc), htight.cut]
    simp only [htight.isEmpty_text]
    rfl

/-- A setting with an equals sign. -/
theorem runs_rawSetting_eq (as : List Part)
    (hi : (input (as ++ (g ++ (ks ++ (gap ++ e :: (g' ++ (vs ++ rest))))))).Capped) (hg : words g = [])
    (hkey : ks = [] ∨ Tight ks) (hks : ∀ t ∈ words ks, endsKey t = false) (hgap : words gap = [])
    (hblank : ∀ c ∈ text gap, isBlank c) (he : e.item.token = some (.symbol .eq)) (hg' : words g' = [])
    (hvalue : vs = [] ∨ Tight vs) (hvs : ∀ t ∈ words vs, endsStatement t = false)
    (hrest : endsStatement ((words rest).headD .eof) = true) :
    Runs rawSetting (input (as ++ (g ++ (ks ++ (gap ++ e :: (g' ++ (vs ++ rest))))))) (words as).length
      (cut ks, cut vs) ((words as).length + (words ks).length + 1 + (words vs).length) := by
  have hlength : (words (as ++ g)).length = (words as).length := by simp [hg]
  have hhead : (words (gap ++ e :: (g' ++ (vs ++ rest)))).headD .eof = .symbol .eq := by
    simp [hgap, words_cons he]
  rw [← List.append_assoc] at hi ⊢
  rw [← hlength]
  have hends : endsKey ((words (gap ++ e :: (g' ++ (vs ++ rest)))).headD .eof) = true := by
    rw [hhead]
    rfl
  have hspan := span_input (as ++ g) hks hends
  have hend := tokenAt_behind (as ++ g) ks (gap ++ e :: (g' ++ (vs ++ rest)))
  rw [hhead] at hend
  have hvspan := span_input (as ++ g ++ (ks ++ (gap ++ e :: g'))) hvs hrest
  have hassoc : as ++ g ++ (ks ++ (gap ++ e :: g')) ++ (vs ++ rest) =
      as ++ g ++ (ks ++ (gap ++ e :: (g' ++ (vs ++ rest)))) := by simp
  have hlength' : (words (as ++ g ++ (ks ++ (gap ++ e :: g')))).length =
      (words (as ++ g)).length + (words ks).length + 1 := by
    simp [hgap, hg', words_cons he, Nat.add_assoc]
  rw [hassoc, hlength'] at hvspan
  have hrun := runs_rawSetting_value hi hspan hend hvspan
  rw [trimmed_before (as ++ g) hkey hgap hblank he] at hrun
  rcases hvalue with rfl | hvalue
  · exact hrun
  · have htext := hvalue.textOf (as ++ g ++ (ks ++ (gap ++ e :: g'))) rest
    rw [hassoc, hlength', ← hvalue.cut] at htext
    rwa [htext] at hrun

/-- The name of a catalog. -/
theorem runs_catalogName_input (as : List Part) (hi : (input (as ++ (g ++ (ks ++ rest)))).Capped) (hg : words g = [])
    (hname : Tight ks) (hks : ∀ t ∈ words ks, endsStatement t = false)
    (hrest : endsStatement ((words rest).headD .eof) = true) :
    Runs catalogName (input (as ++ (g ++ (ks ++ rest)))) (words as).length (String.ofList (text ks))
      ((words as).length + (words ks).length) := by
  have hlength : (words (as ++ g)).length = (words as).length := by simp [hg]
  rw [← List.append_assoc] at hi ⊢
  rw [← hlength]
  have hrun := runs_catalogName hi (span_input (as ++ g) hks hrest)
  rwa [hname.startAt, hname.endBefore, slice?_input, Option.getD_some] at hrun

end Scan.Part

end SqlTidy
