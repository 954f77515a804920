import SqlTidy.Proofs.DataType
import SqlTidy.Proofs.Setting.Cut

/-!
# Pages of settings

The page of a setting is a word, the key behind a space, and the value behind an equals sign with spaces around it. As
parts it is `word :: (keyParts ks ++ valueParts vs)`, where the parts of the key and the value come from another text.
They may be moved there: parts that end with a token are scanned alike in front of any calm text (`Parts.moved`), as
long as a hint is open here if it was open there.

A page in parts is scanned to the tokens of these parts, and the rules for settings cut the same key and the same value
out of it (`parse_page_set`, `parse_page_reset`, `parse_page_catalog`).
-/

namespace SqlTidy

open Text Parse

namespace Scan

variable {rest s s' : List Char} {ctx ctx' : Context} {ps ks g post : List Part} {p : Part} {t : Token}

/-! ## Taking parts apart -/

namespace Part

/-- Parts up to the first token at which something ends. -/
theorem exists_upTo (ends : Token → Bool) (ps : List Part) : ∃ xs ys, ps = xs ++ ys ∧
    (∀ t ∈ words xs, ends t = false) ∧
    (ys = [] ∨ ∃ p t ys', ys = p :: ys' ∧ p.item.token = some t ∧ ends t = true) := by
  induction ps with
  | nil => exact ⟨[], [], rfl, nofun, .inl rfl⟩
  | cons p ps ih =>
    obtain ⟨xs, ys, rfl, hxs, hys⟩ := ih
    cases hp : p.item.token with
    | none => exact ⟨p :: xs, ys, rfl, by simpa [words, hp] using hxs, hys⟩
    | some t =>
      cases ht : ends t with
      | true => exact ⟨[], p :: (xs ++ ys), rfl, nofun, .inr ⟨p, t, _, rfl, hp, ht⟩⟩
      | false =>
        refine ⟨p :: xs, ys, rfl, ?_, hys⟩
        rw [words_cons hp]
        exact List.forall_mem_cons.2 ⟨ht, hxs⟩

/-- Parts are a gap, what stands between the first and the last token, and another gap. -/
theorem exists_core (ps : List Part) : ∃ g ks g', ps = g ++ (ks ++ g') ∧ words g = [] ∧ words g' = [] ∧
    (ks = [] ∧ g' = [] ∨ Bounded ks) := by
  induction ps with
  | nil => exact ⟨[], [], [], rfl, rfl, rfl, .inl ⟨rfl, rfl⟩⟩
  | cons p ps ih =>
    obtain ⟨g, ks, g', rfl, hg, hg', hks⟩ := ih
    cases hp : p.item.token with
    | none => exact ⟨p :: g, ks, g', rfl, by simpa [words, hp] using hg, hg', hks⟩
    | some t =>
      rcases hks with ⟨rfl, rfl⟩ | hks
      · refine ⟨[], [p], g, by simp, rfl, hg, .inr ⟨⟨p, t, [], rfl, hp⟩, ⟨[], p, t, rfl, hp⟩⟩⟩
      · obtain ⟨ks', q, u, rfl, hq⟩ := hks.last
        refine ⟨[], p :: (g ++ (ks' ++ [q])), g', by simp, rfl, hg', .inr ⟨⟨p, t, _, rfl, hp⟩, ?_⟩⟩
        exact ⟨p :: (g ++ ks'), q, u, by simp, hq⟩

end Part

open Part

/-! ## Other surroundings -/

theorem chars_of_item (h : item ctx p.first (p.item.tail ++ rest) = .ok p.item) (hp : p.item.token = some t) :
    t.lexeme = p.chars :=
  (lexeme_of_item h hp).1

theorem not_isLine_of_item (h : item ctx p.first (p.item.tail ++ rest) = .ok p.item) (hp : p.item.token = some t) :
    ¬ p.IsLine := by
  rintro ⟨hfirst, hhead⟩
  obtain ⟨tail, htail⟩ : ∃ tail, p.item.tail = '-' :: tail := by
    cases hcs : p.item.tail with
    | nil =>
      rw [hcs] at hhead
      contradiction
    | cons c cs =>
      rw [hcs] at hhead
      obtain rfl := Option.some.inj hhead
      exact ⟨cs, rfl⟩
  rw [hfirst, htail, List.cons_append, item_dash] at h
  rw [← Except.ok.inj h] at hp
  contradiction

theorem Part.Bounded.tight (hks : Bounded ks) (h : Parts rest ctx ks) (hsolid : ∀ t ∈ words ks, t.IsSolid) :
    Tight ks where
  toBounded := hks
  starts := by
    obtain ⟨p, t, ks', rfl, hp⟩ := hks.first
    have hlexeme := chars_of_item h.1 hp
    have hstarts := (hsolid t (by simp [words_cons hp])).starts
    rw [hlexeme] at hstarts
    exact hstarts
  ends := by
    obtain ⟨ks', p, t, rfl, hp⟩ := hks.last
    have hlexeme := chars_of_item (parts_append.1 h).2.1 hp
    have hends := (hsolid t (by simp [words_cons hp])).ends
    rw [hlexeme] at hends
    rw [text_append, List.reverse_append, text_cons, text_nil, List.append_nil]
    intro c hc
    refine hends c ?_
    rwa [List.head?_append_of_ne_nil _ (by simp [chars])] at hc

/-- Behind a key, a value or a name the text is still: there is a gap, an equals sign, a semicolon or the end. -/
theorem still_text (h : Parts [] ctx (g ++ post)) (hg : words g = [])
    (hpost : post = [] ∨ ∃ p t post', post = p :: post' ∧ p.item.token = some t ∧ Grammar.endsKey t = true) :
    Still (text (g ++ post)) := by
  cases g with
  | nil =>
    rcases hpost with rfl | ⟨p, t, post', rfl, hp, ht⟩
    · exact still_nil
    · have hlexeme := chars_of_item h.1 hp
      have hcalm : Calm p.chars := by
        rw [← hlexeme]
        cases t with
        | symbol s => cases s <;> first | exact startsWithout_cons.2 rfl | contradiction
        | eof => contradiction
        | _ => contradiction
      exact .inl hcalm
  | cons q g =>
    have hq : q.item.token = none := by
      cases hq : q.item.token with
      | none => rfl
      | some t =>
        rw [words_cons hq] at hg
        contradiction
    have hgap := gapItem_of_item h.1 hq rfl
    show Still ((q.first :: q.item.tail) ++ text (g ++ post))
    generalize q.first :: q.item.tail = cs at hgap ⊢
    cases hgap with
    | blank hc => exact .inl (startsWithout_cons.2 (by simp [isCalm, hc]))
    | line => exact .inr (.inl ⟨_, rfl⟩)
    | block => exact .inr (.inr ⟨_, rfl⟩)

/-- Parts that end with a token, somewhere else. -/
theorem Parts.moved (h : Parts s ctx ks) (hks : Bounded ks) (hs : Still s) (hs' : Calm s')
    (heq : s'.head? ≠ some '=') (hhint : ctx'.inHint = ctx.inHint)
    (hname : ctx'.afterName = ctx.afterName ∨ ∀ p ∈ ks.head?, p.first ≠ '.') : Parts s' ctx' ks := by
  have hmoved : Parts s' ctx ks := by
    refine Parts.replace (m := []) h hs hs' heq fun _ p hlast hline => ?_
    obtain ⟨ks', q, t, rfl, hq⟩ := hks.last
    rw [List.getLast?_concat, Option.mem_some_iff] at hlast
    subst hlast
    exact absurd hline (not_isLine_of_item (parts_append.1 h).2.1 hq)
  obtain ⟨inHint, afterName⟩ := ctx
  obtain ⟨inHint', afterName'⟩ := ctx'
  cases hhint
  rcases hname with hname | hdot
  · cases hname
    exact hmoved
  · exact hmoved.afterName hdot afterName'

/-! ## Hints -/

/-- Whether a hint is open behind some tokens. -/
def hintOpen (inHint : Bool) (ts : List Token) : Bool := ts.foldl (fun
  | _, .symbol .hintStart => true
  | _, .symbol .hintEnd => false
  | inHint, _ => inHint) inHint

theorem inHint_behind (ctx : Context) (ps : List Part) :
    (ctx.behind ps).inHint = hintOpen ctx.inHint (words ps) := by
  induction ps generalizing ctx with
  | nil => rfl
  | cons p ps ih =>
    rw [Context.behind_cons, ih]
    cases hp : p.item.token with
    | none => simp [Context.after, words, hp]
    | some t =>
      have hafter : (ctx.after p.item).inHint = hintOpen ctx.inHint [t] := by
        rw [Context.after, hp]
        cases t with
        | symbol s => cases s <;> rfl
        | _ => rfl
      rw [hafter, words_cons hp]
      rfl

theorem hintOpen_append (inHint : Bool) (ts us : List Token) :
    hintOpen inHint (ts ++ us) = hintOpen (hintOpen inHint ts) us := List.foldl_append

/-- Tokens that are no marks of hints change nothing. -/
theorem hintOpen_of_ordinary {ts : List Token} (h : ∀ t ∈ ts, t ≠ .symbol .hintStart ∧ t ≠ .symbol .hintEnd)
    (inHint : Bool) : hintOpen inHint ts = inHint := by
  induction ts with
  | nil => rfl
  | cons t ts ih =>
    obtain ⟨ht, hts⟩ := List.forall_mem_cons.1 h
    have hone : hintOpen inHint [t] = inHint := by
      cases t with
      | symbol s => cases s <;> first | rfl | simp at ht
      | _ => rfl
    rw [← List.singleton_append, hintOpen_append, hone, ih hts]

theorem hintOpen_false {ts : List Token} (h : ∀ t ∈ ts, t ≠ .symbol .hintStart) : hintOpen false ts = false := by
  induction ts with
  | nil => rfl
  | cons t ts ih =>
    obtain ⟨ht, hts⟩ := List.forall_mem_cons.1 h
    have hone : hintOpen false [t] = false := by
      cases t with
      | symbol s => cases s <;> first | rfl | contradiction
      | _ => rfl
    rw [← List.singleton_append, hintOpen_append, hone, ih hts]

/-! ## Pages -/

namespace Part

def blank : Part := ⟨' ', ⟨none, []⟩⟩

def equals : Part := ⟨'=', ⟨some (.symbol .eq), []⟩⟩

/-- A word by its characters. -/
def word (c : Char) (cs : List Char) : Part := ⟨c, ⟨some (.word (String.ofList (c :: cs))), cs⟩⟩

abbrev setWord : Part := word 'S' ['E', 'T']

abbrev resetWord : Part := word 'R' ['E', 'S', 'E', 'T']

abbrev catalogWord : Part := word 'C' ['A', 'T', 'A', 'L', 'O', 'G']

/-- A space and the parts of a key, if there are any. -/
def keyParts (ks : List Part) : List Part := if ks = [] then [] else blank :: ks

/-- An equals sign with spaces around it and the parts of a value, if there are any. -/
def valueParts (vs : List Part) : List Part := if vs = [] then [] else blank :: equals :: blank :: vs

/-- The texts in front of which a word or a key may stand on a page. -/
def Breaks (s : List Char) : Prop := s = [] ∨ s.head? = some ' '

theorem breaks_valueParts (vs : List Part) : Breaks (text (valueParts vs)) := by
  unfold valueParts
  split
  · exact .inl rfl
  · exact .inr rfl

theorem breaks_keyParts {s : List Char} (hs : Breaks s) (ks : List Part) : Breaks (text (keyParts ks) ++ s) := by
  unfold keyParts
  split
  · exact hs
  · exact .inr rfl

theorem Breaks.calm {s : List Char} (h : Breaks s) : Calm s := by
  rcases h with rfl | h
  · exact startsWithout_nil _
  · intro c hc
    cases h.symm.trans hc
    rfl

theorem exists_keyParts (ks : List Part) : ∃ g, keyParts ks = g ++ ks ∧ words g = [] := by
  unfold keyParts
  split
  · rename_i hks
    exact ⟨[], hks.symm, rfl⟩
  · exact ⟨[blank], rfl, rfl⟩

theorem valueParts_of_ne_nil {vs : List Part} (h : vs ≠ []) :
    valueParts vs = [blank] ++ equals :: ([blank] ++ (vs ++ [])) := by
  rw [valueParts, if_neg h, List.append_nil]
  rfl

end Part

theorem item_word_part {c : Char} {cs : List Char} (hw : (Token.word (String.ofList (c :: cs))).WellFormed)
    (hs : Breaks s) : item ctx c (cs ++ s) = .ok (word c cs).item := by
  refine item_word hw String.toList_ofList fun d hd => ?_
  rcases hs with rfl | hs
  · contradiction
  · cases hs.symm.trans hd
    rfl

/-- The parts of a page of a setting. -/
theorem parts_page {c : Char} {cs : List Char} {vs : List Part} (hw : (Token.word (String.ofList (c :: cs))).WellFormed)
    (hks : ks = [] ∨ ∀ s, Breaks s → Parts s ⟨false, false⟩ ks)
    (hvs : vs = [] ∨ Parts [] ⟨hintOpen false (words ks), false⟩ vs) :
    Parts [] .start (word c cs :: (keyParts ks ++ valueParts vs)) := by
  have hbreaks := breaks_valueParts vs
  refine ⟨item_word_part hw ?_, parts_append.2 ⟨?_, ?_⟩⟩
  · rw [text_append, List.append_nil]
    exact breaks_keyParts hbreaks ks
  · rw [List.append_nil]
    unfold keyParts
    split
    · trivial
    · rename_i hne
      exact ⟨item_of_isBlank rfl _, (hks.resolve_left hne) _ hbreaks⟩
  · have hhint : ((Context.start.after (word c cs).item).behind (keyParts ks)).inHint = hintOpen false (words ks) := by
      obtain ⟨g, hg, hwords⟩ := exists_keyParts ks
      rw [inHint_behind, hg, words_append, hwords]
      rfl
    generalize (Context.start.after (word c cs).item).behind (keyParts ks) = ctx at hhint ⊢
    unfold valueParts
    split
    · trivial
    · rename_i hne
      have hvs := hvs.resolve_left hne
      rw [← hhint] at hvs
      exact ⟨item_of_isBlank rfl _, item_symbol (s := .eq) nofun (startsWithout_cons.2 rfl), item_of_isBlank rfl _, hvs⟩

namespace Part

open Grammar

variable {vs : List Part}

/-- The rule for a setting on its page. -/
theorem runs_rawSetting_page (q : Part) {w : Token} (hq : q.item.token = some w)
    (hi : (input (q :: (keyParts ks ++ valueParts vs))).Capped) (hkey : ks = [] ∨ Tight ks)
    (hks : ∀ t ∈ words ks, endsKey t = false) (hvalue : vs = [] ∨ Tight vs)
    (hvs : ∀ t ∈ words vs, endsStatement t = false) :
    ∃ next, Runs rawSetting (input (q :: (keyParts ks ++ valueParts vs))) 1 (cut ks, cut vs) next ∧
      (input (q :: (keyParts ks ++ valueParts vs))).tokenAt next = .eof := by
  obtain ⟨g, hg, hgap⟩ := exists_keyParts ks
  have hone : (words [q]).length = 1 := by rw [words_cons hq]; rfl
  by_cases hne : vs = []
  · subst hne
    have hpage : q :: (keyParts ks ++ valueParts []) = [q] ++ (g ++ (ks ++ [])) := by
      rw [hg, List.append_nil]
      exact congrArg (q :: ·) (List.append_nil _)
    rw [hpage] at hi ⊢
    have hrun := runs_rawSetting_bare [q] hi hgap hkey hks rfl
    rw [hone] at hrun
    have hnext : (words ([q] ++ (g ++ (ks ++ [])))).length = 1 + (words ks).length := by
      rw [words_append, List.length_append, hone, words_append, hgap, List.append_nil]
      rfl
    exact ⟨_, hrun, hnext ▸ tokenAt_end _⟩
  · have hpage : q :: (keyParts ks ++ valueParts vs) =
        [q] ++ (g ++ (ks ++ ([blank] ++ equals :: ([blank] ++ (vs ++ []))))) := by
      rw [hg, valueParts_of_ne_nil hne, List.append_assoc]
      rfl
    rw [hpage] at hi ⊢
    have hrun := runs_rawSetting_eq [q] hi hgap hkey hks rfl (by simp [text, chars, blank, isBlank]) rfl rfl
      hvalue hvs rfl
    rw [hone] at hrun
    have hnext : (words ([q] ++ (g ++ (ks ++ ([blank] ++ equals :: ([blank] ++ (vs ++ []))))))).length =
        1 + (words ks).length + 1 + (words vs).length := by
      have hvalue : words ([blank] ++ equals :: ([blank] ++ (vs ++ []))) = .symbol .eq :: words vs := by
        rw [List.append_nil]
        rfl
      rw [words_append, List.length_append, hone, words_append, hgap, words_append, hvalue]
      simp only [List.nil_append, List.length_append, List.length_cons]
      omega
    exact ⟨_, hrun, hnext ▸ tokenAt_end _⟩

end Part

end Scan

/-! ## Reading a page -/

namespace Grammar

open Scan Scan.Part

variable {i : Input} {pos next : Nat} {ks vs ns qs : List Part}

theorem runs_expectSet {w : String} (hword : i.tokenAt pos = .word w) (hupper : upper w = "SET") :
    Runs (expectWord "SET") i pos () (pos + 1) := by
  have hkeyword : (i.tokenAt pos).isKeyword "SET" := by
    rw [hword, Token.isKeyword, hupper]
    decide +kernel
  exact (runs_acceptWord hkeyword).bind (runs_pure i _ ())

theorem runs_set {s : Statement} {w : String} (hword : i.tokenAt pos = .word w) (hupper : upper w = "SET")
    (hrest : Runs (setRest (namesCatalog i (pos + 1))) i (pos + 1) s next) : Runs set i pos s next :=
  (runs_expectSet hword hupper).bind ((runs_isSetCatalog i _).bind hrest)

theorem runs_setRest {s : Statement} {w : String} (hword : i.tokenAt pos = .word w) (hupper : upper w = "SET")
    (h : Runs set i pos s next) : Runs (setRest (namesCatalog i (pos + 1))) i (pos + 1) s next :=
  (h.behind (runs_expectSet hword hupper)).behind (runs_isSetCatalog i _)

theorem runs_reset {setting : Option String × Option String} {w : String} (hword : i.tokenAt pos = .word w)
    (hrest : Runs rawSetting i (pos + 1) setting next) : Runs reset i pos (.reset setting.1) next :=
  (runs_skip (by simp [hword])).bind (hrest.bind (runs_pure i _ _))

/-- A page in parts is a scanned text. -/
theorem scanned_input (hparts : Scan.Parts [] .start qs) (hhint : hintOpen false (words qs) = false) :
    (input qs).Scanned := by
  have hbehind : (Context.start.behind qs).inHint = false := by
    rw [inHint_behind]
    exact hhint
  have htext : Part.text qs = (String.ofList (Part.text qs)).toList := String.toList_ofList.symm
  have hscan := Token.scan_parts htext hparts hbehind
  rwa [String.toList_ofList] at hscan

/-- The tokens of a page that starts with a word. -/
theorem tokenAt_word (c : Char) (cs : List Char) (qs : List Part) :
    (input (word c cs :: qs)).tokenAt 0 = .word (String.ofList (c :: cs)) := rfl

theorem parse_of_page {c : Char} {cs : List Char} {s : Statement}
    (hscanned : (input (word c cs :: qs)).Scanned)
    (hrun : ∀ inner, Runs (statementOf inner (upper (String.ofList (c :: cs)))) (input (word c cs :: qs)) 0 s next)
    (hnext : (input (word c cs :: qs)).tokenAt next = .eof) :
    Statement.parse (String.ofList (Part.text (word c cs :: qs))) = .ok s :=
  Statement.parse_of_runs hscanned rfl (runs_statement rfl hrun) hnext

theorem hintOpen_page (c : Char) (cs : List Char) (ks vs : List Part) :
    hintOpen false (words (word c cs :: (keyParts ks ++ valueParts vs))) =
      hintOpen (hintOpen false (words ks)) (words vs) := by
  have hkey : words (keyParts ks) = words ks := by
    obtain ⟨g, hg, hwords⟩ := exists_keyParts ks
    rw [hg, words_append, hwords, List.nil_append]
  have hvalue : hintOpen (hintOpen false (words ks)) (words (valueParts vs)) =
      hintOpen (hintOpen false (words ks)) (words vs) := by
    unfold valueParts
    split
    · rename_i hnil
      rw [hnil]
    · rfl
  rw [words_cons rfl, words_append, hkey, ← List.cons_append, hintOpen_append]
  exact hvalue

/-- The page of a setting is read as that setting. -/
theorem parse_page_set (hparts : Scan.Parts [] .start (setWord :: (keyParts ks ++ valueParts vs)))
    (hhint : hintOpen (hintOpen false (words ks)) (words vs) = false) (hkey : ks = [] ∨ Tight ks)
    (hks : ∀ t ∈ words ks, endsKey t = false) (hvalue : vs = [] ∨ Tight vs)
    (hvs : ∀ t ∈ words vs, endsStatement t = false)
    (hcatalog : namesCatalog (input (setWord :: (keyParts ks ++ valueParts vs))) 1 = false) :
    Statement.parse (String.ofList (Part.text (setWord :: (keyParts ks ++ valueParts vs)))) =
      .ok (.setConfig ⟨cut ks, cut vs⟩) := by
  have hscanned := scanned_input hparts ((hintOpen_page _ _ ks vs).trans hhint)
  obtain ⟨next, hrun, hnext⟩ := runs_rawSetting_page _ rfl hscanned.capped hkey hks hvalue hvs
  refine parse_of_page hscanned (fun inner => ?_) hnext
  refine runs_set (tokenAt_word _ _ _) rfl ?_
  rw [Nat.zero_add, hcatalog]
  exact hrun.bind (runs_pure _ _ _)

theorem parse_page_reset (hparts : Scan.Parts [] .start (resetWord :: (keyParts ks ++ valueParts [])))
    (hhint : hintOpen false (words ks) = false) (hkey : ks = [] ∨ Tight ks)
    (hks : ∀ t ∈ words ks, endsKey t = false) :
    Statement.parse (String.ofList (Part.text (resetWord :: (keyParts ks ++ valueParts [])))) =
      .ok (.reset (cut ks)) := by
  have hscanned := scanned_input hparts ((hintOpen_page _ _ ks []).trans hhint)
  obtain ⟨next, hrun, hnext⟩ := runs_rawSetting_page _ rfl hscanned.capped hkey hks (.inl rfl) nofun
  exact parse_of_page hscanned (fun inner => runs_reset (tokenAt_word _ _ _) hrun) hnext

/-- The parts of `CATALOG` and a name behind a space. -/
abbrev catalogParts (ns : List Part) : List Part := catalogWord :: blank :: ns

theorem tokenAt_catalogWord (qs : List Part) :
    (input ([setWord, blank, catalogWord] ++ qs)).tokenAt 1 = .word "CATALOG" := rfl

theorem namesCatalog_page {t : Token} {ts : List Token} (ht : words ns = t :: ts) (hne : t ≠ .symbol .eq)
    (heof : t ≠ .eof) : namesCatalog (input ([setWord, blank, catalogWord] ++ ([blank] ++ (ns ++ [])))) 1 = true := by
  have hwords : words ([blank] ++ (ns ++ [])) = t :: ts := by
    rw [List.append_nil]
    exact ht
  have hsecond := tokenAt_input [setWord, blank, catalogWord] ([blank] ++ (ns ++ [])) 0
  rw [hwords] at hsecond
  have htoken : (input ([setWord, blank, catalogWord] ++ ([blank] ++ (ns ++ [])))).tokenAt (1 + 1) = t := hsecond
  rw [namesCatalog, htoken, tokenAt_catalogWord, isKeyword_word]
  simp [hne, heof]

/-- The page of a catalog is read as that catalog. -/
theorem parse_page_catalog (hparts : Scan.Parts [] .start (setWord :: (keyParts (catalogParts ns) ++ valueParts [])))
    (hhint : hintOpen false (words ns) = false) (hname : Tight ns) (hns : ∀ t ∈ words ns, endsStatement t = false)
    (heq : (words ns).head? ≠ some (.symbol .eq)) :
    Statement.parse (String.ofList (Part.text (setWord :: (keyParts (catalogParts ns) ++ valueParts [])))) =
      .ok (.setCatalog (String.ofList (Part.text ns))) := by
  have hscanned := scanned_input hparts ((hintOpen_page _ _ (catalogParts ns) []).trans hhint)
  have hpage : setWord :: (keyParts (catalogParts ns) ++ valueParts []) =
      [setWord, blank, catalogWord] ++ ([blank] ++ (ns ++ [])) := by
    simp [keyParts, valueParts]
  rw [hpage] at hscanned ⊢
  have hend : endsStatement ((words []).headD .eof) = true := rfl
  have hrun := runs_catalogName_input [setWord, blank, catalogWord] (g := [blank]) hscanned.capped rfl hname hns hend
  have hnext := tokenAt_behind [setWord, blank, catalogWord, blank] ns []
  obtain ⟨t, ts, ht⟩ := List.exists_cons_of_ne_nil hname.words_ne_nil
  have hnames := namesCatalog_page ht (fun h => heq (by rw [ht, h]; rfl)) (by
    rintro rfl
    exact absurd (hns .eof (by simp [ht])) (by decide))
  have hset : Runs set (input ([setWord, blank, catalogWord] ++ ([blank] ++ (ns ++ [])))) 0
      (.setCatalog (String.ofList (Part.text ns))) (2 + (words ns).length) := by
    refine runs_set (w := "SET") rfl rfl ?_
    rw [Nat.zero_add, hnames]
    exact (runs_skip (by rw [tokenAt_catalogWord]; nofun)).bind (hrun.bind (runs_pure _ _ _))
  exact parse_of_page hscanned (fun _ => hset) hnext

end Grammar

end SqlTidy
