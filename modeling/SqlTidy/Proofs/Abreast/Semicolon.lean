import SqlTidy.Proofs.Abreast.Statement
import SqlTidy.Proofs.Parts

/-!
# Semicolons around a statement

**Theorem (`parse_of_semicolon`).** A text that is read as a statement is read as the same statement with a semicolon
in front of it, and with one behind it, unless it is `SET CATALOG` without a name: there the semicolon counts as the
start of the name (`not_parse_of_semicolon`).

A semicolon in front moves all tokens by one byte. A semicolon behind is one more token, or it is part of a comment
behind two dashes and no token. In all three cases the old and the new tokens are abreast.
-/

namespace SqlTidy

open Text Scan

/-! ## Longer texts -/

namespace Text

theorem dropBytes_append_of_le {n : Nat} {cs : List Char} (h : n ≤ byteSize cs) (rest : List Char) :
    dropBytes n (cs ++ rest) = (dropBytes n cs).map (· ++ rest) := by
  induction cs generalizing n with
  | nil =>
    obtain rfl : n = 0 := Nat.le_zero.1 h
    cases rest <;> rfl
  | cons c cs ih =>
    cases n with
    | zero => rfl
    | succ n =>
      by_cases hc : c.utf8Size ≤ n + 1
      · rw [List.cons_append, dropBytes_cons hc, dropBytes_cons hc]
        rw [byteSize_cons] at h
        exact ih (by omega)
      · simp [dropBytes, hc]

theorem takeBytes_append_of_le {n : Nat} {cs : List Char} (h : n ≤ byteSize cs) (rest : List Char) :
    takeBytes n (cs ++ rest) = takeBytes n cs := by
  induction cs generalizing n with
  | nil =>
    obtain rfl : n = 0 := Nat.le_zero.1 h
    cases rest <;> rfl
  | cons c cs ih =>
    cases n with
    | zero => rfl
    | succ n =>
      by_cases hc : c.utf8Size ≤ n + 1
      · rw [List.cons_append, takeBytes_cons hc, takeBytes_cons hc]
        rw [byteSize_cons] at h
        rw [ih (by omega)]
      · simp [takeBytes, hc]

theorem byteSize_of_dropBytes {n : Nat} {cs ds : List Char} (h : dropBytes n cs = some ds) :
    byteSize cs = n + byteSize ds := by
  fun_induction dropBytes n cs with
  | case1 => cases h; omega
  | case2 => contradiction
  | case3 n c cs hn hc ih =>
    have := ih h
    rw [byteSize_cons]
    omega
  | case4 => contradiction

/-- A slice does not depend on what stands behind it. -/
theorem slice?_append {text more : String} {a b : Nat} (h : b ≤ text.utf8ByteSize) :
    slice? (text ++ more) a b = slice? text a b := by
  rw [← byteSize_toList] at h
  unfold slice?
  split
  · rw [String.toList_append, dropBytes_append_of_le (by omega)]
    cases hdrop : dropBytes a text.toList with
    | none => rfl
    | some cs =>
      have hsize := byteSize_of_dropBytes hdrop
      simp only [Option.map_some, Option.bind_some]
      rw [takeBytes_append_of_le (by omega)]
  · rfl

/-- A slice moves with the text. -/
theorem slice?_cons {text longer : String} {c : Char} (h : longer.toList = c :: text.toList) (a b : Nat) :
    slice? longer (a + c.utf8Size) (b + c.utf8Size) = slice? text a b := by
  unfold slice?
  rw [h, dropBytes_cons (Nat.le_add_left _ _), Nat.add_sub_cancel, Nat.add_sub_add_right]
  simp only [Nat.add_le_add_iff_right]

end Text

/-! ## Tokens in other places -/

/-- The same token a number of bytes further behind. -/
def Spanned.moved (n : Nat) (t : Spanned) : Spanned := ⟨t.token, t.start + n, t.stop + n⟩

theorem Spanned.map_moved_zero (ts : List Spanned) : ts.map (moved 0) = ts := List.map_id ts

theorem Scan.Part.tokens_moved (ps : List Part) (offset n : Nat) :
    Part.tokens (offset + n) ps = (Part.tokens offset ps).map (Spanned.moved n) := by
  induction ps generalizing offset with
  | nil => rfl
  | cons p ps ih =>
    simp only [tokens]
    rw [Nat.add_right_comm, ih]
    cases p.item.token <;> rfl

namespace Pair

/-- Two inputs are abreast if the second has the tokens of the first behind some others, with a semicolon in front of
the end mark if it is closed. -/
theorem abreast_of_tokens {e : Pair} (before ts : List Spanned) {behind : List Spanned} {eof : Spanned}
    (hleft : e.left.tokens.toList = ts ++ [eof]) (heof : eof.token = .eof)
    (hright : e.right.tokens.toList = before ++ (ts.map (Spanned.moved e.shift) ++ behind)) (hne : behind ≠ [])
    (hbehind : ∀ t ∈ behind, Token.Alike e.closed .eof t.token) (pos : Nat) : e.Abreast pos (before.length + pos) := by
  have hsame {k : Nat} (hk : k < ts.length) : ∃ t, e.left.tokens[k]? = some t ∧
      e.right.tokens[before.length + k]? = some (t.moved e.shift) := by
    refine ⟨ts[k], ?_, ?_⟩
    · rw [← Array.getElem?_toList, hleft, List.getElem?_append_left hk, List.getElem?_eq_getElem hk]
    · rw [← Array.getElem?_toList, hright, List.getElem?_append_right (Nat.le_add_right _ _), Nat.add_sub_cancel_left,
        List.getElem?_append_left (by simpa using hk), List.getElem?_map, List.getElem?_eq_getElem hk, Option.map_some]
  have hend {k : Nat} (hk : ts.length ≤ k) : e.left.tokenAt k = .eof ∧
      Token.Alike e.closed .eof (e.right.tokenAt (before.length + k)) := by
    refine ⟨?_, ?_⟩
    · rw [Input.tokenAt, ← Array.getElem?_toList, hleft, List.getElem?_append_right hk]
      cases k - ts.length with
      | zero => exact heof
      | succ n => rfl
    · rw [Input.tokenAt, ← Array.getElem?_toList, hright, List.getElem?_append_right (Nat.le_add_right _ _),
        Nat.add_sub_cancel_left, List.getElem?_append_right (by simpa using hk), List.length_map]
      cases ht : behind[k - ts.length]? with
      | none => exact .inl rfl
      | some t => exact hbehind t (List.mem_of_getElem? ht)
  have hlt {k : Nat} (hk : e.left.tokenAt k ≠ .eof) : k < ts.length :=
    Nat.lt_of_not_le fun hle => hk (hend hle).1
  refine ⟨fun n => ?_, ?_, fun n hn => ?_, fun n hn => ?_⟩
  · rw [Nat.add_assoc]
    rcases Nat.lt_or_ge (pos + n) ts.length with hk | hk
    · obtain ⟨t, ht, ht'⟩ := hsame hk
      left
      rw [Input.tokenAt, Input.tokenAt, ht, ht']
      rfl
    · rw [(hend hk).1]
      exact (hend hk).2
  · have hleft := congrArg List.length hleft
    have hright := congrArg List.length hright
    have hsize := List.length_pos_iff.2 hne
    simp only [Array.length_toList, List.length_append, List.length_map, List.length_singleton] at hleft hright
    unfold Input.remaining
    omega
  · obtain ⟨t, ht, ht'⟩ := hsame (hlt hn)
    rw [Nat.add_assoc, Input.startAt_of_getElem? ht, Input.startAt_of_getElem? ht']
    rfl
  · obtain ⟨t, ht, ht'⟩ := hsame (hlt hn)
    rw [Nat.add_assoc before.length, Input.endBefore_of_getElem? ht, Input.endBefore_of_getElem? ht']
    rfl

end Pair

/-! ## A semicolon more -/

namespace Scan

/-- A semicolon as a part of a text. -/
def semicolonPart : Part := ⟨';', ⟨some (.symbol .semicolon), []⟩⟩

theorem item_semicolon (ctx : Context) (cs : List Char) :
    item ctx ';' cs = .ok ⟨some (.symbol .semicolon), []⟩ := by
  simp [item, isBlank, isWordStart, symbolAt]

theorem calm_semicolon : Calm [';'] := startsWithout_cons.2 rfl

variable {ctx : Context} {ps : List Part}

theorem parts_cons_semicolon (h : Parts [] .start ps) : Parts [] .start (semicolonPart :: ps) :=
  ⟨item_semicolon _ _, h⟩

/-- Behind other parts a semicolon is a part of its own. -/
theorem parts_concat_semicolon (h : Parts [] ctx ps) (hline : ∀ p ∈ ps.getLast?, ¬ p.IsLine) :
    Parts [] ctx (ps ++ [semicolonPart]) := by
  refine parts_append.2 ⟨?_, item_semicolon _ _, trivial⟩
  exact Parts.replace (m := []) h still_nil calm_semicolon (by simp [semicolonPart])
    fun _ p hp hp' => absurd hp' (hline p hp)

/-- Behind a comment behind two dashes a semicolon is a part of the comment. -/
theorem parts_line_semicolon {p : Part} (h : Parts [] ctx (ps ++ [p])) (hline : p.IsLine) :
    p.item.token = none ∧ Parts [] ctx (ps ++ [⟨p.first, ⟨none, p.item.tail ++ [';']⟩⟩]) := by
  obtain ⟨hps, hitem, -⟩ := parts_append.1 h
  obtain ⟨c, token, tail⟩ := p
  obtain ⟨rfl, hhead⟩ := hline
  match tail with
  | d :: tail =>
    obtain rfl : d = '-' := by simpa using hhead
    simp only [Part.text_nil, List.append_nil, item_dash, Except.ok.injEq, Item.mk.injEq] at hitem
    obtain ⟨rfl, htail⟩ := hitem
    refine ⟨rfl, parts_append.2 ⟨?_, ?_, trivial⟩⟩
    · have hreplaced : Parts (Part.text [⟨'-', ⟨none, '-' :: tail⟩⟩] ++ [';']) ctx ps :=
        Parts.replace hps still_nil calm_semicolon (by simp) (by simp [Part.chars])
      simpa [Part.chars] using hreplaced
    · have htaken : ('-' :: (tail ++ [';'])).takeWhile (· ≠ '\n') = '-' :: (tail ++ [';']) := by
        rw [← List.cons_append, List.takeWhile_append, htail]
        simp
      simp only [Part.text_nil, List.append_nil, List.cons_append, item_dash, htaken]

end Scan

namespace Token

variable {text : String} {tokens : List Spanned}

/-- A scan in parts, whose tokens are followed by the end mark. -/
theorem scan_parts {ps : List Part} (htext : Part.text ps = text.toList) (hparts : Parts [] .start ps)
    (hhint : (Context.start.behind ps).inHint = false) :
    scan text = .ok (Part.tokens 0 ps ++ [⟨.eof, byteSize text.toList, byteSize text.toList⟩]) := by
  have hscan := scanFrom_parts_nil hparts hhint 0
  rwa [htext, Nat.zero_add] at hscan

/-- A semicolon in front is one more token, and all others move by its byte. -/
theorem scan_semicolon_append (h : scan text = .ok tokens) :
    scan (";" ++ text) = .ok (⟨.symbol .semicolon, 0, 1⟩ :: tokens.map (Spanned.moved 1)) := by
  obtain ⟨ps, htext, hparts, hhint⟩ := exists_parts_of_scan h
  cases h.symm.trans (scan_parts htext hparts hhint)
  have htext' : Part.text (semicolonPart :: ps) = (";" ++ text).toList := by
    rw [Part.text_cons, htext, String.toList_append]
    rfl
  have hmoved := Part.tokens_moved ps 0 1
  have hsize : byteSize (";" ++ text).toList = byteSize text.toList + 1 := by
    rw [← htext', Part.text_cons, htext, byteSize_append, Nat.add_comm]
    rfl
  rw [scan_parts htext' (parts_cons_semicolon hparts) hhint, hsize, List.map_append, ← hmoved]
  rfl

/-- A semicolon behind is one more token, or no token if it is part of a comment. -/
theorem scan_append_semicolon (h : scan text = .ok tokens) : ∃ ts eof behind, tokens = ts ++ [eof] ∧
    eof.token = .eof ∧ scan (text ++ ";") = .ok (ts ++ behind) ∧ behind ≠ [] ∧
      ∀ t ∈ behind, Token.Alike True .eof t.token := by
  obtain ⟨ps, htext, hparts, hhint⟩ := exists_parts_of_scan h
  cases h.symm.trans (scan_parts htext hparts hhint)
  by_cases hline : ∀ p ∈ ps.getLast?, ¬ p.IsLine
  · have htext' : Part.text (ps ++ [semicolonPart]) = (text ++ ";").toList := by
      rw [Part.text_append, htext, String.toList_append]
      rfl
    have hhint' : (Context.start.behind (ps ++ [semicolonPart])).inHint = false := by
      rw [Context.behind_append]
      exact hhint
    have hscan := scan_parts htext' (parts_concat_semicolon hparts hline) hhint'
    rw [Part.tokens_append, List.append_assoc] at hscan
    refine ⟨_, _, _, rfl, rfl, hscan, by simp, ?_⟩
    simp [Part.tokens, semicolonPart, Token.Alike]
  · simp only [Option.mem_def, not_forall, Decidable.not_not] at hline
    obtain ⟨p, hlast, hline⟩ := hline
    obtain ⟨qs, rfl⟩ := List.getLast?_eq_some_iff.1 hlast
    obtain ⟨hnone, hparts'⟩ := parts_line_semicolon hparts hline
    have htext' : Part.text (qs ++ [⟨p.first, ⟨none, p.item.tail ++ [';']⟩⟩]) = (text ++ ";").toList := by
      rw [String.toList_append, ← htext]
      simp [Part.chars]
    have hhint' : (Context.start.behind (qs ++ [⟨p.first, ⟨none, p.item.tail ++ [';']⟩⟩])).inHint = false := by
      rw [Context.behind_append] at hhint ⊢
      simpa [Context.after, hnone] using hhint
    have hscan := scan_parts htext' hparts' hhint'
    rw [Part.tokens_append] at hscan ⊢
    simp only [Part.tokens, hnone, List.append_nil] at hscan ⊢
    exact ⟨_, _, _, rfl, rfl, hscan, by simp, by simp [Token.Alike]⟩

end Token

namespace Statement

variable {text : String} {tree : Statement}

/-- What is read in the first input is read in the second, if all its positions are abreast with some behind
semicolons. -/
theorem parse_of_abreast {e : Pair} {n : Nat} (h : parse e.left.source = .ok tree)
    (habreast : ∀ pos, e.Abreast pos (n + pos)) (hbefore : ∀ k < n, e.right.tokenAt k = .symbol .semicolon)
    (hodd : ¬ Grammar.Odd e tree) : parse e.right.source = .ok tree := by
  rw [parse_of_scan e.scanned_left] at h
  obtain ⟨first, mid, hwhole⟩ := Grammar.exists_whole_of_runs e.capped_left (Prod.ext h rfl)
  have hfirst (k : Nat) (hk : k < n + first) : e.right.tokenAt k = .symbol .semicolon := by
    rcases Nat.lt_or_ge k n with hlt | hge
    · exact hbefore k hlt
    · have hleft := hwhole.before (k - n) (by omega)
      have hright := (habreast (k - n)).tokenAt_eq (by simp [hleft])
      rwa [Nat.add_sub_cancel' hge, hleft] at hright
  obtain ⟨mid', hright⟩ := hwhole.right (habreast first) hfirst hodd
  obtain ⟨next, hruns⟩ := hright.exists_runs e.capped_right
  rw [parse_of_scan e.scanned_right]
  exact congrArg Prod.fst hruns

/-- A semicolon in front of a statement changes nothing. -/
theorem parse_semicolon_append (h : parse text = .ok tree) : parse (";" ++ text) = .ok tree := by
  obtain ⟨tokens, -, hscan, -⟩ := exists_run_of_parse h
  have hscan' := Token.scan_semicolon_append hscan
  obtain ⟨ts, rfl, -⟩ := (Token.tiles_of_scan hscan).ends (.start text)
  let e : Pair :=
    { left := ⟨text, _⟩, right := ⟨";" ++ text, _⟩, shift := 1, closed := False, scanned_left := hscan,
      scanned_right := hscan', slice := fun a b _ => slice?_cons (c := ';') (by simp) a b }
  refine parse_of_abreast (e := e) (n := 1) h (fun pos => ?_) (fun k hk => ?_) fun hodd => hodd.1
  · exact Pair.abreast_of_tokens [⟨.symbol .semicolon, 0, 1⟩] ts rfl rfl
      (by simp [e]; rfl) (by simp) (by simp [Token.Alike, Spanned.moved]) pos
  · obtain rfl : k = 0 := by omega
    rfl

/-- A semicolon behind a statement changes nothing, unless it is taken for the name of a catalog. -/
theorem parse_append_semicolon (h : parse text = .ok tree) (hbare : tree.isBareCatalog = false) :
    parse (text ++ ";") = .ok tree := by
  obtain ⟨tokens, -, hscan, -⟩ := exists_run_of_parse h
  obtain ⟨ts, eof, behind, rfl, heof, hscan', hne, hbehind⟩ := Token.scan_append_semicolon hscan
  let e : Pair :=
    { left := ⟨text, _⟩, right := ⟨text ++ ";", _⟩, shift := 0, closed := True, scanned_left := hscan,
      scanned_right := hscan', slice := fun a b hb => slice?_append hb }
  refine parse_of_abreast (e := e) (n := 0) h (fun pos => ?_) nofun fun hodd => ?_
  · exact Pair.abreast_of_tokens [] ts rfl heof
      (by simp [e, Spanned.map_moved_zero]) hne hbehind pos
  · exact Bool.eq_false_iff.1 hbare hodd.2

theorem parse_of_semicolon (h : parse text = .ok tree) : parse (";" ++ text) = .ok tree ∧
    (tree.isBareCatalog = false → parse (text ++ ";") = .ok tree) :=
  ⟨parse_semicolon_append h, parse_append_semicolon h⟩

/-- A setting, whose key and value are cut out of the text, in front of a comment that a semicolon falls into. -/
theorem parse_of_semicolon_setting : ∃ tree, tree.isBareCatalog = false ∧ parse "SET CATALOG = 'é' -- c" = .ok tree ∧
    parse (";" ++ "SET CATALOG = 'é' -- c") = .ok tree ∧ parse ("SET CATALOG = 'é' -- c" ++ ";") = .ok tree := by
  have hread : (parse "SET CATALOG = 'é' -- c").toOption.any (!·.isBareCatalog) = true := by decide +kernel
  obtain ⟨tree, hparse, hbare⟩ := exists_of_parse hread
  rw [Bool.not_eq_true'] at hbare
  obtain ⟨hbefore, hbehind⟩ := parse_of_semicolon hparse
  exact ⟨tree, hbare, hparse, hbefore, hbehind hbare⟩

/-- The semicolon behind `SET CATALOG` is taken for the start of a name, so the setting becomes another statement. -/
theorem not_parse_of_semicolon :
    ¬ ∀ text tree, parse text = .ok tree → parse (text ++ ";") = .ok tree := by
  intro h
  have hread : (parse "SET CATALOG").toOption.any isBareCatalog = true := by decide +kernel
  have hnamed : (parse ("SET CATALOG" ++ ";")).toOption.any (!·.isBareCatalog) = true := by decide +kernel
  obtain ⟨tree, hparse, hbare⟩ := exists_of_parse hread
  rw [h _ _ hparse] at hnamed
  simp [Except.toOption, hbare] at hnamed

end Statement

end SqlTidy
