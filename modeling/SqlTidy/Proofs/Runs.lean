import Mathlib.Data.Nat.Find
import SqlTidy.Proofs.Walk.Statement

/-!
# What a setting is cut out of

The rules for `SET` and `RESET` count tokens and then cut the source text. Here the runs are written out: how many
tokens they take (`Span`), and between which two offsets they cut. A cut is never missing, so these rules always
succeed.
-/

namespace SqlTidy

/-- A text without white space at its ends. -/
theorem Text.trim_eq_self {s : String} (h : Scan.StartsWithout isWhiteSpace s.toList)
    (h' : Scan.StartsWithout isWhiteSpace s.toList.reverse) : trim s = s := by
  have hfixed {cs : List Char} (hcs : Scan.StartsWithout isWhiteSpace cs) :
      cs.dropWhile isWhiteSpace = cs := by
    cases cs with
    | nil => rfl
    | cons c cs => rw [List.dropWhile_cons_of_neg (by simpa using hcs)]
  rw [trim, hfixed h, hfixed h', List.reverse_reverse, String.ofList_toList]

theorem Text.isWhiteSpace_toUpper (c : Char) : isWhiteSpace c.toUpper = isWhiteSpace c := by
  by_cases h : 97 ≤ c.toNat ∧ c.toNat ≤ 122
  · have hupper : c.toUpper.toNat = c.toNat - 32 := by rw [toNat_toUpper, if_pos h]
    rw [not_isWhiteSpace (by omega) (by omega), not_isWhiteSpace (by omega) (by omega)]
  · have hupper : c.toUpper = c := char_eq_iff.2 (by rw [toNat_toUpper, if_neg h])
    rw [hupper]

theorem Token.exists_of_isKeyword {t : Token} {keyword : String} (h : t.isKeyword keyword) :
    ∃ w, t = .word w ∧ Text.upper w = Text.upper keyword := by
  cases t with
  | word w => exact ⟨w, rfl, by simpa [isKeyword] using h⟩
  | _ => contradiction

/-- Letters of either case are no white space. -/
theorem Token.isSolid_of_upper {w : String} (h : (Token.word (Text.upper w)).IsSolid) :
    (Token.word w).IsSolid := by
  have hstarts {cs : List Char} (hcs : Scan.StartsWithout Text.isWhiteSpace (cs.map Char.toUpper)) :
      Scan.StartsWithout Text.isWhiteSpace cs := by
    cases cs with
    | nil => exact Scan.startsWithout_nil _
    | cons c cs =>
      rw [List.map_cons, Scan.startsWithout_cons, Text.isWhiteSpace_toUpper] at hcs
      exact Scan.startsWithout_cons.2 hcs
  obtain ⟨hne, hfirst, hlast⟩ := h
  rw [lexeme, Text.toList_upper] at hne hfirst hlast
  rw [← List.map_reverse] at hlast
  exact ⟨fun hnil => hne (congrArg (List.map Char.toUpper) hnil), hstarts hfirst, hstarts hlast⟩

namespace Input

/-- The source text between two offsets without the white space around it, if anything is left. -/
def trimmed (i : Input) (start stop : Nat) : Option String :=
  let text := Text.trim ((Text.slice? i.source start stop).getD "")
  if text.isEmpty then none else some text

/-- The source text of `n` tokens from a position on. -/
def textOf (i : Input) (pos n : Nat) : Option String :=
  if n = 0 then none else i.trimmed (i.startAt pos) (i.endBefore (pos + n))

theorem textOf_zero (i : Input) (pos : Nat) : i.textOf pos 0 = none := if_pos rfl

theorem textOf_succ (i : Input) (pos n : Nat) :
    i.textOf pos (n + 1) = i.trimmed (i.startAt pos) (i.endBefore (pos + n + 1)) :=
  if_neg (Nat.succ_ne_zero n)

namespace Scanned

variable {i : Input} (h : i.Scanned)

include h

theorem startAt_le_size (k : Nat) : i.startAt k ≤ i.source.utf8ByteSize := by
  obtain ⟨rest, before, htext, hbefore⟩ := h.isBoundary_startAt k
  rw [← Text.byteSize_toList, htext, Text.byteSize_append]
  omega

theorem endBefore_le_size {k : Nat} (hk : i.tokenAt k ≠ .eof) :
    i.endBefore (k + 1) ≤ i.source.utf8ByteSize :=
  Nat.le_trans (h.endBefore_le_startAt hk (Nat.lt_succ_self k)) (h.startAt_le_size (k + 1))

/-- The text of one token is the token, if no white space is dropped from it. -/
theorem textOf_one {pos : Nat} (hne : i.tokenAt pos ≠ .eof) (hsolid : (i.tokenAt pos).IsSolid) :
    i.textOf pos 1 = some (String.ofList (i.tokenAt pos).lexeme) := by
  obtain ⟨rest, hremains, hend⟩ := h.remains hne
  have hempty : (String.ofList (i.tokenAt pos).lexeme).isEmpty = false := by
    rw [Bool.eq_false_iff, ne_eq, String.isEmpty_iff, ← String.toList_inj, String.toList_ofList]
    exact hsolid.ne_nil
  rw [textOf_succ, Nat.add_zero, hend, trimmed, hremains.slice?, Option.getD_some,
    Text.trim_eq_self (by simpa using hsolid.starts) (by simpa using hsolid.ends)]
  simp only [hempty]
  rfl

end Scanned

end Input

/-! ## Runs that succeed -/

namespace Parse

variable {α β : Type} {i : Input} {pos mid next : Nat}

/-- A parser succeeds. -/
abbrev Runs (p : Parse α) (i : Input) (pos : Nat) (a : α) (next : Nat) : Prop :=
  p i pos = (.ok a, next)

theorem Runs.bind {p : Parse α} {k : α → Parse β} {a : α} {b : β} (hp : Runs p i pos a mid)
    (hk : Runs (k a) i mid b next) : Runs (p >>= k) i pos b next := by
  unfold Runs
  simp only [Bind.bind]
  rw [hp]
  exact hk

/-- A run that succeeds, taken apart. -/
theorem Runs.exists_of_bind {p : Parse α} {k : α → Parse β} {b : β} (h : Runs (p >>= k) i pos b next) :
    ∃ a mid, Runs p i pos a mid ∧ Runs (k a) i mid b next := by
  unfold Runs at h
  simp only [Bind.bind] at h
  split at h
  · rename_i a mid ha
    exact ⟨a, mid, ha, h⟩
  · cases h

theorem Runs.unique {p : Parse α} {a b : α} {mid : Nat} (h : Runs p i pos a mid) (h' : Runs p i pos b next) :
    a = b ∧ mid = next := by
  obtain ⟨ha, hmid⟩ := Prod.mk.inj (h.symm.trans h')
  exact ⟨Except.ok.inj ha, hmid⟩

/-- A run whose first step is known goes on behind it. -/
theorem Runs.behind {p : Parse α} {k : α → Parse β} {a : α} {b : β} (h : Runs (p >>= k) i pos b next)
    (hp : Runs p i pos a mid) : Runs (k a) i mid b next := by
  obtain ⟨a', mid', hp', hk⟩ := h.exists_of_bind
  obtain ⟨rfl, rfl⟩ := hp.unique hp'
  exact hk

theorem runs_pure (i : Input) (pos : Nat) (a : α) : Runs (pure a) i pos a pos := rfl

theorem runs_peek (i : Input) (pos n : Nat) : Runs (peek n) i pos (i.tokenAt (pos + n)) pos := rfl

theorem runs_atEnd (i : Input) (pos : Nat) : Runs atEnd i pos (decide (i.tokenAt pos = .eof)) pos := rfl

theorem runs_offset (i : Input) (pos : Nat) : Runs offset i pos (i.startAt pos) pos := rfl

theorem runs_previousEnd (i : Input) (pos : Nat) : Runs previousEnd i pos (i.endBefore pos) pos := rfl

theorem runs_isSymbol (i : Input) (pos : Nat) (s : Symbol) :
    Runs (isSymbol s) i pos (decide (i.tokenAt pos = .symbol s)) pos := rfl

theorem runs_isWord (i : Input) (pos : Nat) (keyword : String) :
    Runs (isWord keyword) i pos ((i.tokenAt pos).isKeyword keyword) pos := rfl

theorem runs_currentWord {w : String} (h : i.tokenAt pos = .word w) :
    Runs currentWord i pos (some (Text.upper w)) pos :=
  (runs_peek i pos 0).bind (by rw [Nat.add_zero, h]; rfl)

theorem runs_accept {s : Symbol} (h : i.tokenAt pos = .symbol s) :
    Runs (accept s) i pos true (pos + 1) := by
  have hne : i.tokenAt pos ≠ .eof := by simp [h]
  unfold Runs
  simp [accept, Bind.bind, acceptIf_of_ne_eof hne, h, Pure.pure]

theorem runs_accept_false {s : Symbol} (h : i.tokenAt pos ≠ .symbol s) :
    Runs (accept s) i pos false pos := by
  unfold Runs
  by_cases heof : i.tokenAt pos = .eof
  · simp [accept, Bind.bind, acceptIf_of_eof heof, Pure.pure]
  · simp [accept, Bind.bind, acceptIf_of_ne_eof heof, h, Pure.pure]

theorem runs_skip (h : i.tokenAt pos ≠ .eof) : Runs skip i pos () (pos + 1) := by
  unfold Runs
  simp [skip, Bind.bind, acceptIf_of_ne_eof h, Pure.pure]

theorem runs_acceptWord {keyword : String} (h : (i.tokenAt pos).isKeyword keyword) :
    Runs (acceptWord keyword) i pos true (pos + 1) := by
  unfold Runs
  simp [acceptWord, Bind.bind, acceptIf_of_ne_eof (ne_eof_of_isKeyword h), h, Pure.pure]

theorem runs_acceptWord_false {keyword : String} (h : ¬ (i.tokenAt pos).isKeyword keyword) :
    Runs (acceptWord keyword) i pos false pos := by
  unfold Runs
  by_cases heof : i.tokenAt pos = .eof
  · simp [acceptWord, Bind.bind, acceptIf_of_eof heof, Pure.pure]
  · simp [acceptWord, Bind.bind, acceptIf_of_ne_eof heof, h, Pure.pure]

theorem runs_peekWord (i : Input) (pos n : Nat) (keyword : String) :
    Runs (peekWord n keyword) i pos ((i.tokenAt (pos + n)).isKeyword keyword) pos := rfl

theorem runs_skipBy {keywords : List String} (h : i.HasWords pos keywords) :
    Runs (skipBy keywords.length) i pos () (pos + keywords.length) := by
  induction keywords generalizing pos with
  | nil => exact runs_pure i pos ()
  | cons keyword rest ih =>
    have hrest := ih h.2
    rw [Nat.add_assoc, Nat.add_comm 1] at hrest
    exact (runs_skip (ne_eof_of_isKeyword h.1)).bind hrest

theorem runs_peekWords {n : Nat} {keywords : List String} (h : i.HasWords (pos + n) keywords) :
    Runs (peekWords n keywords) i pos true pos := by
  induction keywords generalizing n with
  | nil => exact runs_pure i pos true
  | cons keyword rest ih =>
    refine Runs.bind (runs_peekWord i pos n keyword) ?_
    rw [if_pos h.1]
    exact ih (n := n + 1) h.2

theorem runs_peekWords_false {n : Nat} {keywords : List String} (h : ¬ i.HasWords (pos + n) keywords) :
    Runs (peekWords n keywords) i pos false pos := by
  induction keywords generalizing n with
  | nil => exact absurd trivial h
  | cons keyword rest ih =>
    refine Runs.bind (runs_peekWord i pos n keyword) ?_
    by_cases hword : (i.tokenAt (pos + n)).isKeyword keyword
    · rw [if_pos hword]
      exact ih (n := n + 1) fun hrest => h ⟨hword, hrest⟩
    · rw [if_neg hword]
      exact runs_pure i pos false

theorem runs_acceptWords {keywords : List String} (h : i.HasWords pos keywords) :
    Runs (acceptWords keywords) i pos true (pos + keywords.length) :=
  (runs_peekWords h).bind ((runs_skipBy h).bind (runs_pure i _ true))

theorem runs_acceptWords_false {keywords : List String} (h : ¬ i.HasWords pos keywords) :
    Runs (acceptWords keywords) i pos false pos :=
  (runs_peekWords_false h).bind (runs_pure i _ false)

end Parse

namespace Grammar

open Parse

/-- The tokens at which a statement ends. -/
def endsStatement : Token → Bool
  | .eof | .symbol .semicolon => true
  | _ => false

/-- The tokens at which the key of a setting ends. -/
def endsKey (t : Token) : Bool := t = .symbol .eq || endsStatement t

/-- From a position on there are `n` tokens before the first one at which something ends. -/
structure Span (i : Input) (ends : Token → Bool) (pos n : Nat) : Prop where
  inside (k : Nat) (h : k < n) : ends (i.tokenAt (pos + k)) = false
  stop : ends (i.tokenAt (pos + n)) = true

variable {i : Input} {ends : Token → Bool} {pos n m : Nat}

/-- The end mark ends everything. -/
theorem exists_span (ends : Token → Bool) (hi : i.Capped) (heof : ends .eof = true) (pos : Nat) : ∃ n, Span i ends pos n := by
  have hends : ∃ n, ends (i.tokenAt (pos + n)) = true :=
    ⟨i.last, by rw [(hi.eof_iff _).2 (Nat.le_add_left _ _), heof]⟩
  classical
  exact ⟨Nat.find hends, fun k hk => Bool.eq_false_iff.2 (Nat.find_min hends hk), Nat.find_spec hends⟩

namespace Span

theorem ne_eof (h : Span i ends pos n) (heof : ends .eof = true) {k : Nat} (hk : k < n) :
    i.tokenAt (pos + k) ≠ .eof := by
  intro ht
  have hinside := h.inside k hk
  simp [ht, heof] at hinside

theorem le_remaining (h : Span i ends pos n) (hi : i.Capped) (heof : ends .eof = true) :
    n ≤ i.remaining pos := by
  cases n with
  | zero => exact Nat.zero_le _
  | succ n =>
    have hlast := hi.lt_last (h.ne_eof heof (Nat.lt_succ_self n))
    unfold Input.last at hlast
    unfold Input.remaining
    omega

theorem succ (h : Span i ends pos (n + 1)) : Span i ends (pos + 1) n where
  inside k hk := by
    have hinside := h.inside (k + 1) (Nat.succ_lt_succ hk)
    rwa [Nat.add_comm k, ← Nat.add_assoc] at hinside
  stop := by
    have hstop := h.stop
    rwa [Nat.add_comm n, ← Nat.add_assoc] at hstop

end Span

/-! ## Taking tokens -/

/-- A step that takes one token, unless something ends at it. -/
structure Takes (ends : Token → Bool) (step : Parse (Option Unit)) : Prop where
  eof : ends .eof = true
  declines (i : Input) (pos : Nat) (h : ends (i.tokenAt pos) = true) : Runs step i pos none pos
  takes (i : Input) (pos : Nat) (h : ends (i.tokenAt pos) = false) : Runs step i pos (some ()) (pos + 1)

theorem runs_inStatement (i : Input) (pos : Nat) :
    Runs inStatement i pos (!endsStatement (i.tokenAt pos)) pos := by
  refine Runs.bind (runs_peek i pos 0) ?_
  rw [Nat.add_zero]
  cases i.tokenAt pos with
  | symbol s => cases s <;> rfl
  | _ => rfl

theorem takes_skipToken : Takes endsStatement skipToken where
  eof := rfl
  declines i pos h := (runs_inStatement i pos).bind (by rw [h]; rfl)
  takes i pos h := by
    have hne : i.tokenAt pos ≠ .eof := by
      intro heof
      rw [heof] at h
      contradiction
    refine (runs_inStatement i pos).bind ?_
    rw [h]
    exact (runs_skip hne).bind rfl

theorem takes_skipKeyToken : Takes endsKey skipKeyToken where
  eof := rfl
  declines i pos h := by
    refine (runs_isSymbol i pos .eq).bind ?_
    by_cases heq : i.tokenAt pos = .symbol .eq
    · simp only [heq]
      rfl
    · simp only [heq]
      exact takes_skipToken.declines i pos (by simpa [endsKey, heq] using h)
  takes i pos h := by
    refine (runs_isSymbol i pos .eq).bind ?_
    rw [endsKey, Bool.or_eq_false_iff, decide_eq_false_iff_not] at h
    simp only [h.1]
    exact takes_skipToken.takes i pos h.2

namespace Takes

variable {step : Parse (Option Unit)} (h : Takes ends step)

include h

theorem runs_manyUpTo (hspan : Span i ends pos n) {bound : Nat} (hbound : n < bound) :
    Runs (manyUpTo step bound) i pos (List.replicate n ()) (pos + n) := by
  induction n generalizing pos bound with
  | zero =>
    obtain ⟨bound, rfl⟩ : ∃ k, bound = k + 1 := ⟨bound - 1, by omega⟩
    exact (h.declines i pos hspan.stop).bind rfl
  | succ n ih =>
    obtain ⟨bound, rfl⟩ : ∃ k, bound = k + 1 := ⟨bound - 1, by omega⟩
    have hrest := ih hspan.succ (Nat.lt_of_succ_lt_succ hbound)
    refine (h.takes i pos (hspan.inside 0 (Nat.zero_lt_succ n))).bind (hrest.bind ?_)
    rw [Nat.add_assoc, Nat.add_comm 1]
    rfl

theorem runs_many (hi : i.Capped) (hspan : Span i ends pos n) :
    Runs (many step) i pos (List.replicate n ()) (pos + n) :=
  h.runs_manyUpTo hspan (Nat.lt_succ_of_le (hspan.le_remaining hi h.eof))

end Takes

/-! ## The cuts -/

theorem runs_rawText (i : Input) (pos start stop : Nat) :
    Runs (rawText start stop) i pos (i.trimmed start stop) pos := rfl

/-- A setting without an equals sign is all key. -/
theorem runs_rawSetting_key (hi : i.Capped) (hkey : Span i endsKey pos n)
    (hend : i.tokenAt (pos + n) ≠ .symbol .eq) :
    Runs rawSetting i pos (i.textOf pos n, none) (pos + n) := by
  refine (runs_offset i pos).bind ((takes_skipKeyToken.runs_many hi hkey).bind ?_)
  refine (runs_isSymbol i (pos + n) .eq).bind ?_
  simp only [hend, List.isEmpty_replicate]
  cases n with
  | zero =>
    rw [Input.textOf_zero]
    rfl
  | succ n =>
    rw [Input.textOf_succ]
    exact (runs_previousEnd i _).bind ((runs_rawText i _ _ _).bind (runs_pure i _ _))

/-- The key of a setting goes up to its first equals sign, the value from there to the end. -/
theorem runs_rawSetting_value (hi : i.Capped) (hkey : Span i endsKey pos n)
    (hend : i.tokenAt (pos + n) = .symbol .eq) (hvalue : Span i endsStatement (pos + n + 1) m) :
    Runs rawSetting i pos
      (i.trimmed (i.startAt pos) (i.startAt (pos + n)), i.textOf (pos + n + 1) m) (pos + n + 1 + m) := by
  refine (runs_offset i pos).bind ((takes_skipKeyToken.runs_many hi hkey).bind ?_)
  refine (runs_isSymbol i (pos + n) .eq).bind ?_
  simp only [hend]
  refine (runs_offset i _).bind ((runs_rawText i _ _ _).bind ?_)
  refine (runs_skip (by simp [hend])).bind ((runs_offset i _).bind ?_)
  refine (takes_skipToken.runs_many hi hvalue).bind ?_
  simp only [List.isEmpty_replicate]
  cases m with
  | zero =>
    rw [Input.textOf_zero]
    rfl
  | succ m =>
    rw [Input.textOf_succ]
    exact (runs_previousEnd i _).bind ((runs_rawText i _ _ _).bind (runs_pure i _ _))

theorem runs_catalogName (hi : i.Capped) (hname : Span i endsStatement pos n) :
    Runs catalogName i pos
      ((Text.slice? i.source (i.startAt pos) (i.endBefore (pos + n))).getD "") (pos + n) :=
  (runs_offset i pos).bind <| (takes_skipToken.runs_many hi hname).bind <|
    (runs_previousEnd i _).bind rfl

/-- Behind `SET` comes the word `CATALOG` and something that counts as a name. -/
def namesCatalog (i : Input) (pos : Nat) : Bool :=
  (i.tokenAt pos).isKeyword "CATALOG" &&
    (i.tokenAt (pos + 1) ≠ .symbol .eq && i.tokenAt (pos + 1) ≠ .eof)

theorem runs_isSetCatalog (i : Input) (pos : Nat) : Runs isSetCatalog i pos (namesCatalog i pos) pos := by
  refine (runs_peek i pos 1).bind ((runs_isWord i pos "CATALOG").bind ?_)
  unfold namesCatalog
  cases (i.tokenAt pos).isKeyword "CATALOG" <;> rfl

/-! ## Whole texts -/

/-- Semicolons, a statement and again semicolons up to the end. -/
structure Whole (i : Input) (s : Statement) (first mid : Nat) : Prop where
  before (k : Nat) (h : k < first) : i.tokenAt k = .symbol .semicolon
  starts : endsStatement (i.tokenAt first) = false
  runs : Runs statement i first s mid
  behind (k : Nat) (h : mid ≤ k) : endsStatement (i.tokenAt k) = true

/-- The tokens that are no semicolons. -/
def isOther (t : Token) : Bool := t ≠ .symbol .semicolon

theorem takes_skipSemicolon : Takes isOther skipSemicolon where
  eof := rfl
  declines i pos h := (runs_accept_false (by simpa [isOther] using h)).bind (runs_pure i _ _)
  takes i pos h := (runs_accept (by simpa [isOther] using h)).bind (runs_pure i _ _)

theorem endsStatement_iff {t : Token} : endsStatement t = true ↔ t = .eof ∨ t = .symbol .semicolon := by
  cases t with
  | symbol s => cases s <;> simp [endsStatement]
  | eof => simp [endsStatement]
  | _ => simp [endsStatement]

/-- Semicolons from a position on are taken up to the first other token. -/
theorem runs_semicolons (hi : i.Capped) (pos : Nat) :
    ∃ n, Span i isOther pos n ∧ Runs (many skipSemicolon) i pos (List.replicate n ()) (pos + n) := by
  obtain ⟨n, hspan⟩ := exists_span isOther hi rfl pos
  exact ⟨n, hspan, takes_skipSemicolon.runs_many hi hspan⟩

theorem Span.semicolon {k : Nat} (h : Span i isOther pos n) (hk : k < n) :
    i.tokenAt (pos + k) = .symbol .semicolon := by
  simpa [isOther] using h.inside k hk

theorem exists_whole_of_runs (hi : i.Capped) {s : Statement} {next : Nat}
    (h : Runs wholeStatement i 0 s next) : ∃ first mid, Whole i s first mid := by
  obtain ⟨n, hbefore, hsemicolons⟩ := runs_semicolons hi 0
  have h := (h.behind hsemicolons).behind (runs_atEnd i _)
  rw [Nat.zero_add] at h
  by_cases heof : i.tokenAt n = .eof
  · simp only [heof] at h
    cases h
  simp only [heof] at h
  obtain ⟨tree, mid, hstatement, h⟩ := h.exists_of_bind
  obtain ⟨k, hbehind, hsemicolons⟩ := runs_semicolons hi mid
  have h := (h.behind hsemicolons).behind (runs_atEnd i _)
  by_cases hend : i.tokenAt (mid + k) = .eof
  · simp only [hend] at h
    obtain ⟨rfl, -⟩ := (runs_pure i _ tree).unique h
    refine ⟨n, mid, fun j hj => ?_, ?_, hstatement, fun j hj => endsStatement_iff.2 ?_⟩
    · have := hbefore.semicolon hj
      rwa [Nat.zero_add] at this
    · have hother := hbefore.stop
      rw [Nat.zero_add] at hother
      rw [Bool.eq_false_iff, ne_eq, endsStatement_iff, not_or]
      exact ⟨heof, by simpa [isOther] using hother⟩
    · rcases Nat.lt_or_ge j (mid + k) with hlt | hge
      · have := hbehind.semicolon (k := j - mid) (by omega)
        rw [Nat.add_sub_cancel' hj] at this
        exact .inr this
      · exact .inl ((hi.eof_iff j).2 (Nat.le_trans ((hi.eof_iff _).1 hend) hge))
  · simp only [hend] at h
    cases h

/-- A statement that starts with a word is read by the rule for that word. -/
theorem exists_runs_statementOf {s : Statement} {w : String} {next : Nat} (h : Runs statement i pos s next)
    (hword : i.tokenAt pos = .word w) : ∃ inner, Runs (statementOf inner (Text.upper w)) i pos s next := by
  have hrun := Runs.behind (k := fun found => if found = true then _ else _) h (runs_isSymbol i pos .lparen)
  rw [if_neg (by simp [hword])] at hrun
  exact ⟨_, hrun.behind (runs_currentWord hword)⟩

theorem runs_statement {s : Statement} {w : String} {next : Nat} (hword : i.tokenAt pos = .word w)
    (hrun : ∀ inner, Runs (statementOf inner (Text.upper w)) i pos s next) : Runs statement i pos s next := by
  refine Runs.bind (k := fun found => if found = true then _ else _) (runs_isSymbol i pos .lparen) ?_
  rw [if_neg (by simp [hword])]
  exact (runs_currentWord hword).bind (hrun _)

theorem Whole.exists_runs (hi : i.Capped) {s : Statement} {first mid : Nat} (h : Whole i s first mid) :
    ∃ next, Runs wholeStatement i 0 s next := by
  have hstarts : ¬ (i.tokenAt first = .eof ∨ i.tokenAt first = .symbol .semicolon) := by
    rw [← endsStatement_iff, Bool.not_eq_true]
    exact h.starts
  have hbefore : Span i isOther 0 first := by
    refine ⟨fun k hk => ?_, ?_⟩
    · simp [isOther, h.before k hk]
    · simpa [isOther] using fun hsemicolon => hstarts (.inr hsemicolon)
  have hfirst := takes_skipSemicolon.runs_many hi hbefore
  rw [Nat.zero_add] at hfirst
  obtain ⟨k, hbehind, hsemicolons⟩ := runs_semicolons hi mid
  have hend : i.tokenAt (mid + k) = .eof := by
    rcases endsStatement_iff.1 (h.behind (mid + k) (Nat.le_add_right mid k)) with heof | hsemicolon
    · exact heof
    · have hstop := hbehind.stop
      simp [isOther, hsemicolon] at hstop
  refine ⟨mid + k, hfirst.bind ((runs_atEnd i first).bind ?_)⟩
  rw [decide_eq_false fun heof => hstarts (.inl heof)]
  refine h.runs.bind (hsemicolons.bind ((runs_atEnd i _).bind ?_))
  simp only [hend]
  exact runs_pure i _ s

end Grammar

/-- A text with a statement and nothing else. -/
theorem Statement.parse_of_runs {text : String} {tokens : List Spanned} {s : Statement} {next : Nat}
    (hscan : Token.scan text = .ok tokens) (hstart : Grammar.endsStatement (Input.tokenAt ⟨text, tokens.toArray⟩ 0) = false)
    (hrun : Parse.Runs Grammar.statement ⟨text, tokens.toArray⟩ 0 s next)
    (hnext : Input.tokenAt ⟨text, tokens.toArray⟩ next = .eof) : parse text = .ok s := by
  have hcapped : (Input.mk text tokens.toArray).Capped := Input.Scanned.capped hscan
  have hwhole : Grammar.Whole ⟨text, tokens.toArray⟩ s 0 next := by
    refine ⟨nofun, hstart, hrun, fun k hk => ?_⟩
    rw [(hcapped.eof_iff k).2 (Nat.le_trans ((hcapped.eof_iff next).1 hnext) hk)]
    rfl
  obtain ⟨stop, hparse⟩ := hwhole.exists_runs hcapped
  rw [parse_of_scan hscan, hparse]

/-- A text that is read as a statement with some property. -/
theorem Statement.exists_of_parse {text : String} {p : Statement → Bool}
    (h : (parse text).toOption.any p = true) : ∃ tree, parse text = .ok tree ∧ p tree = true := by
  cases hparse : parse text with
  | error e =>
    rw [hparse] at h
    contradiction
  | ok tree =>
    rw [hparse] at h
    exact ⟨tree, rfl, h⟩

end SqlTidy
