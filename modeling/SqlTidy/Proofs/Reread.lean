import SqlTidy.Proofs.RoundTrip
import SqlTidy.Proofs.Runs

/-!
# Reading a printed page

`Rereads p ts a F` says that the rule `p` reads the tokens `ts` as `a`, wherever they stand, if the token behind
them satisfies `F`. The last part is there because a rule looks at the token at which it stops: a name without
parentheses must not stand in front of one.

A page is read back by following the rule along the tokens of what it printed, with one lemma for each combinator.
The tokens of a loop are those of its items, so its rounds are counted by the items, and the rounds that a loop or a
recursion may take are never fewer than the tokens.
-/

namespace SqlTidy

namespace Input

variable {i : Input} {pos : Nat} {ts : List Token}

theorem tokenAt_ahead (i : Input) (pos : Nat) : i.tokenAt pos = (i.ahead pos).headD .eof := by
  cases h : i.tokens[pos]? with
  | none =>
    rw [ahead_of_none h, tokenAt, h]
    rfl
  | some t =>
    rw [ahead_cons h, tokenAt, h]
    rfl

theorem remaining_ahead (i : Input) (pos : Nat) : i.remaining pos = (i.ahead pos).length := by
  simp [remaining, ahead]

end Input

namespace Parse

open Input

variable {α β : Type} {F G : Token → Prop} {ts us : List Token}

/-- The rule reads the tokens as a value, in front of any token with a property. -/
def Rereads (p : Parse α) (ts : List Token) (a : α) (F : Token → Prop) : Prop :=
  ∀ (i : Input) (pos : Nat) (rest : List Token), i.ahead pos = ts ++ rest → F (rest.headD .eof) →
    ∃ next, Runs p i pos a next ∧ i.ahead next = rest

namespace Rereads

variable {p : Parse α} {k : α → Parse β} {a : α} {b : β}

theorem mono (h : Rereads p ts a G) (hF : ∀ t, F t → G t) : Rereads p ts a F :=
  fun i pos rest hpos hrest => h i pos rest hpos (hF _ hrest)

theorem pure (a : α) (F : Token → Prop) : Rereads (pure a) [] a F :=
  fun i pos _ hpos _ => ⟨pos, runs_pure i pos a, hpos⟩

/-- One rule behind another. The first one stops in front of what the second one reads. -/
theorem bind (hp : Rereads p ts a G) (hk : Rereads (k a) us b F) (hG : ∀ t, F t → G (us.headD t)) :
    Rereads (p >>= k) (ts ++ us) b F := by
  intro i pos rest hpos hrest
  rw [List.append_assoc] at hpos
  have hhead : G ((us ++ rest).headD .eof) := by
    cases us with
    | nil => exact hG _ hrest
    | cons u us => exact hG _ hrest
  obtain ⟨mid, hrun, hmid⟩ := hp i pos (us ++ rest) hpos hhead
  obtain ⟨next, hrun', hnext⟩ := hk i mid rest hmid hrest
  exact ⟨next, hrun.bind hrun', hnext⟩

/-- One token and something behind it. -/
theorem cons {t : Token} (hp : Rereads p [t] a fun _ => True) (hk : Rereads (k a) us b F) :
    Rereads (p >>= k) (t :: us) b F :=
  bind hp hk fun _ _ => trivial

/-- A rule that takes nothing, and something behind it. -/
theorem look (hp : Rereads p [] a G) (hk : Rereads (k a) us b F) (hG : ∀ t, F t → G (us.headD t)) :
    Rereads (p >>= k) us b F :=
  bind hp hk hG

/-- A rule whose result is put into something larger. -/
theorem map (hp : Rereads p ts a F) (f : α → β) : Rereads (do return f (← p)) ts (f a) F := by
  have hpure : Rereads (Pure.pure (f a)) [] (f a) F := .pure (f a) F
  have hall := hp.bind (k := fun a => Pure.pure (f a)) hpure fun _ => id
  rwa [List.append_nil] at hall

theorem ite_true {c : Prop} [Decidable c] {q : Parse α} (hc : c) (h : Rereads p ts a F) :
    Rereads (if c then p else q) ts a F := by
  rwa [if_pos hc]

theorem ite_false {c : Prop} [Decidable c] {q : Parse α} (hc : ¬ c) (h : Rereads q ts a F) :
    Rereads (if c then p else q) ts a F := by
  rwa [if_neg hc]

end Rereads

/-! ## Single tokens -/

theorem rereads_acceptIf {meaning : Token → Option α} {t : Token} {a : α} (ht : t ≠ .eof)
    (h : meaning t = some a) : Rereads (acceptIf meaning) [t] (some a) fun _ => True := by
  intro i pos rest hpos _
  have htoken := tokenAt_of_ahead hpos
  refine ⟨pos + 1, ?_, ahead_succ hpos⟩
  unfold Runs
  rw [acceptIf_of_ne_eof (htoken ▸ ht), htoken, h]
  rfl

theorem rereads_acceptIf_none {meaning : Token → Option α} :
    Rereads (acceptIf meaning) [] none fun t => t = .eof ∨ meaning t = none := by
  intro i pos rest hpos hrest
  rw [← List.nil_append rest, ← hpos, ← tokenAt_ahead] at hrest
  refine ⟨pos, ?_, hpos⟩
  unfold Runs
  by_cases heof : i.tokenAt pos = .eof
  · rw [acceptIf_of_eof heof]
  · rw [acceptIf_of_ne_eof heof, hrest.resolve_left heof]
    rfl

theorem rereads_expectIf {what : String} {meaning : Token → Option α} {t : Token} {a : α} (ht : t ≠ .eof)
    (h : meaning t = some a) : Rereads (expectIf what meaning) [t] a fun _ => True :=
  (rereads_acceptIf ht h).cons (.pure a _)

/-- Looking at the next token. -/
theorem rereads_look {f : Token → Parse β} {b : β} (h : ∀ t, F t → Rereads (f (ts.headD t)) ts b F) :
    Rereads (current >>= f) ts b F := by
  intro i pos rest hpos hrest
  obtain ⟨next, hrun, hnext⟩ := h _ hrest i pos rest hpos hrest
  have htoken : i.tokenAt pos = ts.headD (rest.headD .eof) := by
    rw [tokenAt_ahead, hpos]
    cases ts <;> rfl
  refine ⟨next, Runs.bind (runs_peek i pos 0) ?_, hnext⟩
  rw [Nat.add_zero, htoken]
  exact hrun

theorem rereads_isSymbol (s : Symbol) (b : Bool) :
    Rereads (isSymbol s) [] b fun t => decide (t = .symbol s) = b := by
  refine rereads_look fun t ht => ?_
  show Rereads (Pure.pure (decide (t = .symbol s))) [] b _
  rw [ht]
  exact .pure b _

theorem rereads_accept (s : Symbol) : Rereads (accept s) [.symbol s] true fun _ => True :=
  (rereads_acceptIf (t := .symbol s) (a := ()) nofun (if_pos rfl)).map _

theorem rereads_accept_false (s : Symbol) : Rereads (accept s) [] false fun t => t ≠ .symbol s :=
  rereads_acceptIf_none.look (.pure _ _) fun _ ht => .inr (if_neg ht)

theorem rereads_expect (s : Symbol) : Rereads (expect s) [.symbol s] () fun _ => True :=
  (rereads_accept s).cons (.pure _ _)

theorem rereads_skip {t : Token} (ht : t ≠ .eof) : Rereads skip [t] () fun _ => True :=
  (rereads_acceptIf ht rfl).cons (.pure _ _)

/-! ## Keywords -/

theorem isKeyword_word (keyword : String) : (Token.word keyword).isKeyword keyword := by
  simp [Token.isKeyword]

/-- A keyword in its printed form. -/
theorem rereads_acceptWord (keyword : String) : Rereads (acceptWord keyword) [.word keyword] true fun _ => True :=
  (rereads_acceptIf (t := .word keyword) (a := ()) nofun (if_pos (isKeyword_word keyword))).map _

theorem rereads_acceptWord_false (keyword : String) :
    Rereads (acceptWord keyword) [] false fun t => ¬ t.isKeyword keyword :=
  rereads_acceptIf_none.look (.pure _ _) fun _ ht => .inr (if_neg ht)

theorem rereads_expectWord (keyword : String) : Rereads (expectWord keyword) [.word keyword] () fun _ => True :=
  (rereads_acceptWord keyword).cons (.pure _ _)

/-- A phrase in its printed form. -/
theorem rereads_acceptWords (keywords : List String) :
    Rereads (acceptWords keywords) (keywords.map .word) true fun _ => True := by
  intro i pos rest hpos _
  have hwords : i.HasWords pos keywords ∧ i.ahead (pos + keywords.length) = rest := by
    induction keywords generalizing pos with
    | nil => exact ⟨trivial, hpos⟩
    | cons keyword keywords ih =>
      obtain ⟨hwords, hrest⟩ := ih (pos + 1) (ahead_succ hpos)
      rw [Nat.add_assoc, Nat.add_comm 1] at hrest
      refine ⟨⟨?_, hwords⟩, hrest⟩
      rw [tokenAt_of_ahead hpos]
      exact isKeyword_word keyword
  exact ⟨_, runs_acceptWords hwords.1, hwords.2⟩

theorem rereads_acceptWords_false (keyword : String) (keywords : List String) :
    Rereads (acceptWords (keyword :: keywords)) [] false fun t => ¬ t.isKeyword keyword := by
  intro i pos rest hpos hrest
  rw [← List.nil_append rest, ← hpos, ← tokenAt_ahead] at hrest
  exact ⟨pos, runs_acceptWords_false fun hwords => hrest hwords.1, hpos⟩

/-! ## Choices, loops and recursion -/

theorem Rereads.maybe_true {test : Parse Bool} {p : Parse α} {a : α} (htest : Rereads test ts true G)
    (hp : Rereads p us a F) (hG : ∀ t, F t → G (us.headD t)) :
    Rereads (maybe test p) (ts ++ us) (some a) F := by
  exact htest.bind (.ite_true rfl (hp.map some)) hG

theorem Rereads.maybe_false {test : Parse Bool} (htest : Rereads test [] false F) (p : Parse α) :
    Rereads (maybe test p) [] none F :=
  htest.look (.ite_false Bool.false_ne_true (.pure none F)) fun _ => id

/-- A loop reads its items one after the other. Each has a token, so the rounds do not run out. -/
theorem Rereads.many {step : Parse (Option α)} {tokens : α → List Token} {xs : List α}
    (h : ∀ x ∈ xs, Rereads step (tokens x) (some x) G) (hstop : Rereads step [] none F)
    (hG : ∀ x ∈ xs, ∃ t ts, tokens x = t :: ts ∧ G t) (hF : ∀ t, F t → G t) :
    Rereads (many step) (xs.flatMap tokens) xs F := by
  have hrounds (n : Nat) (hn : xs.length < n) : Rereads (manyUpTo step n) (xs.flatMap tokens) xs F := by
    induction xs generalizing n with
    | nil =>
      obtain ⟨n, rfl⟩ : ∃ m, n = m + 1 := ⟨n - 1, by omega⟩
      exact hstop.look (.pure [] F) fun t => id
    | cons x xs ih =>
      obtain ⟨n, rfl⟩ : ∃ m, n = m + 1 := ⟨n - 1, by omega⟩
      obtain ⟨hx, hxs⟩ := List.forall_mem_cons.1 h
      obtain ⟨-, hGxs⟩ := List.forall_mem_cons.1 hG
      have hrest := ih hxs hGxs n (Nat.lt_of_succ_lt_succ hn)
      rw [List.flatMap_cons]
      refine hx.bind (hrest.map (x :: ·)) fun t ht => ?_
      cases xs with
      | nil => exact hF t ht
      | cons y ys =>
        obtain ⟨u, us, hu, hGu⟩ := hGxs y List.mem_cons_self
        rw [List.flatMap_cons, hu]
        exact hGu
  have hlength : xs.length ≤ (xs.flatMap tokens).length := by
    clear hrounds h
    induction xs with
    | nil => exact Nat.le_refl 0
    | cons x xs ih =>
      obtain ⟨⟨t, ts, hx, -⟩, hGxs⟩ := List.forall_mem_cons.1 hG
      have hle := ih hGxs
      rw [List.flatMap_cons, hx, List.length_append, List.length_cons, List.length_cons]
      omega
  intro i pos rest hpos hrest
  refine hrounds _ ?_ i pos rest hpos hrest
  rw [remaining_ahead, hpos, List.length_append]
  omega

/-- The tokens of items with commas in front of each. -/
def commaTokens (tokens : α → List Token) (xs : List α) : List Token :=
  xs.flatMap fun x => .symbol .comma :: tokens x

theorem Rereads.commaSeparated {p : Parse α} {tokens : α → List Token} {x : α} {xs : List α}
    (h : ∀ y ∈ x :: xs, Rereads p (tokens y) y G) (hcomma : G (.symbol .comma))
    (hF : ∀ t, F t → G t ∧ t ≠ .symbol .comma) :
    Rereads (commaSeparated p) (tokens x ++ commaTokens tokens xs) (x :: xs) F := by
  obtain ⟨hx, hxs⟩ := List.forall_mem_cons.1 h
  have hstop : Rereads (Parse.maybe (accept .comma) p) [] none F :=
    ((rereads_accept_false .comma).mono fun t ht => (hF t ht).2).maybe_false p
  have hmany : Rereads (Parse.many (Parse.maybe (accept .comma) p)) (commaTokens tokens xs) xs F := by
    refine .many (fun y hy => ?_) hstop (fun y _ => ⟨_, _, rfl, hcomma⟩) fun t ht => (hF t ht).1
    exact (rereads_accept .comma).maybe_true (hxs y hy) fun _ _ => trivial
  refine hx.bind (hmany.map (x :: ·)) fun t ht => ?_
  cases xs with
  | nil => exact (hF t ht).1
  | cons y xs => exact hcomma

/-- A recursion has more levels than there are tokens. -/
theorem Rereads.fix {rule : Parse α → Parse α} {a : α}
    (h : ∀ n, ts.length < n → Rereads (nested rule n) ts a F) : Rereads (fix rule) ts a F := by
  intro i pos rest hpos hrest
  refine h _ ?_ i pos rest hpos hrest
  rw [remaining_ahead, hpos, List.length_append]
  omega

/-- A rule that reads all tokens of an input. -/
theorem Rereads.exists_runs {p : Parse α} {a : α} (h : Rereads p ts a F) (hF : F .eof) {i : Input}
    (hi : i.ahead 0 = ts ++ [.eof]) : ∃ next, Runs p i 0 a next ∧ i.tokenAt next = .eof := by
  obtain ⟨next, hrun, hnext⟩ := h i 0 [.eof] hi hF
  refine ⟨next, hrun, ?_⟩
  rw [tokenAt_ahead, hnext]
  rfl

/-! ## Statements -/

theorem rereads_currentWord (w : String) : Rereads currentWord [] (some (Text.upper w)) fun t => t = .word w := by
  refine rereads_look ?_
  rintro _ rfl
  exact .pure _ _

/-- The first word of a statement says which rule reads it. -/
theorem Rereads.statement {w : String} {s : Statement}
    (h : ∀ inner, Rereads (Grammar.statementOf inner (Text.upper w)) (.word w :: ts) s F) :
    Rereads Grammar.statement (.word w :: ts) s F := by
  refine Rereads.fix ?_
  rintro (_ | n) hn
  · exact absurd hn (Nat.not_lt_zero _)
  refine (rereads_isSymbol .lparen false).look (.ite_false Bool.false_ne_true ?_) fun _ _ => rfl
  exact (rereads_currentWord w).look (h _) fun _ _ => rfl

/-- A text with the tokens of a statement and no others. -/
theorem Rereads.parse {w : String} {s : Statement} (h : Rereads Grammar.statement (.word w :: ts) s F) (hF : F .eof)
    {text : String} {tokens : List Spanned} (hscan : Token.scan text = .ok tokens)
    (hahead : (Input.mk text tokens.toArray).ahead 0 = .word w :: ts ++ [.eof]) : Statement.parse text = .ok s := by
  obtain ⟨next, hrun, hnext⟩ := h.exists_runs hF hahead
  refine Statement.parse_of_runs hscan ?_ hrun hnext
  rw [tokenAt_of_ahead hahead]
  rfl

/-- Evaluates a rule on a whole text. -/
theorem exists_runs_of_scan (p : Parse α) (text : String) (h : ((Token.scan text).toOption.any fun tokens =>
    (p ⟨text, tokens.toArray⟩ 0).1.toOption.isSome) = true) :
    ∃ tokens a next, Token.scan text = .ok tokens ∧ Runs p ⟨text, tokens.toArray⟩ 0 a next := by
  cases hscan : Token.scan text with
  | error e =>
    rw [hscan] at h
    contradiction
  | ok tokens =>
    rw [hscan] at h
    rcases hrun : p ⟨text, tokens.toArray⟩ 0 with ⟨_ | a, next⟩
    · simp [Except.toOption, hrun] at h
    · exact ⟨tokens, a, next, rfl, hrun⟩

end Parse

/-! ## Tokens of pieces -/

/-- Whether a text is a word. -/
def Text.isWord (w : String) : Bool :=
  match w.toList with
  | [] => false
  | c :: cs => isWordStart c && cs.all isWordPart

theorem Token.wellFormed_word {w : String} (h : Text.isWord w = true) : (Token.word w).WellFormed := by
  unfold Text.isWord at h
  split at h
  · contradiction
  · rename_i c cs hw
    rw [Bool.and_eq_true] at h
    exact .word hw h.1 (List.all_eq_true.1 h.2)

namespace Piece

open Parse

theorem tokensOf_append (ps qs : List Piece) : tokensOf (ps ++ qs) = tokensOf ps ++ tokensOf qs :=
  List.filterMap_append

theorem tokensOf_commas {α : Type} (pieces : α → List Piece) (x : α) (xs : List α) :
    tokensOf (commas ((x :: xs).map pieces)) =
      tokensOf (pieces x) ++ commaTokens (fun y => tokensOf (pieces y)) xs := by
  induction xs generalizing x with
  | nil => exact (List.append_nil _).symm
  | cons y ys ih =>
    show tokensOf (pieces x ++ ([symbol .comma, .gap] ++ commas ((y :: ys).map pieces))) = _
    rw [tokensOf_append, tokensOf_append, ih]
    rfl

theorem length_tokensOf_le_commas {ps : List Piece} {items : List (List Piece)} (h : ps ∈ items) :
    (tokensOf ps).length ≤ (tokensOf (commas items)).length := by
  induction items with
  | nil => contradiction
  | cons qs items ih =>
    cases items with
    | nil =>
      obtain rfl := List.mem_singleton.1 h
      exact Nat.le_refl _
    | cons rs items =>
      show _ ≤ (tokensOf (qs ++ ([symbol .comma, .gap] ++ commas (rs :: items)))).length
      rw [tokensOf_append, tokensOf_append, List.length_append, List.length_append]
      rcases List.mem_cons.1 h with rfl | hrest
      · exact Nat.le_add_right _ _
      · have hle := ih hrest
        omega

/-- The token of a piece can be printed. -/
def Prints (p : Piece) : Prop := ∀ t ∈ p.token?, t.Printable

theorem prints_gap : Prints .gap := nofun

theorem prints_symbol {s : Symbol} (h : s ≠ .hintStart ∧ s ≠ .hintEnd) : (symbol s).Prints := by
  rintro _ ⟨⟩
  exact ⟨.symbol s, nofun, fun heq => h.1 (Token.symbol.inj heq), fun heq => h.2 (Token.symbol.inj heq)⟩

theorem prints_word {w : String} (h : (Token.word w).WellFormed) : Prints (.token (.word w)) := by
  rintro _ ⟨⟩
  exact ⟨h, nofun, nofun, nofun⟩

theorem prints_keyword {k : String} (h : Text.isWord k = true) : Prints (.keyword k) :=
  prints_word (Token.wellFormed_word h)

theorem prints_string {s : String} (h : (Token.string s).WellFormed) : Prints (.token (.string s)) := by
  rintro _ ⟨⟩
  exact ⟨h, nofun, nofun, nofun⟩

theorem prints_ident {i : Ident} (h : i.WellFormed) : Prints i.piece := by
  rintro _ ⟨⟩
  refine ⟨h, ?_, ?_, ?_⟩ <;> cases hq : i.quoted <;> simp [Ident.token, hq]

theorem prints_sepBy {separator : List Piece} {items : List (List Piece)} (hsep : ∀ p ∈ separator, p.Prints)
    (h : ∀ ps ∈ items, ∀ p ∈ ps, p.Prints) : ∀ p ∈ sepBy separator items, p.Prints := by
  induction items with
  | nil => nofun
  | cons ps items ih =>
    obtain ⟨hps, hitems⟩ := List.forall_mem_cons.1 h
    cases items with
    | nil => exact hps
    | cons qs items => exact List.forall_mem_append.2 ⟨hps, List.forall_mem_append.2 ⟨hsep, ih hitems⟩⟩

theorem prints_commas {items : List (List Piece)} (h : ∀ ps ∈ items, ∀ p ∈ ps, p.Prints) :
    ∀ p ∈ commas items, p.Prints :=
  prints_sepBy (by simpa using ⟨prints_symbol (by simp), prints_gap⟩) h

/-- A page of pieces that admit each other has their tokens. -/
theorem Laid.exists_scan {ps : List Piece} {page : String} (h : Laid ps page.toList)
    (hchain : ps.IsChain Admits) (hprint : ∀ p ∈ ps, p.Prints) :
    ∃ tokens, Token.scan page = .ok tokens ∧ (Input.mk page tokens.toArray).ahead 0 = tokensOf ps ++ [.eof] := by
  have hprintable : ∀ t ∈ tokensOf ps, t.Printable := by
    intro t ht
    obtain ⟨p, hp, hpt⟩ := List.mem_filterMap.1 ht
    exact hprint p hp t hpt
  have hreads : Scan.Reads ⟨false, false⟩ page.toList (tokensOf ps) := h.reads hchain hprintable nofun
  obtain ⟨tokens, hscan, hmap⟩ := hreads 0
  exact ⟨tokens, hscan, by simpa [Input.ahead] using hmap⟩

end Piece

end SqlTidy
