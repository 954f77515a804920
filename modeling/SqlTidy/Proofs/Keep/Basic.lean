import SqlTidy.Grammar.Name
import SqlTidy.Proofs.Lexeme
import SqlTidy.Proofs.Outcome
import SqlTidy.Proofs.Stored

/-!
# Rules keep the literals that they take

A rule of the grammar takes tokens and gives back a tree. The literals among these tokens, that is
strings, numbers and quoted identifiers, have to be found again among the strings of the tree.

**The judgement** (`Parse.Saves lost fine given p`). Let `p` run behind some tokens whose literals stand in
the strings `given`. Then every token from there up to where `p` ends is `fine` for what `p` gives back. A
rule *keeps* literals (`Keeps`) if fine means that a literal stands in a string of the result. Which tokens
may be missing is left open: the rules hold for any set of `lost` tokens, and only the few rules that do
lose something say which.

**Steps.** A rule is followed from left to right. What a step gives back is added to the strings at hand
(`Saves.bind`), a step that takes no literal adds nothing (`Saves.step`), and at the end the strings at hand
must be among those of the result (`Saves.build`). A rule that may decline owes nothing when it does
(`KeepsSome`), since whoever calls it goes back to where it started.
-/

namespace SqlTidy

/-- String literals, numbers and quoted identifiers. -/
def Token.isLiteral : Token → Bool
  | .string _ | .number _ | .quoted _ => true
  | .word _ | .symbol _ | .eof => false

theorem Token.ne_eof_of_isLiteral {t : Token} (h : t.isLiteral) : t ≠ .eof := by
  rintro rfl
  contradiction

theorem Token.isLiteral_of_isKeyword {t : Token} {keyword : String} (h : t.isKeyword keyword) :
    t.isLiteral = false := by
  cases t with
  | word => rfl
  | _ => contradiction

namespace Input

/-- The tokens of the input are those of its text. -/
def Scanned (i : Input) : Prop := Token.scan i.source = .ok i.tokens.toList

/-- The token at a position is lost, or it is no literal, or it stands in one of the strings. -/
def Held (i : Input) (lost : Input → Nat → Prop) (ss : List String) (k : Nat) : Prop :=
  (i.tokenAt k).isLiteral → lost i k ∨ ∃ s ∈ ss, (i.tokenAt k).lexeme <:+: s.toList

variable {i : Input} {lost : Input → Nat → Prop} {ss ss' : List String} {k : Nat}

theorem Held.mono (h : i.Held lost ss k) (hss : ss ⊆ ss') : i.Held lost ss' k := fun hlit =>
  (h hlit).imp_right fun ⟨s, hs, hinfix⟩ => ⟨s, hss hs, hinfix⟩

theorem Held.imp {lost' : Input → Nat → Prop} (h : i.Held lost ss k) (hlost : lost i k → lost' i k) :
    i.Held lost' ss k := fun hlit =>
  (h hlit).imp_left hlost

theorem Held.within (h : i.Held lost ss k)
    (hss : ∀ s ∈ ss, ∃ s' ∈ ss', s.toList <:+: s'.toList) : i.Held lost ss' k := fun hlit =>
  (h hlit).imp_right fun ⟨s, hs, hinfix⟩ =>
    (hss s hs).imp fun _ hs' => ⟨hs'.1, hinfix.trans hs'.2⟩

theorem Held.congr (h : i.Held lost ss k) (hss : ss = ss') : i.Held lost ss' k := hss ▸ h

theorem held_of_not_isLiteral (h : (i.tokenAt k).isLiteral = false) : i.Held lost ss k := by
  intro hlit
  rw [h] at hlit
  contradiction

end Input

/-- Keywords are no literals. -/
theorem Input.HasWords.not_isLiteral {i : Input} {pos k : Nat} {keywords : List String}
    (h : i.HasWords pos keywords) (hpos : pos ≤ k) (hk : k < pos + keywords.length) :
    (i.tokenAt k).isLiteral = false := by
  induction keywords generalizing pos with
  | nil =>
    rw [List.length_nil] at hk
    omega
  | cons keyword rest ih =>
    rw [List.length_cons] at hk
    rcases Nat.eq_or_lt_of_le hpos with rfl | hlt
    · exact Token.isLiteral_of_isKeyword h.1
    · exact ih h.2 hlt (by omega)

namespace Parse

variable {α β : Type} {lost : Input → Nat → Prop} {fine : Input → α → Nat → Prop}
  {given ss : List String} {i : Input} {start mid : Nat}

/-! ## The judgement -/

/-- From a position on, behind tokens that are held by `given`. -/
def SavesAt (lost : Input → Nat → Prop) (fine : Input → α → Nat → Prop) (given : List String)
    (p : Parse α) (i : Input) (start mid : Nat) : Prop :=
  (∀ k, start ≤ k → k < mid → i.Held lost given k) →
    Ends p i mid fun a next => ∀ k, start ≤ k → k < next → fine i a k

/-- Every token that the parser passes is fine for its result. -/
def Saves (lost : Input → Nat → Prop) (fine : Input → α → Nat → Prop) (given : List String)
    (p : Parse α) : Prop :=
  ∀ i, i.Scanned → ∀ start mid, SavesAt lost fine given p i start mid

/-- Every literal stands in a string of the result. -/
abbrev Keeps [Stored α] (lost : Input → Nat → Prop) (given : List String) (p : Parse α) : Prop :=
  Saves lost (fun i a k => i.Held lost (stored a) k) given p

/-- Every literal stands in a string of the result, if there is one. -/
abbrev KeepsSome [Stored α] (lost : Input → Nat → Prop) (given : List String)
    (p : Parse (Option α)) : Prop :=
  Saves lost (fun i a k => ∀ x ∈ a, i.Held lost (stored x) k) given p

/-- Every literal that is taken from a position on stands in a string of the result. -/
abbrev KeepsAt [Stored α] (lost : Input → Nat → Prop) (given : List String) (p : Parse α) (i : Input)
    (start mid : Nat) : Prop :=
  SavesAt lost (fun i a k => i.Held lost (stored a) k) given p i start mid

/-- The same for a parser that may decline. -/
abbrev KeepsSomeAt [Stored α] (lost : Input → Nat → Prop) (given : List String)
    (p : Parse (Option α)) (i : Input) (start mid : Nat) : Prop :=
  SavesAt lost (fun i a k => ∀ x ∈ a, i.Held lost (stored x) k) given p i start mid

/-- The strings of a value are kept by the next one, or by itself if there is no next one. -/
abbrev KeepsNext [Stored α] (lost : Input → Nat → Prop) (a : α) (given : List String)
    (p : Parse (Option α)) : Prop :=
  Saves lost (fun i b k => i.Held lost (stored (b.getD a)) k) given p

/-- No literal is taken. -/
def QuietAt (p : Parse α) (i : Input) (mid : Nat) : Prop :=
  Ends p i mid fun _ next => ∀ k, mid ≤ k → k < next → (i.tokenAt k).isLiteral = false

def Quiet (p : Parse α) : Prop := ∀ i mid, QuietAt p i mid

/-! ## Steps -/

theorem Saves.result {a : α} (h : ∀ i k, i.Held lost given k → fine i a k) :
    Saves lost fine given (pure a) :=
  fun i _ _ _ hgiven => Ends.pure fun k hstart hk => h i k (hgiven k hstart hk)

/-- The strings at hand are among those of the result, which are listed part by part. -/
theorem Saves.build [Stored α] {a : α} {sss : List (List String)} (hstored : stored a = sss.flatten)
    (h : given ⊆ sss.flatten) : Keeps lost given (Pure.pure a) :=
  Saves.result fun _ _ hheld => hheld.mono (hstored ▸ h)

theorem Saves.buildSome [Stored α] {a : α} {sss : List (List String)}
    (hstored : stored a = sss.flatten) (h : given ⊆ sss.flatten) :
    Keeps lost given (Pure.pure (some a)) :=
  .build hstored h

/-- The strings at hand are those of the result. -/
theorem Saves.wrap [Stored α] {a : α} (h : stored a = given) : Keeps lost given (Pure.pure a) :=
  Saves.result fun _ _ hheld => hheld.mono (h ▸ List.Subset.refl _)

/-- The strings at hand are parts of those of the result. -/
theorem Saves.within [Stored α] {a : α}
    (h : ∀ s ∈ given, ∃ s' ∈ stored a, s.toList <:+: s'.toList) : Keeps lost given (Pure.pure a) :=
  Saves.result fun _ _ hheld => hheld.within h

/-- Nothing is at hand. -/
theorem Saves.empty [Stored α] (a : α) : Keeps lost [] (Pure.pure a) :=
  Saves.result fun _ _ hheld => hheld.mono (List.nil_subset _)

theorem Saves.decline [Stored α] : KeepsSome lost given (Pure.pure (none : Option α)) :=
  Saves.result fun _ _ _ => nofun

theorem Saves.offer [Stored α] {a : α} {sss : List (List String)}
    (hstored : stored a = sss.flatten) (h : given ⊆ sss.flatten) :
    KeepsSome lost given (Pure.pure (some a)) := by
  refine Saves.result fun i k hheld x hx => ?_
  cases hx
  exact hheld.mono (hstored ▸ h)

theorem Saves.stop [Stored α] {a : α} : KeepsNext lost a (stored a) (Pure.pure none) :=
  Saves.result fun _ _ hheld => hheld

theorem Saves.extend [Stored α] {a b : α} {sss : List (List String)}
    (hstored : stored b = sss.flatten) (h : given ⊆ sss.flatten) :
    KeepsNext lost a given (Pure.pure (some b)) :=
  Saves.result fun _ _ hheld => hheld.mono (hstored ▸ h)

theorem saves_expected (what : String) : Saves lost fine given (expected what) :=
  fun _ _ _ _ _ => ends_expected what _

theorem saves_fail (cause : Cause) : Saves lost fine given (fail cause) :=
  fun _ _ _ _ _ => ends_fail cause _

theorem saves_failWith (e : Error) : Saves lost fine given (failWith e) :=
  fun _ _ _ _ _ => nofun

/-- A step whose literals stand in strings that its result determines. -/
theorem SavesAt.bindBy (ss : β → List String) {p : Parse β} {k : β → Parse α}
    (hp : SavesAt lost (fun i b k => i.Held lost (ss b) k) [] p i mid mid)
    (hk : ∀ b next, SavesAt lost fine (given ++ ss b) (k b) i start next) :
    SavesAt lost fine given (p >>= k) i start mid := by
  intro hgiven
  have hp := hp fun k hk hk' => absurd hk (Nat.not_le_of_lt hk')
  refine hp.bind fun b next hb => hk b next fun k hstart hk => ?_
  rcases Nat.lt_or_ge k mid with hmid | hmid
  · exact (hgiven k hstart hmid).mono (List.subset_append_left _ _)
  · exact (hb k hmid hk).mono (List.subset_append_right _ _)

/-- A step whose result holds the literals that it takes. -/
theorem SavesAt.bind [Stored β] {p : Parse β} {k : β → Parse α} (hp : KeepsAt lost [] p i mid mid)
    (hk : ∀ b next, SavesAt lost fine (given ++ stored b) (k b) i start next) :
    SavesAt lost fine given (p >>= k) i start mid :=
  .bindBy stored hp hk

/-- A step that takes no literal. -/
theorem SavesAt.step {p : Parse β} {k : β → Parse α} (hp : QuietAt p i mid)
    (hk : ∀ b next, SavesAt lost fine given (k b) i start next) :
    SavesAt lost fine given (p >>= k) i start mid := by
  intro hgiven
  refine hp.bind fun b next hb => hk b next fun k hstart hk => ?_
  rcases Nat.lt_or_ge k mid with hmid | hmid
  · exact hgiven k hstart hmid
  · exact Input.held_of_not_isLiteral (hb k hmid hk)

theorem Saves.bindBy (ss : β → List String) {p : Parse β} {k : β → Parse α}
    (hp : Saves lost (fun i b k => i.Held lost (ss b) k) [] p)
    (hk : ∀ b, Saves lost fine (given ++ ss b) (k b)) : Saves lost fine given (p >>= k) :=
  fun i hi start mid => .bindBy ss (hp i hi mid mid) fun b next => hk b i hi start next

theorem Saves.bind [Stored β] {p : Parse β} {k : β → Parse α} (hp : Keeps lost [] p)
    (hk : ∀ b, Saves lost fine (given ++ stored b) (k b)) : Saves lost fine given (p >>= k) :=
  fun i hi start mid => .bind (hp i hi mid mid) fun b next => hk b i hi start next

theorem Saves.step {p : Parse β} {k : β → Parse α} (hp : Quiet p)
    (hk : ∀ b, Saves lost fine given (k b)) : Saves lost fine given (p >>= k) :=
  fun i hi start mid => .step (hp i mid) fun b next => hk b i hi start next

/-- A step that takes over the strings at hand. -/
theorem Saves.pass [Stored β] {p : Parse β} {k : β → Parse α} (hp : Keeps lost given p)
    (hk : ∀ b, Saves lost fine (stored b) (k b)) : Saves lost fine given (p >>= k) :=
  fun i hi start mid hgiven =>
    (hp i hi start mid hgiven).bind fun b next hb => hk b i hi start next hb

/-- A step that may decline, where declining ends the rule. -/
theorem Saves.bindSome [Stored β] {p : Parse (Option β)} {k : Option β → Parse (Option α)}
    [Stored α] (hp : KeepsSome lost [] p) (hnone : k none = Pure.pure none)
    (hk : ∀ b, KeepsSome lost (given ++ stored b) (k (some b))) : KeepsSome lost given (p >>= k) := by
  intro i hi start mid hgiven
  have hp := hp i hi mid mid fun k hk hk' => absurd hk (Nat.not_le_of_lt hk')
  refine hp.bind fun b next hb => ?_
  cases b with
  | none =>
    rw [hnone]
    exact .pure fun _ _ _ => nofun
  | some b =>
    refine hk b i hi start next fun k hstart hk => ?_
    rcases Nat.lt_or_ge k mid with hmid | hmid
    · exact (hgiven k hstart hmid).mono (List.subset_append_left _ _)
    · exact (hb k hmid hk b rfl).mono (List.subset_append_right _ _)

theorem Saves.ite {c : Prop} [Decidable c] {p q : Parse α} (hp : Saves lost fine given p)
    (hq : Saves lost fine given q) : Saves lost fine given (if c then p else q) := by
  split
  · exact hp
  · exact hq

/-- A result in another form. -/
theorem Saves.map [Stored α] [Stored β] {p : Parse β} {f : β → α} (hp : Keeps lost [] p)
    (h : ∀ b, stored (f b) = stored b) : Keeps lost [] (p >>= fun b => Pure.pure (f b)) :=
  .bind hp fun b => .wrap (h b)

/-! ## Quiet steps -/

namespace Quiet

theorem pure (a : α) : Quiet (Pure.pure a) := by
  intro i mid
  refine Ends.pure fun k hk hk' => ?_
  omega

theorem bind {p : Parse β} {k : β → Parse α} (hp : Quiet p) (hk : ∀ b, Quiet (k b)) :
    Quiet (p >>= k) := by
  intro i mid
  refine (hp i mid).bind fun b next hb => ?_
  refine (hk b i next).mono fun a last ha k hk hk' => ?_
  rcases Nat.lt_or_ge k next with hnext | hnext
  · exact hb k hk hnext
  · exact ha k hnext hk'

theorem ite {c : Prop} [Decidable c] {p q : Parse α} (hp : Quiet p) (hq : Quiet q) :
    Quiet (if c then p else q) := by
  split
  · exact hp
  · exact hq

theorem of_stays {p : Parse α} (h : ∀ i pos, Stays p i pos) : Quiet p := by
  intro i mid
  refine (h i mid).mono fun a next hnext k hk hk' => ?_
  omega

theorem acceptIf {meaning : Token → Option α}
    (h : ∀ t a, meaning t = some a → t.isLiteral = false) : Quiet (acceptIf meaning) := by
  intro i mid
  refine .acceptIf (fun _ k hk hk' => by omega) fun a _ ha k hk hk' => ?_
  obtain rfl : k = mid := by omega
  exact h _ _ ha

theorem expected (what : String) : Quiet (expected (α := α) what) := fun _ _ => ends_expected what _

theorem expectIf {what : String} {meaning : Token → Option α}
    (h : ∀ t a, meaning t = some a → t.isLiteral = false) : Quiet (expectIf what meaning) := by
  intro i mid
  refine .expectIf fun a _ ha k hk hk' => ?_
  obtain rfl : k = mid := by omega
  exact h _ _ ha

theorem peek (n : Nat) : Quiet (peek n) := of_stays fun _ _ => .peek rfl

theorem current : Quiet current := peek 0

theorem isSymbol (s : Symbol) : Quiet (isSymbol s) := of_stays fun _ _ => stays_isSymbol s

theorem peekSymbol (n : Nat) (s : Symbol) : Quiet (peekSymbol n s) :=
  of_stays fun _ _ => stays_peekSymbol n s

theorem isWord (keyword : String) : Quiet (isWord keyword) := of_stays fun _ _ => stays_isWord keyword

theorem accept (s : Symbol) : Quiet (accept s) := by
  refine bind (acceptIf fun t a ha => ?_) fun _ => pure _
  rw [Option.ite_none_right_eq_some] at ha
  rw [ha.1]
  rfl

theorem expect (s : Symbol) : Quiet (expect s) :=
  bind (accept s) fun _ => ite (pure _) (expected _)

theorem acceptWord (keyword : String) : Quiet (acceptWord keyword) := by
  refine bind (acceptIf fun t a ha => ?_) fun _ => pure _
  rw [Option.ite_none_right_eq_some] at ha
  exact Token.isLiteral_of_isKeyword ha.1

theorem expectWord (keyword : String) : Quiet (expectWord keyword) :=
  bind (acceptWord keyword) fun _ => ite (pure _) (expected _)

theorem expectWords (keywords : List String) : Quiet (expectWords keywords) := by
  induction keywords with
  | nil => exact pure _
  | cons keyword rest ih => exact bind (expectWord keyword) fun _ => ih

theorem isWords (keywords : List String) : Quiet (isWords keywords) :=
  of_stays fun _ _ => (ends_peekWords 0 keywords).mono fun _ _ h => h.1

theorem acceptWords (keywords : List String) : Quiet (acceptWords keywords) := by
  intro i mid
  refine .acceptWords (fun k hk hk' => by omega) fun hwords k hk hk' => hwords.not_isLiteral hk hk'

theorem choose (phrases : List (List String × α)) : Quiet (choose phrases) := by
  intro i mid
  refine .choose (fun k hk hk' => by omega) fun phrase _ hwords k hk hk' => ?_
  exact hwords.not_isLiteral hk hk'

theorem maybe {test : Parse Bool} {p : Parse α} (htest : Quiet test) (hp : Quiet p) :
    Quiet (maybe test p) :=
  bind htest fun _ => ite (bind hp fun _ => pure _) (pure _)

theorem rewinding {p : Parse (Option α)} (hp : Quiet p) : Quiet (rewinding p) := by
  intro i mid
  exact .rewinding (fun k hk hk' => by omega) ((hp i mid).mono fun _ _ h _ => h)

theorem many {step : Parse (Option α)} (hstep : Quiet step) : Quiet (many step) := by
  intro i mid
  refine .many (I := fun _ next => ∀ k, mid ≤ k → k < next → (i.tokenAt k).isLiteral = false)
    (fun k hk hk' => by omega) fun _ mid' hmid => ?_
  have hboth : Ends step i mid' fun _ next =>
      ∀ k, mid ≤ k → k < next → (i.tokenAt k).isLiteral = false := by
    refine (hstep i mid').mono fun _ next hnext k hk hk' => ?_
    rcases Nat.lt_or_ge k mid' with hlt | hge
    · exact hmid k hk hlt
    · exact hnext k hge hk'
  exact hboth.mono fun _ _ h => ⟨fun _ => h, fun _ _ => h⟩

end Quiet

/-! ## Single tokens -/

section

variable [Stored α] {meaning : Token → Option α}

/-- A token whose meaning holds its text. -/
theorem keeps_acceptIf
    (h : ∀ t a, meaning t = some a → t.isLiteral → ∃ s ∈ stored a, t.lexeme <:+: s.toList) :
    Keeps lost [] (acceptIf meaning) := by
  intro i _ start mid hgiven
  refine .acceptIf (fun _ => hgiven) fun a _ ha k hstart hk => ?_
  rcases Nat.lt_or_ge k mid with hmid | hmid
  · exact (hgiven k hstart hmid).mono (List.nil_subset _)
  · obtain rfl : k = mid := by omega
    exact fun hlit => .inr (h _ _ ha hlit)

theorem keeps_expectIf {what : String}
    (h : ∀ t a, meaning t = some a → t.isLiteral → ∃ s ∈ stored a, t.lexeme <:+: s.toList) :
    Keeps lost [] (expectIf what meaning) := by
  refine .bind (keeps_acceptIf h) fun a => ?_
  cases a with
  | none => exact saves_expected what
  | some a => exact .wrap rfl

end

/-- A token that is no literal. -/
theorem quietAt_skip (h : (i.tokenAt mid).isLiteral = false) : QuietAt skip i mid := by
  have hskip : Ends skip i mid fun _ next => next ≤ mid + 1 := by
    refine Ends.bind (P := fun _ next => next ≤ mid + 1) ?_ fun _ _ hnext => .pure hnext
    exact .acceptIf (fun _ => by omega) fun _ _ _ => Nat.le_refl _
  refine hskip.mono fun _ next hnext k hk hk' => ?_
  obtain rfl : k = mid := by omega
  exact h

/-! ## Looking ahead -/

namespace SavesAt

theorem of {p : Parse α} (hi : i.Scanned) (hp : Saves lost fine given p) :
    SavesAt lost fine given p i start mid :=
  hp i hi start mid

theorem ite {c : Prop} [Decidable c] {p q : Parse α} (hp : c → SavesAt lost fine given p i start mid)
    (hq : ¬ c → SavesAt lost fine given q i start mid) :
    SavesAt lost fine given (if c then p else q) i start mid :=
  fun hgiven => .ite (fun hc => hp hc hgiven) fun hc => hq hc hgiven

theorem peek {n : Nat} {k : Token → Parse α}
    (hk : SavesAt lost fine given (k (i.tokenAt (mid + n))) i start mid) :
    SavesAt lost fine given (Parse.peek n >>= k) i start mid :=
  fun hgiven => .peek_bind (hk hgiven)

theorem current {k : Token → Parse α}
    (hk : SavesAt lost fine given (k (i.tokenAt mid)) i start mid) :
    SavesAt lost fine given (Parse.current >>= k) i start mid :=
  fun hgiven => .current_bind (hk hgiven)

theorem peekSymbol {n : Nat} {s : Symbol} {k : Bool → Parse α}
    (hk : SavesAt lost fine given (k (i.tokenAt (mid + n) = .symbol s)) i start mid) :
    SavesAt lost fine given (Parse.peekSymbol n s >>= k) i start mid :=
  hk

theorem isSymbol {s : Symbol} {k : Bool → Parse α}
    (hk : SavesAt lost fine given (k (i.tokenAt mid = .symbol s)) i start mid) :
    SavesAt lost fine given (Parse.isSymbol s >>= k) i start mid :=
  hk

theorem isWord {keyword : String} {k : Bool → Parse α}
    (hk : SavesAt lost fine given (k ((i.tokenAt mid).isKeyword keyword)) i start mid) :
    SavesAt lost fine given (Parse.isWord keyword >>= k) i start mid :=
  hk

/-- A look at the tokens that says something about them. -/
theorem lookFor {p : Parse β} {k : β → Parse α} {P : β → Prop}
    (hp : Ends p i mid fun b next => next = mid ∧ P b)
    (hk : ∀ b, P b → SavesAt lost fine given (k b) i start mid) :
    SavesAt lost fine given (p >>= k) i start mid := by
  intro hgiven
  refine hp.bind fun b next hb => ?_
  obtain ⟨rfl, hb⟩ := hb
  exact hk b hb hgiven

/-- A look at the tokens whose outcome does not matter. -/
theorem look {p : Parse β} {k : β → Parse α} (hp : Stays p i mid)
    (hk : ∀ b, SavesAt lost fine given (k b) i start mid) :
    SavesAt lost fine given (p >>= k) i start mid :=
  fun hgiven => hp.bind fun b => hk b hgiven

/-! ## Taking a token that has been looked at -/

/-- A token whose text is known. -/
theorem skip (ss : List String) {k : Unit → Parse α} (hpos : i.tokenAt mid ≠ .eof)
    (hlit : (i.tokenAt mid).isLiteral → ∃ s ∈ ss, (i.tokenAt mid).lexeme <:+: s.toList)
    (hk : SavesAt lost fine (given ++ ss) (k ()) i start (mid + 1)) :
    SavesAt lost fine given (Parse.skip >>= k) i start mid := by
  intro hgiven
  refine .skip_bind hpos (hk fun k hstart hk => ?_)
  rcases Nat.lt_or_ge k mid with hmid | hmid
  · exact (hgiven k hstart hmid).mono (List.subset_append_left _ _)
  · obtain rfl : k = mid := by omega
    exact fun h => .inr ((hlit h).imp fun s hs => ⟨List.mem_append_right _ hs.1, hs.2⟩)

/-- A symbol that has been seen. -/
theorem skipSymbol {s : Symbol} {k : Unit → Parse α} (hs : i.tokenAt mid = .symbol s)
    (hk : SavesAt lost fine given (k ()) i start (mid + 1)) :
    SavesAt lost fine given (Parse.skip >>= k) i start mid := by
  refine skip [] (by simp [hs]) (by simp [hs, Token.isLiteral]) ?_
  rwa [List.append_nil]

/-- A word that has been seen. -/
theorem skipWord {w : String} {k : Unit → Parse α} (hw : i.tokenAt mid = .word w)
    (hk : SavesAt lost fine given (k ()) i start (mid + 1)) :
    SavesAt lost fine given (Parse.skip >>= k) i start mid := by
  refine skip [] (by simp [hw]) (by simp [hw, Token.isLiteral]) ?_
  rwa [List.append_nil]

/-- A keyword that has been seen. -/
theorem skipKeyword {keyword : String} {k : Unit → Parse α}
    (hword : (i.tokenAt mid).isKeyword keyword)
    (hk : SavesAt lost fine given (k ()) i start (mid + 1)) :
    SavesAt lost fine given (Parse.skip >>= k) i start mid := by
  refine skip [] (ne_eof_of_isKeyword hword) (by simp [Token.isLiteral_of_isKeyword hword]) ?_
  rwa [List.append_nil]

/-- Two tokens that have been seen, of which the first is no literal. -/
theorem skipTwo (ss : List String) {k : Unit → Parse α} (hpos : i.tokenAt mid ≠ .eof)
    (hplain : (i.tokenAt mid).isLiteral = false) (hnext : i.tokenAt (mid + 1) ≠ .eof)
    (hlit : (i.tokenAt (mid + 1)).isLiteral →
      ∃ s ∈ ss, (i.tokenAt (mid + 1)).lexeme <:+: s.toList)
    (hk : SavesAt lost fine (given ++ ss) (k ()) i start (mid + 2)) :
    SavesAt lost fine given (skipBy 2 >>= k) i start mid := by
  intro hgiven
  refine (ends_skipBy_two hpos hnext).bind fun _ next hnext => ?_
  subst hnext
  refine hk fun k hstart hk => ?_
  rcases Nat.lt_or_ge k mid with hmid | hmid
  · exact (hgiven k hstart hmid).mono (List.subset_append_left _ _)
  obtain rfl | rfl : k = mid ∨ k = mid + 1 := by omega
  · exact Input.held_of_not_isLiteral hplain
  · exact fun h => .inr ((hlit h).imp fun s hs => ⟨List.mem_append_right _ hs.1, hs.2⟩)

/-- Two tokens that are no literals. -/
theorem skipTwoPlain {k : Unit → Parse α} (hpos : i.tokenAt mid ≠ .eof)
    (hplain : (i.tokenAt mid).isLiteral = false) (hnext : i.tokenAt (mid + 1) ≠ .eof)
    (hplain' : (i.tokenAt (mid + 1)).isLiteral = false)
    (hk : SavesAt lost fine given (k ()) i start (mid + 2)) :
    SavesAt lost fine given (skipBy 2 >>= k) i start mid := by
  refine skipTwo [] hpos hplain hnext (by simp [hplain']) ?_
  rwa [List.append_nil]

end SavesAt

/-! ## Choices -/

theorem keeps_maybe [Stored α] {test : Parse Bool} {p : Parse α} (htest : Quiet test)
    (hp : Keeps lost [] p) : Keeps lost [] (maybe test p) :=
  .step htest fun _ => .ite (.map hp fun _ => rfl) (.empty _)

theorem keeps_maybeList [Stored α] {test : Parse Bool} {p : Parse (List α)} (htest : Quiet test)
    (hp : Keeps lost [] p) : Keeps lost [] (maybeList test p) :=
  .step htest fun _ => .ite hp (.empty _)

theorem keeps_chooseRule [Stored α] {rules : List (List String × Parse α)}
    (h : ∀ r ∈ rules, Keeps lost [] r.2) : Keeps lost [] (chooseRule rules) := by
  intro i hi start mid hgiven
  have hchoose : Ends (choose rules) i mid fun rule next =>
      (∀ k, mid ≤ k → k < next → (i.tokenAt k).isLiteral = false) ∧
        ∀ p, rule = some p → Keeps lost [] p := by
    refine (Quiet.choose rules i mid).and (.choose nofun ?_)
    rintro r hr _ _ ⟨⟩
    exact h r hr
  refine hchoose.bind fun rule next hrule => ?_
  have hgiven : ∀ k, start ≤ k → k < next → i.Held lost [] k := by
    intro k hstart hk
    rcases Nat.lt_or_ge k mid with hmid | hmid
    · exact hgiven k hstart hmid
    · exact Input.held_of_not_isLiteral (hrule.1 k hmid hk)
  cases rule with
  | none => exact .pure hgiven
  | some p =>
    have hp : Keeps lost [] (p >>= fun a => Pure.pure (some a)) := .map (hrule.2 p rfl) fun _ => rfl
    exact hp i hi start next hgiven

theorem keepsAt_attempt [Stored α] {p : Parse (Option α)} (hp : KeepsSomeAt lost [] p i start mid) :
    KeepsAt lost [] (attempt p) i start mid := by
  intro hgiven
  refine .attempt hgiven ((hp hgiven).mono fun a next ha hsome k hstart hk => ?_)
  obtain ⟨a, rfl⟩ := Option.isSome_iff_exists.1 hsome
  exact ha k hstart hk a rfl

/-- Whoever declines gives back what it has taken. -/
theorem keeps_rewinding [Stored α] {p : Parse (Option α)} (hp : KeepsSome lost [] p) :
    Keeps lost [] (rewinding p) := by
  intro i hi start mid hgiven
  refine .rewinding hgiven ((hp i hi start mid hgiven).mono fun a next ha hsome k hstart hk => ?_)
  obtain ⟨a, rfl⟩ := Option.isSome_iff_exists.1 hsome
  exact ha k hstart hk a rfl

theorem keeps_attempt [Stored α] {p : Parse (Option α)} (hp : KeepsSome lost [] p) :
    Keeps lost [] (attempt p) :=
  fun i hi start mid => keepsAt_attempt (hp i hi start mid)

/-- A rule that builds on a value, if a test succeeds. -/
theorem keepsNext_maybe [Stored α] {a : α} {test : Parse Bool} {p : Parse α} (htest : Quiet test)
    (hp : Keeps lost (stored a) p) : KeepsNext lost a (stored a) (maybe test p) :=
  .step htest fun _ => .ite (.pass hp fun _ => .result fun _ _ h => h) .stop

/-! ## Loops and recursion -/

/-- A loop keeps what every round keeps. -/
theorem keeps_iterate [Stored α] {step : α → Parse (Option α)}
    (hstep : ∀ a, KeepsNext lost a (stored a) (step a)) (a : α) :
    Keeps lost (stored a) (iterate step a) := by
  intro i hi start mid hgiven
  refine .iterate (I := fun a next => ∀ k, start ≤ k → k < next → i.Held lost (stored a) k) hgiven
    fun a mid ha => ?_
  refine (hstep a i hi start mid ha).mono fun b next hb => ⟨?_, ?_⟩
  · rintro rfl
    exact hb
  · rintro c rfl
    exact hb

theorem keeps_many [Stored α] {step : Parse (Option α)} (hstep : Keeps lost [] step) :
    Keeps lost [] (many step) := by
  intro i hi start mid hgiven
  refine .many (I := fun as next => ∀ k, start ≤ k → k < next → i.Held lost (stored as) k) hgiven
    fun as mid has => ?_
  refine (hstep i hi mid mid fun k hk hk' => absurd hk (Nat.not_le_of_lt hk')).mono
    fun b next hb => ?_
  have hboth (bs : List α) (hbs : stored b ⊆ stored bs) :
      ∀ k, start ≤ k → k < next → i.Held lost (stored (as ++ bs)) k := by
    intro k hstart hk
    rw [Stored.stored_append]
    rcases Nat.lt_or_ge k mid with hmid | hmid
    · exact (has k hstart hmid).mono (List.subset_append_left _ _)
    · exact (hb k hmid hk).mono (List.subset_append_of_subset_right _ hbs)
  refine ⟨?_, ?_⟩
  · rintro rfl
    simpa using hboth [] (List.nil_subset _)
  · rintro c rfl
    exact hboth [c] (by simp)

theorem keeps_commaSeparated [Stored α] {p : Parse α} (hp : Keeps lost [] p) :
    Keeps lost [] (commaSeparated p) :=
  .bind hp fun _ => .bind (keeps_many (keeps_maybe (.accept .comma) hp)) fun _ => .wrap rfl

/-- A rule that does its part if it may call itself. -/
theorem saves_fix {rule : Parse α → Parse α}
    (h : ∀ p, Saves lost fine given p → Saves lost fine given (rule p)) :
    Saves lost fine given (fix rule) := by
  have hnested (n : Nat) : Saves lost fine given (nested rule n) := by
    induction n with
    | zero => exact saves_fail _
    | succ n ih => exact h _ ih
  exact fun i hi start mid => hnested _ i hi start mid

end Parse

end SqlTidy
