import SqlTidy.Proofs.Case.Statement
import SqlTidy.Proofs.Consume
import SqlTidy.Proofs.Recase

/-!
# Plain expressions are read back as they were printed

The printed page of a plain expression has the tokens that the expression was read from, except that
keywords are in capitals and that a negation mark is spelled `NOT`.

**Theorem (`Tree.Plain.roundTrip`).** The page is read back as the same expression if and only if the
source is still read as that expression when its negation marks are spelled `NOT`. So every expression
without negation marks is read back.

The condition is needed: `position(!in(1))` calls a function, and its page `position(NOT in(1))` asks for
the position of a column in another one. In front of `IN`, the word may be a name and the mark may not.
-/

namespace SqlTidy

open Text Parse Piece

/-! ## Pieces of plain expressions -/

/-- A piece that can be printed in the middle of an expression: no negation mark and no mark of a
hint. -/
def Piece.ordinary : Piece → Bool
  | .token (.symbol s) => s ∉ [.bang, .hintStart, .hintEnd]
  | _ => true

theorem Piece.all_sepBy {f : Piece → Bool} {separator : List Piece} {pss : List (List Piece)}
    (hsep : separator.all f) (h : ∀ ps ∈ pss, ps.all f) : (sepBy separator pss).all f := by
  induction pss with
  | nil => rfl
  | cons ps pss ih =>
    obtain ⟨hps, hpss⟩ := List.forall_mem_cons.1 h
    cases pss with
    | nil => exact hps
    | cons qs pss =>
      show (ps ++ (separator ++ sepBy separator (qs :: pss))).all f
      simp only [List.all_append, hps, hsep, ih hpss, Bool.and_self]

theorem Ident.ordinary_dotted (parts : List Ident) : (dotted parts).all ordinary := by
  refine all_sepBy rfl fun ps hps => ?_
  obtain ⟨i, -, rfl⟩ := List.mem_map.1 hps
  cases hq : i.quoted <;> simp [piece, token, hq, ordinary]

theorem Literal.ordinary_pieces (l : Literal) : l.pieces.all ordinary := by
  cases l with
  | boolean value => cases value <;> rfl
  | string texts =>
    refine all_sepBy rfl fun ps hps => ?_
    obtain ⟨s, -, rfl⟩ := List.mem_map.1 hps
    rfl
  | _ => rfl

theorem Piece.ordinary_notWord (negated : Bool) : (notWord negated).all ordinary := by
  cases negated <;> rfl

theorem Piece.ordinary_escape (escaped : Option String) : (escape escaped).all ordinary := by
  cases escaped <;> rfl

theorem Tree.ordinary_minusGap (op : UnaryOp) (operand : Expr) :
    (minusGap op operand).all ordinary := by
  unfold minusGap
  split <;> rfl

theorem Tree.ordinary_commas {es : List Expr} (h : ∀ e ∈ es, e.pieces.all ordinary) :
    (Piece.commas (es.map pieces)).all ordinary := by
  refine all_sepBy rfl fun ps hps => ?_
  obtain ⟨e, he, rfl⟩ := List.mem_map.1 hps
  exact h e he

theorem Tree.Plain.ordinary_pieces {e : Expr} (h : e.Plain) : e.pieces.all ordinary := by
  have happend {ps qs : List Piece} (hps : ps.all ordinary) (hqs : qs.all ordinary) :
      (ps ++ qs).all ordinary := by
    rw [List.all_append, hps, hqs, Bool.and_self]
  have hafter (front : List Piece) {ps : List Piece} (hfront : front.all ordinary)
      (hps : ps.all ordinary) : (front ++ ps).all ordinary := happend hfront hps
  induction h with
  | ident name => exact Ident.ordinary_dotted [name]
  | compound parts => exact Ident.ordinary_dotted parts
  | wildcard => rfl
  | qualifiedWildcard qualifier => exact happend (Ident.ordinary_dotted _) rfl
  | literal value => exact value.ordinary_pieces
  | unary op _ ih => exact happend (by cases op <;> rfl) (happend (ordinary_minusGap _ _) ih)
  | binary op _ _ ihl ihr => exact happend ihl (happend (by cases op <;> rfl) ihr)
  | between negated _ _ _ iht ihl ihh =>
    have hbounds := happend ihl (hafter [.gap, .keyword "AND", .gap] rfl ihh)
    exact happend iht (hafter [.gap] rfl (happend (ordinary_notWord negated)
      (hafter [.keyword "BETWEEN", .gap] rfl hbounds)))
  | @inList negated _ items _ _ iht ihi =>
    have hitems : items.pieces.all ordinary := by
      rw [pieces_list]
      exact ordinary_commas ihi
    exact happend iht (hafter [.gap] rfl (happend (ordinary_notWord negated)
      (hafter [.keyword "IN", .gap, symbol .lparen] rfl (happend hitems rfl))))
  | like negated op escape _ _ iht ihp =>
    exact happend iht (hafter [.gap] rfl (happend (ordinary_notWord negated)
      (hafter [.keyword op.spelling, .gap] rfl (happend ihp (ordinary_escape escape)))))
  | is negated test _ iht =>
    exact happend iht (hafter [.gap, .keyword "IS", .gap] rfl
      (happend (ordinary_notWord negated) rfl))
  | distinctFrom negated _ _ iht iho =>
    exact happend iht (hafter [.gap, .keyword "IS", .gap] rfl
      (happend (ordinary_notWord negated)
        (hafter [.keyword "DISTINCT", .gap, .keyword "FROM", .gap] rfl iho)))
  | paren _ ih => exact hafter [symbol .lparen] rfl (happend ih rfl)
  | subscript _ _ ihb ihi =>
    exact happend ihb (hafter [symbol .lbracket] rfl (happend ihi rfl))
  | @function name f args hf _ ih =>
    subst hf
    have hargs : (ofList (args.map positional)).pieces.all ordinary := by
      rw [pieces_list, toList_ofList, List.map_map]
      exact ordinary_commas ih
    exact happend (Ident.ordinary_dotted _)
      (hafter [symbol .lparen] rfl (happend hargs rfl))

/-! ## Negation marks -/

namespace Token

/-- A negation mark spelled as a word. -/
def spellNot : Token → Token
  | .symbol .bang => .word "NOT"
  | t => t

theorem spellNot_of_ne {t : Token} (h : t ≠ .symbol .bang) : t.spellNot = t := by
  unfold spellNot
  split
  · contradiction
  · rfl

theorem wellFormed_not : (Token.word "NOT").WellFormed :=
  .word (show "NOT".toList = 'N' :: ['O', 'T'] from rfl) rfl (List.all_eq_true.1 rfl)

theorem WellFormed.spellNot {t : Token} (h : t.WellFormed) : t.spellNot.WellFormed := by
  unfold Token.spellNot
  split
  · exact wellFormed_not
  · exact h

end Token

namespace Input

/-- The tokens from a position on. -/
def ahead (i : Input) (pos : Nat) : List Token := (i.tokens.toList.drop pos).map (·.token)

theorem ahead_cons {i : Input} {pos : Nat} {t : Spanned} (h : i.tokens[pos]? = some t) :
    i.ahead pos = t.token :: i.ahead (pos + 1) := by
  obtain ⟨hlt, rfl⟩ := Array.getElem?_eq_some_iff.1 h
  rw [ahead, List.drop_eq_getElem_cons (by simpa using hlt)]
  simp [ahead]

theorem ahead_of_none {i : Input} {pos : Nat} (h : i.tokens[pos]? = none) : i.ahead pos = [] := by
  rw [Array.getElem?_eq_none_iff] at h
  rw [ahead, List.drop_eq_nil_of_le (by simpa using h), List.map_nil]

theorem ahead_of_ne_eof {i : Input} {pos : Nat} (h : i.tokenAt pos ≠ .eof) :
    i.ahead pos = i.tokenAt pos :: i.ahead (pos + 1) := by
  unfold tokenAt at h ⊢
  split
  · exact ahead_cons ‹_›
  · simp_all

theorem tokenAt_of_ahead {i : Input} {pos : Nat} {t : Token} {ts : List Token}
    (h : i.ahead pos = t :: ts) : i.tokenAt pos = t := by
  unfold tokenAt
  split
  · rename_i hsome
    rw [ahead_cons hsome] at h
    exact (List.cons.inj h).1
  · rw [ahead_of_none ‹_›] at h
    contradiction

theorem ahead_succ {i : Input} {pos : Nat} {t : Token} {ts : List Token}
    (h : i.ahead pos = t :: ts) : i.ahead (pos + 1) = ts := by
  have htail : i.ahead (pos + 1) = (i.ahead pos).tail := by simp [ahead]
  rw [htail, h, List.tail_cons]

/-- A position at the end mark is the last one. -/
theorem ahead_of_eof {i : Input} {pos : Nat} (h : i.tokenAt pos = .eof) :
    i.ahead pos = [] ∨ ∃ rest, i.ahead pos = .eof :: rest := by
  unfold tokenAt at h
  split at h
  · rename_i t ht
    exact .inr ⟨_, h ▸ ahead_cons ht⟩
  · exact .inl (ahead_of_none ‹_›)

/-- The input with every negation mark spelled as a word. -/
def spellNots (i : Input) : Input :=
  { i with tokens := i.tokens.map fun t => { t with token := t.token.spellNot } }

theorem tokenAt_spellNots (i : Input) (pos : Nat) :
    i.spellNots.tokenAt pos = (i.tokenAt pos).spellNot := by
  simp only [tokenAt, spellNots, Array.getElem?_map]
  cases i.tokens[pos]? <;> rfl

theorem WellFormed.spellNots {i : Input} (h : i.WellFormed) : i.spellNots.WellFormed := by
  intro t ht
  obtain ⟨u, hu, rfl⟩ := Array.mem_map.1 ht
  exact (h u hu).spellNot

end Input

/-! ## Tokens of a page -/

theorem Piece.Fits.exists_token {p : Piece} {t : Token} (h : p.Fits t) :
    ∃ u, p.token? = some u := by
  cases p with
  | gap => exact h.elim
  | _ => exact ⟨_, rfl⟩

theorem Piece.Fits.printable {p : Piece} {t u : Token} (h : p.Fits t) (hp : p.ordinary)
    (hu : p.token? = some u) (ht : t.WellFormed) (hend : t ≠ .eof) : u.Printable := by
  cases p with
  | token v =>
    cases h
    cases hu
    refine ⟨ht, hend, ?_, ?_⟩ <;>
      · rintro rfl
        contradiction
  | keyword k =>
    cases hu
    refine ⟨?_, nofun, nofun, nofun⟩
    rcases h with hk | ⟨rfl, -⟩
    · cases t with
      | word w => exact ht.of_upper (by simpa [Token.isKeyword] using hk)
      | _ => contradiction
    · exact Token.wellFormed_not
  | gap => contradiction

/-- A token and the piece that it is printed as differ in letter case only, once a negation mark is
spelled as a word. -/
theorem Piece.Fits.foldCase_eq {p : Piece} {t u : Token} (h : p.Fits t) (hp : p.ordinary)
    (hu : p.token? = some u) : t.spellNot.foldCase = u.foldCase := by
  cases p with
  | token v =>
    cases h
    cases hu
    rw [Token.spellNot_of_ne]
    rintro rfl
    contradiction
  | keyword k =>
    cases hu
    rcases h with hk | ⟨rfl, rfl⟩
    · cases t with
      | word w =>
        have hupper : upper w = upper k := by simpa [Token.isKeyword] using hk
        show Token.word (lower w) = .word (lower k)
        rw [← lower_upper, hupper, lower_upper]
      | _ => contradiction
    · rfl
  | gap => contradiction

namespace Spells

variable {i : Input} {pos next : Nat} {ps : List Piece}

theorem printable (h : Spells i pos ps next) (hi : i.WellFormed) (hps : ∀ p ∈ ps, p.ordinary) :
    ∀ t ∈ tokensOf ps, t.Printable := by
  induction h with
  | nil => nofun
  | gap _ ih => exact ih (List.forall_mem_cons.1 hps).2
  | @token pos next p ps hpos hp _ ih =>
    obtain ⟨hordinary, hrest⟩ := List.forall_mem_cons.1 hps
    intro t ht
    obtain ⟨q, hq, hqt⟩ := List.mem_filterMap.1 ht
    rcases List.mem_cons.1 hq with rfl | hq
    · exact hp.printable hordinary hqt (hi.tokenAt pos) hpos
    · exact ih hrest t (List.mem_filterMap.2 ⟨q, hq, hqt⟩)

/-- The tokens between two positions are the tokens of the pieces, once negation marks are spelled as
words. -/
theorem exists_ahead (h : Spells i pos ps next) (hps : ∀ p ∈ ps, p.ordinary) :
    ∃ ts, i.ahead pos = ts ++ i.ahead next ∧ Token.eof ∉ ts ∧
      ts.map (·.spellNot.foldCase) = (tokensOf ps).map Token.foldCase := by
  induction h with
  | nil => exact ⟨[], rfl, List.not_mem_nil, rfl⟩
  | gap _ ih => exact ih (List.forall_mem_cons.1 hps).2
  | @token pos next p ps hpos hp _ ih =>
    obtain ⟨hordinary, hrest⟩ := List.forall_mem_cons.1 hps
    obtain ⟨ts, hahead, heof, hfold⟩ := ih hrest
    obtain ⟨u, hu⟩ := hp.exists_token
    refine ⟨i.tokenAt pos :: ts, ?_, List.not_mem_cons_of_ne_of_not_mem hpos.symm heof, ?_⟩
    · rw [Input.ahead_of_ne_eof hpos, hahead, List.cons_append]
    · rw [List.map_cons, hfold, hp.foldCase_eq hordinary hu]
      simp [tokensOf, hu]

end Spells

/-! ## Reading a page -/

/-- Wherever the pieces have a token as it was written, the input has the same token. -/
def Tells (i : Input) : Nat → List Piece → Prop
  | _, [] => True
  | pos, .gap :: ps => Tells i pos ps
  | pos, .keyword _ :: ps => Tells i (pos + 1) ps
  | pos, .token t :: ps => i.tokenAt pos = t ∧ Tells i (pos + 1) ps

/-- Pieces that are alike and are taken from the same tokens are equal. -/
theorem Tells.eq_of_alike {i : Input} {pos next : Nat} {ps qs : List Piece} (h : Tells i pos ps)
    (hqs : Spells i pos qs next) (halike : Alike ps qs) : ps = qs := by
  induction hqs generalizing ps with
  | nil => exact List.map_eq_nil_iff.1 halike
  | gap _ ih =>
    obtain ⟨p, ps, rfl, hp, hps⟩ := List.map_eq_cons_iff.1 halike
    cases p with
    | gap => rw [ih (show Tells i _ ps from h) hps]
    | _ => contradiction
  | @token pos next q qs hpos hq _ ih =>
    obtain ⟨p, ps, rfl, hp, hps⟩ := List.map_eq_cons_iff.1 halike
    cases p with
    | token t =>
      cases q with
      | token u =>
        obtain rfl : u = t := hq.symm.trans h.1
        rw [ih h.2 hps]
      | _ => contradiction
    | keyword k =>
      cases q with
      | keyword k' =>
        cases hp
        rw [ih (show Tells i _ ps from h) hps]
      | _ => contradiction
    | gap =>
      cases q with
      | gap => exact hq.elim
      | _ => contradiction

/-- The source tells the pieces that it is read as, and so it does with its negation marks spelled as
words. -/
theorem Spells.tells_spellNots {i : Input} {pos next : Nat} {ps : List Piece}
    (h : Spells i pos ps next) (hps : ∀ p ∈ ps, p.ordinary) : Tells i.spellNots pos ps := by
  induction h with
  | nil => trivial
  | gap _ ih => exact ih (List.forall_mem_cons.1 hps).2
  | @token pos next p ps hpos hp _ ih =>
    obtain ⟨hordinary, hrest⟩ := List.forall_mem_cons.1 hps
    cases p with
    | token t =>
      refine ⟨?_, ih hrest⟩
      rw [Input.tokenAt_spellNots, show i.tokenAt pos = t from hp, Token.spellNot_of_ne]
      rintro rfl
      contradiction
    | keyword k => exact ih hrest
    | gap => exact hp.elim

/-- A page tells the pieces that it was printed from. -/
theorem tells_of_ahead {i : Input} {pos : Nat} {ps : List Piece} {rest : List Token}
    (h : i.ahead pos = tokensOf ps ++ rest) : Tells i pos ps := by
  induction ps generalizing pos with
  | nil => trivial
  | cons p ps ih =>
    cases p with
    | gap => exact ih h
    | keyword k => exact ih (Input.ahead_succ h)
    | token t => exact ⟨Input.tokenAt_of_ahead h, ih (Input.ahead_succ h)⟩

/-- The tokens of an input are an expression and nothing more. -/
def Input.ReadsAs (i : Input) (e : Expr) : Prop :=
  ∃ pos, Grammar.expression i 0 = (.ok e, pos) ∧ i.tokenAt pos = .eof

/-- An expression that is read from some tokens is read from the same tokens in another letter case, if
these tell its pieces. -/
theorem Input.ReadsAs.of_foldCase {i j : Input} {e : Expr} (h : i.ReadsAs e) (hplain : e.Plain)
    (hi : i.WellFormed) (hj : j.WellFormed) (hfold : i.foldCase = j.foldCase)
    (htells : Tells j 0 e.pieces) : j.ReadsAs e := by
  obtain ⟨pos, hrun, hend⟩ := h
  have hruns := Grammar.blind_expression hi 0
  rw [hfold, Grammar.blind_expression hj 0, hrun] at hruns
  obtain ⟨e', hrun', he'⟩ : ∃ e', Grammar.expression j 0 = (.ok e', pos) ∧
      e'.foldCase = e.foldCase := by
    rcases hj' : Grammar.expression j 0 with ⟨_ | e', pos'⟩
    · rw [hj'] at hruns
      cases hruns
    · rw [hj'] at hruns
      obtain ⟨he', rfl⟩ := Prod.mk.inj hruns
      exact ⟨e', rfl, Except.ok.inj he'⟩
  have hrecased := hplain.recased he'
  have hspelled := Grammar.faithful_expression j 0 e' pos hrun' hrecased.plain
  obtain rfl := hrecased.reveals.of_eq (htells.eq_of_alike hspelled.spells hrecased.reveals.alike)
  refine ⟨pos, hrun', ?_⟩
  rw [← Token.foldCase_eq_eof, ← Input.tokenAt_foldCase, ← hfold, Input.tokenAt_foldCase, hend]
  rfl

/-! ## The round trip -/

section Page

variable {text : String} {tokens : List Spanned} {e : Expr}

/-- The tokens that a whole text is read from, without the end mark. -/
theorem Spells.exists_of_scan {ps : List Piece} {pos : Nat}
    (h : Spells ⟨text, tokens.toArray⟩ 0 ps pos) (hscan : Token.scan text = .ok tokens)
    (hend : (Input.mk text tokens.toArray).tokenAt pos = .eof) (hps : ∀ p ∈ ps, p.ordinary) :
    tokens.map (·.token.spellNot.foldCase) = (tokensOf ps ++ [Token.eof]).map Token.foldCase := by
  obtain ⟨ts, hahead, heof, hfold⟩ := h.exists_ahead hps
  obtain ⟨us, hus, hend'⟩ := Token.exists_of_scanFrom hscan
  have hall : (Input.mk text tokens.toArray).ahead 0 = us ++ [.eof] := by simpa [Input.ahead] using hus
  have hts : ts = us := by
    rcases Input.ahead_of_eof hend with hnil | ⟨rest, hrest⟩
    · rw [hnil, List.append_nil, hall] at hahead
      simp [← hahead] at heof
    · rw [hrest, hall] at hahead
      exact ((List.append_cons_inj_of_notMem hend' List.not_mem_nil).1 hahead).1.symm
  have hmap : tokens.map (·.token.spellNot.foldCase) =
      (tokens.map (·.token)).map (·.spellNot.foldCase) := by simp
  rw [hmap, hus, ← hts, List.map_append, hfold, List.map_append]
  rfl

/-- The page of a plain expression has the tokens of its pieces. -/
theorem Tree.Plain.scan_page {pos : Nat} (hplain : e.Plain) (hscan : Token.scan text = .ok tokens)
    (hspelled : Spelled ⟨text, tokens.toArray⟩ 0 e pos) :
    ∃ tokens', Token.scan (String.ofList (textOf e.pieces)) = .ok tokens' ∧
      tokens'.map (·.token) = tokensOf e.pieces ++ [.eof] := by
  have hprint := hspelled.spells.printable (Input.wellFormed_of_scan hscan)
    (List.all_eq_true.1 hplain.ordinary_pieces)
  have hreads : Scan.Reads ⟨false, false⟩ (textOf e.pieces) (tokensOf e.pieces) :=
    reads_textOf hspelled.framed.chain hprint nofun
  obtain ⟨tokens', hscan', hmap⟩ := hreads 0
  refine ⟨tokens', ?_, hmap⟩
  rw [Token.scan, String.toList_ofList]
  exact hscan'

theorem Input.spellNots_mk (text : String) (tokens : List Spanned) :
    (Input.mk text tokens.toArray).spellNots =
      ⟨text, (tokens.map fun t => { t with token := t.token.spellNot }).toArray⟩ := by
  rw [spellNots, List.map_toArray]

theorem Input.spellNots_eq_self (h : ∀ t ∈ tokens, t.token ≠ .symbol .bang) :
    (Input.mk text tokens.toArray).spellNots = ⟨text, tokens.toArray⟩ := by
  have hmap : tokens.map (fun t => { t with token := t.token.spellNot }) = tokens := by
    refine (List.map_congr_left fun t ht => ?_).trans (List.map_id tokens)
    rw [Token.spellNot_of_ne (h t ht)]
    rfl
  rw [spellNots_mk, hmap]

/-- A plain expression is printed, and the page is read as the source with its negation marks spelled as
words. -/
theorem Tree.Plain.exists_page (hscan : Token.scan text = .ok tokens)
    (hread : (Input.mk text tokens.toArray).ReadsAs e) (hplain : e.Plain) :
    ∃ page tokens', (∀ style, (e.doc : Doc).print style = .ok page) ∧ Token.scan page = .ok tokens' ∧
      ((Input.mk page tokens'.toArray).ReadsAs e ↔
        (Input.mk text tokens.toArray).spellNots.ReadsAs e) := by
  obtain ⟨pos, hrun, hend⟩ := hread
  have hspelled := Grammar.faithful_expression _ 0 e pos hrun hplain
  have hordinary := List.all_eq_true.1 hplain.ordinary_pieces
  obtain ⟨tokens', hscan', hmap⟩ := hplain.scan_page hscan hspelled
  have hahead : (Input.mk (String.ofList (textOf e.pieces)) tokens'.toArray).ahead 0 =
      tokensOf e.pieces ++ [.eof] := by
    simpa [Input.ahead] using hmap
  have hsource := hspelled.spells.tells_spellNots hordinary
  have hfold : (Input.mk text tokens.toArray).spellNots.foldCase =
      (Input.mk (String.ofList (textOf e.pieces)) tokens'.toArray).foldCase := by
    have hsame := hspelled.spells.exists_of_scan hscan hend hordinary
    rw [← hmap] at hsame
    rw [Input.spellNots_mk]
    refine foldCase_eq_of_sameTokens ?_
    simpa [SameTokens, Function.comp_def] using hsame
  have hwf := (Input.wellFormed_of_scan hscan).spellNots
  have hwf' := Input.wellFormed_of_scan hscan'
  refine ⟨_, tokens', hplain.writes_doc.print, hscan', fun h => ?_, fun h => ?_⟩
  · exact h.of_foldCase hplain hwf' hwf hfold.symm hsource
  · exact h.of_foldCase hplain hwf hwf' hfold (tells_of_ahead hahead)

theorem Tree.Plain.roundTrip (hscan : Token.scan text = .ok tokens)
    (hread : (Input.mk text tokens.toArray).ReadsAs e) (hplain : e.Plain) (style : Style) :
    ∃ page tokens', (e.doc : Doc).print style = .ok page ∧ Token.scan page = .ok tokens' ∧
      ((Input.mk page tokens'.toArray).ReadsAs e ↔
        (Input.mk text tokens.toArray).spellNots.ReadsAs e) ∧
      ((∀ t ∈ tokens, t.token ≠ .symbol .bang) → (Input.mk page tokens'.toArray).ReadsAs e) := by
  obtain ⟨page, tokens', hprint, hscan', hiff⟩ := exists_page hscan hread hplain
  refine ⟨page, tokens', hprint style, hscan', hiff, fun hmarks => ?_⟩
  rw [hiff, Input.spellNots_eq_self hmarks]
  exact hread

end Page

/-- Evaluates the rule for expressions on a whole input. -/
theorem Input.exists_readsAs {i : Input}
    (hplain : (Grammar.expression i 0).1.toOption.any Tree.isPlain = true)
    (hend : i.tokenAt (Grammar.expression i 0).2 = .eof) : ∃ e : Expr, i.ReadsAs e ∧ e.Plain := by
  rcases hrun : Grammar.expression i 0 with ⟨_ | e, pos⟩
  · rw [hrun] at hplain
    cases hplain
  · rw [hrun] at hplain hend
    exact ⟨e, ⟨pos, hrun, hend⟩, Tree.plainAs_of_isPlain e hplain⟩

/-- Two minus signs that must not be printed next to each other. -/
theorem Tree.Plain.roundTrip_minus :
    ∃ (tokens : List Spanned) (e : Expr) (page : String) (tokens' : List Spanned),
      Token.scan "- -f(1)" = .ok tokens ∧ (Input.mk "- -f(1)" tokens.toArray).ReadsAs e ∧
      e.Plain ∧ (e.doc : Doc).print .default = .ok page ∧ Token.scan page = .ok tokens' ∧
      (Input.mk page tokens'.toArray).ReadsAs e := by
  have hscan : Token.scan "- -f(1)" = .ok [⟨.symbol .minus, 0, 1⟩, ⟨.symbol .minus, 2, 3⟩,
      ⟨.word "f", 3, 4⟩, ⟨.symbol .lparen, 4, 5⟩, ⟨.number "1", 5, 6⟩, ⟨.symbol .rparen, 6, 7⟩,
      ⟨.eof, 7, 7⟩] := by
    decide +kernel
  obtain ⟨e, hread, hplain⟩ := Input.exists_readsAs (i := ⟨"- -f(1)", #[⟨.symbol .minus, 0, 1⟩,
    ⟨.symbol .minus, 2, 3⟩, ⟨.word "f", 3, 4⟩, ⟨.symbol .lparen, 4, 5⟩, ⟨.number "1", 5, 6⟩,
    ⟨.symbol .rparen, 6, 7⟩, ⟨.eof, 7, 7⟩]⟩) (by decide +kernel) (by decide +kernel)
  obtain ⟨page, tokens', hprint, hscan', -, hback⟩ := roundTrip hscan hread hplain .default
  exact ⟨_, e, page, tokens', hscan, hread, hplain, hprint, hscan', hback (by decide)⟩

/-- The tokens of `position(!in(1))`. -/
def positionTokens : List Spanned :=
  [⟨.word "position", 0, 8⟩, ⟨.symbol .lparen, 8, 9⟩, ⟨.symbol .bang, 9, 10⟩, ⟨.word "in", 10, 12⟩,
    ⟨.symbol .lparen, 12, 13⟩, ⟨.number "1", 13, 14⟩, ⟨.symbol .rparen, 14, 15⟩,
    ⟨.symbol .rparen, 15, 16⟩, ⟨.eof, 16, 16⟩]

/-- A call of a function with a negation in it. Spelled as a word, the mark is a name in front of
`IN`. -/
theorem Tree.Plain.not_roundTrip_position :
    ∃ (tokens : List Spanned) (e : Expr) (page : String) (tokens' : List Spanned),
      Token.scan "position(!in(1))" = .ok tokens ∧
      (Input.mk "position(!in(1))" tokens.toArray).ReadsAs e ∧ e.Plain ∧
      (e.doc : Doc).print .default = .ok page ∧ Token.scan page = .ok tokens' ∧
      ¬ (Input.mk page tokens'.toArray).ReadsAs e := by
  have hscan : Token.scan "position(!in(1))" = .ok positionTokens := by
    decide +kernel
  obtain ⟨e, hread, hplain⟩ := Input.exists_readsAs
    (i := ⟨"position(!in(1))", positionTokens.toArray⟩) (by decide +kernel) (by decide +kernel)
  obtain ⟨page, tokens', hprint, hscan', hiff⟩ := exists_page hscan hread hplain
  refine ⟨_, e, page, tokens', hscan, hread, hplain, hprint _, hscan', fun hback => ?_⟩
  -- The words are read as the form that asks for a position, which is not plain.
  have hspecial : (Grammar.expression ⟨"position(!in(1))", (positionTokens.map fun t =>
      { t with token := t.token.spellNot }).toArray⟩ 0).1.toOption.any Tree.isPlain = false := by
    decide +kernel
  obtain ⟨pos, hrun, -⟩ := hiff.1 hback
  rw [Input.spellNots_mk] at hrun
  rw [hrun] at hspecial
  exact Bool.eq_false_iff.1 hspecial hplain.isPlain

end SqlTidy
