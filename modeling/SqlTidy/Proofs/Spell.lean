import SqlTidy.Proofs.Outcome
import SqlTidy.Proofs.Plain

/-!
# The tokens that a plain expression was read from

`Spelled i pos e next` relates a plain expression to the tokens between two positions: they are the
expression's pieces, up to the letter case of keywords and up to the mark for `NOT`, and the pieces stand
in an order in which they can be printed.

There is one lemma for each form of expression. `SqlTidy.Proofs.Consume` puts them together along the rules
of the grammar.
-/

namespace SqlTidy

open Piece

/-! ## Pieces and tokens -/

/-- Whether a token of a source is printed as a piece. Keywords may be written in any case, and `NOT`
may be written as a mark. -/
def Piece.Fits : Piece → Token → Prop
  | .token t, u => u = t
  | .keyword k, u => u.isKeyword k ∨ k = "NOT" ∧ u = .symbol .bang
  | .gap, _ => False

/-- The tokens from one position up to another one are printed as some pieces. -/
inductive Spells (i : Input) : Nat → List Piece → Nat → Prop
  | nil {pos : Nat} : Spells i pos [] pos
  | gap {pos next : Nat} {ps : List Piece} (h : Spells i pos ps next) :
      Spells i pos (.gap :: ps) next
  | token {pos next : Nat} {p : Piece} {ps : List Piece} (hpos : i.tokenAt pos ≠ .eof)
      (hp : p.Fits (i.tokenAt pos)) (h : Spells i (pos + 1) ps next) : Spells i pos (p :: ps) next

namespace Spells

variable {i : Input} {pos mid next : Nat} {ps qs : List Piece}

theorem append (h : Spells i pos ps mid) (h' : Spells i mid qs next) :
    Spells i pos (ps ++ qs) next := by
  induction h with
  | nil => exact h'
  | gap _ ih => exact .gap (ih h')
  | token hpos hp _ ih => exact .token hpos hp (ih h')

theorem symbol {s : Symbol} (h : i.tokenAt pos = .symbol s) :
    Spells i pos [Piece.symbol s] (pos + 1) :=
  .token (by simp [h]) h .nil

theorem keyword {k : String} (h : (i.tokenAt pos).isKeyword k) :
    Spells i pos [.keyword k] (pos + 1) :=
  .token (Parse.ne_eof_of_isKeyword h) (.inl h) .nil

theorem ident {name : Ident} (h : i.tokenAt pos = name.token) :
    Spells i pos [name.piece] (pos + 1) := by
  refine .token ?_ h .nil
  cases hq : name.quoted <;> simp [h, Ident.token, hq]

/-- The first piece is the first token. -/
theorem fits_head {p : Piece} (h : Spells i pos (p :: ps) next) (hp : p ≠ .gap) :
    p.Fits (i.tokenAt pos) := by
  cases h with
  | gap => contradiction
  | token _ hfits => exact hfits

end Spells

/-! ## Pieces in an order in which they can be printed -/

namespace Piece

/-- A piece that an expression may start with: it may stand behind an opening parenthesis or a unary
operator, except that a minus sign is kept away from another one. -/
def Opens (p : Piece) : Prop := p = symbol .minus ∨ Admits (symbol .minus) p

/-- A piece that an expression may end with: brackets and commas may stand behind it. -/
def Closes (p : Piece) : Prop :=
  ∀ s ∈ [Symbol.lparen, .rparen, .lbracket, .rbracket, .comma], Admits p (symbol s)

/-- Pieces of a whole expression. -/
structure Framed (ps : List Piece) : Prop where
  ne_nil : ps ≠ []
  chain : ps.IsChain Admits
  opens : ∀ p ∈ ps.head?, p.Opens
  closes : ∀ p ∈ ps.getLast?, p.Closes

theorem admits_gap_left (p : Piece) : Admits .gap p := nofun

theorem admits_gap_right (p : Piece) : Admits p .gap := fun _ _ _ => nofun

theorem framed_singleton {p : Piece} (hopens : p.Opens) (hcloses : p.Closes) : Framed [p] := by
  refine ⟨by simp, .singleton p, ?_, ?_⟩
  · simpa using hopens
  · simpa using hcloses

/-- A name, a literal or a keyword. -/
theorem framed_word {p : Piece} {t : Token} (hp : p.token? = some t) (ht : ∀ s, t ≠ .symbol s) :
    Framed [p] := by
  refine framed_singleton (.inr fun _ hminus u hu => ?_) fun s hs u hu _ hbracket => ?_
  · cases hminus
    rw [hp] at hu
    cases hu
    cases t with
    | symbol s => exact absurd rfl (ht s)
    | _ => rfl
  · cases hbracket
    rw [hp] at hu
    cases hu
    simp only [List.mem_cons, List.not_mem_nil, or_false] at hs
    cases t with
    | symbol s => exact absurd rfl (ht s)
    | _ => rcases hs with rfl | rfl | rfl | rfl | rfl <;> rfl

theorem framed_keyword (k : String) : Framed [.keyword k] := framed_word rfl nofun

theorem framed_star : Framed [symbol .star] :=
  framed_singleton (.inr fun _ ht _ hu => by cases ht; cases hu; rfl) fun s hs _ ht _ hu => by
    cases ht
    cases hu
    simpa [Token.admits] using hs

theorem Framed.append {ps qs : List Piece} (hps : Framed ps) (hchain : qs.IsChain Admits)
    (hcloses : ∀ p ∈ qs.getLast?, p.Closes)
    (hjoin : ∀ p ∈ ps.getLast?, ∀ q ∈ qs.head?, Admits p q) : Framed (ps ++ qs) := by
  refine ⟨by simp [hps.ne_nil], hps.chain.append hchain hjoin, ?_, ?_⟩
  · rw [List.head?_append_of_ne_nil _ hps.ne_nil]
    exact hps.opens
  · intro p hp
    rw [List.getLast?_append] at hp
    cases hq : qs.getLast? with
    | none =>
      rw [hq] at hp
      exact hps.closes p hp
    | some q =>
      rw [hq] at hp
      cases hp
      exact hcloses p hq

/-- Two expressions with a space between them. -/
theorem Framed.gap {ps qs : List Piece} (hps : Framed ps) (hqs : Framed qs) :
    Framed (ps ++ .gap :: qs) := by
  refine hps.append (hqs.chain.cons fun q _ => admits_gap_left q) ?_ ?_
  · rw [List.getLast?_cons_of_ne_nil hqs.ne_nil]
    exact hqs.closes
  · simp only [List.head?_cons, Option.mem_some_iff]
    rintro p - _ rfl
    exact admits_gap_right p

/-- Two expressions with any piece between them, and spaces around it. -/
theorem Framed.gap_gap {ps qs : List Piece} (hps : Framed ps) (p : Piece) (hqs : Framed qs) :
    Framed (ps ++ .gap :: p :: .gap :: qs) := by
  refine hps.append ?_ ?_ ?_
  · refine .cons_cons (admits_gap_left p) (.cons_cons (admits_gap_right p) ?_)
    exact hqs.chain.cons fun q _ => admits_gap_left q
  · rw [List.getLast?_cons_of_ne_nil (by simp), List.getLast?_cons_of_ne_nil (by simp),
      List.getLast?_cons_of_ne_nil hqs.ne_nil]
    exact hqs.closes
  · rintro q - _ ⟨⟩
    exact admits_gap_right q

theorem Framed.notWord {ps : List Piece} (hps : Framed ps) (negated : Bool) :
    Framed (Piece.notWord negated ++ ps) := by
  cases negated with
  | false => exact hps
  | true => exact (framed_keyword "NOT").gap hps

/-- Brackets admit anything behind them. -/
theorem admits_bracket {s : Symbol} (hs : s = .lparen ∨ s = .lbracket) (p : Piece) :
    Admits (symbol s) p := by
  rintro _ ⟨⟩ u _
  rcases hs with rfl | rfl <;> rfl

theorem closes_bracket {s : Symbol} (hs : s = .rparen ∨ s = .rbracket) : (symbol s).Closes := by
  rintro b hb _ ⟨⟩ _ ⟨⟩
  simp only [List.mem_cons, List.not_mem_nil, or_false] at hb
  rcases hs with rfl | rfl <;> rcases hb with rfl | rfl | rfl | rfl | rfl <;> rfl

/-- Something in brackets, or empty brackets. -/
theorem chain_brackets {s s' : Symbol} (hs : s = .lparen ∨ s = .lbracket)
    (hs' : s' = .rparen ∨ s' = .rbracket) {ps : List Piece} (hps : ps = [] ∨ Framed ps) :
    (symbol s :: (ps ++ [symbol s'])).IsChain Admits := by
  refine .cons ?_ fun q _ => admits_bracket hs q
  rcases hps with rfl | hps
  · exact .singleton _
  · refine hps.chain.append (.singleton _) fun p hp q hq => ?_
    cases hq
    refine hps.closes p hp s' ?_
    rcases hs' with rfl | rfl <;> simp

theorem framed_brackets {s s' : Symbol} (hs : s = .lparen ∨ s = .lbracket) (hs' : s' = .rparen ∨ s' = .rbracket)
    {ps : List Piece} (hps : ps = [] ∨ Framed ps) : Framed (symbol s :: (ps ++ [symbol s'])) := by
  refine ⟨by simp, chain_brackets hs hs' hps, ?_, ?_⟩
  · rintro _ ⟨⟩
    refine .inr fun _ ht _ hu => ?_
    cases ht
    cases hu
    rcases hs with rfl | rfl <;> rfl
  · rw [← List.cons_append, List.getLast?_concat]
    rintro _ ⟨⟩
    exact closes_bracket hs'

theorem framed_parens {ps : List Piece} (hps : ps = [] ∨ Framed ps) :
    Framed (symbol .lparen :: (ps ++ [symbol .rparen])) := framed_brackets (.inl rfl) (.inl rfl) hps

/-- An expression with brackets behind it. -/
theorem Framed.brackets {s s' : Symbol} (hs : s = .lparen ∨ s = .lbracket)
    (hs' : s' = .rparen ∨ s' = .rbracket) {ps qs : List Piece} (hps : Framed ps)
    (hqs : qs = [] ∨ Framed qs) : Framed (ps ++ symbol s :: (qs ++ [symbol s'])) := by
  refine hps.append (chain_brackets hs hs' hqs) ?_ fun p hp q hq => ?_
  · rw [← List.cons_append, List.getLast?_concat]
    rintro _ ⟨⟩
    exact closes_bracket hs'
  · cases hq
    refine hps.closes p hp s ?_
    rcases hs with rfl | rfl <;> simp

/-- A sign in front of an expression that does not start with a minus sign. -/
theorem Framed.sign {s : Symbol} {ps : List Piece} (hs : s = .minus ∨ s = .plus ∨ s = .tilde)
    (hps : Framed ps) (hminus : s = .minus → ps.head? ≠ some (symbol .minus)) :
    Framed (symbol s :: ps) := by
  refine ⟨by simp, hps.chain.cons fun q hq => ?_, ?_, ?_⟩
  · rcases hs with rfl | rfl | rfl
    · refine (hps.opens q hq).resolve_left fun h => hminus rfl ?_
      rw [← h]
      exact hq
    · rintro _ ⟨⟩ u _
      rfl
    · rintro _ ⟨⟩ u _
      rfl
  · rintro _ ⟨⟩
    rcases hs with rfl | rfl | rfl
    · exact .inl rfl
    · exact .inr fun _ ht _ hu => by cases ht; cases hu; rfl
    · exact .inr fun _ ht _ hu => by cases ht; cases hu; rfl
  · rw [List.getLast?_cons_of_ne_nil hps.ne_nil]
    exact hps.closes

/-- A minus sign that is kept apart from what follows. -/
theorem Framed.minus_gap {ps : List Piece} (hps : Framed ps) :
    Framed (symbol .minus :: .gap :: ps) := by
  refine ⟨by simp, .cons_cons (admits_gap_right _) (hps.chain.cons fun q _ => admits_gap_left q), ?_,
    ?_⟩
  · rintro _ ⟨⟩
    exact .inl rfl
  · rw [List.getLast?_cons_of_ne_nil (by simp), List.getLast?_cons_of_ne_nil hps.ne_nil]
    exact hps.closes

theorem head?_sepBy {separator qs : List Piece} (hqs : qs ≠ []) (rest : List (List Piece)) :
    (sepBy separator (qs :: rest)).head? = qs.head? := by
  cases rest with
  | nil => rfl
  | cons => exact List.head?_append_of_ne_nil _ hqs

/-- Expressions with a separator between them that may stand behind each and in front of each. -/
theorem framed_sepBy {separator : List Piece} (hsep : separator ≠ [])
    (hchain : separator.IsChain Admits) {ps : List Piece} {rest : List (List Piece)}
    (h : ∀ qs ∈ ps :: rest, Framed qs ∧ (∀ p ∈ qs.getLast?, ∀ q ∈ separator.head?, Admits p q) ∧
      ∀ p ∈ separator.getLast?, ∀ q ∈ qs.head?, Admits p q) :
    Framed (sepBy separator (ps :: rest)) := by
  induction rest generalizing ps with
  | nil => exact (h ps (by simp)).1
  | cons qs rest ih =>
    obtain ⟨⟨hps, hbehind, -⟩, hrest⟩ := List.forall_mem_cons.1 h
    have hitems := ih hrest
    obtain ⟨hqs, -, hfront⟩ := hrest qs (by simp)
    refine hps.append (hchain.append hitems.chain ?_) ?_ ?_
    · rw [head?_sepBy hqs.ne_nil]
      exact hfront
    · rw [List.getLast?_append_of_ne_nil _ hitems.ne_nil]
      exact hitems.closes
    · rw [List.head?_append_of_ne_nil _ hsep]
      exact hbehind

/-- Expressions with commas between them. -/
theorem framed_commas {ps : List Piece} {rest : List (List Piece)}
    (h : ∀ qs ∈ ps :: rest, Framed qs) : Framed (commas (ps :: rest)) := by
  refine framed_sepBy (by simp) (.cons_cons (admits_gap_right _) (.singleton _)) fun qs hqs => ?_
  refine ⟨h qs hqs, ?_, ?_⟩
  · rintro p hp _ ⟨⟩
    exact (h qs hqs).closes p hp .comma (by simp)
  · rintro _ ⟨⟩ q _
    exact admits_gap_left q

/-- A separator and one more list behind others. -/
theorem sepBy_concat {separator : List Piece} {pss : List (List Piece)} (h : pss ≠ [])
    (qs : List Piece) : sepBy separator (pss ++ [qs]) = sepBy separator pss ++ (separator ++ qs) := by
  induction pss with
  | nil => contradiction
  | cons ps pss ih =>
    cases pss with
    | nil => rfl
    | cons ps' pss =>
      show ps ++ (separator ++ sepBy separator (ps' :: pss ++ [qs])) = _
      rw [ih (by simp)]
      simp [sepBy]

end Piece

namespace Ident

theorem piece_eq (i : Ident) :
    (∃ w, i.piece = .token (.word w)) ∨ ∃ w, i.piece = .token (.quoted w) := by
  cases hq : i.quoted <;> simp [piece, token, hq]

theorem framed_piece (i : Ident) : Framed [i.piece] := by
  rcases i.piece_eq with ⟨w, hw⟩ | ⟨w, hw⟩ <;> rw [hw] <;> exact framed_word rfl nofun

theorem admits_dot (i : Ident) : Admits i.piece (symbol .dot) := by
  rintro t ht _ ⟨⟩
  rcases i.piece_eq with ⟨w, hw⟩ | ⟨w, hw⟩ <;> rw [hw] at ht <;> cases ht <;> rfl

theorem dot_admits (i : Ident) : Admits (symbol .dot) i.piece := by
  rintro _ ⟨⟩ t ht
  rcases i.piece_eq with ⟨w, hw⟩ | ⟨w, hw⟩ <;> rw [hw] at ht <;> cases ht <;> rfl

theorem dotted_concat {parts : List Ident} (h : parts ≠ []) (i : Ident) :
    dotted (parts ++ [i]) = dotted parts ++ [symbol .dot, i.piece] := by
  rw [dotted, List.map_append]
  exact sepBy_concat (by simpa using h) _

/-- Names with dots between them. -/
theorem framed_dotted {parts : List Ident} (h : parts ≠ []) : Framed (dotted parts) := by
  match parts with
  | [] => contradiction
  | i :: parts =>
    refine framed_sepBy (by simp) (.singleton _) fun qs hqs => ?_
    obtain ⟨i, -, rfl⟩ := List.mem_map.1 (show qs ∈ (i :: parts).map fun i => [i.piece] from hqs)
    refine ⟨i.framed_piece, ?_, ?_⟩
    · rintro _ ⟨⟩ _ ⟨⟩
      exact i.admits_dot
    · rintro _ ⟨⟩ _ ⟨⟩
      exact i.dot_admits

theorem getLast?_dotted {parts : List Ident} {p : Piece} (h : p ∈ (dotted parts).getLast?) :
    ∃ i : Ident, p = i.piece := by
  cases parts using List.reverseRecOn with
  | nil => contradiction
  | append_singleton parts i =>
    cases parts with
    | nil => exact ⟨i, by cases h; rfl⟩
    | cons j parts =>
      rw [dotted_concat (by simp), List.getLast?_append_of_ne_nil _ (by simp)] at h
      exact ⟨i, by cases h; rfl⟩

/-- A name with a star behind it. -/
theorem framed_dotted_star {parts : List Ident} (h : parts ≠ []) :
    Framed (dotted parts ++ [symbol .dot, symbol .star]) := by
  refine (framed_dotted h).append (.cons_cons ?_ (.singleton _)) ?_ fun p hp q hq => ?_
  · rintro _ ⟨⟩ _ ⟨⟩
    rfl
  · rintro _ ⟨⟩
    exact framed_star.closes _ rfl
  · obtain ⟨i, rfl⟩ := getLast?_dotted hp
    cases hq
    exact i.admits_dot

end Ident

/-! ## Expressions and tokens -/

/-- The tokens between two positions are those of an expression, which can be printed. -/
structure Spelled (i : Input) (pos : Nat) (e : Expr) (next : Nat) : Prop where
  spells : Spells i pos e.pieces next
  framed : Framed e.pieces

/-- The tokens between two positions are those of some expressions with commas between them. -/
structure SpelledList (i : Input) (pos : Nat) (es : List Expr) (next : Nat) : Prop where
  spells : Spells i pos (commas (es.map Tree.pieces)) next
  framed : ∀ e ∈ es, Framed e.pieces

namespace SpelledList

variable {i : Input} {pos mid next : Nat} {e : Expr} {es : List Expr}

theorem nil : SpelledList i pos [] pos := ⟨.nil, nofun⟩

theorem singleton (h : Spelled i pos e next) : SpelledList i pos [e] next :=
  ⟨h.spells, by simpa using h.framed⟩

theorem concat (h : SpelledList i pos es mid) (hes : es ≠ [])
    (hcomma : i.tokenAt mid = .symbol .comma) (he : Spelled i (mid + 1) e next) :
    SpelledList i pos (es ++ [e]) next := by
  constructor
  · rw [List.map_append]
    refine (?_ : Spells i pos (commas (es.map Tree.pieces ++ [e.pieces])) next)
    rw [commas, sepBy_concat (by simpa using hes)]
    exact h.spells.append ((Spells.symbol hcomma).append (.gap he.spells))
  · simpa [or_imp, forall_and] using ⟨h.framed, he.framed⟩

theorem framed_commas (h : SpelledList i pos es next) :
    commas (es.map Tree.pieces) = [] ∨ Framed (commas (es.map Tree.pieces)) := by
  cases es with
  | nil => exact .inl rfl
  | cons e es =>
    refine .inr (Piece.framed_commas fun ps hps => ?_)
    obtain ⟨e', he', rfl⟩ := List.mem_map.1 (show ps ∈ (e :: es).map Tree.pieces from hps)
    exact h.framed e' he'

end SpelledList

namespace Spelled

variable {i : Input} {pos mid next : Nat} {e : Expr}

theorem ident {name : Ident} (h : i.tokenAt pos = name.token) :
    Spelled i pos (.ident name) (pos + 1) :=
  ⟨.ident h, name.framed_piece⟩

theorem compound {parts : List Ident} (hparts : parts ≠ [])
    (h : Spells i pos (Ident.dotted parts) next) : Spelled i pos (.compound parts) next :=
  ⟨h, Ident.framed_dotted hparts⟩

theorem wildcard (h : i.tokenAt pos = .symbol .star) : Spelled i pos .wildcard (pos + 1) :=
  ⟨.symbol h, framed_star⟩

theorem qualifiedWildcard {parts : List Ident} (hparts : parts ≠ [])
    (h : Spells i pos (Ident.dotted parts) mid) (hdot : i.tokenAt mid = .symbol .dot)
    (hstar : i.tokenAt (mid + 1) = .symbol .star) :
    Spelled i pos (.qualifiedWildcard ⟨parts⟩) (mid + 2) :=
  ⟨h.append ((Spells.symbol hdot).append (.symbol hstar)), Ident.framed_dotted_star hparts⟩

theorem null (h : (i.tokenAt pos).isKeyword "NULL") : Spelled i pos (.literal .null) (pos + 1) :=
  ⟨.keyword h, framed_keyword _⟩

theorem boolean {value : Bool}
    (h : (i.tokenAt pos).isKeyword (if value then "TRUE" else "FALSE")) :
    Spelled i pos (.literal (.boolean value)) (pos + 1) := by
  cases value <;> exact ⟨.keyword h, framed_keyword _⟩

theorem number {text : String} (h : i.tokenAt pos = .number text) :
    Spelled i pos (.literal (.number text)) (pos + 1) :=
  ⟨.token (by simp [h]) h .nil, framed_word rfl nofun⟩

theorem string {texts : List String} (htexts : texts ≠ [])
    (h : Spells i pos (Literal.string texts).pieces next) :
    Spelled i pos (.literal (.string texts)) next := by
  refine ⟨h, ?_⟩
  match texts with
  | [] => contradiction
  | s :: texts =>
    refine framed_sepBy (by simp) (.singleton _) fun ps hps => ?_
    obtain ⟨s, -, rfl⟩ :=
      List.mem_map.1 (show ps ∈ (s :: texts).map fun s => [Piece.token (.string s)] from hps)
    refine ⟨framed_word rfl nofun, ?_, ?_⟩
    · rintro p - _ ⟨⟩
      exact admits_gap_right p
    · rintro _ ⟨⟩ q -
      exact admits_gap_left q

/-- A unary sign. Its operand starts with a minus sign only if it is a negative itself. -/
theorem sign {op : UnaryOp} (hop : op ≠ .not) (h : Spells i pos op.pieces (pos + 1))
    (he : Spelled i (pos + 1) e next)
    (hminus : e.pieces.head? = some (symbol .minus) → ∃ x, e = .unary .minus x) :
    Spelled i pos (.unary op e) next := by
  by_cases hgap : ∃ x, op = .minus ∧ e = .unary .minus x
  · obtain ⟨x, rfl, rfl⟩ := hgap
    exact ⟨h.append (.gap he.spells), he.framed.minus_gap⟩
  · have hnone : Tree.minusGap op e = [] := by
      unfold Tree.minusGap
      split
      · exact absurd ⟨_, rfl, rfl⟩ hgap
      · rfl
    have hpieces : (Tree.unary op e).pieces = op.pieces ++ e.pieces := by
      show op.pieces ++ (Tree.minusGap op e ++ e.pieces) = _
      rw [hnone, List.nil_append]
    have hhead : op = .minus → e.pieces.head? ≠ some (symbol .minus) := by
      rintro rfl hhead
      obtain ⟨x, rfl⟩ := hminus hhead
      exact hgap ⟨x, rfl, rfl⟩
    constructor
    · rw [hpieces]
      exact h.append he.spells
    · rw [hpieces]
      cases op with
      | not => contradiction
      | minus => exact he.framed.sign (.inl rfl) fun _ => hhead rfl
      | plus => exact he.framed.sign (.inr (.inl rfl)) nofun
      | bitNot => exact he.framed.sign (.inr (.inr rfl)) nofun

theorem negation (hnot : Spells i pos [.keyword "NOT"] (pos + 1)) (he : Spelled i (pos + 1) e next) :
    Spelled i pos (.unary .not e) next := by
  have hpieces : (Tree.unary .not e).pieces = [.keyword "NOT"] ++ .gap :: e.pieces := rfl
  exact ⟨hnot.append (.gap he.spells), hpieces ▸ (framed_keyword "NOT").gap he.framed⟩

theorem binary {op : BinaryOp} {left right : Expr} (hleft : Spelled i pos left mid)
    (hop : Spells i mid [op.piece] (mid + 1)) (hright : Spelled i (mid + 1) right next) :
    Spelled i pos (.binary op left right) next :=
  ⟨hleft.spells.append (.gap (hop.append (.gap hright.spells))),
    hleft.framed.gap_gap op.piece hright.framed⟩

variable {tested : Expr} {negated : Bool} {head : Nat}

/-- A predicate behind the expression that it is about, with `NOT` in front of its word or without. -/
theorem predicate {ps : List Piece} (htested : Spelled i pos tested mid)
    (hnot : Spells i mid (notWord negated) head) (hps : Spells i head ps next)
    (hframed : Framed ps) :
    Spells i pos (tested.pieces ++ .gap :: (notWord negated ++ ps)) next ∧
      Framed (tested.pieces ++ .gap :: (notWord negated ++ ps)) :=
  ⟨htested.spells.append (.gap (hnot.append hps)), htested.framed.gap (hframed.notWord negated)⟩

theorem between {low high : Expr} {conj : Nat} (htested : Spelled i pos tested mid)
    (hnot : Spells i mid (notWord negated) head) (hword : (i.tokenAt head).isKeyword "BETWEEN")
    (hlow : Spelled i (head + 1) low conj) (hand : (i.tokenAt conj).isKeyword "AND")
    (hhigh : Spelled i (conj + 1) high next) :
    Spelled i pos (.between tested negated low high) next := by
  obtain ⟨hspells, hframed⟩ := predicate htested hnot
    ((Spells.keyword hword).append (.gap (hlow.spells.append (.gap ((Spells.keyword hand).append
      (.gap hhigh.spells))))))
    ((framed_keyword _).gap (hlow.framed.gap ((framed_keyword _).gap hhigh.framed)))
  exact ⟨hspells, hframed⟩

theorem inList {items : List Expr} {close : Nat} (htested : Spelled i pos tested mid)
    (hnot : Spells i mid (notWord negated) head) (hword : (i.tokenAt head).isKeyword "IN")
    (hopen : i.tokenAt (head + 1) = .symbol .lparen) (hitems : SpelledList i (head + 2) items close)
    (hclose : i.tokenAt close = .symbol .rparen) :
    Spelled i pos (.inList tested negated (.ofList items)) (close + 1) := by
  obtain ⟨hspells, hframed⟩ := predicate htested hnot
    ((Spells.keyword hword).append (.gap ((Spells.symbol hopen).append (hitems.spells.append
      (.symbol hclose)))))
    ((framed_keyword _).gap (framed_parens hitems.framed_commas))
  have hpieces : (Tree.ofList items).pieces = commas (items.map Tree.pieces) := by
    rw [Tree.pieces_list, Tree.toList_ofList]
  rw [← hpieces] at hspells hframed
  exact ⟨hspells, hframed⟩

theorem like {op : LikeOp} {pattern : Expr} {escape : Option String} {last : Nat}
    (htested : Spelled i pos tested mid) (hnot : Spells i mid (notWord negated) head)
    (hword : (i.tokenAt head).isKeyword op.spelling) (hpattern : Spelled i (head + 1) pattern last)
    (hescape : Spells i last (Piece.escape escape) next) :
    Spelled i pos (.like tested negated op pattern escape) next := by
  have hframed : Framed (pattern.pieces ++ Piece.escape escape) := by
    cases escape with
    | none =>
      rw [Piece.escape, List.append_nil]
      exact hpattern.framed
    | some s =>
      have hstring : Framed [Piece.token (.string s)] := framed_word rfl nofun
      exact hpattern.framed.gap ((framed_keyword "ESCAPE").gap hstring)
  obtain ⟨hspells, hframed⟩ := predicate htested hnot
    ((Spells.keyword hword).append (.gap (hpattern.spells.append hescape)))
    ((framed_keyword _).gap hframed)
  exact ⟨hspells, hframed⟩

theorem is {test : IsTest} (htested : Spelled i pos tested mid)
    (hword : (i.tokenAt mid).isKeyword "IS") (hnot : Spells i (mid + 1) (notWord negated) head)
    (htest : (i.tokenAt head).isKeyword test.spelling) :
    Spelled i pos (.is tested negated test) (head + 1) :=
  ⟨htested.spells.append (.gap ((Spells.keyword hword).append (.gap (hnot.append
      (.keyword htest))))),
    htested.framed.gap ((framed_keyword "IS").gap ((framed_keyword _).notWord negated))⟩

theorem distinctFrom {other : Expr} (htested : Spelled i pos tested mid)
    (hword : (i.tokenAt mid).isKeyword "IS") (hnot : Spells i (mid + 1) (notWord negated) head)
    (hwords : i.HasWords head ["DISTINCT", "FROM"]) (hother : Spelled i (head + 2) other next) :
    Spelled i pos (.distinctFrom tested negated other) next :=
  ⟨htested.spells.append (.gap ((Spells.keyword hword).append (.gap (hnot.append
      ((Spells.keyword hwords.1).append (.gap ((Spells.keyword hwords.2.1).append
        (.gap hother.spells)))))))),
    htested.framed.gap ((framed_keyword "IS").gap (((framed_keyword "DISTINCT").gap
      ((framed_keyword "FROM").gap hother.framed)).notWord negated))⟩

theorem paren {close : Nat} (hopen : i.tokenAt pos = .symbol .lparen)
    (he : Spelled i (pos + 1) e close) (hclose : i.tokenAt close = .symbol .rparen) :
    Spelled i pos (.paren e) (close + 1) :=
  ⟨(Spells.symbol hopen).append (he.spells.append (.symbol hclose)), framed_parens (.inr he.framed)⟩

theorem subscript {base index : Expr} {close : Nat} (hbase : Spelled i pos base mid)
    (hopen : i.tokenAt mid = .symbol .lbracket) (hindex : Spelled i (mid + 1) index close)
    (hclose : i.tokenAt close = .symbol .rbracket) :
    Spelled i pos (.subscript base index) (close + 1) :=
  ⟨hbase.spells.append ((Spells.symbol hopen).append (hindex.spells.append (.symbol hclose))),
    hbase.framed.brackets (.inr rfl) (.inr rfl) (.inr hindex.framed)⟩

theorem function {name : DottedName} {args : List Expr} {close : Nat} (hname : name.parts ≠ [])
    (hspells : Spells i pos (Ident.dotted name.parts) mid)
    (hopen : i.tokenAt mid = .symbol .lparen) (hargs : SpelledList i (mid + 1) args close)
    (hclose : i.tokenAt close = .symbol .rparen) :
    Spelled i pos (.function (.call name Option.none (.ofList (args.map .positional)) .nil .none
      Option.none .none)) (close + 1) := by
  have hpieces : (Tree.ofList (args.map Tree.positional)).pieces = commas (args.map Tree.pieces) := by
    rw [Tree.pieces_list, Tree.toList_ofList, List.map_map]
    rfl
  have hlist := hargs.spells
  have hframed := hargs.framed_commas
  rw [← hpieces] at hlist hframed
  exact ⟨hspells.append ((Spells.symbol hopen).append (hlist.append (.symbol hclose))),
    (Ident.framed_dotted hname).brackets (.inl rfl) (.inl rfl) hframed⟩

end Spelled

end SqlTidy
