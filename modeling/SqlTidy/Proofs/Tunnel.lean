import SqlTidy.Proofs.Command
import SqlTidy.Proofs.DataType
import SqlTidy.Proofs.Spread

/-!
# Tunnels are read back as they were printed

**Theorem (`Statement.readBack_tunnel`).** If a text is read as a tunnel, then every page of that tunnel is read as
the same tunnel.

The options of a tunnel are kept as text: a key is a string or a dotted name, and a value is a scalar, perhaps with
a minus sign in front, or a list of values. So the tree does not say which tokens a text stands for, and the proof
goes through the tokens that the text came from. `Doc.Sets` collects what a printed page needs for being scanned as
the tokens of its pieces. Each part of a tunnel that was read is set in some pieces, and the tokens of these pieces
are read back as that part.
-/

namespace SqlTidy

open Text Piece Parse

/-! ## Lists on lines of their own -/

/-- Items between parentheses, with a gap where a line may end. -/
def Piece.block : List (List Piece) → List Piece
  | [] => [symbol .lparen, symbol .rparen]
  | items => symbol .lparen :: .gap :: (commas items ++ [.gap, symbol .rparen])

namespace Piece

variable {ps : List Piece} {items : List (List Piece)}

theorem Framed.block (hps : Framed ps) (hitems : ∀ qs ∈ items, Framed qs) : Framed (ps ++ block items) := by
  cases items with
  | nil => exact hps.brackets (.inl rfl) (.inl rfl) (.inl rfl)
  | cons qs items =>
    have hcommas := framed_commas hitems
    have hclose : (commas (qs :: items) ++ [.gap, symbol .rparen]).IsChain Admits := by
      refine hcommas.chain.append (.cons_cons (admits_gap_left _) (.singleton _)) ?_
      rintro p - _ ⟨⟩
      exact admits_gap_right p
    refine hps.append (.cons_cons (admits_gap_right _) (hclose.cons fun q _ => admits_gap_left q)) ?_ ?_
    · show ∀ p ∈ (symbol .lparen :: .gap :: (commas (qs :: items) ++ [.gap, symbol .rparen])).getLast?, _
      rw [List.getLast?_cons_of_ne_nil (by simp), List.getLast?_cons_of_ne_nil (by simp),
        List.getLast?_append_of_ne_nil _ (by simp)]
      rintro _ ⟨⟩
      exact closes_bracket (.inl rfl)
    · rintro p hp _ ⟨⟩
      exact hps.closes p hp .lparen (by simp)

theorem prints_block (hitems : ∀ qs ∈ items, ∀ p ∈ qs, p.Prints) : ∀ p ∈ block items, p.Prints := by
  have hopen : (symbol .lparen).Prints := prints_symbol (by simp)
  have hclose : (symbol .rparen).Prints := prints_symbol (by simp)
  cases items with
  | nil => simpa [block] using ⟨hopen, hclose⟩
  | cons qs items =>
    have hend : ∀ p ∈ [.gap, symbol .rparen], p.Prints := by simpa using ⟨prints_gap, hclose⟩
    refine List.forall_mem_cons.2 ⟨hopen, List.forall_mem_cons.2 ⟨prints_gap, ?_⟩⟩
    exact List.forall_mem_append.2 ⟨prints_commas hitems, hend⟩

theorem tokensOf_block (qs : List Piece) (items : List (List Piece)) :
    tokensOf (block (qs :: items)) =
      .symbol .lparen :: (tokensOf (commas (qs :: items)) ++ [.symbol .rparen]) := by
  show tokensOf ([symbol .lparen, .gap] ++ (commas (qs :: items) ++ [.gap, symbol .rparen])) = _
  rw [tokensOf_append, tokensOf_append]
  rfl

end Piece

/-! ## Documents that are set in pieces -/

namespace Doc

/-- The document writes pieces that are read again as their tokens. -/
structure Sets (d : Doc) (ps : List Piece) : Prop where
  lays : d.Lays ps
  framed : Framed ps
  prints : ∀ p ∈ ps, p.Prints

variable {α : Type} {doc : α → Doc} {pieces : α → List Piece} {xs : List α}

theorem Lays.commas (h : ∀ x ∈ xs, (doc x).Lays (pieces x)) :
    (Doc.commas (xs.map doc)).Lays (Piece.commas (xs.map pieces)) := by
  induction xs with
  | nil => exact .nil
  | cons x xs ih =>
    obtain ⟨hx, hxs⟩ := List.forall_mem_cons.1 h
    cases xs with
    | nil => exact hx
    | cons y ys =>
      have hcomma : (Doc.text ", ").Lays [symbol .comma, .gap] := .text rfl rfl
      exact hx.append (hcomma.append (ih hxs))

theorem Lays.block (h : ∀ x ∈ xs, (doc x).Lays (pieces x)) :
    (Doc.block (xs.map doc)).Lays (Piece.block (xs.map pieces)) := by
  cases xs with
  | nil =>
    have hempty : (Doc.text "()").Lays [symbol .lparen, symbol .rparen] := .text rfl rfl
    exact hempty
  | cons x xs =>
    have hopen : (Doc.text "(").Lays [symbol .lparen] := .text rfl rfl
    have hclose : (Doc.text ")").Lays [symbol .rparen] := .text rfl rfl
    have hall := ((hopen.append (Lays.commaLines x xs h).nest).append .line).append hclose
    simp only [List.append_assoc, List.cons_append, List.nil_append] at hall
    exact hall

/-- A list on one line between square brackets. -/
theorem sets_brackets (h : ∀ x ∈ xs, (doc x).Sets (pieces x)) :
    (seq ["[", Doc.commas (xs.map doc), "]"]).Sets
      (symbol .lbracket :: (Piece.commas (xs.map pieces) ++ [symbol .rbracket])) where
  lays := by
    have hopen : (Doc.text "[").Lays [symbol .lbracket] := .text rfl rfl
    have hclose : (Doc.text "]").Lays [symbol .rbracket] := .text rfl rfl
    exact hopen.cons ((Lays.commas fun x hx => (h x hx).lays).cons hclose.last)
  framed := by
    refine framed_brackets (.inr rfl) (.inr rfl) ?_
    cases xs with
    | nil => exact .inl rfl
    | cons x xs =>
      refine .inr (framed_commas fun qs hqs => ?_)
      obtain ⟨y, hy, rfl⟩ := List.mem_map.1 (show qs ∈ (x :: xs).map pieces from hqs)
      exact (h y hy).framed
  prints := by
    have hclose : ∀ p ∈ [symbol .rbracket], p.Prints := by simpa using prints_symbol (by simp)
    refine List.forall_mem_cons.2 ⟨prints_symbol (by simp), List.forall_mem_append.2 ⟨prints_commas ?_, hclose⟩⟩
    intro ps hps
    obtain ⟨x, hx, rfl⟩ := List.mem_map.1 hps
    exact (h x hx).prints

end Doc

/-! ## Keys and values that are read -/

/-- The token of a scalar that is kept as a text. -/
structure Token.Scalar (t : Token) (s : String) : Prop where
  wellFormed : t.WellFormed
  eq_literal : t = .string s ∨ t = .number s ∨ t = .word s

/-- The texts of values. -/
inductive TunnelValue.Legal : TunnelValue → Prop
  | scalar {t : Token} {s : String} (h : t.Scalar s) : Legal (.scalar s)
  | negative {t : Token} {s : String} (h : t.Scalar s) : Legal (.scalar ("-" ++ s))
  | list {items : List TunnelValue} (h : ∀ v ∈ items, Legal v) : Legal (.list items)

/-- The texts of keys. -/
inductive LegalKey : String → Prop
  | string {s : String} (h : (Token.string s).WellFormed) : LegalKey s
  | name {first : Ident} {rest : List Ident} (h : ∀ i ∈ first :: rest, i.WellFormed) :
      LegalKey (DottedName.mk (first :: rest)).written

structure TunnelProperty.Legal (p : TunnelProperty) : Prop where
  key : LegalKey p.key
  value : p.value.Legal

structure DataTunnel.Legal (t : DataTunnel) : Prop where
  source : (Token.string t.source).WellFormed
  sourceOptions : ∀ p ∈ t.sourceOptions, p.Legal
  transform : ∀ s ∈ t.transform, (Token.string s).WellFormed
  sink : (Token.string t.sink).WellFormed
  sinkOptions : ∀ p ∈ t.sinkOptions, p.Legal

namespace Grammar

theorem yields_tunnelScalar : Yields (fun s => ∃ t : Token, t.Scalar s) tunnelScalar := by
  refine yields_expectIf fun t ht s hs => ⟨t, ht, ?_⟩
  cases t with
  | string s' | number s' | word s' =>
    cases hs
    simp
  | _ => contradiction

theorem yields_tunnelValue : Yields TunnelValue.Legal tunnelValue := by
  refine .fix fun inner h => .andThen fun _ => .ite ?list (.andThen fun _ => .ite ?negative ?scalar)
  case list =>
    exact h.commaSeparated.maybeList.bind fun items hitems => .andThen fun _ => .pure (.list hitems)
  case negative => exact yields_tunnelScalar.bind fun s ⟨t, hs⟩ => .pure (.negative hs)
  case scalar => exact yields_tunnelScalar.bind fun s ⟨t, hs⟩ => .pure (.scalar hs)

theorem yields_propertyKey : Yields LegalKey propertyKey := by
  refine .andThen fun t => ?_
  split
  · exact yields_stringLiteral.imp fun _ => .string
  · have hname : Yields (fun name => LegalKey name.written) dottedName :=
      yields_identifier.bind fun _ hfirst => yields_dottedPart.many.bind fun _ hrest =>
        .pure (.name (List.forall_mem_cons.2 ⟨hfirst, hrest⟩))
    exact hname.bind fun _ => .pure

theorem yields_tunnelProperty : Yields TunnelProperty.Legal tunnelProperty :=
  yields_propertyKey.bind fun _ hkey => .andThen fun _ => yields_tunnelValue.bind fun _ hvalue => .pure ⟨hkey, hvalue⟩

theorem yields_tunnelOptions : Yields (fun options => ∀ p ∈ options, p.Legal) tunnelOptions := by
  refine .andThen fun _ => .andThen fun _ => .andThen fun _ => .ite (.pure nofun) ?_
  exact yields_tunnelProperty.commaSeparated.bind fun options hoptions => .andThen fun _ => .pure hoptions

theorem yields_tunnelEnd (keyword : String) : Yields (fun s => (Token.string s).WellFormed) (tunnelEnd keyword) :=
  .andThen fun _ => .andThen fun _ => yields_stringLiteral.bind fun _ hkind => .andThen fun _ => .pure hkind

/-- Every tunnel that is read is legal. -/
theorem yields_dataTunnel : Yields DataTunnel.Legal dataTunnel := by
  refine .andThen fun _ => (yields_tunnelEnd "SOURCE").bind fun source hsource => ?_
  refine yields_tunnelOptions.bind fun sourceOptions hsourceOptions => ?_
  have hliteral : Yields (fun s => (Token.string s).WellFormed) (do expect .eq; stringLiteral) :=
    .andThen fun _ => yields_stringLiteral
  refine hliteral.maybe.bind fun transform htransform => ?_
  refine (yields_tunnelEnd "SINK").bind fun sink hsink => ?_
  refine yields_tunnelOptions.bind fun sinkOptions hsinkOptions => .pure ?_
  exact ⟨hsource, hsourceOptions, htransform, hsink, hsinkOptions⟩

end Grammar

/-! ## Reading back values -/

namespace Grammar

/-- The rule for values, where values inside are read by `inner`. -/
def valueRule (inner : Parse TunnelValue) : Parse TunnelValue := do
  if ← accept .lbracket then
    let items ← maybeList (do return !(← isSymbol .rbracket)) (commaSeparated inner)
    expect .rbracket
    return .list items
  else if ← accept .minus then
    return .scalar ("-" ++ (← tunnelScalar))
  else
    return .scalar (← tunnelScalar)

theorem tunnelValue_eq_fix : tunnelValue = fix valueRule := rfl

theorem rereads_tunnelScalar {t : Token} {s : String} (h : t.Scalar s) :
    Rereads tunnelScalar [t] s fun _ => True := by
  rcases h.eq_literal with rfl | rfl | rfl <;> exact rereads_expectIf nofun rfl

theorem rereads_scalar {t : Token} {s : String} (h : t.Scalar s) (inner : Parse TunnelValue) :
    Rereads (valueRule inner) [t] (.scalar s) fun _ => True := by
  have hsymbol (s : Symbol) : t ≠ .symbol s := by
    rcases h.eq_literal with rfl | rfl | rfl <;> nofun
  refine (rereads_accept_false .lbracket).look (.ite_false Bool.false_ne_true ?_) fun _ _ => hsymbol _
  refine (rereads_accept_false .minus).look (.ite_false Bool.false_ne_true ?_) fun _ _ => hsymbol _
  exact (rereads_tunnelScalar h).map _

theorem rereads_negative {t : Token} {s : String} (h : t.Scalar s) (inner : Parse TunnelValue) :
    Rereads (valueRule inner) [.symbol .minus, t] (.scalar ("-" ++ s)) fun _ => True := by
  refine (rereads_accept_false .lbracket).look (.ite_false Bool.false_ne_true ?_) fun _ _ => nofun
  refine (rereads_accept .minus).cons (.ite_true rfl ?_)
  exact (rereads_tunnelScalar h).map fun s => TunnelValue.scalar ("-" ++ s)

/-- A list of values. No value starts with a closing bracket. -/
theorem rereads_list {inner : Parse TunnelValue} {items : List TunnelValue} {pieces : TunnelValue → List Piece}
    (h : ∀ v ∈ items, Rereads inner (tokensOf (pieces v)) v fun _ => True)
    (hstart : ∀ v ∈ items, ∃ t ts, tokensOf (pieces v) = t :: ts ∧ t ≠ .symbol .rbracket) :
    Rereads (valueRule inner) (.symbol .lbracket :: (tokensOf (commas (items.map pieces)) ++ [.symbol .rbracket]))
      (.list items) fun _ => True := by
  have hitems : Rereads (maybeList (do return !(← isSymbol .rbracket)) (commaSeparated inner))
      (tokensOf (commas (items.map pieces))) items fun t => t = .symbol .rbracket := by
    cases items with
    | nil =>
      have htest : Rereads (do return !(← isSymbol .rbracket)) [] false fun t => t = .symbol .rbracket :=
        ((rereads_isSymbol .rbracket true).mono fun t ht => decide_eq_true ht).map _
      exact htest.look (.ite_false Bool.false_ne_true (.pure _ _)) fun _ => id
    | cons v items =>
      have htest : Rereads (do return !(← isSymbol .rbracket)) [] true fun t => t ≠ .symbol .rbracket :=
        ((rereads_isSymbol .rbracket false).mono fun t ht => decide_eq_false ht).map _
      have hvalues := Rereads.commaSeparated (F := fun t => t = .symbol .rbracket) h trivial
        (by rintro _ rfl; exact ⟨trivial, nofun⟩)
      rw [tokensOf_commas]
      refine htest.look (.ite_true rfl hvalues) fun t _ => ?_
      obtain ⟨u, us, hu, hne⟩ := hstart v List.mem_cons_self
      rw [hu]
      exact hne
  refine (rereads_accept .lbracket).cons (.ite_true rfl (hitems.bind ?_ fun _ _ => rfl))
  exact (rereads_expect .rbracket).cons (.pure _ _)

end Grammar

open Grammar Doc

theorem Token.Scalar.printable {t : Token} {s : String} (h : t.Scalar s) : t.Printable := by
  obtain ⟨ht, rfl | rfl | rfl⟩ := h <;> exact ⟨ht, nofun, nofun, nofun⟩

theorem Token.Scalar.lexeme {t : Token} {s : String} (h : t.Scalar s) : t.lexeme = s.toList := by
  obtain ⟨ht, rfl | rfl | rfl⟩ := h <;> rfl

theorem Token.Scalar.ne_symbol {t : Token} {s : String} (h : t.Scalar s) (b : Symbol) : t ≠ .symbol b := by
  obtain ⟨ht, rfl | rfl | rfl⟩ := h <;> nofun

theorem Doc.sets_scalar {t : Token} {s : String} (h : t.Scalar s) : (Doc.text s).Sets [.token t] where
  lays := by
    refine .text ((textOf_singleton _).trans h.lexeme) ?_
    obtain ⟨-, rfl | rfl | rfl⟩ := h <;> rfl
  framed := framed_word rfl h.ne_symbol
  prints := by
    rw [List.forall_mem_singleton]
    rintro _ ⟨⟩
    exact h.printable

theorem Doc.sets_negative {t : Token} {s : String} (h : t.Scalar s) :
    (Doc.text ("-" ++ s)).Sets [symbol .minus, .token t] where
  lays := by
    refine .text ?_ ?_
    · rw [textOf_cons, textOf_singleton, String.toList_append, ← h.lexeme]
      rfl
    · obtain ⟨-, rfl | rfl | rfl⟩ := h <;> rfl
  framed := by
    refine (sets_scalar h).framed.sign (.inl rfl) fun _ hhead => ?_
    cases hhead
    exact h.ne_symbol _ rfl
  prints := List.forall_mem_cons.2 ⟨prints_symbol (by simp), (sets_scalar h).prints⟩

namespace TunnelValue

theorem docs_eq_map (items : List TunnelValue) : docs items = items.map doc := by
  induction items with
  | nil => rfl
  | cons v vs ih => rw [docs, ih, List.map_cons]

/-- A value that was read is set in pieces from which it is read again. The values inside are read one level
further down, and they have fewer tokens. -/
theorem Legal.exists_pieces {v : TunnelValue} (h : v.Legal) : ∃ ps, v.doc.Sets ps ∧
    (∃ t ts, tokensOf ps = t :: ts ∧ t ≠ .symbol .rbracket) ∧
    ∀ n, (tokensOf ps).length < n → Rereads (nested valueRule n) (tokensOf ps) v fun _ => True := by
  induction h with
  | @scalar t s h =>
    refine ⟨[.token t], sets_scalar h, ⟨t, [], rfl, h.ne_symbol _⟩, ?_⟩
    rintro (_ | n) hn
    · exact absurd hn (Nat.not_lt_zero _)
    · exact rereads_scalar h _
  | @negative t s h =>
    refine ⟨[symbol .minus, .token t], sets_negative h, ⟨_, [t], rfl, nofun⟩, ?_⟩
    rintro (_ | n) hn
    · exact absurd hn (Nat.not_lt_zero _)
    · exact rereads_negative h _
  | @list items _ ih =>
    have hitems (v : TunnelValue) : ∃ ps, v ∈ items → v.doc.Sets ps ∧
        (∃ t ts, tokensOf ps = t :: ts ∧ t ≠ .symbol .rbracket) ∧
        ∀ n, (tokensOf ps).length < n → Rereads (nested valueRule n) (tokensOf ps) v fun _ => True := by
      by_cases hv : v ∈ items
      · obtain ⟨ps, hps⟩ := ih v hv
        exact ⟨ps, fun _ => hps⟩
      · exact ⟨[], fun hmem => absurd hmem hv⟩
    choose pieces hpieces using hitems
    have htokens : tokensOf (symbol .lbracket :: (commas (items.map pieces) ++ [symbol .rbracket])) =
        .symbol .lbracket :: (tokensOf (commas (items.map pieces)) ++ [.symbol .rbracket]) := by
      rw [← List.singleton_append, tokensOf_append, tokensOf_append]
      rfl
    refine ⟨symbol .lbracket :: (commas (items.map pieces) ++ [symbol .rbracket]), ?_, ⟨_, _, htokens, nofun⟩, ?_⟩
    · rw [doc, docs_eq_map]
      exact sets_brackets fun v hv => (hpieces v hv).1
    · rintro (_ | n) hn
      · exact absurd hn (Nat.not_lt_zero _)
      rw [htokens] at hn ⊢
      refine rereads_list (fun v hv => (hpieces v hv).2.2 n ?_) fun v hv => (hpieces v hv).2.1
      have hle := length_tokensOf_le_commas (List.mem_map_of_mem (f := pieces) hv)
      rw [List.length_cons, List.length_append] at hn
      omega

end TunnelValue

/-! ## Reading back keys -/

namespace Grammar

theorem isIdentifier_token (name : Ident) : isIdentifier name.token = true := by
  cases name with
  | mk text quoted => cases quoted <;> rfl

theorem rereads_dottedPart (name : Ident) :
    Rereads dottedPart [.symbol .dot, name.token] (some name) fun _ => True := by
  intro i pos rest hpos _
  have hdot : i.tokenAt pos = .symbol .dot := Input.tokenAt_of_ahead hpos
  have hname : i.tokenAt (pos + 1) = name.token := Input.tokenAt_of_ahead (Input.ahead_succ hpos)
  obtain ⟨next, hrun, hnext⟩ := rereads_identifier name i (pos + 1) rest (Input.ahead_succ hpos) trivial
  refine ⟨next, (runs_isSymbol i pos .dot).bind ((runs_peek i pos 1).bind ?_), hnext⟩
  rw [hdot, hname, isIdentifier_token, if_pos (by simp)]
  exact (runs_skip (by simp [hdot])).bind (hrun.bind (runs_pure i next _))

theorem rereads_dottedPart_none : Rereads dottedPart [] none fun t => t ≠ .symbol .dot := by
  intro i pos rest hpos hrest
  have hdot : i.tokenAt pos ≠ .symbol .dot := by
    rw [Input.tokenAt_ahead, hpos]
    exact hrest
  refine ⟨pos, (runs_isSymbol i pos .dot).bind ((runs_peek i pos 1).bind ?_), hpos⟩
  rw [if_neg (by simp [hdot])]
  exact runs_pure i pos none

theorem tokensOf_dotted (first : Ident) (rest : List Ident) :
    tokensOf (Ident.dotted (first :: rest)) =
      first.token :: rest.flatMap fun name => [.symbol .dot, name.token] := by
  induction rest generalizing first with
  | nil => rfl
  | cons name rest ih =>
    show tokensOf ([first.piece, symbol .dot] ++ Ident.dotted (name :: rest)) = _
    rw [tokensOf_append, ih]
    rfl

theorem rereads_dottedName (first : Ident) (rest : List Ident) :
    Rereads dottedName (tokensOf (Ident.dotted (first :: rest))) ⟨first :: rest⟩ fun t => t ≠ .symbol .dot := by
  have hrest : Rereads (many dottedPart) (rest.flatMap fun name => [.symbol .dot, name.token]) rest
      fun t => t ≠ .symbol .dot :=
    .many (fun name _ => rereads_dottedPart name) rereads_dottedPart_none (fun _ _ => ⟨_, _, rfl, trivial⟩)
      fun _ _ => trivial
  rw [tokensOf_dotted]
  exact (rereads_identifier first).cons (hrest.map fun rest => DottedName.mk (first :: rest))

end Grammar

theorem LegalKey.exists_pieces {key : String} (h : LegalKey key) : ∃ ps, (Doc.text key).Sets ps ∧
    (∃ t ts, tokensOf ps = t :: ts ∧ t ≠ .symbol .rparen) ∧
    Rereads propertyKey (tokensOf ps) key fun t => t ≠ .symbol .dot := by
  cases h with
  | string h =>
    refine ⟨_, sets_scalar ⟨h, .inl rfl⟩, ⟨_, [], rfl, nofun⟩, rereads_look fun _ _ => ?_⟩
    exact (rereads_stringLiteral key).mono fun _ _ => trivial
  | @name first rest h =>
    refine ⟨Ident.dotted (first :: rest), ⟨.text (Ident.textOf_dotted _) (Ident.ordinary_dotted _),
      Ident.framed_dotted (by simp), ?_⟩, ⟨_, _, tokensOf_dotted first rest, ?_⟩, rereads_look fun t _ => ?_⟩
    · refine prints_sepBy (by simpa using prints_symbol (by simp)) fun ps hps => ?_
      obtain ⟨name, hname, rfl⟩ := List.mem_map.1 hps
      simpa using prints_ident (h name hname)
    · cases first with
      | mk text quoted => cases quoted <;> nofun
    · have hstring (s : String) : first.token ≠ .string s := by
        cases first with
        | mk text quoted => cases quoted <;> nofun
      rw [tokensOf_dotted, List.headD_cons]
      split
      · rename_i hs
        exact absurd hs (hstring _)
      · rw [← tokensOf_dotted]
        exact (rereads_dottedName first rest).map DottedName.written

/-! ## Reading back options -/

namespace Grammar

/-- A key and a value that are set in pieces, with an equals sign between them. -/
theorem rereads_tunnelProperty {p : TunnelProperty} {ks vs : List Token}
    (hkey : Rereads propertyKey ks p.key fun t => t ≠ .symbol .dot)
    (hvalue : Rereads tunnelValue vs p.value fun _ => True) :
    Rereads tunnelProperty (ks ++ .symbol .eq :: vs) p fun _ => True := by
  refine hkey.bind ((rereads_expect .eq).cons ?_) fun _ _ => nofun
  exact hvalue.map fun value => TunnelProperty.mk p.key value

theorem rereads_tunnelOptions {options : List TunnelProperty} {pieces : TunnelProperty → List Piece}
    (h : ∀ p ∈ options, Rereads tunnelProperty (tokensOf (pieces p)) p fun _ => True)
    (hstart : ∀ p ∈ options, ∃ t ts, tokensOf (pieces p) = t :: ts ∧ t ≠ .symbol .rparen) :
    Rereads tunnelOptions (.word "OPTIONS" :: tokensOf (block (options.map pieces))) options fun _ => True := by
  refine (rereads_expectWord "OPTIONS").cons ?_
  cases options with
  | nil => exact (rereads_expect .lparen).cons ((rereads_accept .rparen).cons (.ite_true rfl (.pure _ _)))
  | cons p options =>
    have hoptions := Rereads.commaSeparated (F := fun t => t = .symbol .rparen) h trivial
      (by rintro _ rfl; exact ⟨trivial, nofun⟩)
    rw [List.map_cons, tokensOf_block, ← List.map_cons, tokensOf_commas]
    refine (rereads_expect .lparen).cons ((rereads_accept_false .rparen).look (.ite_false Bool.false_ne_true ?_) ?_)
    · exact hoptions.bind ((rereads_expect .rparen).cons (.pure _ _)) fun _ _ => rfl
    · intro t _
      obtain ⟨u, us, hu, hne⟩ := hstart p List.mem_cons_self
      rw [hu]
      exact hne

/-- The tokens of one end of a tunnel. -/
def endTokens (keyword kind : String) : List Token :=
  [.word keyword, .symbol .lparen, .string kind, .symbol .rparen]

theorem rereads_tunnelEnd (keyword kind : String) :
    Rereads (tunnelEnd keyword) (endTokens keyword kind) kind fun _ => True := by
  refine (rereads_expectWord keyword).cons ((rereads_expect .lparen).cons ?_)
  exact (rereads_stringLiteral kind).cons ((rereads_expect .rparen).cons (.pure _ _))

end Grammar

theorem TunnelProperty.Legal.exists_pieces {p : TunnelProperty} (h : p.Legal) : ∃ ps, p.doc.Sets ps ∧
    (∃ t ts, tokensOf ps = t :: ts ∧ t ≠ .symbol .rparen) ∧
    Rereads tunnelProperty (tokensOf ps) p fun _ => True := by
  obtain ⟨ks, hkey, ⟨t, ts, hts, hne⟩, hrereads⟩ := h.key.exists_pieces
  obtain ⟨vs, hvalue, -, hlevels⟩ := h.value.exists_pieces
  have htokens : tokensOf (ks ++ .gap :: symbol .eq :: .gap :: vs) = tokensOf ks ++ .symbol .eq :: tokensOf vs := by
    rw [show ks ++ .gap :: symbol .eq :: .gap :: vs = ks ++ ([.gap, symbol .eq, .gap] ++ vs) from rfl,
      tokensOf_append, tokensOf_append]
    rfl
  refine ⟨ks ++ .gap :: symbol .eq :: .gap :: vs, ⟨?_, hkey.framed.gap_gap _ hvalue.framed, ?_⟩, ?_, ?_⟩
  · have hmark : (Doc.text " = ").Lays [.gap, symbol .eq, .gap] := .text rfl rfl
    exact hkey.lays.cons (hmark.cons hvalue.lays.last)
  · have hmark : ∀ p ∈ [.gap, symbol .eq, .gap], p.Prints := by
      simpa using ⟨prints_gap, prints_symbol (s := .eq) (by simp), prints_gap⟩
    exact List.forall_mem_append.2 ⟨hkey.prints, List.forall_mem_append.2 ⟨hmark, hvalue.prints⟩⟩
  · rw [htokens, hts]
    exact ⟨t, _, rfl, hne⟩
  · rw [htokens]
    exact rereads_tunnelProperty hrereads (.fix hlevels)

/-- One end of a tunnel with its options. -/
theorem Layout.exists_pieces_tunnelEnd (keyword : String) {kind : String} {options : List TunnelProperty}
    (hkeyword : Text.isWord keyword = true) (hkind : (Token.string kind).WellFormed) (h : ∀ p ∈ options, p.Legal) :
    ∃ ps ts, (tunnelEnd keyword kind options).Sets ps ∧
      tokensOf ps = endTokens keyword kind ++ ts ∧
      Rereads tunnelOptions ts options fun _ => True := by
  have hoptions (p : TunnelProperty) : ∃ ps, p ∈ options → p.doc.Sets ps ∧
      (∃ t ts, tokensOf ps = t :: ts ∧ t ≠ .symbol .rparen) ∧
      Rereads tunnelProperty (tokensOf ps) p fun _ => True := by
    by_cases hp : p ∈ options
    · obtain ⟨ps, hps⟩ := (h p hp).exists_pieces
      exact ⟨ps, fun _ => hps⟩
    · exact ⟨[], fun hmem => absurd hmem hp⟩
  choose pieces hpieces using hoptions
  have hforall {Q : List Piece → Prop} (hQ : ∀ p ∈ options, Q (pieces p)) : ∀ qs ∈ options.map pieces, Q qs := by
    intro qs hqs
    obtain ⟨p, hp, rfl⟩ := List.mem_map.1 hqs
    exact hQ p hp
  have hstring := sets_scalar (t := .string kind) ⟨hkind, .inl rfl⟩
  refine ⟨[.keyword keyword, symbol .lparen, .token (.string kind), symbol .rparen, .gap, .keyword "OPTIONS"] ++
    block (options.map pieces), .word "OPTIONS" :: tokensOf (block (options.map pieces)), ⟨?_, ?_, ?_⟩, ?_, ?_⟩
  · have hword : (Doc.text keyword).Lays [.keyword keyword] := .text (textOf_singleton _) rfl
    have hopen : (Doc.text "(").Lays [symbol .lparen] := .text rfl rfl
    have hclose : (Doc.text ") OPTIONS").Lays [symbol .rparen, .gap, .keyword "OPTIONS"] := .text rfl rfl
    have hblock := Lays.block fun p hp => (hpieces p hp).1.lays
    exact hword.cons (hopen.cons (hstring.lays.cons (hclose.cons hblock.last)))
  · have hhead := ((framed_keyword keyword).brackets (.inl rfl) (.inl rfl) (.inr hstring.framed)).gap
      (framed_keyword "OPTIONS")
    exact hhead.block (hforall fun p hp => (hpieces p hp).1.framed)
  · refine List.forall_mem_append.2 ⟨?_, prints_block (hforall fun p hp => (hpieces p hp).1.prints)⟩
    simpa using ⟨prints_keyword hkeyword, prints_symbol (s := .lparen) (by simp), prints_string hkind,
      prints_symbol (s := .rparen) (by simp), prints_gap, prints_keyword (k := "OPTIONS") rfl⟩
  · rw [tokensOf_append]
    rfl
  · exact rereads_tunnelOptions (fun p hp => (hpieces p hp).2.2) fun p hp => (hpieces p hp).2.1

/-! ## Reading back tunnels -/

/-- The transformation of a tunnel, on a line of its own. -/
def Piece.transform : Option String → List Piece
  | none => []
  | some s => [.gap, .keyword "TRANSFORM", .gap, symbol .eq, .gap, .token (.string s)]

namespace Piece

theorem lays_transform (transform : Option String) :
    (Layout.textLine "TRANSFORM = " transform).Lays (Piece.transform transform) := by
  cases transform with
  | none => exact .nil
  | some s =>
    have hmark : (Doc.text "TRANSFORM = ").Lays [.keyword "TRANSFORM", .gap, symbol .eq, .gap] := .text rfl rfl
    have hstring : (Doc.text s).Lays [.token (.string s)] := .text (textOf_singleton _) rfl
    exact Lays.line.cons (hmark.cons hstring.last)

theorem Framed.transform {ps : List Piece} (h : Framed ps) (transform : Option String) :
    Framed (ps ++ Piece.transform transform) := by
  cases transform with
  | none =>
    rw [Piece.transform, List.append_nil]
    exact h
  | some s => exact h.gap ((framed_keyword "TRANSFORM").gap_gap (symbol .eq) (framed_word (t := .string s) rfl nofun))

theorem prints_transform {transform : Option String} (h : ∀ s ∈ transform, (Token.string s).WellFormed) :
    ∀ p ∈ Piece.transform transform, p.Prints := by
  cases transform with
  | none => nofun
  | some s =>
    simpa [Piece.transform] using ⟨prints_gap, prints_keyword (k := "TRANSFORM") rfl, prints_gap,
      prints_symbol (s := .eq) (by simp), prints_gap, prints_string (h s rfl)⟩

end Piece

theorem Grammar.rereads_tunnelTransform (transform : Option String) : Rereads tunnelTransform
    (tokensOf (Piece.transform transform)) transform fun t => ¬ t.isKeyword "TRANSFORM" := by
  cases transform with
  | none => exact (rereads_acceptWord_false "TRANSFORM").maybe_false _
  | some s =>
    have hliteral : Rereads (do expect .eq; stringLiteral) [.symbol .eq, .string s] s
        fun t => ¬ t.isKeyword "TRANSFORM" :=
      (rereads_expect .eq).cons ((rereads_stringLiteral s).mono fun _ _ => trivial)
    exact (rereads_acceptWord "TRANSFORM").maybe_true hliteral fun _ _ => trivial

/-- The tokens of a tunnel, with those of its options. -/
def DataTunnel.tokens (t : DataTunnel) (os us : List Token) : List Token :=
  Token.word "DATATUNNEL" :: (endTokens "SOURCE" t.source ++ (os ++ (tokensOf (Piece.transform t.transform) ++
    (endTokens "SINK" t.sink ++ us))))

theorem Grammar.rereads_dataTunnel {t : DataTunnel} {os us : List Token}
    (hsource : Rereads tunnelOptions os t.sourceOptions fun _ => True)
    (hsink : Rereads tunnelOptions us t.sinkOptions fun _ => True) :
    Rereads dataTunnel (t.tokens os us) t fun _ => True := by
  have hend := (rereads_tunnelEnd "SINK" t.sink).bind (k := fun sink => do
    let sinkOptions ← tunnelOptions
    return ({ t with sink, sinkOptions } : DataTunnel)) (hsink.map fun sinkOptions => { t with sinkOptions })
    fun _ _ => trivial
  refine (rereads_expectWord "DATATUNNEL").cons ?_
  refine (rereads_tunnelEnd "SOURCE" t.source).bind (hsource.bind ?_ fun _ _ => trivial) fun _ _ => trivial
  exact (rereads_tunnelTransform t.transform).bind hend fun _ _ => nofun

theorem DataTunnel.Legal.exists_pieces {t : DataTunnel} (h : t.Legal) : ∃ ps ts, t.doc.Sets ps ∧
    tokensOf ps = .word "DATATUNNEL" :: ts ∧ Rereads dataTunnel (tokensOf ps) t fun _ => True := by
  obtain ⟨ps, os, hsource, hps, hsourceOptions⟩ :=
    Layout.exists_pieces_tunnelEnd "SOURCE" rfl h.source h.sourceOptions
  obtain ⟨qs, us, hsink, hqs, hsinkOptions⟩ :=
    Layout.exists_pieces_tunnelEnd "SINK" rfl h.sink h.sinkOptions
  have htokens : tokensOf ([.keyword "DATATUNNEL", .gap] ++ (ps ++ (Piece.transform t.transform ++ (.gap :: qs)))) =
      t.tokens os us := by
    have hgap : tokensOf (.gap :: qs) = tokensOf qs := rfl
    rw [tokensOf_append, tokensOf_append, tokensOf_append, hgap, hps, hqs, List.append_assoc]
    rfl
  refine ⟨_, _, ⟨?_, ?_, ?_⟩, htokens, ?_⟩
  · have hword : (Doc.text "DATATUNNEL ").Lays [.keyword "DATATUNNEL", .gap] := .text rfl rfl
    exact hword.cons (hsource.lays.cons ((lays_transform _).cons (Lays.line.cons hsink.lays.last)))
  · have hall := (((framed_keyword "DATATUNNEL").gap hsource.framed).transform t.transform).gap hsink.framed
    simpa [List.append_assoc] using hall
  · simp only [List.forall_mem_append]
    exact ⟨by simpa using ⟨prints_keyword (k := "DATATUNNEL") rfl, prints_gap⟩, hsource.prints,
      prints_transform h.transform, List.forall_mem_cons.2 ⟨prints_gap, hsink.prints⟩⟩
  · rw [htokens]
    exact rereads_dataTunnel hsourceOptions hsinkOptions

theorem DataTunnel.legal_of_parse {text : String} {t : DataTunnel} (h : Statement.parse text = .ok (.dataTunnel t)) :
    t.Legal := by
  obtain ⟨tokens, first, mid, w, inner, hscan, -, -, -, hrun⟩ := Statement.exists_command h rfl
  obtain ⟨t', next, htunnel, hpure⟩ := Runs.exists_of_bind (p := dataTunnel) hrun
  obtain ⟨heq, -⟩ := (runs_pure _ next (Statement.dataTunnel t')).unique hpure
  obtain rfl := Statement.dataTunnel.inj heq
  exact yields_dataTunnel (Input.wellFormed_of_scan hscan) htunnel

/-- A tunnel that is read from any text is printed in every style, and its page is read as the same tunnel. -/
theorem Statement.readBack_tunnel {text : String} {t : DataTunnel} (h : parse text = .ok (.dataTunnel t))
    (style : Style) : ∃ page, (Statement.dataTunnel t).print style = .ok page ∧ parse page = .ok (.dataTunnel t) := by
  obtain ⟨ps, ts, hsets, hts, hrereads⟩ := (DataTunnel.legal_of_parse h).exists_pieces
  obtain ⟨page, hprint, hlaid⟩ := hsets.lays.exists_page style
  obtain ⟨tokens, hscan, hahead⟩ := hlaid.exists_scan hsets.framed.chain hsets.prints
  rw [hts] at hrereads hahead
  have hstatement : Rereads statement (.word "DATATUNNEL" :: ts) (.dataTunnel t) fun _ => True :=
    .statement fun _ => hrereads.map Statement.dataTunnel
  exact ⟨page, hprint, hstatement.parse trivial hscan hahead⟩

/-- Dotted and quoted keys, nested and empty lists, a negative number without a leading digit, a raw string, no
options at all and a page with lines. -/
theorem Statement.readBack_tunnel_options : ∃ t page,
    parse ("datatunnel source('a') options(x . \x60y z\x60 = [-.5, [], [r'\\', - b]], 'k' = 1e3) " ++
      "transform = \"t\" sink('c') options();") = .ok (.dataTunnel t) ∧
    (Statement.dataTunnel t).print .default = .ok page ∧ parse page = .ok (.dataTunnel t) := by
  have hread : (parse ("datatunnel source('a') options(x . \x60y z\x60 = [-.5, [], [r'\\', - b]], 'k' = 1e3) " ++
      "transform = \"t\" sink('c') options();")).toOption.any (fun s => s.kind = "datatunnel") = true := by
    decide +kernel
  obtain ⟨tree, hparse, hkind⟩ := exists_of_parse hread
  cases tree with
  | dataTunnel t =>
    obtain ⟨page, hprint, hpage⟩ := readBack_tunnel hparse .default
    exact ⟨t, page, hparse, hprint, hpage⟩
  | _ => simp [kind] at hkind

end SqlTidy
