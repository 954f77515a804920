import SqlTidy.Proofs.Reread
import SqlTidy.Proofs.Yield

/-!
# Data types are read back as they were printed

**Theorem (`DataType.readBack`).** If a whole text is read as a data type, then the printed type is again read as a
whole, and as the same type.

A type is printed on one line. Its pieces (`DataType.pieces`) say what stands on that line, and the proof has three
parts: the document writes the pieces (`Legal.writes`), the line is scanned as their tokens (`Legal.scan_page`), and
the rule for types reads these tokens as the type (`Legal.rereads`). What the rule needs to know about the words in a
type is collected in `DataType.Legal`, which holds of every type that was read.

Two spellings are special. The brackets of an empty struct are a single token. And a closing bracket may stand right
behind another one, since no operator starts with two of them.
-/

namespace SqlTidy

open Text Piece Parse

/-! ## Pieces -/

/-- A parameter of a type is a number or a word, which its first character tells. -/
def Token.parameter (p : String) : Token := if Scan.startsNumber p.toList then .number p else .word p

/-- A list between angle brackets; the brackets of an empty list are a single token. -/
def Piece.angled : List (List Piece) → List Piece
  | [] => [symbol .notEq]
  | items => symbol .lt :: (commas items ++ [symbol .gt])

/-- A keyword and what stands behind it, if there is anything. -/
def Piece.option (words : List Piece) : Option Token → List Piece
  | none => []
  | some t => words ++ [.token t]

/-- Between the name of a field and its type. -/
def Piece.colonGap (colon : Bool) : List Piece := if colon then [symbol .colon, .gap] else [.gap]

def Piece.notNullWords (notNull : Bool) : List Piece :=
  if notNull then [.gap, .keyword "NOT", .gap, .keyword "NULL"] else []

mutual

/-- What stands on the line of a data type. -/
def DataType.pieces : DataType → List Piece
  | .primitive name [] => [.token (.word name)]
  | .primitive name params =>
    .token (.word name) :: symbol .lparen ::
      (commas (params.map fun p => [.token (.parameter p)]) ++ [symbol .rparen])
  | .array word element => .token (.word word) :: angled [element.pieces]
  | .map word key value => .token (.word word) :: angled [key.pieces, value.pieces]
  | .struct word fields => .token (.word word) :: angled (DataType.fieldPieces fields)
  | .interval start stop =>
    .keyword "INTERVAL" :: .gap :: .token (.word start) ::
      option [.gap, .keyword "TO", .gap] (stop.map .word)

def DataType.fieldPieces : List StructField → List (List Piece)
  | [] => []
  | f :: fs => f.pieces :: DataType.fieldPieces fs

def StructField.pieces : StructField → List Piece
  | ⟨name, colon, type, notNull, comment⟩ =>
    name.piece :: (colonGap colon ++ (type.pieces ++
      (notNullWords notNull ++ option [.gap, .keyword "COMMENT", .gap] (comment.map .string))))

end

theorem DataType.fieldPieces_eq_map (fields : List StructField) :
    fieldPieces fields = fields.map StructField.pieces := by
  induction fields with
  | nil => rfl
  | cons f fs ih => rw [fieldPieces, ih, List.map_cons]

theorem DataType.fieldDocs_eq_map (fields : List StructField) :
    fieldDocs fields = fields.map StructField.doc := by
  induction fields with
  | nil => rfl
  | cons f fs ih => rw [fieldDocs, ih, List.map_cons]

/-! ## The types that are read -/

namespace DataType

/-- The words of a type are such that the type can be read from them. -/
inductive Legal : DataType → Prop
  | primitive {name : String} {params : List String} (hname : (Token.word name).WellFormed)
      (hparams : ∀ p ∈ params, (Token.parameter p).WellFormed) (hinterval : upper name ≠ "INTERVAL") :
      Legal (.primitive name params)
  | array {word : String} {element : DataType} (hword : (Token.word word).WellFormed)
      (hupper : upper word = "ARRAY") (helement : Legal element) : Legal (.array word element)
  | map {word : String} {key value : DataType} (hword : (Token.word word).WellFormed)
      (hupper : upper word = "MAP") (hkey : Legal key) (hvalue : Legal value) : Legal (.map word key value)
  | struct {word : String} {fields : List StructField} (hword : (Token.word word).WellFormed)
      (hupper : upper word = "STRUCT") (hnames : ∀ f ∈ fields, f.name.WellFormed)
      (hcomments : ∀ f ∈ fields, ∀ s ∈ f.comment, (Token.string s).WellFormed)
      (htypes : ∀ f ∈ fields, Legal f.type) : Legal (.struct word fields)
  | interval {start : String} {stop : Option String} (hstart : start ∈ Grammar.intervalUnits)
      (hstop : ∀ s ∈ stop, (Token.word s).WellFormed ∧ upper s = s) : Legal (.interval start stop)

end DataType

theorem Token.wellFormed_parameter {t : Token} {p : String} (ht : t.WellFormed)
    (hp : t = .number p ∨ t = .word p) : (parameter p).WellFormed := by
  rcases hp with rfl | rfl
  · cases ht with
    | number h hstart =>
      rw [parameter, if_pos hstart]
      exact .number h hstart
  · cases ht with
    | @word _ c cs hw hc hcs =>
      have hstart : Scan.startsNumber p.toList = false := by
        have hcode := isWordStart_iff.1 hc
        rw [hw, Scan.startsNumber, Bool.or_eq_false_iff, Bool.and_eq_false_iff]
        refine ⟨?_, .inl (decide_eq_false ?_)⟩
        · rw [Bool.eq_false_iff, ne_eq, isDigit_iff]
          omega
        · rintro rfl
          contradiction
      rw [parameter, hstart, if_neg Bool.false_ne_true]
      exact .word hw hc hcs

theorem Text.upper_upper (s : String) : upper (upper s) = upper s := by
  rw [← upper_lower (upper s), lower_upper, upper_lower]

theorem Token.wellFormed_upper {w : String} (h : (Token.word w).WellFormed) :
    (Token.word (upper w)).WellFormed :=
  h.of_upper (upper_upper w).symm

namespace Grammar

open DataType

theorem yields_typeParameter : Yields (fun p => (Token.parameter p).WellFormed) typeParameter := by
  refine yields_expectIf fun t ht p hp => Token.wellFormed_parameter ht ?_
  cases t with
  | number n =>
    cases hp
    exact .inl rfl
  | word w =>
    cases hp
    exact .inr rfl
  | _ => contradiction

theorem yields_primitiveType {name : String} (hname : (Token.word name).WellFormed)
    (hinterval : upper name ≠ "INTERVAL") : Yields Legal (primitiveType name) := by
  refine .andThen fun _ => .ite ?_ (.pure (.primitive hname nofun hinterval))
  refine yields_typeParameter.commaSeparated.bind fun params hparams => .andThen fun _ => .pure ?_
  exact .primitive hname hparams hinterval

theorem yields_stringLiteral : Yields (fun s => (Token.string s).WellFormed) stringLiteral := by
  refine yields_expectIf fun t ht s hs => ?_
  cases t with
  | string s' =>
    cases hs
    exact ht
  | _ => contradiction

theorem yields_structField {inner : Parse DataType} (h : Yields Legal inner) :
    Yields (fun f => f.name.WellFormed ∧ (∀ s ∈ f.comment, (Token.string s).WellFormed) ∧ Legal f.type)
      (structField inner) := by
  refine yields_identifier.bind fun name hname => .andThen fun colon => ?_
  refine h.bind fun type htype => .andThen fun notNull => ?_
  exact yields_stringLiteral.maybe.bind fun comment hcomment => .pure ⟨hname, hcomment, htype⟩

theorem yields_intervalType : Yields Legal intervalType := by
  have hstart : Yields (· ∈ intervalUnits) (expectIf "interval unit" (capitalsAmong intervalUnits)) := by
    refine yields_expectIf fun t _ s hs => ?_
    rw [capitalsAmong, Option.mem_def, Option.filter_eq_some_iff] at hs
    simpa using hs.2
  have hstop : Yields (fun s => (Token.word s).WellFormed ∧ upper s = s) (expectIf "interval unit" capitals) := by
    refine yields_expectIf fun t ht s hs => ?_
    cases t with
    | word w =>
      cases hs
      exact ⟨Token.wellFormed_upper ht, upper_upper w⟩
    | _ => contradiction
  exact hstart.bind fun start hstart => hstop.maybe.bind fun stop hstop => .pure (.interval hstart hstop)

theorem yields_typeAfter {inner : Parse DataType} (h : Yields Legal inner) {name : String}
    (hname : (Token.word name).WellFormed) : Yields Legal (typeAfter inner name) := by
  refine .andThen fun bracket => ?_
  split
  · rename_i hupper
    exact .andThen fun _ => h.bind fun element helement => .andThen fun _ => .pure (.array hname hupper helement)
  · rename_i hupper
    refine .andThen fun _ => h.bind fun key hkey => .andThen fun _ => h.bind fun value hvalue => ?_
    exact .andThen fun _ => .pure (.map hname hupper hkey hvalue)
  · rename_i hupper
    refine .andThen fun _ => (yields_structField h).commaSeparated.bind fun fields hfields => .andThen fun _ => .pure ?_
    exact .struct hname hupper (fun f hf => (hfields f hf).1) (fun f hf => (hfields f hf).2.1)
      fun f hf => (hfields f hf).2.2
  · rename_i hupper
    refine .andThen fun _ => .ite (.pure (.struct hname hupper nofun nofun nofun)) ?_
    exact yields_primitiveType hname (by simp [hupper])
  · exact yields_intervalType
  · rename_i hinterval _ _ _ _
    exact yields_primitiveType hname hinterval

/-- Every type that is read is legal. -/
theorem yields_dataType : Yields Legal dataType := by
  refine .fix fun inner h => ?_
  refine Yields.bind (P := fun name => (Token.word name).WellFormed) (yields_expectIf fun t ht name hname => ?_)
    fun name hname => yields_typeAfter h hname
  cases t with
  | word w =>
    cases hname
    exact ht
  | _ => contradiction

end Grammar

/-! ## The line of a type -/

namespace Doc

variable {a b d : Doc} {ds : List Doc} {ps qs : List Piece}

theorem Writes.append (ha : a.Writes ps) (hb : b.Writes qs) : (a ++ b).Writes (ps ++ qs) := by
  intro layout p hp
  show b.run layout (a.run layout p) = _
  rw [ha layout p hp, hb layout { p with output := p.output ++ String.ofList (textOf ps) } hp,
    textOf_append, String.ofList_append, String.append_assoc]

theorem Writes.cons (hd : d.Writes ps) (hds : (seq ds).Writes qs) : (seq (d :: ds)).Writes (ps ++ qs) :=
  hd.append hds

theorem writes_text {s : String} (h : textOf ps = s.toList) : (text s).Writes ps := (Inline.text h).writes

theorem Writes.last (hd : d.Writes ps) : (seq [d]).Writes ps := by
  have hall := hd.append Inline.nil.writes
  rwa [List.append_nil] at hall

/-- Pieces with the same text may stand for each other. -/
theorem Writes.of_textOf (h : d.Writes ps) (hps : textOf ps = textOf qs) : d.Writes qs := by
  intro layout p hp
  rw [← hps]
  exact h layout p hp

theorem Writes.commas {α : Type} {doc : α → Doc} {pieces : α → List Piece} {xs : List α}
    (h : ∀ x ∈ xs, (doc x).Writes (pieces x)) :
    (Doc.commas (xs.map doc)).Writes (Piece.commas (xs.map pieces)) := by
  induction xs with
  | nil => exact Inline.nil.writes
  | cons x xs ih =>
    obtain ⟨hx, hxs⟩ := List.forall_mem_cons.1 h
    cases xs with
    | nil => exact hx
    | cons y ys => exact hx.append ((writes_text rfl).append (ih hxs))

/-- A list between angle brackets. -/
theorem Writes.angled {items : List (List Piece)} (h : d.Writes (Piece.commas items)) :
    (seq ["<", d, ">"]).Writes (Piece.angled items) := by
  have hall : (seq ["<", d, ">"]).Writes ([symbol .lt] ++ (Piece.commas items ++ [symbol .gt])) :=
    (writes_text rfl).cons (h.cons (writes_text rfl).last)
  cases items with
  | nil => exact hall.of_textOf rfl
  | cons ps items => exact hall

theorem writes_option {before : String} {words : List Piece} (hwords : textOf words = before.toList)
    (token : String → Token) (htoken : ∀ s, (token s).lexeme = s.toList) (value : Option String) :
    (optText before value).Writes (Piece.option words (value.map token)) := by
  cases value with
  | none => exact Inline.nil.writes
  | some s =>
    refine (writes_text hwords).append (writes_text ?_)
    rw [textOf_singleton]
    exact htoken s

end Doc

namespace DataType

open Doc

theorem lexeme_parameter (p : String) : (Token.parameter p).lexeme = p.toList := by
  unfold Token.parameter
  split <;> rfl

theorem writes_primitive (name : String) (params : List String) :
    (DataType.primitive name params).doc.Writes (DataType.primitive name params).pieces := by
  have hname : (Doc.text name).Writes [.token (.word name)] := writes_text (textOf_singleton _)
  cases params with
  | nil =>
    have hall := hname.append Inline.nil.writes
    exact hall
  | cons p params =>
    refine hname.append (Inline.parens (.sep rfl fun q _ => .text ?_)).writes
    rw [textOf_singleton]
    exact lexeme_parameter q

theorem writes_field {f : StructField} (h : f.type.doc.Writes f.type.pieces) : f.doc.Writes f.pieces := by
  obtain ⟨name, colon, type, notNull, comment⟩ := f
  have hcolon : Writes (if colon then ": " else " ") (colonGap colon) := by
    cases colon <;> exact writes_text rfl
  have hnull : (Doc.when notNull " NOT NULL").Writes
      (notNullWords notNull) := by
    cases notNull with
    | true => exact writes_text rfl
    | false => exact Inline.nil.writes
  have hcomment : (optText " COMMENT " comment).Writes (option [.gap, .keyword "COMMENT", .gap] (comment.map .string)) :=
    writes_option rfl .string (fun _ => rfl) comment
  rw [StructField.doc, StructField.pieces]
  exact (writes_text name.textOf_piece).cons (hcolon.cons (h.cons (hnull.cons hcomment.last)))

/-- The document of a type writes its pieces. -/
theorem Legal.writes {d : DataType} (h : d.Legal) : d.doc.Writes d.pieces := by
  have hword {word : String} {inner : Doc} {items : List (List Piece)} (h : inner.Writes (commas items)) :
      (seq [word, "<", inner, ">"]).Writes (.token (.word word) :: angled items) :=
    (writes_text (textOf_singleton (.token (.word word)))).cons h.angled
  induction h with
  | primitive => exact writes_primitive _ _
  | array _ _ _ ih =>
    rw [doc, pieces]
    exact hword ih
  | @map word key value _ _ _ _ ihk ihv =>
    have hall : (DataType.map word key value).doc.Writes ([.token (.word word)] ++ ([symbol .lt] ++ (key.pieces ++
        ([symbol .comma, .gap] ++ (value.pieces ++ [symbol .gt]))))) := by
      rw [doc]
      exact (writes_text (textOf_singleton _)).cons ((writes_text rfl).cons (ihk.cons ((writes_text rfl).cons
        (ihv.cons (writes_text rfl).last))))
    rw [pieces]
    simpa [angled, Piece.commas, sepBy] using hall
  | @struct word fields _ _ _ _ _ ih =>
    rw [doc, pieces, fieldDocs_eq_map, fieldPieces_eq_map]
    exact hword (.commas fun f hf => writes_field (ih f hf))
  | @interval start stop _ _ =>
    rw [doc, pieces]
    have hstop : (optText " TO " stop).Writes (option [.gap, .keyword "TO", .gap] (stop.map .word)) :=
      writes_option rfl .word (fun _ => rfl) stop
    have hstart : (Doc.text start).Writes [.token (.word start)] := writes_text (textOf_singleton _)
    have hword : (Doc.text "INTERVAL ").Writes [.keyword "INTERVAL", .gap] := writes_text rfl
    exact hword.cons (hstart.cons hstop.last)

end DataType

/-! ## Neighbours on the line -/

namespace Piece

/-- Pieces that may stand between angle brackets. -/
structure Angled (ps : List Piece) : Prop extends Framed ps where
  behind_lt : ∀ p ∈ ps.head?, Admits (symbol .lt) p
  before_gt : ∀ p ∈ ps.getLast?, Admits p (symbol .gt)

theorem Angled.of_framed {p : Piece} {t : Token} (hp : p.token? = some t) (hframed : Framed [p])
    (hlt : (Token.symbol .lt).admits t) (hgt : t.admits (.symbol .gt)) : Angled [p] where
  toFramed := hframed
  behind_lt := by
    rintro _ ⟨⟩ _ ⟨⟩ u hu
    obtain rfl := Option.some.inj (hp.symm.trans hu)
    exact hlt
  before_gt := by
    intro q hq u hu _ hsymbol
    rw [List.getLast?_singleton, Option.mem_some_iff] at hq
    subst hq
    cases hsymbol
    obtain rfl := Option.some.inj (hp.symm.trans hu)
    exact hgt

theorem angled_word (w : String) : Angled [.token (.word w)] := .of_framed rfl (framed_word rfl nofun) rfl rfl

theorem angled_keyword (k : String) : Angled [.keyword k] := .of_framed rfl (framed_keyword k) rfl rfl

/-- Pieces that are prolonged by others. -/
theorem Angled.append {ps qs : List Piece} (hps : Angled ps) (hne : qs ≠ []) (hchain : qs.IsChain Admits)
    (hlast : ∀ q ∈ qs.getLast?, q.Closes ∧ Admits q (symbol .gt))
    (hjoin : ∀ p ∈ ps.getLast?, ∀ q ∈ qs.head?, Admits p q) : Angled (ps ++ qs) where
  toFramed := hps.toFramed.append hchain (fun q hq => (hlast q hq).1) hjoin
  behind_lt := by
    rw [List.head?_append_of_ne_nil _ hps.ne_nil]
    exact hps.behind_lt
  before_gt := by
    rw [List.getLast?_append_of_ne_nil _ hne]
    exact fun q hq => (hlast q hq).2

/-- A space and more pieces. -/
theorem Angled.gap {ps qs : List Piece} (hps : Angled ps) (hqs : Framed qs)
    (hgt : ∀ q ∈ qs.getLast?, Admits q (symbol .gt)) : Angled (ps ++ .gap :: qs) := by
  refine hps.append (by simp) (hqs.chain.cons fun q _ => admits_gap_left q) ?_ ?_
  · rw [List.getLast?_cons_of_ne_nil hqs.ne_nil]
    exact fun q hq => ⟨hqs.closes q hq, hgt q hq⟩
  · rintro p - _ ⟨⟩
    exact admits_gap_right p

theorem Angled.commas {ps : List Piece} {rest : List (List Piece)} (h : ∀ qs ∈ ps :: rest, Angled qs) :
    Angled (commas (ps :: rest)) where
  toFramed := framed_commas fun qs hqs => (h qs hqs).toFramed
  behind_lt := by
    rw [Piece.commas, head?_sepBy (h ps (by simp)).ne_nil]
    exact (h ps (by simp)).behind_lt
  before_gt := by
    induction rest generalizing ps with
    | nil => exact (h ps (by simp)).before_gt
    | cons qs rest ih =>
      have hrest : Framed (Piece.commas (qs :: rest)) :=
        framed_commas fun qs' hqs' => (h qs' (List.mem_cons_of_mem _ hqs')).toFramed
      show ∀ p ∈ (ps ++ ([symbol .comma, .gap] ++ Piece.commas (qs :: rest))).getLast?, _
      rw [List.getLast?_append_of_ne_nil _ (by simp), List.getLast?_append_of_ne_nil _ hrest.ne_nil]
      exact ih fun qs' hqs' => h qs' (List.mem_cons_of_mem _ hqs')

/-- A space and one more token. -/
theorem Angled.gap_token {ps : List Piece} (hps : Angled ps) {p : Piece} {t : Token} (hp : p.token? = some t)
    (ht : ∀ s, t ≠ .symbol s) (hgt : t.admits (.symbol .gt)) : Angled (ps ++ [.gap, p]) := by
  refine hps.gap (framed_word hp ht) fun q hq u hu _ hsymbol => ?_
  rw [List.getLast?_singleton, Option.mem_some_iff] at hq
  subst hq
  cases hsymbol
  obtain rfl := Option.some.inj (hp.symm.trans hu)
  exact hgt

theorem Angled.option {ps : List Piece} (hps : Angled ps) (k : String) (value : Option Token)
    (hvalue : ∀ t ∈ value, (∀ s, t ≠ .symbol s) ∧ t.admits (.symbol .gt)) :
    Angled (ps ++ option [.gap, .keyword k, .gap] value) := by
  cases value with
  | none =>
    rw [Piece.option, List.append_nil]
    exact hps
  | some t =>
    obtain ⟨hsymbol, hgt⟩ := hvalue t rfl
    have hall := (hps.gap_token (p := .keyword k) rfl nofun rfl).gap_token (p := .token t) rfl hsymbol hgt
    rw [List.append_assoc] at hall
    exact hall

theorem closes_angle {s : Symbol} (hs : s = .notEq ∨ s = .gt) :
    (symbol s).Closes ∧ Admits (symbol s) (symbol .gt) := by
  refine ⟨?_, ?_⟩
  · rintro b hb _ ⟨⟩ _ ⟨⟩
    simp only [List.mem_cons, List.not_mem_nil, or_false] at hb
    rcases hs with rfl | rfl <;> rcases hb with rfl | rfl | rfl | rfl | rfl <;> rfl
  · rintro _ ⟨⟩ _ ⟨⟩
    rcases hs with rfl | rfl <;> rfl

/-- A word with a list between angle brackets behind it. -/
theorem angled_angled (w : String) {items : List (List Piece)} (h : ∀ qs ∈ items, Angled qs) :
    Angled (.token (.word w) :: angled items) := by
  refine (angled_word w).append ?_ ?_ ?_ ?_
  · cases items <;> exact List.cons_ne_nil _ _
  · cases items with
    | nil => exact .singleton _
    | cons ps items =>
      have hitems := Angled.commas h
      refine .cons (hitems.chain.append (.singleton _) fun p hp q hq => ?_) fun q hq => ?_
      · cases hq
        exact hitems.before_gt p hp
      · rw [List.head?_append_of_ne_nil _ hitems.ne_nil] at hq
        exact hitems.behind_lt q hq
  · cases items with
    | nil =>
      rintro _ ⟨⟩
      exact closes_angle (.inl rfl)
    | cons ps items =>
      show ∀ q ∈ (symbol .lt :: (Piece.commas (ps :: items) ++ [symbol .gt])).getLast?, _
      rw [← List.cons_append, List.getLast?_concat]
      rintro _ ⟨⟩
      exact closes_angle (.inr rfl)
  · cases items <;>
    · rintro _ ⟨⟩ _ ⟨⟩ _ ⟨⟩ _ ⟨⟩
      rfl

end Piece

namespace DataType

theorem angled_primitive (name : String) (params : List String) :
    Angled (DataType.primitive name params).pieces := by
  cases params with
  | nil => exact angled_word name
  | cons p params =>
    have hparams : Framed (commas ((p :: params).map fun p => [.token (.parameter p)])) := by
      refine framed_commas fun qs hqs => ?_
      obtain ⟨q, -, rfl⟩ := List.mem_map.1 (show qs ∈ (p :: params).map fun p => [.token (.parameter p)] from hqs)
      unfold Token.parameter
      split <;> exact framed_word rfl nofun
    rw [pieces]
    have hchain := chain_brackets (.inl rfl) (.inl rfl) (.inr hparams)
    refine (angled_word name).append (by simp) hchain ?_ ?_
    · rw [← List.cons_append, List.getLast?_concat]
      rintro _ ⟨⟩
      exact ⟨closes_bracket (.inl rfl), by rintro _ ⟨⟩ _ ⟨⟩; rfl⟩
    · rintro _ ⟨⟩ _ ⟨⟩ _ ⟨⟩ _ ⟨⟩
      rfl
    · exact nofun

theorem admits_colon (name : Ident) : Admits name.piece (symbol .colon) := by
  rintro t ht _ ⟨⟩
  rcases name.piece_eq with ⟨w, hw⟩ | ⟨w, hw⟩ <;> rw [hw] at ht <;> cases ht <;> rfl

theorem angled_field {f : StructField} (h : Angled f.type.pieces) : Angled f.pieces := by
  obtain ⟨name, colon, type, notNull, comment⟩ := f
  have hname : Angled [name.piece] := by
    rcases name.piece_eq with ⟨w, hw⟩ | ⟨w, hw⟩ <;> rw [hw]
    · exact angled_word w
    · exact .of_framed rfl (framed_word rfl nofun) rfl rfl
  have htyped : Angled ([name.piece] ++ ((colonGap colon) ++ type.pieces)) := by
    cases colon with
    | true =>
      refine hname.append (by simp [h.ne_nil])
        (.cons_cons (admits_gap_right _) (h.chain.cons fun q _ => admits_gap_left q)) ?_ ?_
      · rw [List.getLast?_append_of_ne_nil _ h.ne_nil]
        exact fun q hq => ⟨h.closes q hq, h.before_gt q hq⟩
      · intro p hp q hq
        rw [List.getLast?_singleton, Option.mem_some_iff] at hp
        subst hp
        cases hq
        exact admits_colon name
    | false => exact hname.gap h.toFramed h.before_gt
  have hnull : Angled (([name.piece] ++ ((colonGap colon) ++ type.pieces)) ++
      (notNullWords notNull)) := by
    cases notNull with
    | true =>
      have hall := (htyped.gap_token (p := .keyword "NOT") rfl nofun rfl).gap_token (p := .keyword "NULL") rfl nofun rfl
      rw [List.append_assoc] at hall
      exact hall
    | false =>
      rw [notNullWords, if_neg Bool.false_ne_true, List.append_nil]
      exact htyped
  have hall := hnull.option "COMMENT" (comment.map .string) (by simp [Token.admits])
  rw [StructField.pieces]
  simpa [List.append_assoc] using hall

theorem Legal.angled {d : DataType} (h : d.Legal) : Angled d.pieces := by
  induction h with
  | @primitive name params => exact angled_primitive name params
  | @array word element _ _ _ ih =>
    rw [pieces]
    exact angled_angled word (by simpa using ih)
  | @map word key value _ _ _ _ ihk ihv =>
    rw [pieces]
    exact angled_angled word (by simpa using ⟨ihk, ihv⟩)
  | @struct word fields _ _ _ _ _ ih =>
    rw [pieces, fieldPieces_eq_map]
    refine angled_angled word fun qs hqs => ?_
    obtain ⟨f, hf, rfl⟩ := List.mem_map.1 hqs
    exact angled_field (ih f hf)
  | @interval start stop _ _ =>
    rw [pieces]
    have hstart := (angled_keyword "INTERVAL").gap_token (p := .token (.word start)) rfl nofun rfl
    exact hstart.option "TO" (stop.map .word) (by simp [Token.admits])

/-! ## The tokens of the line -/

theorem prints_angled {items : List (List Piece)} (h : ∀ ps ∈ items, ∀ p ∈ ps, p.Prints) :
    ∀ p ∈ angled items, p.Prints := by
  cases items with
  | nil => simpa [angled] using prints_symbol (by simp)
  | cons ps items =>
    have hclose : ∀ p ∈ [symbol .gt], p.Prints := by simpa using prints_symbol (by simp)
    exact List.forall_mem_cons.2 ⟨prints_symbol (by simp), List.forall_mem_append.2 ⟨prints_commas h, hclose⟩⟩

theorem prints_option {k : String} (hk : Text.isWord k = true) {value : Option Token}
    (hvalue : ∀ t ∈ value, Prints (.token t)) : ∀ p ∈ option [.gap, .keyword k, .gap] value, p.Prints := by
  cases value with
  | none => nofun
  | some t => simpa [option] using ⟨prints_gap, prints_keyword hk, prints_gap, hvalue t rfl⟩

theorem prints_field {f : StructField} (hname : f.name.WellFormed)
    (hcomment : ∀ s ∈ f.comment, (Token.string s).WellFormed) (htype : ∀ p ∈ f.type.pieces, p.Prints) :
    ∀ p ∈ f.pieces, p.Prints := by
  obtain ⟨name, colon, type, notNull, comment⟩ := f
  have hcolon : ∀ p ∈ colonGap colon, p.Prints := by
    cases colon <;> simp [colonGap, prints_gap, prints_symbol]
  have hnull : ∀ p ∈ notNullWords notNull, p.Prints := by
    cases notNull with
    | true => simpa [notNullWords] using ⟨prints_gap, prints_keyword rfl, prints_gap, prints_keyword rfl⟩
    | false => nofun
  have htext : ∀ p ∈ option [.gap, .keyword "COMMENT", .gap] (comment.map .string), p.Prints :=
    prints_option rfl (by simpa using fun s hs => prints_string (hcomment s hs))
  rw [StructField.pieces]
  simp only [List.forall_mem_cons, List.forall_mem_append]
  exact ⟨prints_ident hname, hcolon, htype, hnull, htext⟩

theorem prints_parameter {p : String} (h : (Token.parameter p).WellFormed) :
    Prints (.token (.parameter p)) := by
  rintro _ ⟨⟩
  refine ⟨h, ?_, ?_, ?_⟩ <;> unfold Token.parameter <;> split <;> nofun

theorem Legal.prints {d : DataType} (h : d.Legal) : ∀ p ∈ d.pieces, p.Prints := by
  induction h with
  | @primitive name params hname hparams _ =>
    have hword : Prints (.token (.word name)) := prints_word hname
    cases params with
    | nil => simpa [pieces] using hword
    | cons p params =>
      have hclose : ∀ p ∈ [symbol .rparen], p.Prints := by simpa using prints_symbol (by simp)
      simp only [pieces]
      refine List.forall_mem_cons.2 ⟨hword, List.forall_mem_cons.2 ⟨prints_symbol (by simp), ?_⟩⟩
      refine List.forall_mem_append.2 ⟨prints_commas fun qs hqs => ?_, hclose⟩
      obtain ⟨q, hq, rfl⟩ := List.mem_map.1 hqs
      simpa using prints_parameter (hparams q hq)
  | array hword _ _ ih =>
    rw [pieces]
    exact List.forall_mem_cons.2 ⟨prints_word hword, prints_angled (by simpa using ih)⟩
  | map hword _ _ _ ihk ihv =>
    rw [pieces]
    exact List.forall_mem_cons.2 ⟨prints_word hword, prints_angled (by simpa using ⟨ihk, ihv⟩)⟩
  | struct hword _ hnames hcomments _ ih =>
    rw [pieces, fieldPieces_eq_map]
    refine List.forall_mem_cons.2 ⟨prints_word hword, prints_angled fun ps hps => ?_⟩
    obtain ⟨f, hf, rfl⟩ := List.mem_map.1 hps
    exact prints_field (hnames f hf) (hcomments f hf) (ih f hf)
  | @interval start stop hstart hstop =>
    have hunits : ∀ w ∈ Grammar.intervalUnits, (Token.word w).WellFormed := by
      intro w hw
      refine Token.wellFormed_word ?_
      revert w
      decide
    rw [pieces]
    have hword := prints_word (hunits start hstart)
    have hrange : ∀ p ∈ option [.gap, .keyword "TO", .gap] (stop.map .word), p.Prints :=
      prints_option rfl (by simpa using fun s hs => prints_word (hstop s hs).1)
    simp only [List.forall_mem_cons]
    exact ⟨prints_keyword rfl, prints_gap, hword, hrange⟩

end DataType

/-! ## Reading the line -/

namespace Grammar

open DataType

/-- The tokens in front of which a type ends, whatever the type is. -/
structure EndsType (t : Token) : Prop where
  ne_lparen : t ≠ .symbol .lparen
  ne_lt : t ≠ .symbol .lt
  ne_notEq : t ≠ .symbol .notEq
  not_to : ¬ t.isKeyword "TO"

theorem endsType_symbol {s : Symbol} (h : s ∉ [.lparen, .lt, .notEq]) : EndsType (.symbol s) := by
  simp only [List.mem_cons, List.not_mem_nil, or_false, not_or] at h
  exact ⟨by simpa using h.1, by simpa using h.2.1, by simpa using h.2.2, nofun⟩

theorem endsType_word {w : String} (h : upper w ≠ "TO") : EndsType (.word w) :=
  ⟨nofun, nofun, nofun, by simpa [Token.isKeyword, upper] using h⟩

theorem rereads_primitiveType {name : String} (params : List String) :
    Rereads (primitiveType name) ((tokensOf (DataType.primitive name params).pieces).tail)
      (.primitive name params) EndsType := by
  cases params with
  | nil => exact (rereads_accept_false .lparen).look (.pure _ _) fun t ht => ht.ne_lparen
  | cons p params =>
    have hparameter (q : String) : Rereads typeParameter (tokensOf [.token (.parameter q)]) q fun _ => True := by
      show Rereads typeParameter [Token.parameter q] q _
      unfold Token.parameter
      split <;> exact rereads_expectIf nofun rfl
    have hall : ∀ q ∈ p :: params, Rereads typeParameter (tokensOf [.token (.parameter q)]) q fun _ => True :=
      fun q _ => hparameter q
    have hparams := Rereads.commaSeparated (F := fun t => t ≠ .symbol .comma) hall trivial fun t ht => ⟨trivial, ht⟩
    rw [← tokensOf_commas (fun p => [.token (.parameter p)])] at hparams
    have htokens : (tokensOf (DataType.primitive name (p :: params)).pieces).tail = .symbol .lparen ::
        (tokensOf (commas ((p :: params).map fun p => [.token (.parameter p)])) ++ [.symbol .rparen]) := by
      rw [← show tokensOf [symbol .rparen] = [.symbol .rparen] from rfl, ← tokensOf_append]
      rfl
    rw [htokens]
    refine (rereads_accept .lparen).cons (.ite_true rfl (hparams.bind ?_ fun _ _ => nofun))
    exact (rereads_expect .rparen).cons (.pure _ _)

/-- The rest of a type that is just a word. -/
theorem rereads_typeAfter_primitive {name : String} (hinterval : upper name ≠ "INTERVAL") (inner : Parse DataType)
    (params : List String) : Rereads (typeAfter inner name) ((tokensOf (DataType.primitive name params).pieces).tail)
      (.primitive name params) EndsType := by
  have hnext (t : Token) (ht : EndsType t) :
      (tokensOf (DataType.primitive name params).pieces).tail.headD t ≠ .symbol .lt ∧
      (tokensOf (DataType.primitive name params).pieces).tail.headD t ≠ .symbol .notEq := by
    cases params with
    | nil => exact ⟨ht.ne_lt, ht.ne_notEq⟩
    | cons p params => exact ⟨nofun, nofun⟩
  refine (rereads_isSymbol .lt false).look ?_ fun t ht => decide_eq_false (hnext t ht).1
  split
  · rename_i hbracket
    cases hbracket
  · rename_i hbracket
    cases hbracket
  · rename_i hbracket
    cases hbracket
  · refine (rereads_accept_false .notEq).look (.ite_false Bool.false_ne_true ?_) fun t ht => (hnext t ht).2
    exact rereads_primitiveType params
  · rename_i hupper
    exact absurd hupper hinterval
  · exact rereads_primitiveType params

theorem rereads_intervalType {start : String} {stop : Option String} (hstart : start ∈ intervalUnits)
    (hstop : ∀ s ∈ stop, upper s = s) : Rereads intervalType
      (.word start :: tokensOf (option [.gap, .keyword "TO", .gap] (stop.map .word))) (.interval start stop) EndsType := by
  have hunits : ∀ w ∈ intervalUnits, upper w = w := by decide
  have hunit : capitalsAmong intervalUnits (.word start) = some start := by
    simp [capitalsAmong, capitals, hunits start hstart, hstart]
  refine (rereads_expectIf (t := .word start) (by simp) hunit).cons ?_
  cases stop with
  | none => exact ((rereads_acceptWord_false "TO").maybe_false _).look (.pure _ _) fun t ht => ht.not_to
  | some s =>
    have hs : capitals (.word s) = some s := congrArg some (hstop s rfl)
    have hrange : Rereads (maybe (acceptWord "TO") (expectIf "interval unit" capitals)) [.word "TO", .word s] (some s)
        fun _ => True :=
      (rereads_acceptWord "TO").maybe_true (rereads_expectIf (by simp) hs) fun _ _ => trivial
    exact hrange.bind (.pure _ _) fun _ _ => trivial

/-! ### The recursion -/

/-- The rule for types, where types inside are read by `inner`. -/
def typeRule (inner : Parse DataType) : Parse DataType := do
  let name ← expectIf "data type" fun
    | .word w => some w
    | _ => none
  typeAfter inner name

theorem dataType_eq_fix : dataType = fix typeRule := rfl

variable {inner : Parse DataType}

theorem rereads_typeRule {w : String} {ts : List Token} {d : DataType}
    (h : Rereads (typeAfter inner w) ts d EndsType) : Rereads (typeRule inner) (.word w :: ts) d EndsType := by
  have hword : Rereads (expectIf "data type" fun
      | .word w => some w
      | _ => none) [.word w] w fun _ => True := rereads_expectIf nofun rfl
  exact hword.cons h

/-- The tokens behind a field of a struct. -/
def EndsField (t : Token) : Prop := t = .symbol .comma ∨ t = .symbol .gt

theorem EndsField.endsType {t : Token} (h : EndsField t) : EndsType t := by
  rcases h with rfl | rfl <;> exact endsType_symbol (by simp)

theorem EndsField.not_isKeyword {t : Token} (h : EndsField t) (keyword : String) : ¬ t.isKeyword keyword := by
  rcases h with rfl | rfl <;> nofun

theorem rereads_colon (colon : Bool) :
    Rereads (accept .colon) (tokensOf (colonGap colon)) colon fun t => t ≠ .symbol .colon := by
  cases colon with
  | true => exact (rereads_accept .colon).mono fun _ _ => trivial
  | false => exact rereads_accept_false .colon

theorem rereads_notNull (notNull : Bool) :
    Rereads (acceptWords ["NOT", "NULL"]) (tokensOf (notNullWords notNull)) notNull
      fun t => ¬ t.isKeyword "NOT" := by
  cases notNull with
  | true => exact (rereads_acceptWords ["NOT", "NULL"]).mono fun _ _ => trivial
  | false => exact rereads_acceptWords_false "NOT" ["NULL"]

theorem rereads_stringLiteral (s : String) : Rereads stringLiteral [.string s] s fun _ => True :=
  rereads_expectIf nofun rfl

theorem rereads_comment (comment : Option String) : Rereads (optionalString "COMMENT")
    (tokensOf (option [.gap, .keyword "COMMENT", .gap] (comment.map .string))) comment EndsField := by
  cases comment with
  | none => exact ((rereads_acceptWord_false "COMMENT").mono fun _ ht => ht.not_isKeyword _).maybe_false _
  | some s =>
    exact (rereads_acceptWord "COMMENT").maybe_true
      ((rereads_stringLiteral s).mono fun _ _ => trivial) fun _ _ => trivial

theorem rereads_identifier (name : Ident) : Rereads identifier [name.token] name fun _ => True := by
  cases name with
  | mk text quoted => cases quoted <;> exact rereads_expectIf nofun rfl

/-- Every type starts with a word. -/
theorem exists_tokensOf (d : DataType) : ∃ w ts, tokensOf d.pieces = .word w :: ts := by
  cases d with
  | primitive name params => cases params <;> exact ⟨_, _, rfl⟩
  | _ =>
    rw [pieces]
    exact ⟨_, _, rfl⟩

theorem rereads_structField {f : StructField}
    (h : Rereads inner (tokensOf f.type.pieces) f.type EndsType) :
    Rereads (structField inner) (tokensOf f.pieces) f EndsField := by
  obtain ⟨name, colon, type, notNull, comment⟩ := f
  have htokens : tokensOf (StructField.pieces ⟨name, colon, type, notNull, comment⟩) =
      name.token :: (tokensOf (colonGap colon) ++ (tokensOf type.pieces ++ (tokensOf (notNullWords notNull) ++
        tokensOf (option [.gap, .keyword "COMMENT", .gap] (comment.map .string))))) := by
    rw [StructField.pieces, ← tokensOf_append, ← tokensOf_append, ← tokensOf_append]
    rfl
  rw [htokens]
  refine (rereads_identifier name).cons ((rereads_colon colon).bind (h.bind ((rereads_notNull notNull).bind
    ((rereads_comment comment).map _) ?_) ?_) ?_)
  · intro t ht
    cases comment with
    | none => exact ht.not_isKeyword _
    | some s => exact nofun
  · intro t ht
    cases notNull with
    | true => exact endsType_word (by decide)
    | false =>
      cases comment with
      | none => exact ht.endsType
      | some s => exact endsType_word (by decide)
  · intro t _
    obtain ⟨w, ts, hts⟩ := exists_tokensOf type
    rw [hts]
    exact nofun

theorem tokensOf_angled (ps : List Piece) (items : List (List Piece)) :
    tokensOf (angled (ps :: items)) = .symbol .lt :: (tokensOf (commas (ps :: items)) ++ [.symbol .gt]) := by
  show tokensOf ([symbol .lt] ++ (commas (ps :: items) ++ [symbol .gt])) = _
  rw [tokensOf_append, tokensOf_append]
  rfl

theorem rereads_array {word : String} {element : DataType} (hupper : upper word = "ARRAY")
    (h : Rereads inner (tokensOf element.pieces) element EndsType) :
    Rereads (typeAfter inner word) (tokensOf (angled [element.pieces])) (.array word element) EndsType := by
  rw [tokensOf_angled]
  refine (rereads_isSymbol .lt true).look ?_ fun _ _ => rfl
  simp only [hupper]
  refine (rereads_skip (t := .symbol .lt) nofun).cons ?_
  exact h.bind ((rereads_expect .gt).cons (.pure _ _)) fun _ _ => endsType_symbol (by simp)

theorem rereads_map {word : String} {key value : DataType} (hupper : upper word = "MAP")
    (hkey : Rereads inner (tokensOf key.pieces) key EndsType)
    (hvalue : Rereads inner (tokensOf value.pieces) value EndsType) :
    Rereads (typeAfter inner word) (tokensOf (angled [key.pieces, value.pieces])) (.map word key value) EndsType := by
  have htokens : tokensOf (angled [key.pieces, value.pieces]) =
      .symbol .lt :: (tokensOf key.pieces ++ (.symbol .comma :: (tokensOf value.pieces ++ [.symbol .gt]))) := by
    rw [tokensOf_angled, show [key.pieces, value.pieces] = [key, value].map pieces from rfl, tokensOf_commas]
    simp [commaTokens]
  rw [htokens]
  refine (rereads_isSymbol .lt true).look ?_ fun _ _ => rfl
  simp only [hupper]
  refine (rereads_skip (t := .symbol .lt) nofun).cons (hkey.bind ((rereads_expect .comma).cons ?_) fun _ _ => ?_)
  · exact hvalue.bind ((rereads_expect .gt).cons (.pure _ _)) fun _ _ => endsType_symbol (by simp)
  · exact endsType_symbol (by simp)

theorem rereads_struct {word : String} {fields : List StructField} (hupper : upper word = "STRUCT")
    (h : ∀ f ∈ fields, Rereads inner (tokensOf f.type.pieces) f.type EndsType) :
    Rereads (typeAfter inner word) (tokensOf (angled (fields.map StructField.pieces))) (.struct word fields)
      EndsType := by
  cases fields with
  | nil =>
    refine (rereads_isSymbol .lt false).look ?_ fun _ _ => rfl
    simp only [hupper]
    exact (rereads_accept .notEq).cons (.ite_true rfl (.pure _ _))
  | cons f fields =>
    have hall : ∀ g ∈ f :: fields, Rereads (structField inner) (tokensOf g.pieces) g EndsField :=
      fun g hg => rereads_structField (h g hg)
    have hfields := Rereads.commaSeparated (F := fun t => t = .symbol .gt) hall (.inl rfl) (by rintro _ rfl; exact ⟨.inr rfl, nofun⟩)
    rw [← tokensOf_commas] at hfields
    rw [List.map_cons, tokensOf_angled]
    refine (rereads_isSymbol .lt true).look ?_ fun _ _ => rfl
    simp only [hupper]
    refine (rereads_skip (t := .symbol .lt) nofun).cons ?_
    exact hfields.bind ((rereads_expect .gt).cons (.pure _ _)) fun _ _ => rfl

end Grammar

/-! ## The round trip -/

namespace DataType

open Grammar

theorem length_tokensOf_le_angled {ps : List Piece} {items : List (List Piece)} (h : ps ∈ items) :
    (tokensOf ps).length ≤ (tokensOf (angled items)).length := by
  cases items with
  | nil => contradiction
  | cons qs items =>
    have hle := length_tokensOf_le_commas h
    rw [tokensOf_angled, List.length_cons, List.length_append]
    omega

theorem length_tokensOf_le_field (f : StructField) :
    (tokensOf f.type.pieces).length ≤ (tokensOf f.pieces).length := by
  obtain ⟨name, colon, type, notNull, comment⟩ := f
  rw [StructField.pieces, ← List.singleton_append]
  simp only [tokensOf_append, List.length_append]
  omega

/-- The rule for types reads the tokens of a legal type as that type. -/
theorem Legal.rereads {d : DataType} (h : d.Legal) : Rereads dataType (tokensOf d.pieces) d EndsType := by
  rw [dataType_eq_fix]
  refine Rereads.fix ?_
  -- The types inside are read one level further down, and they have fewer tokens.
  induction h with
  | @primitive name params _ _ hinterval =>
    rintro (_ | n) hn
    · exact absurd hn (Nat.not_lt_zero _)
    have htokens : tokensOf (DataType.primitive name params).pieces =
        .word name :: (tokensOf (DataType.primitive name params).pieces).tail := by
      cases params <;> rfl
    rw [htokens]
    exact rereads_typeRule (rereads_typeAfter_primitive hinterval _ params)
  | @array word element _ hupper _ ih =>
    rintro (_ | n) hn
    · exact absurd hn (Nat.not_lt_zero _)
    rw [pieces] at hn ⊢
    refine rereads_typeRule (rereads_array hupper (ih n ?_))
    exact Nat.lt_of_le_of_lt (length_tokensOf_le_angled (by simp)) (Nat.lt_of_succ_lt_succ hn)
  | @map word key value _ hupper _ _ ihk ihv =>
    rintro (_ | n) hn
    · exact absurd hn (Nat.not_lt_zero _)
    rw [pieces] at hn ⊢
    refine rereads_typeRule (rereads_map hupper (ihk n ?_) (ihv n ?_))
    · exact Nat.lt_of_le_of_lt (length_tokensOf_le_angled (by simp)) (Nat.lt_of_succ_lt_succ hn)
    · exact Nat.lt_of_le_of_lt (length_tokensOf_le_angled (by simp)) (Nat.lt_of_succ_lt_succ hn)
  | @struct word fields _ hupper _ _ _ ih =>
    rintro (_ | n) hn
    · exact absurd hn (Nat.not_lt_zero _)
    rw [pieces, fieldPieces_eq_map] at hn ⊢
    refine rereads_typeRule (rereads_struct hupper fun f hf => ih f hf n ?_)
    refine Nat.lt_of_le_of_lt (Nat.le_trans (length_tokensOf_le_field f) ?_) (Nat.lt_of_succ_lt_succ hn)
    exact length_tokensOf_le_angled (List.mem_map_of_mem hf)
  | interval hstart hstop =>
    rintro (_ | n) hn
    · exact absurd hn (Nat.not_lt_zero _)
    rw [pieces]
    refine rereads_typeRule (w := "INTERVAL") ((rereads_isSymbol .lt false).look ?_ fun _ _ => rfl)
    exact rereads_intervalType hstart fun s hs => (hstop s hs).2

variable {text : String} {tokens : List Spanned} {d : DataType} {pos next : Nat}

/-- A type that is read anywhere in a text is printed, and the page is that type and nothing more. -/
theorem readBack (hscan : Token.scan text = .ok tokens)
    (hrun : Runs dataType ⟨text, tokens.toArray⟩ pos d next) (style : Style) :
    ∃ page tokens' next', d.doc.print style = .ok page ∧ Token.scan page = .ok tokens' ∧
      Runs dataType ⟨page, tokens'.toArray⟩ 0 d next' ∧ Input.tokenAt ⟨page, tokens'.toArray⟩ next' = .eof := by
  have hlegal : d.Legal := yields_dataType (Input.wellFormed_of_scan hscan) hrun
  have hlaid : Laid d.pieces (String.ofList (textOf d.pieces)).toList := by
    rw [String.toList_ofList]
    exact laid_textOf d.pieces
  obtain ⟨tokens', hscan', hahead⟩ := hlaid.exists_scan hlegal.angled.chain hlegal.prints
  obtain ⟨next', hrun', hend'⟩ := hlegal.rereads.exists_runs ⟨nofun, nofun, nofun, nofun⟩ hahead
  exact ⟨_, tokens', next', hlegal.writes.print style, hscan', hrun', hend'⟩

/-- Brackets that close together, empty brackets, a quoted name, a comment and an interval in small letters. -/
theorem readBack_nested : ∃ tokens d next page tokens' next',
    Token.scan "struct<\x60a\x60: array<map<int,decimal(9)>> comment 'x', b struct<>, c interval day to second>" =
      .ok tokens ∧
    Runs dataType ⟨"struct<\x60a\x60: array<map<int,decimal(9)>> comment 'x', b struct<>, c interval day to second>",
      tokens.toArray⟩ 0 d next ∧
    d.doc.print .default = .ok page ∧ Token.scan page = .ok tokens' ∧
    Runs dataType ⟨page, tokens'.toArray⟩ 0 d next' ∧ Input.tokenAt ⟨page, tokens'.toArray⟩ next' = .eof := by
  obtain ⟨tokens, d, next, hscan, hrun⟩ := exists_runs_of_scan dataType
    "struct<\x60a\x60: array<map<int,decimal(9)>> comment 'x', b struct<>, c interval day to second>"
    (by decide +kernel)
  obtain ⟨page, tokens', next', hprint, hscan', hrun', hend'⟩ := readBack hscan hrun .default
  exact ⟨tokens, d, next, page, tokens', next', hscan, hrun, hprint, hscan', hrun', hend'⟩

end DataType

end SqlTidy
