import SqlTidy.Proofs.Ink
import SqlTidy.Proofs.Piece

/-!
# Plain expressions and their pieces

The plain expressions are built from names, literals, operators, predicates, parentheses, subscripts
and calls without extras. They are always printed on one line.

**Theorem (`Tree.Plain.writes_doc`).** The document of a plain expression writes the text of the
expression's pieces, in every style.
-/

namespace SqlTidy

open Text Piece

/-! ## Pieces of the parts -/

namespace Piece

/-- Lists of pieces with a separator between neighbours. -/
def sepBy (separator : List Piece) : List (List Piece) → List Piece
  | [] => []
  | [ps] => ps
  | ps :: rest => ps ++ (separator ++ sepBy separator rest)

def symbol (s : Symbol) : Piece := .token (.symbol s)

/-- The pieces of a list in the source: its items with commas between them. -/
def commas : List (List Piece) → List Piece := sepBy [symbol .comma, .gap]

/-- `NOT` if something is negated. -/
def notWord (negated : Bool) : List Piece := if negated then [.keyword "NOT", .gap] else []

theorem textOf_append (ps qs : List Piece) : textOf (ps ++ qs) = textOf ps ++ textOf qs :=
  List.flatMap_append

theorem textOf_cons (p : Piece) (ps : List Piece) : textOf (p :: ps) = p.text ++ textOf ps := rfl

end Piece

def Ident.piece (i : Ident) : Piece := .token i.token

/-- The parts of a name with dots between them. -/
def Ident.dotted (parts : List Ident) : List Piece :=
  sepBy [symbol .dot] (parts.map fun i => [i.piece])

def Literal.pieces : Literal → List Piece
  | .null => [.keyword "NULL"]
  | .boolean true => [.keyword "TRUE"]
  | .boolean false => [.keyword "FALSE"]
  | .number text => [.token (.number text)]
  | .string texts => sepBy [.gap] (texts.map fun s => [.token (.string s)])

def UnaryOp.pieces : UnaryOp → List Piece
  | .not => [.keyword "NOT", .gap]
  | .minus => [symbol .minus]
  | .plus => [symbol .plus]
  | .bitNot => [symbol .tilde]

def BinaryOp.piece : BinaryOp → Piece
  | .plus => symbol .plus
  | .minus => symbol .minus
  | .multiply => symbol .star
  | .divide => symbol .slash
  | .modulo => symbol .percent
  | .integerDivide => .keyword "DIV"
  | .concat => symbol .concat
  | .bitAnd => symbol .ampersand
  | .bitOr => symbol .pipe
  | .bitXor => symbol .caret
  | .eq => symbol .eq
  | .doubleEq => symbol .doubleEq
  | .notEq => symbol .notEq
  | .bangEq => symbol .bangEq
  | .lt => symbol .lt
  | .ltEq => symbol .ltEq
  | .gt => symbol .gt
  | .gtEq => symbol .gtEq
  | .nullSafeEq => symbol .nullSafeEq
  | .and => .keyword "AND"
  | .or => .keyword "OR"

/-- The escape character of a pattern, if one is given. -/
def Piece.escape : Option String → List Piece
  | none => []
  | some s => [.gap, .keyword "ESCAPE", .gap, .token (.string s)]

/-! ## Pieces of trees -/

namespace Tree

/-- Two minus signs in a row are kept apart. -/
def minusGap : UnaryOp → Expr → List Piece
  | .minus, .unary .minus _ => [.gap]
  | _, _ => []

/-- The pieces of a plain expression, and of a list of them with commas between its items. Other trees
have none. -/
def pieces : {c : Category} → Tree c → List Piece
  | _, .cons head .nil => head.pieces
  | _, .cons head tail => head.pieces ++ ([symbol .comma, .gap] ++ tail.pieces)
  | _, .ident name => [name.piece]
  | _, .compound parts => Ident.dotted parts
  | _, .wildcard => [symbol .star]
  | _, .qualifiedWildcard qualifier => Ident.dotted qualifier.parts ++ [symbol .dot, symbol .star]
  | _, .literal value => value.pieces
  | _, .unary op operand => op.pieces ++ (minusGap op operand ++ operand.pieces)
  | _, .binary op left right => left.pieces ++ ([.gap, op.piece, .gap] ++ right.pieces)
  | _, .between tested negated low high =>
    tested.pieces ++ (.gap :: (notWord negated ++ ([.keyword "BETWEEN", .gap] ++
      (low.pieces ++ ([.gap, .keyword "AND", .gap] ++ high.pieces)))))
  | _, .inList tested negated items =>
    tested.pieces ++ (.gap :: (notWord negated ++ ([.keyword "IN", .gap, symbol .lparen] ++
      (items.pieces ++ [symbol .rparen]))))
  | _, .like tested negated op pattern escaped =>
    tested.pieces ++ (.gap :: (notWord negated ++ ([.keyword op.spelling, .gap] ++
      (pattern.pieces ++ Piece.escape escaped))))
  | _, .is tested negated test =>
    tested.pieces ++ ([.gap, .keyword "IS", .gap] ++ (notWord negated ++ [.keyword test.spelling]))
  | _, .distinctFrom tested negated other =>
    tested.pieces ++ ([.gap, .keyword "IS", .gap] ++ (notWord negated ++
      ([.keyword "DISTINCT", .gap, .keyword "FROM", .gap] ++ other.pieces)))
  | _, .function f => f.pieces
  | _, .paren inner => symbol .lparen :: (inner.pieces ++ [symbol .rparen])
  | _, .subscript base index =>
    base.pieces ++ (symbol .lbracket :: (index.pieces ++ [symbol .rbracket]))
  | _, .call name _ args _ _ _ _ =>
    Ident.dotted name.parts ++ (symbol .lparen :: (args.pieces ++ [symbol .rparen]))
  | _, .positional value => value.pieces
  | _, _ => []

theorem pieces_list {c : Category} :
    (ts : Tree (.list c)) → ts.pieces = Piece.commas (ts.toList.map pieces)
  | .nil => rfl
  | .cons t .nil => rfl
  | .cons t (.cons u us) => by
    show t.pieces ++ ([symbol .comma, .gap] ++ (cons u us).pieces) = _
    rw [pieces_list (.cons u us)]
    rfl

/-! ## Plain expressions -/

/-- The expressions that are built from the plain forms only. -/
inductive Plain : Expr → Prop
  | ident (name : Ident) : Plain (.ident name)
  | compound (parts : List Ident) : Plain (.compound parts)
  | wildcard : Plain .wildcard
  | qualifiedWildcard (qualifier : DottedName) : Plain (.qualifiedWildcard qualifier)
  | literal (value : Literal) : Plain (.literal value)
  | unary (op : UnaryOp) {operand : Expr} (h : Plain operand) : Plain (.unary op operand)
  | binary (op : BinaryOp) {left right : Expr} (hleft : Plain left) (hright : Plain right) :
      Plain (.binary op left right)
  | between (negated : Bool) {tested low high : Expr} (htested : Plain tested) (hlow : Plain low)
      (hhigh : Plain high) : Plain (.between tested negated low high)
  | inList (negated : Bool) {tested : Expr} {items : Tree (.list .expr)} (htested : Plain tested)
      (hitems : ∀ e ∈ items.toList, Plain e) : Plain (.inList tested negated items)
  | like (negated : Bool) (op : LikeOp) (escape : Option String) {tested pattern : Expr}
      (htested : Plain tested) (hpattern : Plain pattern) :
      Plain (.like tested negated op pattern escape)
  | is (negated : Bool) (test : IsTest) {tested : Expr} (htested : Plain tested) :
      Plain (.is tested negated test)
  | distinctFrom (negated : Bool) {tested other : Expr} (htested : Plain tested)
      (hother : Plain other) : Plain (.distinctFrom tested negated other)
  | paren {inner : Expr} (h : Plain inner) : Plain (.paren inner)
  | subscript {base index : Expr} (hbase : Plain base) (hindex : Plain index) :
      Plain (.subscript base index)
  | function (name : DottedName) {f : Call} {args : List Expr}
      (hf : f = .call name Option.none (.ofList (args.map .positional)) .nil .none Option.none .none)
      (hargs : ∀ e ∈ args, Plain e) : Plain (.function f)

/-- Decides whether an expression is plain. A list is plain if its items are. -/
def isPlain : {c : Category} → Tree c → Bool
  | _, .nil => true
  | _, .cons head tail => head.isPlain && tail.isPlain
  | _, .ident _ => true
  | _, .compound _ => true
  | _, .wildcard => true
  | _, .qualifiedWildcard _ => true
  | _, .literal _ => true
  | _, .unary _ operand => operand.isPlain
  | _, .binary _ left right => left.isPlain && right.isPlain
  | _, .between tested _ low high => tested.isPlain && (low.isPlain && high.isPlain)
  | _, .inList tested _ items => tested.isPlain && items.isPlain
  | _, .like tested _ _ pattern _ => tested.isPlain && pattern.isPlain
  | _, .is tested _ _ => tested.isPlain
  | _, .distinctFrom tested _ other => tested.isPlain && other.isPlain
  | _, .paren inner => inner.isPlain
  | _, .subscript base index => base.isPlain && index.isPlain
  | _, .function f => f.isPlain
  | _, .call _ Option.none args .nil .none Option.none .none => args.isPlain
  | _, .positional value => value.isPlain
  | _, _ => false

theorem isPlain_ofList {c : Category} (ts : List (Tree c)) :
    (ofList ts).isPlain = ts.all isPlain := by
  induction ts with
  | nil => rfl
  | cons t ts ih => exact congrArg (t.isPlain && ·) ih

theorem Plain.isPlain {e : Expr} (h : e.Plain) : e.isPlain = true := by
  have hand {a b : Bool} (ha : a = true) (hb : b = true) : (a && b) = true := by
    rw [ha, hb, Bool.and_self]
  induction h with
  | unary _ _ ih => exact ih
  | binary _ _ _ ihl ihr => exact hand ihl ihr
  | between _ _ _ _ iht ihl ihh => exact hand iht (hand ihl ihh)
  | @inList _ _ items _ _ iht ihi =>
    refine hand iht ?_
    rw [← ofList_toList items, isPlain_ofList]
    exact List.all_eq_true.2 ihi
  | like _ _ _ _ _ iht ihp => exact hand iht ihp
  | is _ _ _ iht => exact iht
  | distinctFrom _ _ _ iht iho => exact hand iht iho
  | paren _ ih => exact ih
  | subscript _ _ ihb ihi => exact hand ihb ihi
  | @function _ f args hf _ ih =>
    subst hf
    show (ofList (args.map positional)).isPlain = true
    rw [isPlain_ofList, List.all_map]
    exact List.all_eq_true.2 ih
  | _ => rfl

/-- What `isPlain` says about the trees of each category. -/
def PlainAs : {c : Category} → Tree c → Prop
  | .expr, e => Plain e
  | .list .expr, es => ∀ e ∈ es.toList, Plain e
  | .callArg, arg => ∃ e, arg = .positional e ∧ Plain e
  | .list .callArg, args =>
    ∃ es : List Expr, args = ofList (es.map positional) ∧ ∀ e ∈ es, Plain e
  | .call, f => ∃ (name : DottedName) (args : List Expr), f = .call name Option.none
      (.ofList (args.map .positional)) .nil .none Option.none .none ∧ ∀ e ∈ args, Plain e
  | _, _ => True

theorem PlainAs.nil (c : Category) : PlainAs (.nil : Tree (.list c)) := by
  cases c with
  | expr => exact List.forall_mem_nil _
  | callArg => exact ⟨[], rfl, List.forall_mem_nil _⟩
  | _ => trivial

theorem PlainAs.cons {c : Category} {t : Tree c} {ts : Tree (.list c)} (ht : PlainAs t)
    (hts : PlainAs ts) : PlainAs (.cons t ts) := by
  cases c with
  | expr => exact List.forall_mem_cons.2 ⟨ht, hts⟩
  | callArg =>
    obtain ⟨e, rfl, he⟩ := ht
    obtain ⟨es, rfl, hes⟩ := hts
    exact ⟨e :: es, rfl, List.forall_mem_cons.2 ⟨he, hes⟩⟩
  | _ => trivial

theorem plainAs_of_isPlain {c : Category} (t : Tree c) (h : t.isPlain = true) : PlainAs t := by
  induction t with
  | nil => exact .nil _
  | cons head tail ihh iht =>
    obtain ⟨hhead, htail⟩ := Bool.and_eq_true_iff.1 h
    exact .cons (ihh hhead) (iht htail)
  | ident name => exact .ident name
  | compound parts => exact .compound parts
  | wildcard => exact .wildcard
  | qualifiedWildcard qualifier => exact .qualifiedWildcard qualifier
  | literal value => exact .literal value
  | unary op operand ih => exact .unary op (ih h)
  | binary op left right ihl ihr =>
    obtain ⟨hleft, hright⟩ := Bool.and_eq_true_iff.1 h
    exact .binary op (ihl hleft) (ihr hright)
  | between tested negated low high iht ihl ihh =>
    obtain ⟨htested, hbounds⟩ := Bool.and_eq_true_iff.1 h
    obtain ⟨hlow, hhigh⟩ := Bool.and_eq_true_iff.1 hbounds
    exact .between negated (iht htested) (ihl hlow) (ihh hhigh)
  | inList tested negated items iht ihi =>
    obtain ⟨htested, hitems⟩ := Bool.and_eq_true_iff.1 h
    exact .inList negated (iht htested) (ihi hitems)
  | like tested negated op pattern escape iht ihp =>
    obtain ⟨htested, hpattern⟩ := Bool.and_eq_true_iff.1 h
    exact .like negated op escape (iht htested) (ihp hpattern)
  | is tested negated test iht => exact .is negated test (iht h)
  | distinctFrom tested negated other iht iho =>
    obtain ⟨htested, hother⟩ := Bool.and_eq_true_iff.1 h
    exact .distinctFrom negated (iht htested) (iho hother)
  | paren inner ih => exact .paren (ih h)
  | subscript base index ihb ihi =>
    obtain ⟨hbase, hindex⟩ := Bool.and_eq_true_iff.1 h
    exact .subscript (ihb hbase) (ihi hindex)
  | function f ih =>
    obtain ⟨name, args, hf, hargs⟩ := ih h
    exact .function name hf hargs
  | call name quantifier args withinGroup filter nullTreatment overWindow iha _ _ _ =>
    cases quantifier with
    | some => cases h
    | none => ?_
    cases withinGroup with
    | cons => cases h
    | nil => ?_
    cases filter with
    | some => cases h
    | none => ?_
    cases nullTreatment with
    | some => cases h
    | none => ?_
    cases overWindow with
    | some => cases h
    | none => ?_
    obtain ⟨es, rfl, hes⟩ := iha h
    exact ⟨name, es, rfl, hes⟩
  | positional value ih => exact ⟨value, rfl, ih h⟩
  | _ => cases h

instance (e : Expr) : Decidable e.Plain :=
  decidable_of_iff (e.isPlain = true) ⟨plainAs_of_isPlain e, Plain.isPlain⟩

end Tree

/-! ## Documents on one line -/

namespace Doc

/-- The document consists of texts only, which together are the text of some pieces. -/
inductive Inline : Doc → List Piece → Prop
  | nil : Inline nil []
  | text {s : String} {ps : List Piece} (h : textOf ps = s.toList) : Inline (text s) ps
  | append {a b : Doc} {ps qs : List Piece} (ha : Inline a ps) (hb : Inline b qs) :
      Inline (a ++ b) (ps ++ qs)

namespace Inline

theorem cons {d : Doc} {ds : List Doc} {ps qs : List Piece} (hd : d.Inline ps)
    (hds : (seq ds).Inline qs) : (seq (d :: ds)).Inline (ps ++ qs) :=
  hd.append hds

theorem last {d : Doc} {ps : List Piece} (hd : d.Inline ps) : (seq [d]).Inline ps := by
  have := hd.append .nil
  rwa [List.append_nil] at this

theorem sep {α : Type} {doc : α → Doc} {ps : α → List Piece} {separator : String}
    {between : List Piece} (hsep : textOf between = separator.toList) {xs : List α}
    (h : ∀ x ∈ xs, (doc x).Inline (ps x)) :
    (Doc.sep separator (xs.map doc)).Inline (sepBy between (xs.map ps)) := by
  induction xs with
  | nil => exact .nil
  | cons x xs ih =>
    obtain ⟨hx, hxs⟩ := List.forall_mem_cons.1 h
    cases xs with
    | nil => exact hx
    | cons y ys => exact hx.append (.append (.text hsep) (ih hxs))

theorem parens {ds : List Doc} {ps : List Piece} (h : (commas ds).Inline ps) :
    (Doc.parens ds).Inline (symbol .lparen :: (ps ++ [symbol .rparen])) := by
  have hopen : (Doc.text "(").Inline [symbol .lparen] := .text rfl
  have hclose : (Doc.text ")").Inline [symbol .rparen] := .text rfl
  exact (hopen.append h).append hclose

end Inline

/-- In the middle of a line, the document writes the text of some pieces and does nothing else. -/
def Writes (d : Doc) (ps : List Piece) : Prop :=
  ∀ (layout : ClauseLayout) (p : Printer), p.pending = false →
    d.run layout p = { p with output := p.output ++ String.ofList (textOf ps) }

theorem Inline.writes {d : Doc} {ps : List Piece} (h : d.Inline ps) : d.Writes ps := by
  induction h with
  | nil =>
    intro layout p _
    simp [run, textOf]
  | @text s ps h =>
    intro layout p hp
    rw [h]
    unfold run Printer.write
    split
    · rename_i hs
      rw [String.isEmpty_iff.1 hs]
      simp
    · simp [hp]
  | @append a b ps qs _ _ iha ihb =>
    intro layout p hp
    show b.run layout (a.run layout p) = _
    rw [iha layout p hp, ihb layout { p with output := p.output ++ String.ofList (textOf ps) } hp,
      textOf_append, String.ofList_append, String.append_assoc]

/-- A document that writes a text prints it. -/
theorem Writes.print {d : Doc} {ps : List Piece} (h : d.Writes ps) (style : Style) :
    d.print style = .ok (String.ofList (textOf ps)) := by
  rw [print_eq_ok, h _ _ rfl]
  simp [Printer.ofWidth]

end Doc

open Doc

theorem Piece.textOf_singleton (p : Piece) : textOf [p] = p.text := by
  simp [textOf]

theorem Ident.textOf_piece (i : Ident) : textOf [i.piece] = i.written.toList := by
  rw [textOf_singleton]
  cases hq : i.quoted <;> simp [piece, token, Piece.text, Token.lexeme, written, hq]

theorem Ident.textOf_dotted (parts : List Ident) :
    textOf (dotted parts) = (".".intercalate (parts.map Ident.written)).toList := by
  induction parts with
  | nil => simp [dotted, sepBy, textOf]
  | cons i parts ih =>
    cases parts with
    | nil => simp [dotted, sepBy, textOf_piece]
    | cons j parts =>
      have hdotted : dotted (i :: j :: parts) = [i.piece] ++ ([symbol .dot] ++ dotted (j :: parts)) :=
        rfl
      rw [hdotted, textOf_append, textOf_append, ih, textOf_piece]
      simp only [List.map_cons, String.intercalate_cons_cons, String.toList_append,
        List.append_assoc]
      rfl

theorem Literal.inline_doc (l : Literal) : (Layout.literal l).Inline l.pieces := by
  cases l with
  | null => exact .text rfl
  | boolean value => cases value <;> exact .text rfl
  | number text => exact .text (textOf_singleton _)
  | string texts => exact .sep rfl fun s _ => .text (textOf_singleton _)

theorem Piece.inline_notWord (negated : Bool) :
    (Layout.notWord negated).Inline (notWord negated) := by
  cases negated with
  | false => exact .nil
  | true => exact .text rfl

theorem Piece.inline_escape (escaped : Option String) :
    (Doc.optText " ESCAPE " escaped).Inline (escape escaped) := by
  cases escaped with
  | none => exact .nil
  | some s =>
    have hword : (Doc.text " ESCAPE ").Inline [.gap, .keyword "ESCAPE", .gap] := .text rfl
    exact hword.append (.text (textOf_singleton _))

namespace Tree

theorem inline_minusGap (op : UnaryOp) (operand : Expr) :
    (Layout.minusGap op operand).Inline (minusGap op operand) := by
  cases op with
  | minus =>
    cases operand with
    | unary op' x =>
      cases op' with
      | minus => exact .text rfl
      | _ => exact .nil
    | _ => exact .nil
  | _ => exact .nil

theorem Plain.inline_doc {e : Expr} (h : e.Plain) : (e.doc : Doc).Inline e.pieces := by
  induction h with
  | ident name => exact .text name.textOf_piece
  | compound parts => exact .sep rfl fun i _ => .text i.textOf_piece
  | wildcard => exact .text rfl
  | qualifiedWildcard qualifier =>
    have hname : (Doc.text qualifier.written).Inline (Ident.dotted qualifier.parts) :=
      .text (Ident.textOf_dotted _)
    exact hname.cons (.last (.text rfl))
  | literal value => exact value.inline_doc
  | @unary op operand h ih =>
    have hop : (Doc.text op.spelling).Inline op.pieces := .text (by cases op <;> rfl)
    exact hop.cons ((inline_minusGap op operand).cons ih.last)
  | @binary op left right _ _ ihl ihr =>
    have hop : (Doc.text op.spelling).Inline [op.piece] := .text (by cases op <;> rfl)
    have hgap : (Doc.text " ").Inline [.gap] := .text rfl
    exact ihl.cons (hgap.cons (hop.cons (hgap.cons ihr.last)))
  | between negated _ _ _ iht ihl ihh =>
    have hgap : (Doc.text " ").Inline [.gap] := .text rfl
    have hword : (Doc.text "BETWEEN ").Inline [.keyword "BETWEEN", .gap] := .text rfl
    have hand : (Doc.text " AND ").Inline [.gap, .keyword "AND", .gap] := .text rfl
    exact iht.cons (hgap.cons ((inline_notWord negated).cons
      (hword.cons (ihl.cons (hand.cons ihh.last)))))
  | @inList negated tested items _ _ iht ihi =>
    have hgap : (Doc.text " ").Inline [.gap] := .text rfl
    have hword : (Doc.text "IN ").Inline [.keyword "IN", .gap] := .text rfl
    have hitems : (Doc.commas (items.render false)).Inline items.pieces := by
      rw [render_list, pieces_list]
      exact .sep rfl ihi
    exact iht.cons (hgap.cons ((inline_notWord negated).cons (hword.cons hitems.parens.last)))
  | like negated op escape _ _ iht ihp =>
    have hgap : (Doc.text " ").Inline [.gap] := .text rfl
    have hop : (Doc.text op.spelling).Inline [.keyword op.spelling] :=
      .text (textOf_singleton _)
    exact iht.cons (hgap.cons ((inline_notWord negated).cons
      (hop.cons (hgap.cons (ihp.cons (inline_escape escape).last)))))
  | is negated test _ iht =>
    have hword : (Doc.text " IS ").Inline [.gap, .keyword "IS", .gap] := .text rfl
    have htest : (Doc.text test.spelling).Inline [.keyword test.spelling] :=
      .text (textOf_singleton _)
    exact iht.cons (hword.cons ((inline_notWord negated).cons htest.last))
  | distinctFrom negated _ _ iht iho =>
    have hword : (Doc.text " IS ").Inline [.gap, .keyword "IS", .gap] := .text rfl
    have hwords : (Doc.text "DISTINCT FROM ").Inline
        [.keyword "DISTINCT", .gap, .keyword "FROM", .gap] := .text rfl
    exact iht.cons (hword.cons ((inline_notWord negated).cons (hwords.cons iho.last)))
  | @paren inner _ ih =>
    have hinner : (Doc.commas [inner.doc]).Inline inner.pieces := ih
    exact hinner.parens
  | subscript _ _ ihb ihi =>
    have hopen : (Doc.text "[").Inline [symbol .lbracket] := .text rfl
    have hclose : (Doc.text "]").Inline [symbol .rbracket] := .text rfl
    exact ihb.cons (hopen.cons (ihi.cons hclose.last))
  | @function name f args hf _ ih =>
    subst hf
    have hname : (Doc.text name.written).Inline (Ident.dotted name.parts) :=
      .text (Ident.textOf_dotted _)
    have hopen : (Doc.text "(").Inline [symbol .lparen] := .text rfl
    have hclose : (Doc.text ")").Inline [symbol .rparen] := .text rfl
    have hargs : (Doc.commas ((ofList (args.map positional)).render false)).Inline
        (ofList (args.map positional)).pieces := by
      rw [render_list, pieces_list, toList_ofList, List.map_map, List.map_map]
      exact .sep rfl ih
    exact hname.cons (hopen.cons (Inline.nil.cons (hargs.cons (hclose.cons
      (Inline.nil.cons (Inline.nil.cons (Inline.nil.cons Inline.nil.last)))))))

/-- A plain expression is printed as its pieces. -/
theorem Plain.writes_doc {e : Expr} (h : e.Plain) : (e.doc : Doc).Writes e.pieces :=
  h.inline_doc.writes

end Tree

end SqlTidy
