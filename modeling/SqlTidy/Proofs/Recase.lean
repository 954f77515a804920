import SqlTidy.Proofs.Case.Fold
import SqlTidy.Proofs.Plain

/-!
# Plain expressions that differ in letter case

**Theorem (`Tree.Plain.recased`).** If two expressions are the same after folding and one is plain, then
so is the other, and the two are equal if their pieces are.

Folding forgets the case of names and nothing else. The names stand in the pieces as they were written, at
the same places in both lists, so equal pieces bring back what folding has forgotten.
-/

namespace SqlTidy

open Text

/-! ## Pieces up to letter case -/

namespace Piece

def foldCase : Piece → Piece
  | .token t => .token t.foldCase
  | p => p

/-- The same pieces but for the letter case of names. -/
def Alike (ps qs : List Piece) : Prop := ps.map foldCase = qs.map foldCase

namespace Alike

variable {ps ps' qs qs' : List Piece}

theorem refl (ps : List Piece) : Alike ps ps := rfl

theorem length_eq (h : Alike ps ps') : ps.length = ps'.length := by
  simpa using congrArg List.length h

theorem append (h : Alike ps ps') (h' : Alike qs qs') : Alike (ps ++ qs) (ps' ++ qs') := by
  rw [Alike, List.map_append, List.map_append, h, h']

end Alike

/-- Pieces that are alike, and that are equal only if `P` holds. -/
structure Reveals (P : Prop) (ps qs : List Piece) : Prop where
  alike : Alike ps qs
  of_eq : ps = qs → P

namespace Reveals

variable {P Q : Prop} {ps ps' qs qs' : List Piece}

theorem imp (h : Reveals P ps ps') (f : P → Q) : Reveals Q ps ps' :=
  ⟨h.alike, fun heq => f (h.of_eq heq)⟩

/-- Pieces that are alike take the same room, so what follows them is told apart from them. -/
theorem append (h : Reveals P ps ps') (h' : Reveals Q qs qs') :
    Reveals (P ∧ Q) (ps ++ qs) (ps' ++ qs') where
  alike := h.alike.append h'.alike
  of_eq heq := by
    obtain ⟨hps, hqs⟩ := List.append_inj heq h.alike.length_eq
    exact ⟨h.of_eq hps, h'.of_eq hqs⟩

theorem after (h : Reveals P ps ps') (front : List Piece) :
    Reveals P (front ++ ps) (front ++ ps') :=
  ⟨(Alike.refl front).append h.alike, fun heq => h.of_eq (List.append_cancel_left heq)⟩

theorem before (h : Reveals P ps ps') (back : List Piece) :
    Reveals P (ps ++ back) (ps' ++ back) :=
  ⟨h.alike.append (.refl back), fun heq => h.of_eq (List.append_cancel_right heq)⟩

end Reveals

theorem map_sepBy (f : Piece → Piece) (separator : List Piece) (pss : List (List Piece)) :
    (sepBy separator pss).map f = sepBy (separator.map f) (pss.map (List.map f)) := by
  induction pss with
  | nil => rfl
  | cons ps pss ih =>
    cases pss with
    | nil => rfl
    | cons qs pss =>
      show (ps ++ (separator ++ sepBy separator (qs :: pss))).map f = _
      rw [List.map_append, List.map_append, ih]
      rfl

/-- Lists whose items are alike are equal if they are equal with a separator between the items. -/
theorem reveals_sepBy {separator : List Piece} {pss qss : List (List Piece)}
    (h : pss.map (List.map foldCase) = qss.map (List.map foldCase)) :
    Reveals (pss = qss) (sepBy separator pss) (sepBy separator qss) := by
  refine ⟨by rw [Alike, map_sepBy, map_sepBy, h], fun heq => ?_⟩
  induction pss generalizing qss with
  | nil => exact (List.map_eq_nil_iff.1 h.symm).symm
  | cons ps pss ih =>
    obtain ⟨qs, qss, rfl, hqs, hqss⟩ := List.map_eq_cons_iff.1 h.symm
    have hps : Alike ps qs := hqs.symm
    cases pss with
    | nil =>
      obtain rfl := List.map_eq_nil_iff.1 hqss
      exact congrArg (· :: []) heq
    | cons ps' pss =>
      obtain ⟨qs', qss, rfl, -, -⟩ := List.map_eq_cons_iff.1 hqss
      obtain ⟨rfl, hrest⟩ := List.append_inj heq hps.length_eq
      rw [ih hqss.symm (List.append_cancel_left hrest)]

/-- Items that are told apart by their pieces are told apart in a list. -/
theorem reveals_commas {α : Type} {pieces : α → List Piece} {xs ys : List α}
    (h : List.Forall₂ (fun x y => Reveals (x = y) (pieces x) (pieces y)) xs ys) :
    Reveals (xs = ys) (commas (xs.map pieces)) (commas (ys.map pieces)) := by
  have halike : (xs.map pieces).map (List.map foldCase) = (ys.map pieces).map (List.map foldCase) := by
    induction h with
    | nil => rfl
    | cons h _ ih => exact congrArg₂ List.cons h.alike ih
  refine (reveals_sepBy halike).imp fun heq => ?_
  clear halike
  induction h with
  | nil => rfl
  | cons h _ ih =>
    obtain ⟨hhead, htail⟩ := List.cons_eq_cons.1 heq
    rw [h.of_eq hhead, ih htail]

end Piece

open Piece

/-! ## Names -/

namespace Ident

theorem piece_foldCase (i : Ident) : i.foldCase.piece = i.piece.foldCase := by
  cases hq : i.quoted <;>
    simp [foldCase, piece, token, Piece.foldCase, Token.foldCase, hq]

theorem piece_inj {i j : Ident} (h : i.piece = j.piece) : i = j := by
  obtain ⟨text, quoted⟩ := i
  obtain ⟨text', quoted'⟩ := j
  cases quoted <;> cases quoted' <;> simp [piece, token] at h <;> rw [h]

theorem reveals_piece {i j : Ident} (h : j.foldCase = i.foldCase) :
    Reveals (i = j) [i.piece] [j.piece] where
  alike := by simp only [Alike, List.map_cons, List.map_nil, ← piece_foldCase, h]
  of_eq heq := piece_inj (List.singleton_inj.1 heq)

theorem reveals_names (separator : List Piece) {names names' : List Ident}
    (h : names'.map foldCase = names.map foldCase) :
    Reveals (names = names') (sepBy separator (names.map fun i => [i.piece]))
      (sepBy separator (names'.map fun i => [i.piece])) := by
  have hfold (names : List Ident) : (names.map fun i => [i.piece]).map (List.map Piece.foldCase) =
      (names.map foldCase).map fun i => [i.piece] := by
    simp [Function.comp_def, piece_foldCase]
  refine (reveals_sepBy (by rw [hfold, hfold, h])).imp fun hpieces => ?_
  exact List.map_inj_right (fun i j hij => piece_inj (List.singleton_inj.1 hij)) |>.1 hpieces

theorem reveals_dotted {parts parts' : List Ident}
    (h : parts'.map foldCase = parts.map foldCase) :
    Reveals (parts = parts') (dotted parts) (dotted parts') :=
  reveals_names _ h

end Ident

theorem DottedName.reveals_dotted {n n' : DottedName} (h : n'.foldCase = n.foldCase) :
    Reveals (n = n') (Ident.dotted n.parts) (Ident.dotted n'.parts) := by
  refine (Ident.reveals_dotted (DottedName.mk.inj h)).imp fun hparts => ?_
  obtain ⟨parts⟩ := n
  obtain ⟨parts'⟩ := n'
  exact congrArg DottedName.mk hparts

/-! ## Expressions -/

namespace Tree

/-- What is known of an expression that is the same as a plain one after folding. -/
structure Recased (e e' : Expr) : Prop where
  plain : e'.Plain
  reveals : Reveals (e = e') e.pieces e'.pieces

namespace Recased

theorem refl {e : Expr} (h : e.Plain) : Recased e e := ⟨h, .refl _, fun _ => rfl⟩

theorem all_plain {es es' : List Expr} (h : List.Forall₂ Recased es es') : ∀ e ∈ es', e.Plain := by
  induction h with
  | nil => exact List.forall_mem_nil _
  | cons h _ ih => exact List.forall_mem_cons.2 ⟨h.plain, ih⟩

theorem reveals_commas {es es' : List Expr} (h : List.Forall₂ Recased es es') :
    Reveals (es = es') (Piece.commas (es.map pieces)) (Piece.commas (es'.map pieces)) :=
  Piece.reveals_commas (h.imp fun _ _ h => h.reveals)

/-- Lists that are the same after folding are recased item by item. -/
theorem of_map {es es' : List Expr}
    (h : ∀ e ∈ es, ∀ {e' : Expr}, e'.foldCase = e.foldCase → Recased e e')
    (hfold : es'.map foldCase = es.map foldCase) : List.Forall₂ Recased es es' := by
  induction es generalizing es' with
  | nil => rw [List.map_eq_nil_iff.1 hfold]; exact .nil
  | cons e es ih =>
    obtain ⟨e', es', rfl, he', hes'⟩ := List.map_eq_cons_iff.1 hfold
    obtain ⟨he, hes⟩ := List.forall_mem_cons.1 h
    exact .cons (he he') (ih hes hes')

end Recased

theorem toList_foldCase {c : Category} : (ts : Tree (.list c)) →
    ts.foldCase.toList = ts.toList.map foldCase
  | .nil => rfl
  | .cons t ts => congrArg (t.foldCase :: ·) (toList_foldCase ts)

/-- The gap between two minus signs is there before and after folding. -/
theorem minusGap_foldCase (op : UnaryOp) (operand : Expr) :
    minusGap op operand.foldCase = minusGap op operand := by
  cases op with
  | minus =>
    cases operand with
    | unary op' _ => cases op' <;> rfl
    | _ => rfl
  | _ => rfl

theorem eq_nil_of_foldCase {c : Category} {ts : Tree (.list c)} (h : ts.foldCase = .nil) :
    ts = .nil := by
  cases ts with
  | nil => rfl
  | cons t ts => cases h

theorem eq_none_of_foldCase {c : Category} {t : Tree (.option c)} (h : t.foldCase = .none) :
    t = .none := by
  cases t with
  | none => rfl
  | some t => cases h

/-- Folding names no argument and takes no name from one. -/
theorem positional_of_foldCase {args : List Expr} {args' : Tree (.list .callArg)}
    (h : args'.foldCase = (ofList (args.map positional)).foldCase) :
    ∃ es : List Expr, args' = ofList (es.map positional) ∧ es.map foldCase = args.map foldCase := by
  induction args generalizing args' with
  | nil => exact ⟨[], eq_nil_of_foldCase h, rfl⟩
  | cons e args ih =>
    cases args' with
    | nil => cases h
    | cons arg args' =>
      injection h with _ hhead htail
      obtain ⟨es, rfl, hes⟩ := ih htail
      cases arg with
      | positional e' =>
        injection hhead with he
        exact ⟨e' :: es, rfl, congrArg₂ List.cons he hes⟩
      | named => cases hhead

/-- An expression that is the same as a plain one after folding is plain, and the pieces show whether
the two are equal. -/
theorem Plain.recased {e e' : Expr} (h : e.Plain) (hfold : e'.foldCase = e.foldCase) :
    Recased e e' := by
  induction h generalizing e' with
  | ident name =>
    cases e' with
    | ident name' =>
      injection hfold with hname
      exact ⟨.ident name', (Ident.reveals_piece hname).imp (congrArg _)⟩
    | _ => cases hfold
  | compound parts =>
    cases e' with
    | compound parts' =>
      injection hfold with hparts
      exact ⟨.compound parts', (Ident.reveals_dotted hparts).imp (congrArg _)⟩
    | _ => cases hfold
  | wildcard =>
    cases e' with
    | wildcard => exact .refl .wildcard
    | _ => cases hfold
  | qualifiedWildcard qualifier =>
    cases e' with
    | qualifiedWildcard qualifier' =>
      injection hfold with hname
      exact ⟨.qualifiedWildcard qualifier',
        ((DottedName.reveals_dotted hname).before _).imp (congrArg _)⟩
    | _ => cases hfold
  | literal value =>
    cases e' with
    | literal value' =>
      injection hfold with hvalue
      rw [hvalue]
      exact .refl (.literal value)
    | _ => cases hfold
  | @unary op operand h ih =>
    cases e' with
    | unary op' operand' =>
      injection hfold with hop hoperand
      subst hop
      have hgap : minusGap op' operand' = minusGap op' operand := by
        rw [← minusGap_foldCase op' operand', hoperand, minusGap_foldCase]
      refine ⟨.unary op' (ih hoperand).plain, ?_⟩
      show Reveals _ _ (_ ++ (minusGap op' operand' ++ _))
      rw [hgap]
      exact (((ih hoperand).reveals.after _).after _).imp (congrArg _)
    | _ => cases hfold
  | binary op _ _ ihl ihr =>
    cases e' with
    | binary op' left' right' =>
      injection hfold with hop hleft hright
      subst hop
      refine ⟨.binary op' (ihl hleft).plain (ihr hright).plain, ?_⟩
      refine ((ihl hleft).reveals.append ((ihr hright).reveals.after _)).imp ?_
      rintro ⟨rfl, rfl⟩
      rfl
    | _ => cases hfold
  | between negated _ _ _ iht ihl ihh =>
    cases e' with
    | between tested' negated' low' high' =>
      injection hfold with htested hnegated hlow hhigh
      subst hnegated
      refine ⟨.between _ (iht htested).plain (ihl hlow).plain (ihh hhigh).plain, ?_⟩
      have hbounds := (ihl hlow).reveals.append ((ihh hhigh).reveals.after [.gap, .keyword "AND", .gap])
      have hwords := (hbounds.after [.keyword "BETWEEN", .gap]).after (notWord negated')
      refine ((iht htested).reveals.append (hwords.after [.gap])).imp ?_
      rintro ⟨rfl, rfl, rfl⟩
      rfl
    | _ => cases hfold
  | @inList negated tested items _ hitems iht ihi =>
    cases e' with
    | inList tested' negated' items' =>
      injection hfold with htested hnegated hfolded
      subst hnegated
      have hmap : items'.toList.map foldCase = items.toList.map foldCase := by
        rw [← toList_foldCase, hfolded, toList_foldCase]
      have hall := Recased.of_map (fun e he => ihi e he) hmap
      refine ⟨.inList _ (iht htested).plain (Recased.all_plain hall), ?_⟩
      have hcommas := Recased.reveals_commas hall
      rw [← pieces_list, ← pieces_list] at hcommas
      have hlist := (hcommas.before [symbol .rparen]).after [.keyword "IN", .gap, symbol .lparen]
      refine ((iht htested).reveals.append ((hlist.after (notWord negated')).after [.gap])).imp ?_
      rintro ⟨rfl, hlists⟩
      rw [← ofList_toList items, hlists, ofList_toList]
    | _ => cases hfold
  | like negated op escape _ _ iht ihp =>
    cases e' with
    | like tested' negated' op' pattern' escape' =>
      injection hfold with htested hnegated hop hpattern hescape
      subst hnegated hop hescape
      refine ⟨.like _ _ _ (iht htested).plain (ihp hpattern).plain, ?_⟩
      have hpat := ((ihp hpattern).reveals.before (Piece.escape escape')).after
        [.keyword op'.spelling, .gap]
      refine ((iht htested).reveals.append ((hpat.after (notWord negated')).after [.gap])).imp ?_
      rintro ⟨rfl, rfl⟩
      rfl
    | _ => cases hfold
  | is negated test _ iht =>
    cases e' with
    | is tested' negated' test' =>
      injection hfold with htested hnegated htest
      subst hnegated htest
      exact ⟨.is _ _ (iht htested).plain, ((iht htested).reveals.before _).imp (by rintro rfl; rfl)⟩
    | _ => cases hfold
  | distinctFrom negated _ _ iht iho =>
    cases e' with
    | distinctFrom tested' negated' other' =>
      injection hfold with htested hnegated hother
      subst hnegated
      refine ⟨.distinctFrom _ (iht htested).plain (iho hother).plain, ?_⟩
      have hwords := ((iho hother).reveals.after
        [.keyword "DISTINCT", .gap, .keyword "FROM", .gap]).after (notWord negated')
      refine ((iht htested).reveals.append (hwords.after [.gap, .keyword "IS", .gap])).imp ?_
      rintro ⟨rfl, rfl⟩
      rfl
    | _ => cases hfold
  | paren _ ih =>
    cases e' with
    | paren inner' =>
      injection hfold with hinner
      have hbrackets := ((ih hinner).reveals.before [symbol .rparen]).after [symbol .lparen]
      exact ⟨.paren (ih hinner).plain, hbrackets.imp (congrArg _)⟩
    | _ => cases hfold
  | subscript _ _ ihb ihi =>
    cases e' with
    | subscript base' index' =>
      injection hfold with hbase hindex
      refine ⟨.subscript (ihb hbase).plain (ihi hindex).plain, ?_⟩
      have hbrackets := ((ihi hindex).reveals.before [symbol .rbracket]).after [symbol .lbracket]
      refine ((ihb hbase).reveals.append hbrackets).imp ?_
      rintro ⟨rfl, rfl⟩
      rfl
    | _ => cases hfold
  | @function name f args hf _ ih =>
    subst hf
    cases e' with
    | function f' =>
      injection hfold with hcall
      cases f' with
      | call name' quantifier args' withinGroup filter nullTreatment overWindow =>
        injection hcall with hname hquantifier hargs hgroup hfilter hnulls hwindow
        obtain ⟨es, rfl, hes⟩ := positional_of_foldCase hargs
        obtain rfl := eq_nil_of_foldCase hgroup
        obtain rfl := eq_none_of_foldCase hfilter
        obtain rfl := eq_none_of_foldCase hwindow
        subst hquantifier hnulls
        have hall := Recased.of_map (fun e he => ih e he) hes
        refine ⟨.function name' rfl (Recased.all_plain hall), ?_⟩
        have hcommas := Recased.reveals_commas hall
        have hpieces (es : List Expr) : (ofList (es.map positional)).pieces =
            Piece.commas (es.map pieces) := by
          rw [pieces_list, toList_ofList, List.map_map]
          rfl
        rw [← hpieces, ← hpieces] at hcommas
        have hbrackets := (hcommas.before [symbol .rparen]).after [symbol .lparen]
        refine ((DottedName.reveals_dotted hname).append hbrackets).imp ?_
        rintro ⟨rfl, rfl⟩
        rfl
    | _ => cases hfold

end Tree

end SqlTidy
