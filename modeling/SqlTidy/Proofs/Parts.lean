import SqlTidy.Proofs.Lookahead

/-!
# A text in parts

A scanned text is a sequence of parts, each an item with its first character. `Parts rest ctx ps` says that the parts
`ps` are what the scanner reads, from the context `ctx` on and in front of the text `rest`. So a text can be taken
apart between any two parts (`parts_append`), its tokens are those of its parts (`scanFrom_parts`), and every scanned
text has parts (`exists_parts_of_scan`). What the lookahead allows for one item it allows for all: the text behind the
parts may be another one (`Parts.replace`).
-/

namespace SqlTidy

open Text

namespace Scan

/-- An item and the character it starts with. -/
structure Part where
  first : Char
  item : Item

namespace Part

/-- What a part is read from. -/
def chars (p : Part) : List Char := p.first :: p.item.tail

/-- What a sequence of parts is read from. -/
def text (ps : List Part) : List Char := ps.flatMap chars

/-- The tokens of parts that start at an offset. -/
def tokens : Nat → List Part → List Spanned
  | _, [] => []
  | offset, p :: ps =>
    let rest := tokens (offset + byteSize p.chars) ps
    match p.item.token with
    | none => rest
    | some t => ⟨t, offset, offset + byteSize p.chars⟩ :: rest

/-- A comment behind two dashes. -/
def IsLine (p : Part) : Prop := p.first = '-' ∧ p.item.tail.head? = some '-'

instance (p : Part) : Decidable p.IsLine := inferInstanceAs (Decidable (_ ∧ _))

@[simp] theorem text_nil : text [] = [] := rfl

@[simp] theorem text_cons (p : Part) (ps : List Part) : text (p :: ps) = p.chars ++ text ps := rfl

@[simp] theorem text_append (ps qs : List Part) : text (ps ++ qs) = text ps ++ text qs :=
  List.flatMap_append

theorem text_eq_nil {ps : List Part} (h : text ps = []) : ps = [] := by
  cases ps with
  | nil => rfl
  | cons p ps => simp [chars] at h

theorem tokens_append (offset : Nat) (ps qs : List Part) :
    tokens offset (ps ++ qs) = tokens offset ps ++ tokens (offset + byteSize (text ps)) qs := by
  induction ps generalizing offset with
  | nil => rfl
  | cons p ps ih =>
    simp only [List.cons_append, tokens, ih, text_cons, byteSize_append, ← Nat.add_assoc]
    split <;> rfl

end Part

/-- The context behind some parts. -/
def Context.behind (ctx : Context) (ps : List Part) : Context := ps.foldl (fun ctx p => ctx.after p.item) ctx

@[simp] theorem Context.behind_nil (ctx : Context) : ctx.behind [] = ctx := rfl

@[simp] theorem Context.behind_cons (ctx : Context) (p : Part) (ps : List Part) :
    ctx.behind (p :: ps) = (ctx.after p.item).behind ps := rfl

@[simp] theorem Context.behind_append (ctx : Context) (ps qs : List Part) :
    ctx.behind (ps ++ qs) = (ctx.behind ps).behind qs :=
  List.foldl_append

/-- The scanner reads these parts, one after the other, in front of the text `rest`. -/
def Parts (rest : List Char) : Context → List Part → Prop
  | _, [] => True
  | ctx, p :: ps =>
    item ctx p.first (p.item.tail ++ (Part.text ps ++ rest)) = .ok p.item ∧ Parts rest (ctx.after p.item) ps

variable {rest cs s s' : List Char} {ctx : Context} {ps qs : List Part} {offset : Nat}

theorem parts_append : Parts rest ctx (ps ++ qs) ↔ Parts (Part.text qs ++ rest) ctx ps ∧ Parts rest (ctx.behind ps) qs := by
  induction ps generalizing ctx with
  | nil => simp [Parts]
  | cons p ps ih => simp only [List.cons_append, Parts, Part.text_append, List.append_assoc, ih,
      Context.behind_cons, and_assoc]

/-! ## Scans -/

theorem scanFrom_parts (h : Parts rest ctx ps) (offset : Nat) :
    scanFrom (Part.text ps ++ rest) 0 offset ctx =
      (scanFrom rest 0 (offset + byteSize (Part.text ps)) (ctx.behind ps)).map (Part.tokens offset ps ++ ·) := by
  induction ps generalizing ctx offset with
  | nil =>
    simp only [Part.text_nil, List.nil_append, byteSize_nil, Nat.add_zero, Context.behind_nil, Part.tokens]
    cases scanFrom rest 0 offset ctx <;> rfl
  | cons p ps ih =>
    obtain ⟨hitem, hps⟩ := h
    have hrest := ih hps (offset + byteSize p.chars)
    simp only [Part.text_cons, Part.chars, List.cons_append, List.append_assoc, byteSize_cons, byteSize_append,
      ← Nat.add_assoc, Part.tokens, Context.behind_cons] at hrest ⊢
    rw [scanFrom, hitem]
    simp only [scanFrom_skip, hrest]
    cases scanFrom rest 0 (offset + p.first.utf8Size + byteSize p.item.tail + byteSize (Part.text ps))
      ((ctx.after p.item).behind ps) with
    | error e => rfl
    | ok ts => cases p.item.token <;> simp [Except.map, Nat.add_assoc]

theorem scanFrom_parts_nil (h : Parts [] ctx ps) (hhint : (ctx.behind ps).inHint = false) (offset : Nat) :
    scanFrom (Part.text ps) 0 offset ctx = .ok (Part.tokens offset ps ++
      [⟨.eof, offset + byteSize (Part.text ps), offset + byteSize (Part.text ps)⟩]) := by
  have hscan := scanFrom_parts h offset
  rw [List.append_nil] at hscan
  rw [hscan, scanFrom, hhint]
  rfl

/-- What has been scanned has parts. The characters that are skipped belong to the part before. -/
theorem exists_parts_of_scanFrom {skip : Nat} {tokens : List Spanned} (h : scanFrom cs skip offset ctx = .ok tokens) :
    ∃ ps, Part.text ps = cs.drop skip ∧ Parts [] ctx ps ∧ (ctx.behind ps).inHint = false := by
  fun_induction scanFrom cs skip offset ctx generalizing tokens with
  | case1 => contradiction
  | case2 skip offset ctx hhint => exact ⟨[], by simp, trivial, by simpa using hhint⟩
  | case3 offset ctx c cs skip ih => exact ih h
  | case4 => contradiction
  | case5 c cs offset ctx i hitem rest t htoken hrest ih =>
    obtain ⟨after, rfl⟩ := tail_isPrefix_of_item hitem
    obtain ⟨ps, htext, hparts, hhint⟩ := ih hrest
    rw [List.drop_left] at htext
    refine ⟨⟨c, i⟩ :: ps, ?_, ⟨?_, hparts⟩, hhint⟩
    · simp [Part.chars, htext]
    · rwa [List.append_nil, htext]
  | case6 c cs offset ctx i hitem hnone ih =>
    obtain ⟨after, rfl⟩ := tail_isPrefix_of_item hitem
    obtain ⟨ps, htext, hparts, hhint⟩ := ih h
    rw [List.drop_left] at htext
    refine ⟨⟨c, i⟩ :: ps, ?_, ⟨?_, hparts⟩, hhint⟩
    · simp [Part.chars, htext]
    · rwa [List.append_nil, htext]

/-! ## Another text behind -/

/-- The parts stay what they are if the text goes on in another way, at once or behind a text `m`. Only a comment behind
two dashes may go on there. -/
theorem Parts.replace {m : List Char} (h : Parts (m ++ s) ctx ps) (hs : Still s) (hs' : Calm s')
    (heq : s'.head? ≠ some '=') (hline : m = [] → ∀ p ∈ ps.getLast?, p.IsLine → StartsWithout (· ≠ '\n') s') :
    Parts (m ++ s') ctx ps := by
  induction ps generalizing ctx with
  | nil => trivial
  | cons p ps ih =>
    obtain ⟨hitem, hps⟩ := h
    rw [← List.append_assoc, ← List.append_assoc] at hitem
    refine ⟨?_, ih hps fun hm q hq => hline hm q ?_⟩
    · rw [← List.append_assoc, ← List.append_assoc]
      refine item_of_calm hitem (by simp) hs hs' heq fun hfirst hhead hlength => ?_
      rw [List.length_append, List.length_append] at hlength
      obtain rfl : ps = [] := Part.text_eq_nil (List.length_eq_zero_iff.1 (by omega))
      obtain rfl : m = [] := List.length_eq_zero_iff.1 (by omega)
      exact hline rfl p rfl ⟨hfirst, by simpa using hhead⟩
    · cases ps with
      | nil => contradiction
      | cons q ps => exact hq

/-- A name in front matters to a dot only. -/
theorem item_afterName {c : Char} (hc : c ≠ '.') (inHint afterName afterName' : Bool) (cs : List Char) :
    item ⟨inHint, afterName⟩ c cs = item ⟨inHint, afterName'⟩ c cs := by
  simp [item, hc]

theorem Parts.afterName {inHint afterName : Bool} (h : Parts rest ⟨inHint, afterName⟩ ps)
    (hdot : ∀ p ∈ ps.head?, p.first ≠ '.') (afterName' : Bool) : Parts rest ⟨inHint, afterName'⟩ ps := by
  cases ps with
  | nil => trivial
  | cons p ps =>
    obtain ⟨hitem, hps⟩ := h
    refine ⟨?_, hps⟩
    rwa [item_afterName (hdot p rfl) inHint afterName' afterName]

end Scan

namespace Token

open Scan

variable {text : String} {tokens : List Spanned}

theorem exists_parts_of_scan (h : scan text = .ok tokens) :
    ∃ ps, Part.text ps = text.toList ∧ Parts [] .start ps ∧ (Context.start.behind ps).inHint = false :=
  exists_parts_of_scanFrom h

end Token

end SqlTidy
