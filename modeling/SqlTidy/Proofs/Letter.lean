import SqlTidy.Text.Blank
import SqlTidy.Text.Case

/-!
# Letters by their code points

The two cases of a letter lie 32 code points apart, and every class of characters that the scanner
tells apart is a union of ranges. So a question about case and classes becomes linear arithmetic once
characters are replaced by their code points.
-/

namespace SqlTidy.Text

theorem char_eq_iff {c d : Char} : c = d ↔ c.toNat = d.toNat := Char.toNat_inj.symm

/-! ## Classes -/

theorem isDigit_iff {c : Char} : c.isDigit ↔ 48 ≤ c.toNat ∧ c.toNat ≤ 57 := by
  simp [Char.isDigit, UInt32.le_iff_toNat_le]

theorem isAlpha_iff {c : Char} :
    c.isAlpha ↔ 65 ≤ c.toNat ∧ c.toNat ≤ 90 ∨ 97 ≤ c.toNat ∧ c.toNat ≤ 122 := by
  show (decide (c.val ≥ 'A'.val ∧ c.val ≤ 'Z'.val) || c.val ≥ 'a'.val && c.val ≤ 'z'.val) = true ↔ _
  simp [UInt32.le_iff_toNat_le]

theorem isWordStart_iff {c : Char} :
    isWordStart c ↔ 65 ≤ c.toNat ∧ c.toNat ≤ 90 ∨ 97 ≤ c.toNat ∧ c.toNat ≤ 122 ∨
      c.toNat = 95 ∨ 128 ≤ c.toNat := by
  simp only [isWordStart, Bool.or_eq_true, isAlpha_iff, decide_eq_true_eq, char_eq_iff]
  have : '_'.toNat = 95 := rfl
  omega

theorem isWordPart_iff {c : Char} :
    isWordPart c ↔ 48 ≤ c.toNat ∧ c.toNat ≤ 57 ∨ 65 ≤ c.toNat ∧ c.toNat ≤ 90 ∨
      97 ≤ c.toNat ∧ c.toNat ≤ 122 ∨ c.toNat = 95 ∨ 128 ≤ c.toNat := by
  simp only [isWordPart, Bool.or_eq_true, isWordStart_iff, isDigit_iff]
  omega

/-- The quotes of string literals. -/
def isQuote (c : Char) : Bool := c = '\x27' || c = '\x22'

/-! ## Case -/

theorem toNat_toLower (c : Char) :
    c.toLower.toNat = if 65 ≤ c.toNat ∧ c.toNat ≤ 90 then c.toNat + 32 else c.toNat := by
  by_cases h : 65 ≤ c.toNat ∧ c.toNat ≤ 90
  · have hval : c.val ≥ 'A'.val ∧ c.val ≤ 'Z'.val := h
    have hlower : c.toLower.val = c.val + 32 := congrArg Char.val (dif_pos hval)
    rw [if_pos h, ← Char.toNat_val, hlower, UInt32.toNat_add, Char.toNat_val]
    simp only [UInt32.reduceToNat, Nat.reducePow]
    omega
  · have hlower : c.toLower = c := dif_neg h
    rw [if_neg h, hlower]

theorem toNat_toUpper (c : Char) :
    c.toUpper.toNat = if 97 ≤ c.toNat ∧ c.toNat ≤ 122 then c.toNat - 32 else c.toNat := by
  by_cases h : 97 ≤ c.toNat ∧ c.toNat ≤ 122
  · have hval : 'a'.val ≤ c.val ∧ c.val ≤ 'z'.val := h
    have hshift : ('A'.val - 'a'.val).toNat = 4294967264 := rfl
    rw [if_pos h, show c.toUpper = _ from dif_pos hval, ← Char.toNat_val, UInt32.toNat_add, hshift,
      Char.toNat_val]
    omega
  · have hupper : c.toUpper = c := dif_neg h
    rw [if_neg h, hupper]

theorem toUpper_toLower (c : Char) : c.toLower.toUpper = c.toUpper := by
  rw [char_eq_iff]
  grind [toNat_toUpper, toNat_toLower]

theorem toLower_toLower (c : Char) : c.toLower.toLower = c.toLower := by
  rw [char_eq_iff]
  grind [toNat_toLower]

theorem toLower_toUpper (c : Char) : c.toUpper.toLower = c.toLower := by
  rw [char_eq_iff]
  grind [toNat_toUpper, toNat_toLower]

/-- Whether a character may start a word does not depend on its case. -/
theorem isWordStart_toUpper (c : Char) : isWordStart c.toUpper = isWordStart c := by
  rw [Bool.eq_iff_iff, isWordStart_iff, isWordStart_iff, toNat_toUpper]
  split <;> omega

theorem isWordPart_toUpper (c : Char) : isWordPart c.toUpper = isWordPart c := by
  rw [Bool.eq_iff_iff, isWordPart_iff, isWordPart_iff, toNat_toUpper]
  split <;> omega

@[simp] theorem upper_lower (s : String) : upper (lower s) = upper s := by
  simp [upper, Function.comp_def, toUpper_toLower]

@[simp] theorem lower_lower (s : String) : lower (lower s) = lower s := by
  simp [lower, Function.comp_def, toLower_toLower]

@[simp] theorem lower_upper (s : String) : lower (upper s) = lower s := by
  simp [lower, Function.comp_def, toLower_toUpper]

@[simp] theorem lower_append (s t : String) : lower (s ++ t) = lower s ++ lower t := by
  simp [lower, String.ofList_append]

end SqlTidy.Text
