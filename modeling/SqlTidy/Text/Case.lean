/-!
# Letter case

Only the ASCII letters have two cases here; every other character stands for itself. Keywords are
compared in capitals.
-/

namespace SqlTidy.Text

/-- A text in capitals. -/
def upper (s : String) : String := String.ofList (s.toList.map Char.toUpper)

/-- A text in small letters. -/
def lower (s : String) : String := String.ofList (s.toList.map Char.toLower)

@[simp] theorem toList_upper (s : String) : (upper s).toList = s.toList.map Char.toUpper := by
  simp [upper]

@[simp] theorem toList_lower (s : String) : (lower s).toList = s.toList.map Char.toLower := by
  simp [lower]

end SqlTidy.Text
