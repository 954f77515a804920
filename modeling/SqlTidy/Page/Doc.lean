import SqlTidy.Page.Style

/-!
# Documents

A document says what to print and where lines may end, for all styles at once; a style enters only
when the document is run on a printer. Nesting is part of the structure, so a document leaves the
printer at the depth where it found it.
-/

namespace SqlTidy

/-- A document. -/
inductive Doc where
  | nil
  /-- A text on the current line. -/
  | text (s : String)
  /-- The start of a new line. -/
  | line
  /-- Between a clause's keyword and its only item: a new line when stacked, a space when compact. -/
  | clauseBreak
  | append (first second : Doc)
  /-- One level deeper. -/
  | nest (body : Doc)
  /-- No deeper than the line on which it starts. -/
  | hang (body : Doc)
deriving DecidableEq

namespace Doc

instance : Append Doc := ⟨append⟩

instance : Coe String Doc := ⟨text⟩

/-! ## Combining documents -/

/-- Documents one after the other. -/
def seq : List Doc → Doc
  | [] => nil
  | d :: ds => d ++ seq ds

/-- Documents with a separator between neighbours. -/
def sep (separator : String) : List Doc → Doc
  | [] => nil
  | [d] => d
  | d :: ds => d ++ (text separator ++ sep separator ds)

/-- A list on one line. -/
def commas : List Doc → Doc := sep ", "

/-- A list in parentheses on one line. -/
def parens (ds : List Doc) : Doc := "(" ++ commas ds ++ ")"

/-- Each document on a new line, with commas at the line ends between them. -/
def commaLines : List Doc → Doc
  | [] => nil
  | [d] => line ++ d
  | d :: ds => line ++ (d ++ ("," ++ commaLines ds))

/-- A list with one item to a line, one level deeper. -/
def lines (ds : List Doc) : Doc := nest (commaLines ds)

/-- Each document on a new line, without commas. -/
def onLines : List Doc → Doc
  | [] => nil
  | d :: ds => line ++ (d ++ onLines ds)

/-- The items of a list behind its keyword: a single item stays on the line, several are broken. -/
def items : List Doc → Doc
  | [d] => " " ++ d
  | ds => lines ds

/-- A clause. Its only item is placed by the style, several items are broken. -/
def clause (keyword : String) : List Doc → Doc
  | [d] => keyword ++ nest (clauseBreak ++ d)
  | ds => keyword ++ lines ds

/-- A list in parentheses with one item to a line; empty parentheses stay together. -/
def block : List Doc → Doc
  | [] => "()"
  | ds => "(" ++ lines ds ++ line ++ ")"

/-- A document in parentheses, on lines of its own one level deeper. -/
def enclosed (d : Doc) : Doc := "(" ++ nest (line ++ d) ++ line ++ ")"

/-- A text with something in front, if there is one. -/
def optText (before : String) : Option String → Doc
  | none => nil
  | some s => text before ++ text s

/-- A document if the condition holds. -/
def when (b : Bool) (d : Doc) : Doc := if b then d else nil

/-! ## Running a document -/

/-- Prints a document. -/
def run (layout : ClauseLayout) : Doc → Printer → Printer
  | nil, p => p
  | text s, p => p.write s
  | line, p => p.newline
  | clauseBreak, p =>
    match layout with
    | .stacked => p.newline
    | .compact => p.write " "
  | append a b, p => b.run layout (a.run layout p)
  | nest d, p => (d.run layout p.enter).leave
  | hang d, p =>
    let extra := p.depth - p.lineDepth
    let q := d.run layout (p.setDepth (p.depth - extra))
    q.setDepth (q.depth + extra)

/-- A document leaves the printer at the depth where it found it. -/
@[simp] theorem depth_run (layout : ClauseLayout) (d : Doc) (p : Printer) :
    (d.run layout p).depth = p.depth := by
  induction d generalizing p with
  | nil => rfl
  | text s => exact p.depth_write s
  | line => rfl
  | clauseBreak => cases layout <;> simp [run]
  | append a b iha ihb => simp [run, iha, ihb]
  | nest d ih => simp [run, ih]
  | hang d ih =>
    simp only [run, Printer.depth_setDepth, ih]
    omega

/-- The page that a document fills in a style. -/
def print (style : Style) (d : Doc) : Except Error String :=
  (d.run style.layout (.ofWidth style.indentWidth)).finish

end Doc

end SqlTidy
