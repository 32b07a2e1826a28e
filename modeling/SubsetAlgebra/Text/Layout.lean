/-
Values laid out for a reader who wants to see their structure, on one line or with one item to a line.

On separate lines each item is indented by four spaces more than what holds it and is followed by a comma; what holds
nothing stays on its line.
-/

namespace SubsetAlgebra.Text

/-- the structure of a value: plain text, or text around items -/
inductive Layout where
  /-- text without structure, on one line -/
  | plain (text : String)
  /-- items between braces -/
  | braces (items : List Layout)
  /-- items between brackets -/
  | brackets (items : List Layout)
  /-- a name before items in parentheses -/
  | call (name : String) (items : List Layout)
  /-- a name before named items in braces -/
  | record (name : String) (fields : List (String × Layout))

namespace Layout

mutual

/-- the layout on one line -/
def inline : Layout → String
  | plain t => t
  | braces items => "\x7b" ++ ", ".intercalate (inlineAll items) ++ "\x7d"
  | brackets items => "[" ++ ", ".intercalate (inlineAll items) ++ "]"
  | call name items => name ++ "(" ++ ", ".intercalate (inlineAll items) ++ ")"
  | record name fields => name ++ " \x7b " ++ ", ".intercalate (inlineFields fields) ++ " \x7d"

/-- each item on one line -/
def inlineAll : List Layout → List String
  | [] => []
  | l :: ls => l.inline :: inlineAll ls

/-- each named item on one line -/
def inlineFields : List (String × Layout) → List String
  | [] => []
  | (name, l) :: fs => (name ++ ": " ++ l.inline) :: inlineFields fs

end

/-- lines between an opening and a closing one, indented -/
def nest (first : String) (inner : List String) (last : String) : List String :=
  match inner with
  | [] => [first ++ last]
  | _ => first :: inner.map ("    " ++ ·) ++ [last]

/-- the lines of an item, its last one followed by a comma -/
def withComma (lines : List String) : List String :=
  match lines.getLast? with
  | some last => lines.dropLast ++ [last ++ ","]
  | none => []

/-- the lines of a named item -/
def withName (name : String) : List String → List String
  | [] => []
  | l :: ls => (name ++ ": " ++ l) :: ls

mutual

/-- the layout with one item to a line -/
def lines : Layout → List String
  | plain t => [t]
  | braces items => nest "\x7b" (linesAll items) "\x7d"
  | brackets items => nest "[" (linesAll items) "]"
  | call name items => nest (name ++ "(") (linesAll items) ")"
  | record name fields => nest (name ++ " \x7b") (linesFields fields) "\x7d"

/-- the lines of the items -/
def linesAll : List Layout → List String
  | [] => []
  | l :: ls => withComma l.lines ++ linesAll ls

/-- the lines of the named items -/
def linesFields : List (String × Layout) → List String
  | [] => []
  | (name, l) :: fs => withComma (withName name l.lines) ++ linesFields fs

end

/-- the layout with one item to a line, as one text -/
def spread (l : Layout) : String := "\n".intercalate l.lines

end Layout

end SubsetAlgebra.Text
