/-
JSON values and their two texts: without spaces, and with one item to a line.

Strings escape the quotation mark, the backslash and the control characters below the space; everything else is written
as it is.
-/
import SubsetAlgebra.Text.Quoted

namespace SubsetAlgebra.Json

/-- a JSON value; the members of an object keep their order -/
inductive Tree where
  | number (n : Int)
  | boolean (b : Bool)
  | text (s : String)
  | array (items : List Tree)
  | object (members : List (String × Tree))

namespace Tree

/-- how a character is written in a string -/
def spell (c : Char) : String :=
  match c with
  | '"' => "\\\""
  | '\\' => "\\\\"
  | '\n' => "\\n"
  | '\r' => "\\r"
  | '\t' => "\\t"
  | '\x08' => "\\b"
  | '\x0c' => "\\f"
  | c =>
    if c.toNat < 0x20 then "\\u00" ++ (if c.toNat < 0x10 then "0" else "") ++ Text.hex c.toNat else c.toString

/-- a string between quotation marks -/
def quote (s : String) : String := "\"" ++ String.join (s.toList.map spell) ++ "\""

mutual

/-- the text without spaces -/
def compact : Tree → String
  | number n => toString n
  | boolean b => if b then "true" else "false"
  | text s => quote s
  | array items => "[" ++ ",".intercalate (compactAll items) ++ "]"
  | object members => "\x7b" ++ ",".intercalate (compactMembers members) ++ "\x7d"

/-- the texts of the items -/
def compactAll : List Tree → List String
  | [] => []
  | t :: ts => t.compact :: compactAll ts

/-- the texts of the members -/
def compactMembers : List (String × Tree) → List String
  | [] => []
  | (key, t) :: ms => (quote key ++ ":" ++ t.compact) :: compactMembers ms

end

/-- items between an opening and a closing line, separated by commas and indented below `indent` -/
def nest (indent first : String) (items : List String) (last : String) : String :=
  match items with
  | [] => first ++ last
  | _ => first ++ "\n" ++ ",\n".intercalate (items.map ((indent ++ "  ") ++ ·)) ++ "\n" ++ indent ++ last

mutual

/-- the text with one item to a line, for a value that stands below `indent` -/
def prettyAt (indent : String) : Tree → String
  | array items => nest indent "[" (prettyAll (indent ++ "  ") items) "]"
  | object members => nest indent "\x7b" (prettyMembers (indent ++ "  ") members) "\x7d"
  | number n => toString n
  | boolean b => if b then "true" else "false"
  | text s => quote s

/-- the texts of the items -/
def prettyAll (indent : String) : List Tree → List String
  | [] => []
  | t :: ts => t.prettyAt indent :: prettyAll indent ts

/-- the texts of the members -/
def prettyMembers (indent : String) : List (String × Tree) → List String
  | [] => []
  | (key, t) :: ms => (quote key ++ ": " ++ t.prettyAt indent) :: prettyMembers indent ms

end

/-- the text with one item to a line -/
def pretty (t : Tree) : String := t.prettyAt ""

end Tree

end SubsetAlgebra.Json
