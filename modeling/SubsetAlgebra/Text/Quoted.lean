/-
Quoted text: a string or a character between quotation marks, written so that it fits on one line and shows every
character it holds.

The mark itself and the backslash take a backslash; line feed, carriage return, tab and NUL have a letter each; any
other hidden character is its code point in hexadecimal, in braces.
-/
import SubsetAlgebra.Text.Hidden

namespace SubsetAlgebra.Text

/-- the hexadecimal digits of a number, lower case and without leading zeros -/
def hex (n : Nat) : String := String.ofList (Nat.toDigits 16 n)

/-- how a character is written between two marks -/
def spell (mark c : Char) : String :=
  if c = mark ∨ c = '\\' then String.ofList ['\\', c]
  else match c with
    | '\n' => "\\n"
    | '\r' => "\\r"
    | '\t' => "\\t"
    | '\x00' => "\\0"
    | c => if isHidden c then "\\u\x7b" ++ hex c.toNat ++ "\x7d" else c.toString

/-- a text between two marks -/
def quoteWith (mark : Char) (s : String) : String :=
  mark.toString ++ String.join (s.toList.map (spell mark)) ++ mark.toString

/-- a text in double quotation marks -/
def quote (s : String) : String := quoteWith '"' s

/-- a character in single quotation marks -/
def quoteChar (c : Char) : String := quoteWith '\'' c.toString

end SubsetAlgebra.Text
