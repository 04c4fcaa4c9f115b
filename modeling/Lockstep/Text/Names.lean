import Lockstep.Text.Printable

/-!
# Names in texts

`quoted` puts a text between double quotes and escapes what is not printable. `listing` and
`setListing` write the members of a list between brackets and braces, separated by a comma and a
blank.

A node of a module tree has a path of names joined by points; the path of the root is empty. A leaf
is named by its node's path and its attribute, joined in the same way.
-/

namespace Lockstep.Text

/-- The number written in base sixteen with lower-case digits. -/
def hexadecimal (n : Nat) : String := String.ofList (Nat.toDigits 16 n)

/-- How one character is written between double quotes. -/
def escaped (c : Char) : String :=
  match c with
  | '"' => "\\\""
  | '\\' => "\\\\"
  | '\n' => "\\n"
  | '\r' => "\\r"
  | '\t' => "\\t"
  | '\x00' => "\\0"
  | c => if isPrintable c then c.toString else "\\u\x7b" ++ hexadecimal c.toNat ++ "\x7d"

/-- The text between double quotes, with escapes. -/
def quoted (s : String) : String := "\"" ++ String.join (s.toList.map escaped) ++ "\""

/-- The texts between brackets. -/
def listing (items : List String) : String := "[" ++ ", ".intercalate items ++ "]"

/-- The texts between braces. -/
def setListing (items : List String) : String := "\x7b" ++ ", ".intercalate items ++ "\x7d"

/-- The lengths of the axes of a shape. -/
def axes (shape : List Nat) : String := listing (shape.map toString)

/-- Names, quoted, as a list. -/
def names (ns : List String) : String := listing (ns.map quoted)

/-- Names, quoted, as a set. -/
def nameSet (ns : List String) : String := setListing (ns.map quoted)

end Lockstep.Text

/-! ## Paths -/

namespace Lockstep.Path

/-- The name of an attribute, or of a child, at a node. -/
def qualify (path name : String) : String := if path = "" then name else path ++ "." ++ name

/-- A leaf's node path and attribute: the parts before and after the last point. -/
def split (leaf : String) : String × String :=
  match leaf.toList.reverse.span (· ≠ '.') with
  | (_, []) => ("", leaf)
  | (name, _ :: path) => (String.ofList path.reverse, String.ofList name.reverse)

/-- The path as it is shown. -/
def display (path : String) : String := if path = "" then "<root>" else path

/-- A name that may stand between points. -/
def isName (name : String) : Bool := name ≠ "" && !name.toList.contains '.'

end Lockstep.Path
