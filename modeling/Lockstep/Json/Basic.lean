import Lockstep.Decimal.Layout

/-!
# JSON values and their texts

A JSON value keeps its numbers as they are written and its object members in their order, repeated
keys included, so that whoever reads it decides what they mean. A string whose escapes name half of
a surrogate pair is kept as a string without text.

Values are written without white space and in the order of their members. In strings, quotes,
backslashes and control characters are escaped and all else stands as it is.
-/

namespace Lockstep

/-- A JSON value. -/
inductive Json where
  | null
  | bool (b : Bool)
  /-- a number, by its literal -/
  | number (literal : String)
  /-- a string, without text when its escapes do not form characters -/
  | string (text : Option String)
  | array (items : List Json)
  /-- an object; a member whose key has no text is kept too -/
  | object (members : List (Option String × Json))

namespace Json

/-- A string with a text. -/
def text (s : String) : Json := .string (some s)

/-- An object with the given members. -/
def record (members : List (String × Json)) : Json :=
  .object (members.map fun m => (some m.1, m.2))

/-! ## Writing -/

/-- Four hexadecimal digits. -/
def fourHex (n : Nat) : List Char :=
  let ds := Nat.toDigits 16 n
  List.replicate (4 - ds.length) '0' ++ ds

/-- How one character is written in a string. -/
def escapedChar (c : Char) : List Char :=
  match c with
  | '"' => ['\\', '"']
  | '\\' => ['\\', '\\']
  | '\x08' => ['\\', 'b']
  | '\x0c' => ['\\', 'f']
  | '\n' => ['\\', 'n']
  | '\r' => ['\\', 'r']
  | '\t' => ['\\', 't']
  | c => if c.toNat < 0x20 then '\\' :: 'u' :: fourHex c.toNat else [c]

/-- A string between quotes. -/
def quoted (s : String) : List Char := '"' :: s.toList.flatMap escapedChar ++ ['"']

mutual

/-- A value as characters; a string without text is written as null. -/
def write : Json → List Char
  | .null | .string none => "null".toList
  | .bool true => "true".toList
  | .bool false => "false".toList
  | .number literal => literal.toList
  | .string (some s) => quoted s
  | .array items => '[' :: writeItems true items ++ [']']
  | .object members => '\x7b' :: writeMembers true members ++ ['\x7d']

/-- Items with commas between them. -/
def writeItems : Bool → List Json → List Char
  | _, [] => []
  | isFirst, item :: rest =>
    (if isFirst then [] else [',']) ++ write item ++ writeItems false rest

/-- Members with commas between them; one whose key has no text is left out. -/
def writeMembers : Bool → List (Option String × Json) → List Char
  | _, [] => []
  | isFirst, (none, _) :: rest => writeMembers isFirst rest
  | isFirst, (some key, val) :: rest =>
    (if isFirst then [] else [',']) ++ quoted key ++ ':' :: write val ++ writeMembers false rest

end

/-- The text of a value. -/
def render (j : Json) : String := String.ofList j.write

/-- A number in its shortest form; what is not finite is null. -/
def ofFloat (x : Float) : Json :=
  if x.isFinite then .number (Decimal.json.write x) else .null

/-- A natural number. -/
def ofNat (n : Nat) : Json := .number (toString n)

end Json

end Lockstep
