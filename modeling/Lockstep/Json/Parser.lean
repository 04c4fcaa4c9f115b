import Lockstep.Json.Basic

/-!
# Reading JSON texts

`Json.parse` reads exactly one value with white space around it. Every reader takes the characters
that are left and gives back what it read with what is left after it. The readers of values recurse
on a fuel that `parse` sets to twice the length of the text, which is enough because every two
nested calls take a character.
-/

namespace Lockstep.Json

/-- What is read off the front of a text, with the rest. -/
abbrev Parse (α : Type) := List Char → Option (α × List Char)

/-- White space between tokens. -/
def isSpace (c : Char) : Bool := c = ' ' || c = '\t' || c = '\n' || c = '\r'

/-- The text after its leading white space. -/
def skipSpace (cs : List Char) : List Char := cs.dropWhile isSpace

/-- The value of a hexadecimal digit. -/
def hexValue (c : Char) : Option Nat :=
  if '0' ≤ c && c ≤ '9' then some (c.toNat - '0'.toNat)
  else if 'a' ≤ c && c ≤ 'f' then some (c.toNat - 'a'.toNat + 10)
  else if 'A' ≤ c && c ≤ 'F' then some (c.toNat - 'A'.toNat + 10)
  else none

/-- A piece of a string: a character, or a 16-bit unit given by its number. -/
inductive Piece where
  | char (c : Char)
  | unit (n : Nat)

/-- The character of an escape with one letter. -/
def escapeChar : Char → Option Char
  | '"' => some '"'
  | '\\' => some '\\'
  | '/' => some '/'
  | 'b' => some '\x08'
  | 'f' => some '\x0c'
  | 'n' => some '\n'
  | 'r' => some '\r'
  | 't' => some '\t'
  | _ => none

/-- The pieces of a string after its opening quote. -/
def stringPieces : Parse (List Piece)
  | [] => none
  | '"' :: rest => some ([], rest)
  | '\\' :: 'u' :: a :: b :: c :: d :: rest => do
    let n := ((← hexValue a) * 16 + (← hexValue b)) * 256 + (← hexValue c) * 16 + (← hexValue d)
    let (ps, rest) ← stringPieces rest
    return (.unit n :: ps, rest)
  | '\\' :: e :: rest => do
    let c ← escapeChar e
    let (ps, rest) ← stringPieces rest
    return (.char c :: ps, rest)
  | c :: rest =>
    if c.toNat < 0x20 || c = '\\' then none
    else do
      let (ps, rest) ← stringPieces rest
      return (.char c :: ps, rest)

/-- The unit begins a surrogate pair. -/
def isLeading (n : Nat) : Bool := 0xD800 ≤ n && n ≤ 0xDBFF

/-- The unit ends a surrogate pair. -/
def isTrailing (n : Nat) : Bool := 0xDC00 ≤ n && n ≤ 0xDFFF

/-- The characters that the pieces form; none when half of a surrogate pair stands alone. -/
def assemble : List Piece → Option (List Char)
  | [] => some []
  | .unit hi :: .unit lo :: rest =>
    if isLeading hi then
      if isTrailing lo then
        (assemble rest).map (Char.ofNat (0x10000 + (hi - 0xD800) * 0x400 + (lo - 0xDC00)) :: ·)
      else none
    else if isTrailing hi then none
    else (assemble (.unit lo :: rest)).map (Char.ofNat hi :: ·)
  | .unit n :: rest =>
    if isLeading n || isTrailing n then none else (assemble rest).map (Char.ofNat n :: ·)
  | .char c :: rest => (assemble rest).map (c :: ·)

/-- A string after its opening quote. -/
def stringRest : Parse (Option String) := fun cs => do
  let (ps, rest) ← stringPieces cs
  return ((assemble ps).map String.ofList, rest)

/-- The digits at the front. -/
def digitRun (cs : List Char) : List Char × List Char := cs.span Char.isDigit

/-- A whole number: a zero, or digits that do not start with one. -/
def wholePart : Parse (List Char)
  | '0' :: rest => some (['0'], rest)
  | cs => match digitRun cs with
    | ([], _) => none
    | (ds, rest) => some (ds, rest)

/-- A point with digits after it, if there is a point. -/
def fractionPart : Parse (List Char)
  | '.' :: rest => match digitRun rest with
    | ([], _) => none
    | (ds, rest) => some ('.' :: ds, rest)
  | cs => some ([], cs)

/-- An exponent, if there is one. -/
def exponentPart : Parse (List Char)
  | c :: rest =>
    if c = 'e' || c = 'E' then
      let (sign, rest) := match rest with
        | '+' :: r => (['+'], r)
        | '-' :: r => (['-'], r)
        | r => ([], r)
      match digitRun rest with
      | ([], _) => none
      | (ds, rest) => some (c :: sign ++ ds, rest)
    else some ([], c :: rest)
  | [] => some ([], [])

/-- A number literal. -/
def numberLiteral : Parse (List Char) := fun cs => do
  let (sign, cs) := match cs with
    | '-' :: r => (['-'], r)
    | r => ([], r)
  let (whole, cs) ← wholePart cs
  let (fraction, cs) ← fractionPart cs
  let (exponent, cs) ← exponentPart cs
  return (sign ++ whole ++ fraction ++ exponent, cs)

mutual

/-- One value after white space. -/
def value : Nat → Parse Json
  | 0, _ => none
  | fuel + 1, cs => match skipSpace cs with
    | 'n' :: 'u' :: 'l' :: 'l' :: rest => some (.null, rest)
    | 't' :: 'r' :: 'u' :: 'e' :: rest => some (.bool true, rest)
    | 'f' :: 'a' :: 'l' :: 's' :: 'e' :: rest => some (.bool false, rest)
    | '"' :: rest => do
      let (s, rest) ← stringRest rest
      return (.string s, rest)
    | '[' :: rest => match skipSpace rest with
      | ']' :: rest => some (.array [], rest)
      | rest => do
        let (items, rest) ← items fuel rest
        return (.array items, rest)
    | '\x7b' :: rest => match skipSpace rest with
      | '\x7d' :: rest => some (.object [], rest)
      | rest => do
        let (members, rest) ← members fuel rest
        return (.object members, rest)
    | cs => do
      let (literal, rest) ← numberLiteral cs
      return (.number (String.ofList literal), rest)

/-- The items of an array up to its closing bracket, at least one. -/
def items : Nat → Parse (List Json)
  | 0, _ => none
  | fuel + 1, cs => do
    let (item, rest) ← value fuel cs
    match skipSpace rest with
    | ']' :: rest => return ([item], rest)
    | ',' :: rest =>
      let (more, rest) ← items fuel rest
      return (item :: more, rest)
    | _ => none

/-- The members of an object up to its closing brace, at least one. -/
def members : Nat → Parse (List (Option String × Json))
  | 0, _ => none
  | fuel + 1, cs => match skipSpace cs with
    | '"' :: rest => do
      let (key, rest) ← stringRest rest
      match skipSpace rest with
      | ':' :: rest =>
        let (val, rest) ← value fuel rest
        match skipSpace rest with
        | '\x7d' :: rest => return ([(key, val)], rest)
        | ',' :: rest =>
          let (more, rest) ← members fuel rest
          return ((key, val) :: more, rest)
        | _ => none
      | _ => none
    | _ => none

end

/-- The value that a text holds, nothing but white space being around it. -/
def parse (s : String) : Option Json :=
  let cs := s.toList
  match value (2 * cs.length + 2) cs with
  | some (j, rest) => if skipSpace rest = [] then some j else none
  | none => none

end Lockstep.Json
