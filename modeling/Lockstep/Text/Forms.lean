/-!
# Forms of texts

What a text is, judged by its characters alone. A text is blank when it holds only characters with
the Unicode property `White_Space`, so the empty text is blank.

An identifier is 32 hexadecimal digits. It is written with small letters in five groups; it is read
with letters of either size, also without hyphens, in braces or as a name.

A timestamp is a date, a `T` or a blank, a time of day and an offset from universal time. Blanks may
stand before every part, and leading zeros may be left out. `isTimestamp` says whether a text has
that form and names a date, a time and an offset that exist.
-/

namespace Lockstep.Text

/-- The character has the Unicode property `White_Space`. -/
def isWhiteSpace (c : Char) : Bool :=
  let n := c.toNat
  (0x09 ≤ n && n ≤ 0x0D) || n == 0x20 || n == 0x85 || n == 0xA0 || n == 0x1680 ||
    (0x2000 ≤ n && n ≤ 0x200A) || n == 0x2028 || n == 0x2029 || n == 0x202F || n == 0x205F ||
    n == 0x3000

/-- Nothing but white space is in the text. -/
def isBlank (s : String) : Bool := s.toList.all isWhiteSpace

/-! ## Identifiers -/

/-- A universally unique identifier, given by its digits. -/
structure Uuid where
  digits : List Char
deriving DecidableEq

namespace Uuid

/-- A hexadecimal digit. -/
def isDigit (c : Char) : Bool := c.isDigit || ('a' ≤ c && c ≤ 'f') || ('A' ≤ c && c ≤ 'F')

/-- The places of the hyphens among the characters. -/
def hyphens : List Nat := [8, 13, 18, 23]

/-- The identifier of 32 digits. -/
def ofDigits? (cs : List Char) : Option Uuid :=
  if cs.length = 32 && cs.all isDigit then some ⟨cs.map Char.toLower⟩ else none

/-- The identifier in five groups joined by hyphens. -/
def ofGroups? (cs : List Char) : Option Uuid :=
  if cs.length = 36 && hyphens.all fun i => cs[i]? = some '-' then
    ofDigits? ((cs.zipIdx.filter fun c => !hyphens.contains c.2).map Prod.fst)
  else none

/-- The identifier that a text holds. -/
def ofText? (text : String) : Option Uuid :=
  let cs := text.toList
  match cs with
  | '{' :: rest => if rest.getLast? = some '}' then ofGroups? rest.dropLast else none
  | 'u' :: 'r' :: 'n' :: ':' :: 'u' :: 'u' :: 'i' :: 'd' :: ':' :: rest => ofGroups? rest
  | _ => if cs.length = 32 then ofDigits? cs else ofGroups? cs

/-- The text of an identifier. -/
def text (u : Uuid) : String :=
  let part (start count : Nat) := String.ofList ((u.digits.drop start).take count)
  "-".intercalate [part 0 8, part 8 4, part 12 4, part 16 4, part 20 12]

end Uuid

/-! ## Timestamps -/

namespace Timestamp

/-- What is left of a text after a part of it was read. -/
abbrev Scan (α : Type) := Option (α × List Char)

/-- The text after its leading blanks. -/
def skipBlanks (cs : List Char) : List Char := cs.dropWhile isWhiteSpace

/-- A number of at least one and at most the given count of digits. -/
def number (most : Nat) (cs : List Char) : Scan Nat :=
  let ds := (cs.take most).takeWhile Char.isDigit
  if ds = [] then none
  else some (ds.foldl (fun n c => n * 10 + (c.toNat - '0'.toNat)) 0, cs.drop ds.length)

/-- A number of one or two digits after blanks. -/
def twoDigits (cs : List Char) : Scan Nat := number 2 (skipBlanks cs)

/-- A year: up to four digits, or a sign and any count of digits. -/
def year (cs : List Char) : Scan Int :=
  match skipBlanks cs with
  | '-' :: rest => (number rest.length rest).map fun (n, rest) => (-(n : Int), rest)
  | '+' :: rest => (number rest.length rest).map fun (n, rest) => ((n : Int), rest)
  | rest => (number 4 rest).map fun (n, rest) => ((n : Int), rest)

/-- One character after blanks. -/
def symbol (c : Char) (cs : List Char) : Option (List Char) :=
  match skipBlanks cs with
  | d :: rest => if d = c then some rest else none
  | [] => none

/-- A year has 366 days. -/
def isLeap (year : Int) : Bool := year % 4 = 0 && (year % 100 ≠ 0 || year % 400 = 0)

/-- The count of days of a month. -/
def daysIn (year : Int) (month : Nat) : Nat :=
  if month = 2 then if isLeap year then 29 else 28
  else if month = 4 || month = 6 || month = 9 || month = 11 then 30
  else 31

/-- A date that exists, and what follows. -/
def date (cs : List Char) : Option (List Char) := do
  let (y, cs) ← year cs
  let (m, cs) ← twoDigits (← symbol '-' cs)
  let (d, cs) ← twoDigits (← symbol '-' cs)
  if -262143 ≤ y ∧ y ≤ 262142 ∧ 1 ≤ m ∧ m ≤ 12 ∧ 1 ≤ d ∧ d ≤ daysIn y m then some cs else none

/-- A fraction of a second, which may be missing. -/
def fraction : List Char → Option (List Char)
  | '.' :: rest =>
    let after := rest.dropWhile Char.isDigit
    if after.length < rest.length then some after else none
  | cs => some cs

/-- A time of day that exists, leap seconds included, and what follows. -/
def time (cs : List Char) : Option (List Char) := do
  let (h, cs) ← twoDigits cs
  let (m, cs) ← twoDigits (← symbol ':' cs)
  let (s, cs) ← twoDigits (← symbol ':' cs)
  if h ≤ 23 ∧ m ≤ 59 ∧ s ≤ 60 then fraction cs else none

/-- Hours and minutes with two digits each. -/
def shift (cs : List Char) : Option (List Char) :=
  match cs with
  | a :: b :: rest =>
    match rest.dropWhile fun c => c = ':' || isWhiteSpace c with
    | c :: d :: rest =>
      if [a, b, c, d].all Char.isDigit && c ≤ '5' &&
        (a < '2' || (a = '2' && b ≤ '3')) then some rest
      else none
    | _ => none
  | _ => none

/-- An offset from universal time, and what follows. -/
def offset : List Char → Option (List Char)
  | 'Z' :: rest | 'z' :: rest => some rest
  | '+' :: rest | '-' :: rest | '−' :: rest => shift rest
  | u :: t :: c :: rest => if [u, t, c].map Char.toLower = ['u', 't', 'c'] then some rest else none
  | _ => none

/-- The text is a point in time. -/
def isTimestamp (text : String) : Bool :=
  let rest := do
    match ← date text.toList with
    | 'T' :: cs | 't' :: cs | ' ' :: cs => offset (skipBlanks (← time cs))
    | _ => none
  match rest with
  | some cs => cs.all isWhiteSpace
  | none => false

end Timestamp

end Lockstep.Text
