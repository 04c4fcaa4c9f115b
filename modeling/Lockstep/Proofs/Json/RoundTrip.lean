import Lockstep.Proofs.Json.Literal

/-!
# Parsing undoes rendering

A value is legible when its numbers are literals and all its strings and keys have a text. A legible
value is the one that its text holds (`parse_render`): every token is read up to its end, and the
fuel of the parser is enough because two nested calls take a character.
-/

namespace Lockstep

namespace Json

mutual

/-- The numbers of a value are literals and its strings have texts. -/
def Legible : Json → Prop
  | .null | .bool _ => True
  | .number literal => IsLiteral literal.toList
  | .string text => text.isSome
  | .array items => itemsLegible items
  | .object members => membersLegible members

def itemsLegible : List Json → Prop
  | [] => True
  | item :: rest => item.Legible ∧ itemsLegible rest

def membersLegible : List (Option String × Json) → Prop
  | [] => True
  | (key, val) :: rest => key.isSome ∧ val.Legible ∧ membersLegible rest

end

/-! ## Strings -/

theorem fourHex_eq : ∀ n < 0x20,
    fourHex n = ['0', '0', (n / 16).digitChar, (n % 16).digitChar] ∧
      hexValue (n / 16).digitChar = some (n / 16) ∧
        hexValue (n % 16).digitChar = some (n % 16) := by
  decide

/-- A unit that is no half of a pair stands for its character. -/
theorem assemble_unit {n : Nat} (hlead : isLeading n = false) (htrail : isTrailing n = false)
    (ps : List Piece) :
    assemble (.unit n :: ps) = (assemble ps).map (Char.ofNat n :: ·) := by
  cases ps with
  | nil => simp [assemble, hlead, htrail]
  | cons p ps =>
    cases p with
    | char c => simp [assemble, hlead, htrail]
    | unit m => simp [assemble, hlead, htrail]

/-- A piece read off the front of a string, put before what is read off the rest. -/
def pushPiece (p : Piece) (r : Option (List Piece × List Char)) : Option (List Piece × List Char) :=
  r.map fun r => (p :: r.1, r.2)

theorem stringPieces_letter {e c : Char} (hu : e ≠ 'u') (h : escapeChar e = some c)
    (rest : List Char) :
    stringPieces ('\\' :: e :: rest) = pushPiece (.char c) (stringPieces rest) := by
  rw [stringPieces]
  · rw [h]
    cases stringPieces rest with
    | none => rfl
    | some r => rfl
  · intro a b c d r heq
    exact absurd heq hu

theorem stringPieces_unit {n : Nat} (h : n < 0x20) (rest : List Char) :
    stringPieces ('\\' :: 'u' :: (fourHex n ++ rest)) =
      pushPiece (.unit n) (stringPieces rest) := by
  obtain ⟨hfour, hhigh, hlow⟩ := fourHex_eq n h
  have hzero : hexValue '0' = some 0 := by decide
  have hn : (0 * 16 + 0) * 256 + n / 16 * 16 + n % 16 = n := by omega
  rw [hfour]
  simp only [List.cons_append, List.nil_append]
  rw [stringPieces, hzero, hhigh, hlow]
  simp only [Option.bind_eq_bind, Option.bind_some, hn]
  cases stringPieces rest with
  | none => rfl
  | some r => rfl

theorem stringPieces_plain {c : Char} (hquote : c ≠ '"') (hslash : c ≠ '\\')
    (hplain : ¬ c.toNat < 0x20) (rest : List Char) :
    stringPieces (c :: rest) = pushPiece (.char c) (stringPieces rest) := by
  rw [stringPieces]
  · rw [if_neg (by simp [hplain, hslash])]
    cases stringPieces rest with
    | none => rfl
    | some r => rfl
  · exact hquote
  · exact fun _ _ _ _ _ h => absurd h hslash
  · exact fun _ _ h => absurd h hslash

/-- An escaped character is read as one piece, which stands for it. -/
theorem exists_piece (c : Char) :
    ∃ p, (∀ rest, stringPieces (escapedChar c ++ rest) = pushPiece p (stringPieces rest)) ∧
      ∀ ps, assemble (p :: ps) = (assemble ps).map (c :: ·) := by
  unfold escapedChar
  split
  case h_8 hquote hslash _ _ _ _ _ =>
    split
    · next hcontrol =>
      refine ⟨.unit c.toNat, stringPieces_unit hcontrol, fun ps => ?_⟩
      rw [assemble_unit, Char.ofNat_toNat]
      · simp [isLeading]; omega
      · simp [isTrailing]; omega
    · next hplain => exact ⟨.char c, stringPieces_plain hquote hslash hplain, fun _ => rfl⟩
  -- every other escape is a letter behind a backslash
  all_goals exact ⟨.char _, stringPieces_letter (by decide) rfl, fun _ => rfl⟩

/-- A string is read up to its closing quote. -/
theorem stringRest_append (s : String) (rest : List Char) :
    stringRest (s.toList.flatMap escapedChar ++ '"' :: rest) = some (some s, rest) := by
  have hpieces : ∀ cs : List Char, ∃ ps,
      stringPieces (cs.flatMap escapedChar ++ '"' :: rest) = some (ps, rest) ∧
        assemble ps = some cs := by
    intro cs
    induction cs with
    | nil => exact ⟨[], rfl, rfl⟩
    | cons c cs ih =>
      obtain ⟨ps, hps, hassemble⟩ := ih
      obtain ⟨p, hp, hpc⟩ := exists_piece c
      refine ⟨p :: ps, ?_, ?_⟩
      · rw [List.flatMap_cons, List.append_assoc, hp, hps]
        rfl
      · rw [hpc, hassemble]
        rfl
  obtain ⟨ps, hps, hassemble⟩ := hpieces s.toList
  rw [stringRest, hps]
  simp [hassemble]

/-! ## Values -/

/-- The character may begin a value. -/
def begins (c : Char) : Bool := !isSpace c && c ≠ ']' && c ≠ '\x7d'

theorem skipSpace_cons {c : Char} (h : isSpace c = false) (cs : List Char) :
    skipSpace (c :: cs) = c :: cs := by
  rw [skipSpace, List.dropWhile_cons, h]
  rfl

theorem isSpace_of_isDigit {c : Char} (h : c.isDigit = true) : isSpace c = false := by
  rw [← Bool.not_eq_true]
  intro hspace
  simp only [isSpace, Bool.or_eq_true, decide_eq_true_eq] at hspace
  rcases hspace with ((rfl | rfl) | rfl) | rfl <;> cases h

/-- A literal begins with a minus sign or a digit. -/
theorem IsLiteral.head {cs : List Char} (h : IsLiteral cs) :
    ∃ c tl, cs = c :: tl ∧ (c = '-' ∨ c.isDigit = true) := by
  obtain ⟨hsign, hwhole, -, -⟩ := h
  obtain ⟨d, ds, rfl, hd⟩ := hwhole.head_isDigit
  rcases hsign with rfl | rfl
  · exact ⟨d, _, rfl, .inr hd⟩
  · exact ⟨'-', _, rfl, .inl rfl⟩

theorem write_null : write .null = ['n', 'u', 'l', 'l'] := String.toList_ofList

theorem write_true : write (.bool true) = ['t', 'r', 'u', 'e'] := String.toList_ofList

theorem write_false : write (.bool false) = ['f', 'a', 'l', 's', 'e'] := String.toList_ofList

/-- The text of a value begins with a character that may begin one. -/
theorem begins_write : ∀ {j : Json}, j.Legible → ∃ c cs, j.write = c :: cs ∧ begins c = true
  | .null, _ => ⟨'n', _, write_null, by decide⟩
  | .bool true, _ => ⟨'t', _, write_true, by decide⟩
  | .bool false, _ => ⟨'f', _, write_false, by decide⟩
  | .number literal, h => by
    obtain ⟨c, tl, hc, hhead⟩ := IsLiteral.head h
    refine ⟨c, tl, hc, ?_⟩
    rcases hhead with rfl | hdigit
    · decide
    · have hbracket : c ≠ ']' := by
        rintro rfl
        cases hdigit
      have hbrace : c ≠ '\x7d' := by
        rintro rfl
        cases hdigit
      simp [begins, isSpace_of_isDigit hdigit, hbracket, hbrace]
  | .string (some s), _ => ⟨'"', _, rfl, by decide⟩
  | .string none, h => by cases h
  | .array items, _ => ⟨'[', _, rfl, by decide⟩
  | .object members, _ => ⟨'\x7b', _, rfl, by decide⟩

/-- No other kind of value begins like a number. -/
theorem value_number {literal : String} (h : IsLiteral literal.toList) {rest : List Char}
    (hrest : Follows rest) (fuel : Nat) :
    value (fuel + 1) (literal.toList ++ rest) = some (.number literal, rest) := by
  have hread := numberLiteral_append h hrest
  obtain ⟨c, tl, hc, hhead⟩ := h.head
  have hspace : isSpace c = false := by
    rcases hhead with rfl | hdigit
    · decide
    · exact isSpace_of_isDigit hdigit
  rw [value, hc, List.cons_append, skipSpace_cons hspace]
  rw [hc, List.cons_append] at hread
  split
  case h_7 =>
    rw [hread]
    simp [← hc]
  all_goals
    next heq =>
    obtain ⟨rfl, -⟩ := List.cons.inj heq
    rcases hhead with hminus | hdigit
    · cases hminus
    · cases hdigit

mutual

/-- A value is read up to its end. -/
theorem value_write : ∀ {j : Json} (fuel : Nat) (rest : List Char), j.Legible → Follows rest →
    2 * j.write.length ≤ fuel → value fuel (j.write ++ rest) = some (j, rest)
  | j, 0, rest, h, _, hfuel => by
    obtain ⟨c, cs, hc, -⟩ := begins_write h
    rw [hc] at hfuel
    simp at hfuel
  | .null, fuel + 1, rest, _, _, _ => by
    rw [write_null]
    rfl
  | .bool true, fuel + 1, rest, _, _, _ => by
    rw [write_true]
    rfl
  | .bool false, fuel + 1, rest, _, _, _ => by
    rw [write_false]
    rfl
  | .number literal, fuel + 1, rest, h, hrest, _ => value_number h hrest fuel
  | .string (some s), fuel + 1, rest, _, _, _ => by
    show value (fuel + 1) ('"' :: (s.toList.flatMap escapedChar ++ ['"']) ++ rest) = _
    rw [value, List.cons_append, skipSpace_cons (by decide), List.append_assoc]
    simp [stringRest_append]
  | .string none, _, _, h, _, _ => by cases h
  | .array [], fuel + 1, rest, _, _, _ => rfl
  | .array (item :: more), fuel + 1, rest, ⟨hitem, hmore⟩, hrest, hfuel => by
    have hlength : 2 * (writeItems true (item :: more)).length + 1 ≤ fuel := by
      have hfuel : 2 * ('[' :: writeItems true (item :: more) ++ [']']).length ≤ fuel + 1 := hfuel
      simp only [List.length_cons, List.length_append] at hfuel
      omega
    have hitems := items_write fuel rest hitem hmore hlength
    -- the first item does not begin with the closing bracket
    obtain ⟨c, cs, hc, hbegins⟩ := begins_write hitem
    obtain ⟨⟨hspace, hbracket⟩, -⟩ : (isSpace c = false ∧ c ≠ ']') ∧ c ≠ '\x7d' := by
      simpa [begins] using hbegins
    have htext : writeItems true (item :: more) ++ ']' :: rest =
        c :: (cs ++ writeItems false more ++ ']' :: rest) := by
      simp [writeItems, hc]
    show value (fuel + 1) ('[' :: writeItems true (item :: more) ++ [']'] ++ rest) = _
    rw [List.append_assoc, List.singleton_append, List.cons_append, value,
      skipSpace_cons (by decide)]
    simp only
    rw [htext] at hitems ⊢
    rw [skipSpace_cons hspace]
    split
    · next heq => exact absurd (List.cons.inj heq).1 hbracket
    · rw [hitems]
      rfl
  | .object [], fuel + 1, rest, _, _, _ => rfl
  | .object ((none, val) :: more), fuel + 1, rest, ⟨hkey, _, _⟩, _, _ => by cases hkey
  | .object ((some key, val) :: more), fuel + 1, rest, ⟨_, hval, hmore⟩, hrest, hfuel => by
    have hlength : 2 * (writeMembers true ((some key, val) :: more)).length + 1 ≤ fuel := by
      have hfuel : 2 * ('\x7b' :: writeMembers true ((some key, val) :: more) ++ ['\x7d']).length ≤
          fuel + 1 := hfuel
      simp only [List.length_cons, List.length_append] at hfuel
      omega
    have hmembers := members_write key fuel rest hval hmore hlength
    have htext : writeMembers true ((some key, val) :: more) ++ '\x7d' :: rest =
        '"' :: (key.toList.flatMap escapedChar ++ '"' :: ':' ::
          (val.write ++ writeMembers false more ++ '\x7d' :: rest)) := by
      simp [writeMembers, quoted]
    show value (fuel + 1)
      ('\x7b' :: writeMembers true ((some key, val) :: more) ++ ['\x7d'] ++ rest) = _
    rw [List.append_assoc, List.singleton_append, List.cons_append, value,
      skipSpace_cons (by decide)]
    simp only
    rw [htext] at hmembers ⊢
    rw [skipSpace_cons (by decide)]
    split
    · next heq => exact absurd (List.cons.inj heq).1 (by decide)
    · rw [hmembers]
      rfl

/-- Items are read up to the closing bracket. -/
theorem items_write : ∀ {item : Json} {more : List Json} (fuel : Nat) (rest : List Char),
    item.Legible → itemsLegible more →
    2 * (writeItems true (item :: more)).length + 1 ≤ fuel →
      items fuel (writeItems true (item :: more) ++ ']' :: rest) = some (item :: more, rest)
  | _, _, 0, _, _, _, h => by simp at h
  | item, [], fuel + 1, rest, hitem, _, hfuel => by
    have hlength : 2 * item.write.length ≤ fuel := by
      simp only [writeItems, List.length_append] at hfuel
      omega
    have hread := value_write fuel (']' :: rest) hitem (by simp [Follows]) hlength
    -- the last item stands before the closing bracket
    have htext : writeItems true [item] = item.write := by simp [writeItems]
    rw [htext, items, hread]
    rfl
  | item, next :: more, fuel + 1, rest, hitem, ⟨hnext, hmore⟩, hfuel => by
    have htext : writeItems true (item :: next :: more) =
        item.write ++ ',' :: writeItems true (next :: more) := by
      simp [writeItems]
    rw [htext] at hfuel ⊢
    simp only [List.length_append, List.length_cons] at hfuel
    have hread := value_write fuel (',' :: (writeItems true (next :: more) ++ ']' :: rest)) hitem
      (by simp [Follows]) (by omega)
    have hmore := items_write fuel rest hnext hmore (by omega)
    rw [items, List.append_assoc, List.cons_append, hread]
    show (do
      let (more, rest) ← items fuel (writeItems true (next :: more) ++ ']' :: rest)
      return (item :: more, rest)) = _
    rw [hmore]
    rfl

/-- Members are read up to the closing brace. -/
theorem members_write : ∀ (key : String) {val : Json} {more : List (Option String × Json)}
    (fuel : Nat) (rest : List Char), val.Legible → membersLegible more →
    2 * (writeMembers true ((some key, val) :: more)).length + 1 ≤ fuel →
      members fuel (writeMembers true ((some key, val) :: more) ++ '\x7d' :: rest) =
        some ((some key, val) :: more, rest)
  | _, _, _, 0, _, _, _, h => by simp at h
  | key, val, [], fuel + 1, rest, hval, _, hfuel => by
    -- the last member stands before the closing brace
    have htext : writeMembers true [(some key, val)] ++ '\x7d' :: rest =
        '"' :: (key.toList.flatMap escapedChar ++ '"' :: ':' :: (val.write ++ '\x7d' :: rest)) := by
      simp [writeMembers, quoted]
    have hlength : 2 * val.write.length ≤ fuel := by
      simp only [writeMembers, quoted, List.length_append, List.length_cons] at hfuel
      omega
    have hread := value_write fuel ('\x7d' :: rest) hval (by simp [Follows]) hlength
    rw [htext, members, skipSpace_cons (by decide)]
    simp only
    rw [stringRest_append]
    simp only [Option.bind_eq_bind, Option.bind_some]
    rw [skipSpace_cons (by decide)]
    simp only
    rw [hread]
    rfl
  | key, val, (key', val') :: more, fuel + 1, rest, hval, ⟨hkey, hval', hmore⟩, hfuel => by
    obtain ⟨key', rfl⟩ := Option.isSome_iff_exists.1 hkey
    -- any other member stands before a comma and the members that are left
    have hwrite : writeMembers true ((some key, val) :: (some key', val') :: more) =
        '"' :: (key.toList.flatMap escapedChar ++ '"' :: ':' ::
          (val.write ++ ',' :: writeMembers true ((some key', val') :: more))) := by
      simp [writeMembers, quoted]
    rw [hwrite] at hfuel ⊢
    simp only [List.length_append, List.length_cons] at hfuel
    have hread := value_write fuel
      (',' :: (writeMembers true ((some key', val') :: more) ++ '\x7d' :: rest)) hval
      (by simp [Follows]) (by omega)
    have hmore := members_write key' fuel rest hval' hmore (by omega)
    simp only [List.cons_append, List.append_assoc]
    rw [members, skipSpace_cons (by decide)]
    simp only
    rw [stringRest_append]
    simp only [Option.bind_eq_bind, Option.bind_some]
    rw [skipSpace_cons (by decide)]
    simp only
    rw [hread]
    simp only [Option.bind_some]
    rw [skipSpace_cons (by decide)]
    simp only
    rw [hmore]
    rfl

end

/-- A legible value is the one that its text holds. -/
theorem parse_render {j : Json} (h : j.Legible) : parse j.render = some j := by
  have hread := value_write (2 * j.write.length + 2) [] h (fun c hc => by cases hc) (by omega)
  rw [List.append_nil] at hread
  rw [parse, render, String.toList_ofList, hread]
  rfl

end Json

end Lockstep
