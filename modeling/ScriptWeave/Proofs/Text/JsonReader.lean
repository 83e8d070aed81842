import ScriptWeave.Text.Hex
import ScriptWeave.Text.JsonReader
import ScriptWeave.Text.JsonString

/-!
String literals and the texts that are read off them. Every character is written as an escape or as
itself, and either is read back as its code point; code points that stand for characters are never
joined into others.

JSON that is written with every item and field on a line of its own, and read again. What is read is
the value that was written, as long as it has no numbers and is not nested too deep.
-/

namespace ScriptWeave
namespace Text
namespace JsonString

/-- Reading goes on behind the first characters of a body, which stand for a code point. -/
def Begins (point : Nat) (cs : List Char) : Prop :=
  ∀ rest, readBody (cs ++ rest) = (readBody rest).map fun (points, after) =>
    (point :: points, after)

theorem begins_shortEscape {e char : Char} (h : shortEscape? e = some char) :
    Begins char.toNat ['\\', e] := by
  intro rest
  have hunicode : e ≠ 'u' := by
    rintro rfl
    cases h
  rw [List.cons_append, List.singleton_append, readBody.eq_def]
  split
  case h_5 heq =>
    cases heq
    rw [h]
    rfl
  case h_6 hno heq =>
    cases heq
    exact absurd rfl (hno e rest rfl)
  all_goals simp_all

theorem begins_unicodeEscape {n : Nat} (h : n < 65536) :
    Begins n ('\\' :: 'u' :: hexPadded 4 n) := by
  intro rest
  have hnumber := hexNumber?_hexPadded h
  rw [hexPadded_four] at hnumber ⊢
  simp only [List.cons_append, List.nil_append]
  rw [readBody, hnumber]
  rfl

theorem begins_self {c : Char} (hquote : c ≠ '"') (hescape : c ≠ '\\')
    (hcontrol : ¬c.toNat < 0x20) :
    Begins c.toNat [c] := by
  intro rest
  rw [List.singleton_append, readBody.eq_def]
  split
  case h_6 heq =>
    cases heq
    rw [if_neg hcontrol]
    rfl
  all_goals simp_all

/-- The escape of a character is read as the character. -/
theorem begins_escape (c : Char) : Begins c.toNat (escape c) := by
  rw [escape]
  split
  case h_8 hquote hescape _ _ _ _ _ =>
    split
    · exact begins_unicodeEscape (by omega)
    · exact begins_self (fun heq => hquote (heq ▸ rfl)) (fun heq => hescape (heq ▸ rfl)) (by omega)
  · next heq => rw [heq]; exact begins_shortEscape (rfl : shortEscape? '"' = some '"')
  · next heq => rw [heq]; exact begins_shortEscape (rfl : shortEscape? '\\' = some '\\')
  · next heq => rw [heq]; exact begins_shortEscape (rfl : shortEscape? 'b' = some (Char.ofNat 8))
  · next heq => rw [heq]; exact begins_shortEscape (rfl : shortEscape? 'f' = some (Char.ofNat 12))
  · next heq => rw [heq]; exact begins_shortEscape (rfl : shortEscape? 'n' = some '\n')
  · next heq => rw [heq]; exact begins_shortEscape (rfl : shortEscape? 'r' = some '\r')
  · next heq => rw [heq]; exact begins_shortEscape (rfl : shortEscape? 't' = some '\t')

theorem readBody_flatMap_escape (cs rest : List Char) :
    readBody (cs.flatMap escape ++ '"' :: rest) = .ok (cs.map Char.toNat, rest) := by
  induction cs with
  | nil => rfl
  | cons c cs ih =>
      rw [List.flatMap_cons, List.append_assoc, begins_escape c, ih]
      rfl

theorem not_surrogate (c : Char) : ¬(0xd800 ≤ c.toNat ∧ c.toNat < 0xe000) := by
  have hvalid : c.toNat < 0xd800 ∨ 0xdfff < c.toNat ∧ c.toNat < 0x110000 := c.valid
  omega

/-- The code points of characters are not halves of anything. -/
theorem joinPairs_map_toNat (cs : List Char) : joinPairs (cs.map Char.toNat) = cs := by
  match cs with
  | [] => rfl
  | [c] => simp only [List.map_singleton, joinPairs, if_neg (not_surrogate c), Char.ofNat_toNat]
  | c :: next :: cs =>
      have hpair : ¬(0xd800 ≤ c.toNat ∧ c.toNat < 0xdc00 ∧
          0xdc00 ≤ next.toNat ∧ next.toNat < 0xe000) := by
        have hc := not_surrogate c
        omega
      have ih := joinPairs_map_toNat (next :: cs)
      rw [List.map_cons] at ih
      rw [List.map_cons, List.map_cons, joinPairs, if_neg hpair, if_neg (not_surrogate c), ih,
        Char.ofNat_toNat]

/-- The body of a literal is read back up to its closing quote. -/
theorem readBody_encode (s : String) (rest : List Char) :
    ∃ points, readBody (s.toList.flatMap escape ++ '"' :: rest) = .ok (points, rest) ∧
      String.ofList (joinPairs points) = s := by
  refine ⟨s.toList.map Char.toNat, readBody_flatMap_escape s.toList rest, ?_⟩
  rw [joinPairs_map_toNat, String.ofList_toList]

end JsonString
end Text

namespace Text
namespace Json

mutual

/-- A value without numbers that is nested at most so deep. -/
def Legible (room : Nat) : Json → Prop
  | number _ => False
  | array items => 0 < room ∧ LegibleItems (room - 1) items
  | object fields => 0 < room ∧ LegibleFields (room - 1) fields
  | null | bool _ | string _ => True

def LegibleItems (room : Nat) : List Json → Prop
  | [] => True
  | item :: items => Legible room item ∧ LegibleItems room items

def LegibleFields (room : Nat) : List (String × Json) → Prop
  | [] => True
  | (_, value) :: fields => Legible room value ∧ LegibleFields room fields

end

variable {depth fuel : Nat} {cs rest : List Char}

theorem skipBlanks_of_ne {c : Char} (h : isBlank c = false) : skipBlanks (c :: cs) = c :: cs := by
  rw [skipBlanks, List.dropWhile_cons_of_neg (by simp [h])]

theorem skipBlanks_append {blanks : List Char} (h : ∀ c ∈ blanks, isBlank c = true)
    (cs : List Char) :
    skipBlanks (blanks ++ cs) = skipBlanks cs :=
  List.dropWhile_append_of_pos h

theorem toList_lineBreak (ind : Nat) :
    (lineBreak ind).toList = '\n' :: List.replicate (2 * ind) ' ' := by
  simp [lineBreak]

theorem isBlank_of_mem_lineBreak {ind : Nat} {c : Char} (h : c ∈ (lineBreak ind).toList) :
    isBlank c = true := by
  rw [toList_lineBreak] at h
  obtain rfl | h := List.mem_cons.1 h
  · rfl
  · rw [List.eq_of_mem_replicate h]
    rfl

theorem read_skip {blanks : List Char} (h : ∀ c ∈ blanks, isBlank c = true) (depth fuel : Nat)
    (cs : List Char) : read depth fuel (blanks ++ cs) = read depth fuel cs := by
  cases fuel with
  | zero => rfl
  | succ fuel => simp only [read, skipBlanks_append h]

theorem readString_literal (place : Place) (s : String) (rest : List Char) :
    readString place ((JsonString.literal s).toList ++ rest) = .ok (s, rest) := by
  obtain ⟨points, hread, hjoin⟩ := JsonString.readBody_encode s rest
  rw [JsonString.literal, String.toList_ofList, JsonString.encode, List.cons_append,
    List.append_assoc, List.singleton_append, readString, hread]
  simp only [hjoin]

theorem readWord_append (text : String) (meaning : Json) (letters rest : List Char) :
    readWord text meaning letters (letters ++ rest) = .ok (meaning, rest) := by
  induction letters with
  | nil => rfl
  | cons due letters ih => rw [List.cons_append, readWord, if_pos rfl, ih]

theorem read_null (depth fuel : Nat) (rest : List Char) :
    read depth (fuel + 1) ("null".toList ++ rest) = .ok (null, rest) :=
  readWord_append "null" null "null".toList rest

theorem read_bool (depth fuel : Nat) (b : Bool) (rest : List Char) :
    read depth (fuel + 1) ((if b then "true" else "false").toList ++ rest) =
      .ok (bool b, rest) := by
  cases b with
  | true => exact readWord_append "true" (bool true) "true".toList rest
  | false => exact readWord_append "false" (bool false) "false".toList rest

theorem read_string (depth fuel : Nat) (s : String) (rest : List Char) :
    read depth (fuel + 1) ((JsonString.literal s).toList ++ rest) = .ok (string s, rest) := by
  have hread := readString_literal .value s rest
  rw [JsonString.literal, String.toList_ofList, JsonString.encode, List.cons_append] at hread ⊢
  simp only [read, skipBlanks_of_ne (show isBlank '"' = false from rfl), hread]
  rfl

theorem read_bracket (depth fuel : Nat) (cs : List Char) : read depth (fuel + 1) ('[' :: cs) =
    if maxDepth ≤ depth then .error .tooDeep
    else match skipBlanks cs with
      | ']' :: after => .ok (array [], after)
      | _ => (read.readItems depth fuel cs).map fun (items, after) => (array items, after) := rfl

theorem read_brace (depth fuel : Nat) (cs : List Char) : read depth (fuel + 1) ('{' :: cs) =
    if maxDepth ≤ depth then .error .tooDeep
    else match skipBlanks cs with
      | '}' :: after => .ok (object [], after)
      | _ => (read.readFields depth fuel cs).map fun (fields, after) =>
          (object fields, after) := rfl

theorem read_array {c : Char} {items : List Json} {more after : List Char}
    (hdepth : depth < maxDepth) (hcs : skipBlanks cs = c :: more) (hc : c ≠ ']')
    (hitems : read.readItems depth fuel cs = .ok (items, after)) :
    read depth (fuel + 1) ('[' :: cs) = .ok (array items, after) := by
  rw [read_bracket, if_neg (Nat.not_le.2 hdepth), hcs]
  split
  · next h => exact absurd (List.cons.inj h).1 hc
  · rw [hitems]
    rfl

theorem read_object {c : Char} {fields : List (String × Json)} {more after : List Char}
    (hdepth : depth < maxDepth) (hcs : skipBlanks cs = c :: more) (hc : c ≠ '}')
    (hfields : read.readFields depth fuel cs = .ok (fields, after)) :
    read depth (fuel + 1) ('{' :: cs) = .ok (object fields, after) := by
  rw [read_brace, if_neg (Nat.not_le.2 hdepth), hcs]
  split
  · next h => exact absurd (List.cons.inj h).1 hc
  · rw [hfields]
    rfl

theorem readItems_last {item : Json} {after : List Char}
    (hitem : read (depth + 1) fuel cs = .ok (item, rest)) (hrest : skipBlanks rest = ']' :: after) :
    read.readItems depth (fuel + 1) cs = .ok ([item], after) := by
  rw [read.readItems, hitem]
  simp only [bind, Except.bind, hrest]

theorem readItems_cons {item : Json} {items : List Json} {more after : List Char}
    (hitem : read (depth + 1) fuel cs = .ok (item, rest)) (hrest : skipBlanks rest = ',' :: more)
    (hitems : read.readItems depth fuel more = .ok (items, after)) :
    read.readItems depth (fuel + 1) cs = .ok (item :: items, after) := by
  rw [read.readItems, hitem]
  simp only [bind, Except.bind, hrest, hitems]
  rfl

theorem readFields_last {name : String} {value : Json} {valueText after afterValue : List Char}
    (hname : readString .name (skipBlanks cs) = .ok (name, ':' :: valueText))
    (hvalue : read (depth + 1) fuel valueText = .ok (value, afterValue))
    (hrest : skipBlanks afterValue = '}' :: after) :
    read.readFields depth (fuel + 1) cs = .ok ([(name, value)], after) := by
  rw [read.readFields, hname]
  simp only [bind, Except.bind, skipBlanks_of_ne (show isBlank ':' = false from rfl), hvalue, hrest]

theorem readFields_cons {name : String} {value : Json} {fields : List (String × Json)}
    {valueText more after afterValue : List Char}
    (hname : readString .name (skipBlanks cs) = .ok (name, ':' :: valueText))
    (hvalue : read (depth + 1) fuel valueText = .ok (value, afterValue))
    (hrest : skipBlanks afterValue = ',' :: more)
    (hfields : read.readFields depth fuel more = .ok (fields, after)) :
    read.readFields depth (fuel + 1) cs = .ok ((name, value) :: fields, after) := by
  rw [read.readFields, hname]
  simp only [bind, Except.bind, skipBlanks_of_ne (show isBlank ':' = false from rfl), hvalue, hrest,
    hfields]
  rfl

/-- The lines between the brackets of a value. -/
def lines (ind : Nat) (parts : List String) : List Char :=
  (("," ++ lineBreak (ind + 1)).intercalate parts).toList

theorem lines_singleton (ind : Nat) (part : String) : lines ind [part] = part.toList := by
  rw [lines, String.intercalate_singleton]

theorem lines_cons (ind : Nat) (part next : String) (parts : List String) :
    lines ind (part :: next :: parts) =
      part.toList ++ ',' :: ((lineBreak (ind + 1)).toList ++ lines ind (next :: parts)) := by
  simp [lines, String.intercalate_cons_cons]

/-- The first line begins like its part. -/
theorem skipBlanks_lines {c : Char} {part : String} (hpart : part.toList = c :: cs)
    (hc : isBlank c = false) (ind : Nat) (parts : List String) (rest : List Char) :
    ∃ more, skipBlanks ((lineBreak (ind + 1)).toList ++ (lines ind (part :: parts) ++ rest)) =
      c :: more := by
  obtain ⟨more, hlines⟩ : ∃ more, lines ind (part :: parts) = c :: more := by
    cases parts with
    | nil => exact ⟨cs, by rw [lines_singleton, hpart]⟩
    | cons next parts =>
        rw [lines_cons, hpart]
        exact ⟨_, rfl⟩
  rw [skipBlanks_append fun _ => isBlank_of_mem_lineBreak, hlines, List.cons_append,
    skipBlanks_of_ne hc]
  exact ⟨_, rfl⟩

theorem toList_bracketed (ind : Nat) (left right part : String) (parts : List String) :
    (bracketed ind left right (part :: parts)).toList =
      left.toList ++ ((lineBreak (ind + 1)).toList ++
      (lines ind (part :: parts) ++ ((lineBreak ind).toList ++ right.toList))) := by
  simp [bracketed, lines]

theorem toList_brackets (ind : Nat) (part : String) (parts : List String) :
    (bracketed ind "[" "]" (part :: parts)).toList = '[' :: ((lineBreak (ind + 1)).toList ++
      (lines ind (part :: parts) ++ ((lineBreak ind).toList ++ [']']))) :=
  toList_bracketed ind "[" "]" part parts

theorem toList_braces (ind : Nat) (part : String) (parts : List String) :
    (bracketed ind "\x7b" "\x7d" (part :: parts)).toList = '{' :: ((lineBreak (ind + 1)).toList ++
      (lines ind (part :: parts) ++ ((lineBreak ind).toList ++ ['}']))) :=
  toList_bracketed ind "\x7b" "\x7d" part parts

theorem bracketed_nil (ind : Nat) (left right : String) :
    bracketed ind left right [] = left ++ right := by
  simp [bracketed]

theorem toList_literal (s : String) :
    (JsonString.literal s).toList = '"' :: (s.toList.flatMap JsonString.escape ++ ['"']) := by
  rw [JsonString.literal, String.toList_ofList, JsonString.encode]

theorem toList_field (name text : String) (rest : List Char) :
    (JsonString.literal name ++ ": " ++ text).toList ++ rest =
      (JsonString.literal name).toList ++ ':' :: ([' '] ++ (text.toList ++ rest)) := by
  simp

theorem readString_name (name : String) (after : List Char) :
    readString .name (skipBlanks ((JsonString.literal name).toList ++ after)) =
      .ok (name, after) := by
  have hread := readString_literal .name name after
  rw [toList_literal, List.cons_append] at hread ⊢
  rw [skipBlanks_of_ne rfl, hread]

theorem read_valueText (depth fuel : Nat) (cs : List Char) :
    read depth fuel ([' '] ++ cs) = read depth fuel cs :=
  read_skip (by simp [isBlank]) depth fuel cs

/-- A value begins with a character that is neither blank nor closes anything. -/
theorem head_indented {room : Nat} {v : Json} (h : Legible room v) (ind : Nat) :
    ∃ c cs, (indented ind v).toList = c :: cs ∧ isBlank c = false ∧ c ≠ ']' ∧ c ≠ '}' := by
  cases v with
  | null =>
      rw [indented]
      exact ⟨'n', ['u', 'l', 'l'], rfl, rfl, by decide, by decide⟩
  | bool b =>
      rw [indented]
      cases b with
      | true => exact ⟨'t', ['r', 'u', 'e'], rfl, rfl, by decide, by decide⟩
      | false => exact ⟨'f', ['a', 'l', 's', 'e'], rfl, rfl, by decide, by decide⟩
  | number n => exact absurd h (by simp [Legible])
  | string s =>
      rw [indented, toList_literal]
      exact ⟨'"', _, rfl, rfl, by decide, by decide⟩
  | array items =>
      rw [indented]
      cases items with
      | nil =>
          rw [indentedItems, bracketed_nil]
          exact ⟨'[', [']'], rfl, rfl, by decide, by decide⟩
      | cons item items =>
          rw [indentedItems, toList_brackets]
          exact ⟨'[', _, rfl, rfl, by decide, by decide⟩
  | object fields =>
      rw [indented]
      cases fields with
      | nil =>
          rw [indentedFields, bracketed_nil]
          exact ⟨'{', ['}'], rfl, rfl, by decide, by decide⟩
      | cons field fields =>
          rw [indentedFields, toList_braces]
          exact ⟨'{', _, rfl, rfl, by decide, by decide⟩

/-- What stands before the next line or behind the last one. -/
theorem skipBlanks_lineBreak_append (ind : Nat) {c : Char} (hc : isBlank c = false)
    (rest : List Char) : skipBlanks ((lineBreak ind).toList ++ c :: rest) = c :: rest := by
  rw [skipBlanks_append fun _ => isBlank_of_mem_lineBreak, skipBlanks_of_ne hc]

/-- With so much fuel, what was written is read. -/
structure Reads (fuel : Nat) : Prop where
  value : ∀ (v : Json) (room ind depth : Nat) (rest : List Char), Legible room v →
    depth + room ≤ maxDepth → 2 * (indented ind v).toList.length ≤ fuel →
      read depth fuel ((indented ind v).toList ++ rest) = .ok (v, rest)
  items : ∀ (item : Json) (items : List Json) (room ind depth : Nat) (rest : List Char),
    LegibleItems room (item :: items) → depth + 1 + room ≤ maxDepth →
    2 * (lines ind (indentedItems ind (item :: items))).length < fuel →
      read.readItems depth fuel (lines ind (indentedItems ind (item :: items)) ++
        ((lineBreak ind).toList ++ ']' :: rest)) = .ok (item :: items, rest)
  fields : ∀ (field : String × Json) (fields : List (String × Json)) (room ind depth : Nat)
    (rest : List Char), LegibleFields room (field :: fields) → depth + 1 + room ≤ maxDepth →
    2 * (lines ind (indentedFields ind (field :: fields))).length < fuel →
      read.readFields depth fuel (lines ind (indentedFields ind (field :: fields)) ++
        ((lineBreak ind).toList ++ '}' :: rest)) = .ok (field :: fields, rest)

theorem readItems_skip {blanks : List Char} (h : ∀ c ∈ blanks, isBlank c = true)
    (depth fuel : Nat) (cs : List Char) :
    read.readItems depth fuel (blanks ++ cs) = read.readItems depth fuel cs := by
  cases fuel with
  | zero => rfl
  | succ fuel => rw [read.readItems, read.readItems, read_skip h]

theorem readFields_skip {blanks : List Char} (h : ∀ c ∈ blanks, isBlank c = true)
    (depth fuel : Nat) (cs : List Char) :
    read.readFields depth fuel (blanks ++ cs) = read.readFields depth fuel cs := by
  cases fuel with
  | zero => rfl
  | succ fuel => rw [read.readFields, read.readFields, skipBlanks_append h]

namespace Reads

variable (h : Reads fuel) {room ind : Nat}
include h

theorem value_succ (v : Json) (rest : List Char) (hv : Legible room v)
    (hroom : depth + room ≤ maxDepth) (hfuel : 2 * (indented ind v).toList.length ≤ fuel + 1) :
    read depth (fuel + 1) ((indented ind v).toList ++ rest) = .ok (v, rest) := by
  cases v with
  | null =>
      rw [indented]
      exact read_null depth fuel rest
  | bool b =>
      rw [indented]
      exact read_bool depth fuel b rest
  | number n => exact absurd hv (by simp [Legible])
  | string s =>
      rw [indented]
      exact read_string depth fuel s rest
  | array items =>
      rw [Legible] at hv
      have hdepth : depth < maxDepth := by omega
      rw [indented] at hfuel ⊢
      cases items with
      | nil =>
          rw [indentedItems, bracketed_nil]
          exact (read_bracket depth fuel (']' :: rest)).trans (if_neg (Nat.not_le.2 hdepth))
      | cons item items =>
          have hitems := h.items item items (room - 1) ind depth rest hv.2 (by omega)
          obtain ⟨c, cs, hitem, hblank, hbracket, _⟩ := head_indented hv.2.1 (ind + 1)
          rw [indentedItems] at hfuel hitems ⊢
          rw [toList_brackets] at hfuel ⊢
          simp only [List.length_cons, List.length_append, List.length_nil] at hfuel
          obtain ⟨more, hcs⟩ := skipBlanks_lines hitem hblank ind (indentedItems ind items)
            ((lineBreak ind).toList ++ ']' :: rest)
          rw [← readItems_skip fun _ => isBlank_of_mem_lineBreak] at hitems
          simpa using read_array hdepth hcs hbracket (hitems (by omega))
  | object fields =>
      rw [Legible] at hv
      have hdepth : depth < maxDepth := by omega
      rw [indented] at hfuel ⊢
      cases fields with
      | nil =>
          rw [indentedFields, bracketed_nil]
          exact (read_brace depth fuel ('}' :: rest)).trans (if_neg (Nat.not_le.2 hdepth))
      | cons field fields =>
          obtain ⟨name, value⟩ := field
          have hfields := h.fields (name, value) fields (room - 1) ind depth rest hv.2 (by omega)
          rw [indentedFields] at hfuel hfields ⊢
          have hname := toList_field name (indented (ind + 1) value) []
          rw [List.append_nil, toList_literal, List.cons_append] at hname
          rw [toList_braces] at hfuel ⊢
          simp only [List.length_cons, List.length_append, List.length_nil] at hfuel
          obtain ⟨more, hcs⟩ := skipBlanks_lines hname rfl ind (indentedFields ind fields)
            ((lineBreak ind).toList ++ '}' :: rest)
          rw [← readFields_skip fun _ => isBlank_of_mem_lineBreak] at hfields
          simpa using read_object hdepth hcs (by decide) (hfields (by omega))

theorem items_succ (item : Json) (items : List Json) (rest : List Char)
    (hitems : LegibleItems room (item :: items)) (hroom : depth + 1 + room ≤ maxDepth)
    (hfuel : 2 * (lines ind (indentedItems ind (item :: items))).length < fuel + 1) :
    read.readItems depth (fuel + 1) (lines ind (indentedItems ind (item :: items)) ++
      ((lineBreak ind).toList ++ ']' :: rest)) = .ok (item :: items, rest) := by
  rw [LegibleItems] at hitems
  cases items with
  | nil =>
      rw [indentedItems, indentedItems, lines_singleton] at hfuel ⊢
      exact readItems_last (h.value item room (ind + 1) (depth + 1) _ hitems.1 hroom (by omega))
        (skipBlanks_lineBreak_append ind rfl rest)
  | cons next items =>
      have hnext := h.items next items room ind depth rest hitems.2 hroom
      rw [indentedItems, indentedItems, lines_cons, ← indentedItems, List.length_append,
        List.length_cons, List.length_append] at hfuel
      rw [indentedItems, indentedItems, lines_cons, ← indentedItems, List.append_assoc,
        List.cons_append, List.append_assoc]
      refine readItems_cons (h.value item room (ind + 1) (depth + 1) _ hitems.1 hroom (by omega))
        (skipBlanks_of_ne rfl) ?_
      rw [readItems_skip fun _ => isBlank_of_mem_lineBreak]
      exact hnext (by omega)

theorem fields_succ (field : String × Json) (fields : List (String × Json)) (rest : List Char)
    (hfields : LegibleFields room (field :: fields)) (hroom : depth + 1 + room ≤ maxDepth)
    (hfuel : 2 * (lines ind (indentedFields ind (field :: fields))).length < fuel + 1) :
    read.readFields depth (fuel + 1) (lines ind (indentedFields ind (field :: fields)) ++
      ((lineBreak ind).toList ++ '}' :: rest)) = .ok (field :: fields, rest) := by
  obtain ⟨name, value⟩ := field
  rw [LegibleFields] at hfields
  cases fields with
  | nil =>
      rw [indentedFields, indentedFields, lines_singleton] at hfuel ⊢
      have hlength := congrArg List.length (toList_field name (indented (ind + 1) value) [])
      simp only [List.length_append, List.length_cons, List.length_nil] at hlength
      have hvalue := h.value value room (ind + 1) (depth + 1)
        ((lineBreak ind).toList ++ '}' :: rest) hfields.1 hroom (by omega)
      rw [← read_valueText] at hvalue
      rw [toList_field]
      exact readFields_last (readString_name name _) hvalue
        (skipBlanks_lineBreak_append ind rfl rest)
  | cons next fields =>
      obtain ⟨nextName, nextValue⟩ := next
      have hnext := h.fields (nextName, nextValue) fields room ind depth rest hfields.2 hroom
      have hlength := congrArg List.length (toList_field name (indented (ind + 1) value) [])
      simp only [List.length_append, List.length_cons, List.length_nil] at hlength
      rw [indentedFields, indentedFields, lines_cons, ← indentedFields] at hfuel ⊢
      simp only [List.length_append, List.length_cons] at hfuel
      rw [← readFields_skip fun _ => isBlank_of_mem_lineBreak] at hnext
      have hvalue (after : List Char) : read (depth + 1) fuel
          ([' '] ++ ((indented (ind + 1) value).toList ++ ',' :: after)) =
            .ok (value, ',' :: after) := by
        rw [read_valueText]
        exact h.value value room (ind + 1) (depth + 1) _ hfields.1 hroom (by omega)
      rw [List.append_assoc, List.cons_append, List.append_assoc, toList_field]
      exact readFields_cons (readString_name name _) (hvalue _) (skipBlanks_of_ne rfl)
        (hnext (by omega))

end Reads

theorem reads (fuel : Nat) : Reads fuel := by
  induction fuel with
  | zero =>
      constructor
      case value =>
        intro v room ind depth rest hv _ hfuel
        obtain ⟨c, cs, htext, _⟩ := head_indented hv ind
        rw [htext, List.length_cons] at hfuel
        omega
      case items => exact fun _ _ _ _ _ _ _ _ hfuel => absurd hfuel (Nat.not_lt_zero _)
      case fields => exact fun _ _ _ _ _ _ _ _ hfuel => absurd hfuel (Nat.not_lt_zero _)
  | succ fuel ih =>
      exact ⟨fun v room ind depth => ih.value_succ v, fun item items room ind depth =>
        ih.items_succ item items, fun field fields room ind depth => ih.fields_succ field fields⟩

/-- What is written with every part on a line of its own is read. -/
theorem parse_indented {v : Json} (hv : Legible maxDepth v) :
    parse (indented 0 v ++ "\n") = .ok v := by
  have hlength : (indented 0 v).toList.length ≤ (indented 0 v ++ "\n").length := by
    rw [String.length_append, String.length_toList]
    exact Nat.le_add_right _ _
  have hread := (reads (2 * (indented 0 v ++ "\n").length + 2)).value v maxDepth 0 0 ['\n'] hv
    (Nat.le_of_eq (Nat.zero_add _)) (by omega)
  have htext : (indented 0 v ++ "\n").toList = (indented 0 v).toList ++ ['\n'] := by simp
  rw [parse, htext, hread]
  rfl

end Json
end Text
end ScriptWeave
