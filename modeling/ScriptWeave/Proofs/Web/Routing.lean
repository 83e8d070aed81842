import Mathlib
import ScriptWeave.Proofs.Project.Listing
import ScriptWeave.Proofs.Web.Route
import ScriptWeave.Web.Server

/-!
How a request for a module reaches its handler. A path is read back from its escapes, and a text
from its bytes; of a path at the route of the modules each engine hands the rest on, two of them as
it was meant, the third as it was sent and without the slashes at its end.
-/

namespace ScriptWeave

open Text

namespace Text.Utf8

theorem utf8EncodeChar_of_lt {c : Char} (h : c.toNat < 0x80) :
    String.utf8EncodeChar c = [UInt8.ofNat c.toNat] ∧ (UInt8.ofNat c.toNat).toNat = c.toNat := by
  refine ⟨by rw [String.utf8EncodeChar.eq_1]; exact if_pos (Nat.le_of_lt_succ h), ?_⟩
  rw [UInt8.toNat_ofNat']
  omega

theorem le_of_mem_utf8EncodeChar {c : Char} {b : UInt8} (h : 0x80 ≤ c.toNat)
    (hb : b ∈ String.utf8EncodeChar c) : 0x80 ≤ b.toNat := by
  have hlarge : ¬c.val.toNat ≤ 127 := Nat.not_le.2 h
  rw [String.utf8EncodeChar.eq_1, if_neg hlarge] at hb
  split_ifs at hb <;>
    simp only [List.mem_cons, List.not_mem_nil, or_false] at hb <;>
    rcases hb with rfl | rfl | rfl | rfl <;>
    rw [UInt8.toNat_ofNat'] <;>
    omega

theorem ofChar_eq (c : Char) : ofChar c = String.utf8EncodeChar c := by
  have hbytes := bytes_ofList [c]
  rwa [List.flatMap_singleton, ← String.singleton_eq_ofList] at hbytes

/-- The bytes after the first one give a character that needs so many of them. -/
theorem ofParts?_eq_some {start count least : Nat} {tail rest : List UInt8} {c : Char}
    (hlength : tail.length = count) (htail : tail.all isTail = true)
    (hpoint : tail.foldl (fun n b => 64 * n + (b.toNat - 0x80)) start = c.toNat)
    (hleast : least ≤ c.toNat) :
    (match ofParts? start count least (tail ++ rest) with
      | some c => (c, count)
      | none => (replacement, 0)) = (c, tail.length) := by
  have hparts : ofParts? start count least (tail ++ rest) = some c := by
    rw [ofParts?, List.take_left' hlength, hpoint,
      if_pos ⟨hlength, htail, hleast, c.valid⟩, Char.ofNat_toNat]
  rw [hparts, hlength]

theorem decodeAfter_skip (tail rest : List UInt8) :
    decodeAfter tail.length (tail ++ rest) = decodeAfter 0 rest := by
  induction tail with
  | nil => rfl
  | cons b tail ih => exact ih

/-- A byte after the first one holds six bits. -/
theorem toNat_tail (n : Nat) : (UInt8.ofNat (n % 64 + 128)).toNat = n % 64 + 128 := by
  rw [UInt8.toNat_ofNat']
  omega

theorem isTail_tail (n : Nat) : isTail (UInt8.ofNat (n % 64 + 128)) = true := by
  rw [isTail, toNat_tail]
  simp only [Bool.and_eq_true, decide_eq_true_eq]
  omega

/-- A character is read from its first byte and the others. -/
theorem charAt_utf8EncodeChar (c : Char) (rest : List UInt8) : ∃ b tail,
    String.utf8EncodeChar c = b :: tail ∧ charAt b (tail ++ rest) = (c, tail.length) := by
  have hbound : c.toNat < 1114112 := by
    have hvalid : Nat.isValidChar c.toNat := c.valid
    obtain hless | ⟨_, hless⟩ := hvalid <;> omega
  rw [String.utf8EncodeChar.eq_1, show c.val.toNat = c.toNat from rfl]
  split_ifs with h₁ h₂ h₃
  · refine ⟨_, _, rfl, ?_⟩
    have hfirst : (UInt8.ofNat c.toNat).toNat = c.toNat := by
      rw [UInt8.toNat_ofNat']
      omega
    rw [charAt, hfirst, if_pos (by omega), Char.ofNat_toNat]
    rfl
  · refine ⟨_, _, rfl, ?_⟩
    have hfirst : (UInt8.ofNat (c.toNat / 64 % 32 + 192)).toNat = c.toNat / 64 + 192 := by
      rw [UInt8.toNat_ofNat']
      omega
    rw [charAt, hfirst, if_neg (by omega), if_neg (by omega), if_pos (by omega)]
    refine ofParts?_eq_some rfl (by simp only [List.all_cons, isTail_tail]; rfl) ?_ (by omega)
    simp only [List.foldl_cons, List.foldl_nil, toNat_tail]
    omega
  · refine ⟨_, _, rfl, ?_⟩
    have hfirst : (UInt8.ofNat (c.toNat / 4096 % 16 + 224)).toNat = c.toNat / 4096 + 224 := by
      rw [UInt8.toNat_ofNat']
      omega
    rw [charAt, hfirst, if_neg (by omega), if_neg (by omega), if_neg (by omega), if_pos (by omega)]
    refine ofParts?_eq_some rfl (by simp only [List.all_cons, isTail_tail]; rfl) ?_ (by omega)
    simp only [List.foldl_cons, List.foldl_nil, toNat_tail]
    omega
  · refine ⟨_, _, rfl, ?_⟩
    have hfirst : (UInt8.ofNat (c.toNat / 262144 % 8 + 240)).toNat = c.toNat / 262144 + 240 := by
      rw [UInt8.toNat_ofNat']
      omega
    rw [charAt, hfirst, if_neg (by omega), if_neg (by omega), if_neg (by omega), if_neg (by omega),
      if_pos (by omega)]
    refine ofParts?_eq_some rfl (by simp only [List.all_cons, isTail_tail]; rfl) ?_ (by omega)
    simp only [List.foldl_cons, List.foldl_nil, toNat_tail]
    omega

/-- A text is read back from its bytes. -/
theorem decodeAfter_flatMap (cs : List Char) :
    decodeAfter 0 (cs.flatMap String.utf8EncodeChar) = cs := by
  induction cs with
  | nil => rfl
  | cons c cs ih =>
      obtain ⟨b, tail, hbytes, hchar⟩ := charAt_utf8EncodeChar c (cs.flatMap String.utf8EncodeChar)
      rw [List.flatMap_cons, hbytes, List.cons_append, decodeAfter, hchar]
      exact (congrArg (c :: ·) (decodeAfter_skip tail _)).trans (congrArg (c :: ·) ih)

theorem decode_bytes (s : String) : decode (Digest.bytes s) = s := by
  rw [decode, ← String.ofList_toList (s := s), bytes_ofList, decodeAfter_flatMap]

end Text.Utf8

namespace Target

variable {b : UInt8} {c : Char} {cs : List Char}

/-- A byte as it is written in a path. -/
def escapeByte (b : UInt8) : List Char :=
  if b.toNat < 0x80 && isPathChar (Char.ofNat b.toNat) then [Char.ofNat b.toNat]
  else '%' :: (hexPadded 2 b.toNat).map Char.toUpper

/-- A character as it is written in a path. -/
def escapeChar (c : Char) : List Char := (String.utf8EncodeChar c).flatMap escapeByte

theorem escapePath_bytes (s : String) :
    escapePath (Digest.bytes s) = String.ofList (s.toList.flatMap escapeChar) := by
  rw [← String.ofList_toList (s := s), bytes_ofList, String.toList_ofList]
  exact congrArg String.ofList List.flatMap_assoc

theorem toList_escapePath (bs : List UInt8) :
    (escapePath bs).toList = bs.flatMap escapeByte := String.toList_ofList

theorem isPathChar_of_hex {n : Nat} (h : n < 16) : isPathChar (hexDigit n).toUpper = true ∧
    (hexDigit n).toUpper ≠ '/' ∧ (hexDigit n).toUpper ≠ '.' := by
  revert n
  decide

theorem hexByte?_upper (b : UInt8) : hexByte? (hexDigit (b.toNat / 16 % 16)).toUpper
    (hexDigit (b.toNat % 16)).toUpper = some b := by
  have hvalue {n : Nat} (h : n < 16) : hexValue? (hexDigit n).toUpper = some n := by
    revert n
    decide
  have hb := b.toNat_lt
  rw [hexByte?, hexNumber?]
  simp only [List.foldl_cons, List.foldl_nil, hvalue (Nat.mod_lt _ (by decide : 0 < 16)),
    Option.bind_eq_bind, Option.bind_some, Option.pure_def, Option.map_some]
  rw [show (0 * 16 + b.toNat / 16 % 16) * 16 + b.toNat % 16 = b.toNat by omega, UInt8.ofNat_toNat]

theorem toNat_of_isPathChar (h : isPathChar c = true) : 0x20 < c.toNat ∧ c.toNat < 0x7f := by
  rw [isPathChar, Bool.or_eq_true] at h
  obtain h | h := h
  · have hval : c.val.toNat = c.toNat := rfl
    have hbounds : 'A'.val.toNat = 65 ∧ 'Z'.val.toNat = 90 ∧ 'a'.val.toNat = 97 ∧
        'z'.val.toNat = 122 ∧ '0'.val.toNat = 48 ∧ '9'.val.toNat = 57 := by decide
    simp only [Char.isAlphanum, Char.isAlpha, Char.isUpper, Char.isLower, Char.isDigit,
      Bool.or_eq_true, Bool.and_eq_true, decide_eq_true_eq, ge_iff_le, UInt32.le_iff_toNat_le] at h
    omega
  · have hall : ['-', '_', '.', '~', '$', '&', '+', ',', '/', ':', ';', '=', '@'].all
        (fun x => 0x20 < x.toNat ∧ x.toNat < 0x7f) = true := by decide
    exact of_decide_eq_true (List.all_eq_true.1 hall c (List.contains_iff_mem.1 h))

theorem toNat_lt_of_isPathChar (h : isPathChar c = true) : c.toNat < 0x80 :=
  (toNat_of_isPathChar h).2.trans (by decide)

theorem unescape_cons (h : c ≠ '%') : unescape false (c :: cs) =
    (unescape false cs).map (Utf8.ofChar c ++ ·) := by
  rw [unescape]
  · rw [if_neg h]
    rfl
  · rintro a b cs rfl
    exact absurd rfl h

theorem unescape_escapeByte (b : UInt8) (cs : List Char) :
    unescape false (escapeByte b ++ cs) = (unescape false cs).map (b :: ·) := by
  rw [escapeByte]
  split
  · next h =>
      obtain ⟨hlt, hplain⟩ := Bool.and_eq_true_iff.1 h
      have hpercent : Char.ofNat b.toNat ≠ '%' := by
        intro hc
        rw [hc] at hplain
        cases hplain
      have hchar : (Char.ofNat b.toNat).toNat = b.toNat := by
        rw [Char.ofNat, dif_pos (.inl (by have := of_decide_eq_true hlt; omega))]
        rfl
      obtain ⟨hbytes, -⟩ := Utf8.utf8EncodeChar_of_lt (toNat_lt_of_isPathChar hplain)
      rw [List.singleton_append, unescape_cons hpercent, Utf8.ofChar_eq, hbytes, hchar,
        UInt8.ofNat_toNat]
      rfl
  · rw [hexPadded_two, List.map_cons, List.map_cons, List.map_nil, List.cons_append,
      List.cons_append, List.cons_append, List.nil_append, unescape, hexByte?_upper]

/-- What is written with escapes is read back. -/
theorem unescape_escaped (bs : List UInt8) : unescape false (bs.flatMap escapeByte) = .ok bs := by
  induction bs with
  | nil => rfl
  | cons b bs ih =>
      rw [List.flatMap_cons, unescape_escapeByte, ih]
      rfl

theorem escapeChar_of_isPathChar (h : isPathChar c = true) : escapeChar c = [c] := by
  have hlt := toNat_lt_of_isPathChar h
  obtain ⟨hbytes, hbyte⟩ := Utf8.utf8EncodeChar_of_lt hlt
  rw [escapeChar, hbytes, List.flatMap_singleton, escapeByte, hbyte, Char.ofNat_toNat,
    decide_eq_true hlt, h]
  rfl

/-- All bytes of a character that needs an escape are escaped. -/
theorem escapeByte_of_mem (h : isPathChar c = false) (hb : b ∈ String.utf8EncodeChar c) :
    escapeByte b = '%' :: (hexPadded 2 b.toNat).map Char.toUpper := by
  rw [escapeByte, if_neg]
  intro hplain
  obtain ⟨hlt, hchar⟩ := Bool.and_eq_true_iff.1 hplain
  obtain hc | hc := Nat.lt_or_ge c.toNat 0x80
  · obtain ⟨hbytes, hbyte⟩ := Utf8.utf8EncodeChar_of_lt hc
    rw [hbytes, List.mem_singleton] at hb
    rw [hb, hbyte, Char.ofNat_toNat, h] at hchar
    cases hchar
  · exact absurd (of_decide_eq_true hlt) (Nat.not_lt.2 (Utf8.le_of_mem_utf8EncodeChar hc hb))

theorem ne_of_mem_escapeChar (h : isPathChar c = false) {x : Char} (hx : x ∈ escapeChar c) :
    x ≠ '/' ∧ x ≠ '.' := by
  obtain ⟨b, hb, hx⟩ := List.mem_flatMap.1 hx
  rw [escapeByte_of_mem h hb, hexPadded_two] at hx
  simp only [List.map_cons, List.map_nil, List.mem_cons, List.not_mem_nil, or_false] at hx
  obtain rfl | rfl | rfl := hx
  · decide
  · exact (isPathChar_of_hex (Nat.mod_lt _ (by decide))).2
  · exact (isPathChar_of_hex (Nat.mod_lt _ (by decide))).2

theorem mem_escapeByte {x : Char} (hx : x ∈ escapeByte b) : isPathChar x = true ∨ x = '%' := by
  rw [escapeByte] at hx
  split at hx
  · next h =>
      rw [List.mem_singleton.1 hx]
      exact .inl (Bool.and_eq_true_iff.1 h).2
  · rw [hexPadded_two] at hx
    simp only [List.map_cons, List.map_nil, List.mem_cons, List.not_mem_nil, or_false] at hx
    obtain rfl | rfl | rfl := hx
    · exact .inr rfl
    · exact .inl (isPathChar_of_hex (Nat.mod_lt _ (by decide))).1
    · exact .inl (isPathChar_of_hex (Nat.mod_lt _ (by decide))).1

/-- No blank, no control character and no question mark is written in a path. -/
theorem ne_of_mem_escaped {bs : List UInt8} {x : Char} (hx : x ∈ bs.flatMap escapeByte) :
    0x20 < x.toNat ∧ x.toNat < 0x7f ∧ x ≠ '?' := by
  obtain ⟨b, -, hx⟩ := List.mem_flatMap.1 hx
  obtain hplain | rfl := mem_escapeByte hx
  · refine ⟨(toNat_of_isPathChar hplain).1, (toNat_of_isPathChar hplain).2, ?_⟩
    rintro rfl
    cases hplain
  · decide

/-- A path is read as it is written. -/
theorem read_escapePath {bs : List UInt8} (h : bs.head? = some 47) :
    read (escapePath bs) = .ok ⟨escapePath bs, bs, "", false⟩ := by
  obtain ⟨cs, hcs⟩ : ∃ cs, bs.flatMap escapeByte = '/' :: cs := by
    obtain ⟨bs, rfl⟩ := List.head?_eq_some_iff.1 h
    exact ⟨_, List.flatMap_cons⟩
  have hcontrol :
      (bs.flatMap escapeByte).any (fun c => c.toNat < 0x20 || c.toNat = 0x7f) = false := by
    rw [List.any_eq_false]
    intro x hx
    have hne := ne_of_mem_escaped hx
    simp only [Bool.or_eq_true, decide_eq_true_eq]
    omega
  have hwritten : (bs.flatMap escapeByte).takeWhile (· ≠ '?') = bs.flatMap escapeByte :=
    List.takeWhile_eq_self_iff.2 fun x hx => decide_eq_true (ne_of_mem_escaped hx).2.2
  have hpath : (if bs.flatMap escapeByte = ['*'] || (bs.flatMap escapeByte).head? = some '/'
      then some (bs.flatMap escapeByte) else afterHost? (bs.flatMap escapeByte)) =
        some (bs.flatMap escapeByte) := if_pos (by rw [hcs]; simp)
  rw [read, toList_escapePath]
  dsimp only
  rw [hcontrol, hpath]
  dsimp only
  rw [hwritten, List.drop_of_length_le (Nat.le_succ _), unescape_escaped]
  rw [if_neg Bool.false_ne_true, if_neg (by rw [hcs]; exact Bool.false_ne_true)]
  simp only [Nat.lt_irrefl, decide_false, Bool.and_false]
  rfl

theorem count_escaped (cs : List Char) : (cs.flatMap escapeChar).count '.' = cs.count '.' := by
  induction cs with
  | nil => rfl
  | cons c cs ih =>
      rw [List.flatMap_cons, List.count_append, ih, List.count_cons, Nat.add_comm]
      congr 1
      cases h : isPathChar c with
      | true => rw [escapeChar_of_isPathChar h, List.count_singleton]
      | false =>
          have hdot : c ≠ '.' := by
            rintro rfl
            cases h
          rw [List.count_eq_zero.2 fun hmem => (ne_of_mem_escapeChar h hmem).2 rfl,
            if_neg (by simpa using hdot)]

theorem escapeChar_ne_nil (c : Char) : escapeChar c ≠ [] := by
  cases h : isPathChar c with
  | true =>
      rw [escapeChar_of_isPathChar h]
      exact List.cons_ne_nil c []
  | false =>
      obtain ⟨b, hb⟩ := List.exists_mem_of_ne_nil _ (@String.utf8EncodeChar_ne_nil c)
      intro hnil
      have hbyte := List.flatMap_eq_nil_iff.1 hnil b hb
      rw [escapeByte_of_mem h hb] at hbyte
      cases hbyte

end Target

namespace Pattern

/-- The slashes at the end of a path do not count. -/
theorem trimSlashes_append (as bs : List Char) : trimSlashes (as ++ bs) =
    if trimSlashes bs = [] then trimSlashes as else as ++ trimSlashes bs := by
  by_cases hbs : bs.reverse.dropWhile (· = '/') = [] <;>
    simp [trimSlashes, List.dropWhile_append, hbs]

theorem trimSlashes_concat {c : Char} (h : c ≠ '/') (cs : List Char) :
    trimSlashes (cs ++ [c]) = cs ++ [c] :=
  List.rdropWhile_concat_neg (fun c => decide (c = '/')) cs c (by simpa using h)

theorem trimSlashes_begins (cs : List Char) : trimSlashes cs <+: cs := List.rdropWhile_prefix _ cs

theorem toLower_eq_slash_iff (c : Char) : c.toLower = '/' ↔ c = '/' := by
  rw [Char.toLower]
  split
  · next h =>
      refine iff_of_false (fun hlower => ?_) (fun hc => ?_)
      · have hleast : 65 ≤ c.val.toNat := h.1
        have hgreatest : c.val.toNat ≤ 90 := h.2
        have hval : (c.val + 32).toNat = 47 := congrArg (·.val.toNat) hlower
        rw [UInt32.toNat_add, show (32 : UInt32).toNat = 32 from rfl] at hval
        omega
      · rw [hc] at h
        exact absurd h (by decide)
  · rfl

theorem trimSlashes_map_toLower (cs : List Char) :
    trimSlashes (cs.map Char.toLower) = (trimSlashes cs).map Char.toLower := by
  rw [trimSlashes, ← List.map_reverse, List.dropWhile_map, ← List.map_reverse]
  congr 3
  funext c
  simp [toLower_eq_slash_iff]

/-- No slash comes to stand at the end of a path by escapes. -/
theorem trimSlashes_escaped {cs : List Char} (h : trimSlashes cs = cs) :
    trimSlashes (cs.flatMap Target.escapeChar) = cs.flatMap Target.escapeChar := by
  obtain rfl | ⟨init, c, rfl⟩ := List.eq_nil_or_concat' cs
  · rfl
  · have hc : c ≠ '/' := by
      rintro rfl
      have hshort := (trimSlashes_begins init).length_le
      rw [trimSlashes_append, if_pos (by decide)] at h
      have hlength := congrArg List.length h
      rw [List.length_append, List.length_singleton] at hlength
      omega
    have hnone : '/' ∉ Target.escapeChar c := by
      cases hplain : Target.isPathChar c with
      | true =>
          rw [Target.escapeChar_of_isPathChar hplain]
          simpa using Ne.symm hc
      | false => exact fun hmem => (Target.ne_of_mem_escapeChar hplain hmem).1 rfl
    have hkept : trimSlashes (Target.escapeChar c) = Target.escapeChar c := by
      refine List.rdropWhile_eq_self_iff.2 fun hne hlast => hnone ?_
      rw [← of_decide_eq_true hlast]
      exact List.getLast_mem hne
    rw [List.flatMap_append, List.flatMap_singleton, trimSlashes_append, hkept,
      if_neg (Target.escapeChar_ne_nil c)]

theorem match?_greedy (name : String) (folded path : List Char) :
    match? false [.parameter name true true []] folded path =
      some [String.ofList (path.take folded.length)] := by
  simp [match?, valueLength]

end Pattern

namespace Request

theorem cut_append {word rest : List Char} (h : ' ' ∉ word) :
    cut (word ++ ' ' :: rest) = (word, rest) := by
  rw [cut, (RoutePart.takeWhile_append_stop h rest).1]
  simp

theorem readLine_get {target : List Char} {t : Target} (h : ' ' ∉ target)
    (hread : Target.read (String.ofList target) = .ok t) :
    readLine ("GET".toList ++ ' ' :: (target ++ ' ' :: "HTTP/1.0".toList)) = .ok ("GET", t) := by
  have hcontains : (target ++ ' ' :: "HTTP/1.0".toList).contains ' ' = true := by simp
  rw [readLine, cut_append (by decide)]
  dsimp only
  rw [cut_append h, hcontains]
  dsimp only
  rw [hread]
  rfl

/-- Every absolute path can be asked for. -/
theorem read_escapePath {bs : List UInt8} (h : bs.head? = some 47)
    (headers : List (String × String)) (cancelled : Bool) :
    Request.read "GET" (Target.escapePath bs) headers cancelled =
      .ok ⟨"GET", ⟨Target.escapePath bs, bs, "", false⟩, headers, cancelled⟩ := by
  have hblank : ' ' ∉ bs.flatMap Target.escapeByte := fun hx =>
    absurd (Target.ne_of_mem_escaped hx).1 (by decide)
  have hline : ("GET" ++ " " ++ Target.escapePath bs ++ " HTTP/1.0").toList =
      "GET".toList ++ ' ' :: (bs.flatMap Target.escapeByte ++ ' ' :: "HTTP/1.0".toList) := by
    simp [Target.toList_escapePath]
  have hwhole : ("GET".toList ++ ' ' :: (bs.flatMap Target.escapeByte ++ ' ' ::
      "HTTP/1.0".toList)).takeWhile (· ≠ '\n') =
        "GET".toList ++ ' ' :: (bs.flatMap Target.escapeByte ++ ' ' :: "HTTP/1.0".toList) := by
    refine List.takeWhile_eq_self_iff.2 fun x hx => decide_eq_true ?_
    rintro rfl
    simp only [List.mem_append, List.mem_cons] at hx
    obtain hx | hx | hx | hx | hx := hx
    · exact absurd hx (by decide)
    · exact absurd hx (by decide)
    · exact absurd (Target.ne_of_mem_escaped hx).1 (by decide)
    · exact absurd hx (by decide)
    · exact absurd hx (by decide)
  rw [Request.read, if_neg (by decide)]
  simp only [hline, hwhole, readLine_get hblank (Target.read_escapePath h)]

end Request
deriving instance DecidableEq for Endpoint
deriving instance DecidableEq for PatternRoute

namespace Server

theorem endpoints_eq : endpoints =
    [⟨"GET", [.static "/healthz"], .health⟩, ⟨"GET", [.static "/manifest.json"], .manifest⟩,
     ⟨"GET", [.static "/graph.json"], .graph⟩,
     ⟨"GET", [.static "/modules/", .wildcard], .module⟩] := by
  cbv

/-- The way to a resource at a fixed path. -/
def way (path : String) (resource : Resource) : Way Resource :=
  ⟨"GET", path.toList.map .char, [], resource⟩

/-- The way to the modules. -/
def moduleWay : Way Resource := ⟨"GET", "/modules/".toList.map .char ++ [.rest], ["*"], .module⟩

def ways : List (Way Resource) :=
  [way "/healthz" .health, way "/manifest.json" .manifest, way "/graph.json" .graph, moduleWay,
   moduleWay]

theorem routing_echo : routing .echo = .ways ways := by
  rw [routing, endpoints_eq]
  rfl

theorem search_ways (n : Nat) (cs : List Char) :
    Way.search "GET" (n + 10) ways ("/modules/".toList ++ cs) [] =
      (.found { moduleWay with steps := [] } [String.ofList cs], true) := by
  cases cs <;> rfl

def leaf (text : String) (resource : Resource) : SegmentTree Resource :=
  ⟨.static, text.toList, [], false, 1, [], some resource⟩

/-- What is below the first letter that the paths of the manifest and of the modules share. -/
def moduleBranch : SegmentTree Resource :=
  ⟨.static, "odules".toList, ['/'], false, 1,
    [⟨.rest, [], [], true, 1, [⟨.rest, "/*path".toList, [], false, 1, [], some .module⟩], none⟩],
    none⟩

def tree : SegmentTree Resource :=
  ⟨.root, ['/'], "mhg".toList, false, 4,
    [⟨.static, ['m'], "ao".toList, false, 2, [leaf "anifest.json" .manifest, moduleBranch], none⟩,
      leaf "healthz" .health, leaf "graph.json" .graph], none⟩

theorem routing_gin : routing .gin = .trees [("GET", tree)] := by
  rw [routing, endpoints_eq]
  rfl

theorem search_tree (n : Nat) (cs : List Char) :
    SegmentTree.search (n + 4) tree ("/modules/".toList ++ cs) [] =
      .settled (.handler .module [("path", String.ofList ('/' :: cs))]) := by
  rfl

def fixedRoute (path : String) (resource : Resource) : PatternRoute Resource :=
  ⟨"GET", path.toList, [.fixed path.toList], [], resource⟩

def moduleRoute : PatternRoute Resource :=
  ⟨"GET", "/modules/*".toList, [.fixed "/modules/".toList, .parameter "*1" true true []], ["*1"],
    .module⟩

def patterns : List (PatternRoute Resource) :=
  [fixedRoute "/healthz" .health, fixedRoute "/manifest.json" .manifest,
   fixedRoute "/graph.json" .graph, moduleRoute]

theorem routing_fiber : routing .fiber = .patterns patterns := by
  rw [routing, endpoints_eq]
  rfl

theorem tried_patterns (cs : List Char) :
    PatternRoute.tried patterns "GET" ("/modules".toList ++ cs) = [moduleRoute] := by
  have hbytes : ("/modules".toList ++ cs).flatMap Utf8.ofChar =
      47 :: 109 :: 111 :: ([100, 117, 108, 101, 115] ++ cs.flatMap Utf8.ofChar) := by
    rw [List.flatMap_append, show "/modules".toList.flatMap Utf8.ofChar =
      47 :: 109 :: 111 :: [100, 117, 108, 101, 115] by cbv]
    rfl
  have harea (bytes : List UInt8) : (if 3 ≤ (47 :: 109 :: 111 :: bytes).length
      then List.take 3 (47 :: 109 :: 111 :: bytes) else []) = ([47, 109, 111] : List UInt8) :=
    if_pos (by simp)
  rw [PatternRoute.tried, hbytes, harea]
  cbv

theorem match?_of_pattern {route : PatternRoute Resource} {folded path : List Char}
    {values : List String} (htop : route.path ≠ ['/']) (hstar : route.path ≠ "/*".toList)
    (hnames : route.names.isEmpty = false)
    (h : route.pattern.match? (route.method = PatternRoute.anyMethod) folded path = some values) :
    route.match? folded path = some values := by
  simp only [PatternRoute.match?, htop, hstar, hnames, h, decide_false, Bool.false_and,
    Bool.false_eq_true, if_false]

theorem match?_moduleRoute {folded cs : List Char}
    (h : folded.length = (Pattern.trimSlashes cs).length) :
    moduleRoute.match? (if folded = [] then "/modules".toList else "/modules/".toList ++ folded)
      ("/modules/".toList ++ cs) = some [String.ofList (Pattern.trimSlashes cs)] := by
  refine match?_of_pattern (by decide) (by decide) rfl ?_
  rw [List.prefix_iff_eq_take.1 (Pattern.trimSlashes_begins cs), ← h, ← Pattern.match?_greedy "*1"]
  cases folded with
  | nil => rfl
  | cons c folded =>
      rw [if_neg (List.cons_ne_nil c folded)]
      rfl

theorem find?_patterns (cs : List Char) :
    PatternRoute.find? patterns "GET" (String.ofList ("/modules/".toList ++ cs)) =
      some (moduleRoute, [("*1", String.ofList (Pattern.trimSlashes cs))]) := by
  have hfold : PatternRoute.fold ("/modules/".toList ++ cs) =
      if (Pattern.trimSlashes cs).map Char.toLower = [] then "/modules".toList
      else "/modules/".toList ++ (Pattern.trimSlashes cs).map Char.toLower := by
    rw [PatternRoute.fold, if_pos (by simp), List.map_append, Pattern.trimSlashes_append,
      Pattern.trimSlashes_map_toLower]
    rfl
  have htried : PatternRoute.tried patterns "GET" (PatternRoute.fold ("/modules/".toList ++ cs)) =
      [moduleRoute] := by
    rw [hfold]
    split
    · exact tried_patterns []
    · exact tried_patterns ('/' :: _)
  rw [PatternRoute.find?, String.toList_ofList, htried, hfold, List.findSome?_cons,
    match?_moduleRoute (List.length_map _)]
  rfl

end Server

/-- A request that stays, for a name at the route of the modules. It is written with the escapes
that it needs, or as it is. -/
structure Request.AsksFor (r : Request) (name : String) : Prop where
  method : r.method = "GET"
  bytes : r.target.bytes = Digest.bytes ("/modules/" ++ name)
  written : r.target.isCanonical = true ∨ r.target.written = "/modules/" ++ name
  staying : r.cancelled = false

/-- Every name can be asked for. -/
theorem Request.exists_asksFor (name : String) (headers : List (String × String)) :
    ∃ r, Request.read "GET" (Target.escapePath (Digest.bytes ("/modules/" ++ name))) headers false =
      .ok r ∧ r.AsksFor name := by
  have hslash : (Digest.bytes ("/modules/" ++ name)).head? = some 47 := by
    rw [← String.ofList_toList (s := "/modules/" ++ name), bytes_ofList, String.toList_append]
    rfl
  exact ⟨_, Request.read_escapePath hslash headers false, rfl, rfl, .inl (decide_eq_true rfl), rfl⟩

namespace Server

variable {r : Request} {name : String}

theorem path_of_asksFor (h : r.AsksFor name) : r.target.path = "/modules/" ++ name := by
  rw [Target.path, h.bytes, Utf8.decode_bytes]

theorem dispatch_echo (h : r.AsksFor name) :
    Engine.dispatch (routing .echo) r = .ok (.module, [("*", name)]) := by
  have hrouting : r.target.routingPath = "/modules/" ++ name := by
    rw [Target.routingPath]
    split
    · exact path_of_asksFor h
    · next hcanonical => exact h.written.resolve_left hcanonical
  have hfuel : ("/modules/" ++ name).length + 14 + 1 = name.length + 14 + 10 := by
    rw [String.length_append, show "/modules/".length = 9 from rfl]
    omega
  have hfind : Way.find ways "GET" ("/modules/" ++ name) =
      (.found { moduleWay with steps := [] } [name], true) := by
    rw [Way.find, show (ways.map (·.steps.length)).foldl max 0 = 14 by decide]
    dsimp only
    rw [hfuel, String.toList_append, search_ways, String.ofList_toList]
  rw [routing_echo, Engine.dispatch, h.method, hrouting, hfind]
  rfl

theorem dispatch_gin (h : r.AsksFor name) :
    Engine.dispatch (routing .gin) r = .ok (.module, [("path", "/" ++ name)]) := by
  have hvalue : String.ofList ('/' :: name.toList) = "/" ++ name := by
    rw [← String.ofList_toList (s := "/" ++ name), String.toList_append]
    rfl
  have hfind : tree.find ("/modules/" ++ name) = .handler .module [("path", "/" ++ name)] := by
    rw [SegmentTree.find, String.toList_append, search_tree, hvalue]
  rw [routing_gin, Engine.dispatch, h.method, path_of_asksFor h]
  simp only [List.lookup_cons, beq_self_eq_true, hfind]

/-- A name is sent as it is, or with the escapes that it needs. -/
def SentAs (name sent : String) : Prop :=
  sent = name ∨ sent = String.ofList (name.toList.flatMap Target.escapeChar)

theorem exists_sentPath (h : r.AsksFor name) :
    ∃ sent, r.target.sentPath = "/modules/" ++ sent ∧ SentAs name sent := by
  have hescaped : Target.escapePath r.target.bytes =
      "/modules/" ++ String.ofList (name.toList.flatMap Target.escapeChar) := by
    rw [h.bytes, Target.escapePath_bytes, String.toList_append, List.flatMap_append,
      String.ofList_append]
    rfl
  rw [Target.sentPath]
  split
  · obtain hcanonical | hwritten := h.written
    · exact ⟨_, (of_decide_eq_true hcanonical).trans hescaped, .inr rfl⟩
    · exact ⟨_, hwritten, .inl rfl⟩
  · exact ⟨_, hescaped, .inr rfl⟩

theorem dispatch_fiber {sent : String} (h : r.AsksFor name)
    (hsent : r.target.sentPath = "/modules/" ++ sent) :
    Engine.dispatch (routing .fiber) r =
      .ok (.module, [("*1", String.ofList (Pattern.trimSlashes sent.toList))]) := by
  have hmethods : (!PatternRoute.methods.contains "GET") = false := by decide
  rw [routing_fiber, Engine.dispatch, h.method, hsent, hmethods,
    ← String.ofList_toList (s := "/modules/" ++ sent), String.toList_append, find?_patterns]
  rfl

end Server
end ScriptWeave
