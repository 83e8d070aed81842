/-!
Lower-case hexadecimal numerals of a fixed width, and reading four of their digits back.
-/

namespace ScriptWeave
namespace Text

/-- The digit of a value below sixteen. -/
def hexDigit (n : Nat) : Char :=
  if n < 10 then Char.ofNat (n + 48) else Char.ofNat (n + 87)

/-- The last `width` hexadecimal digits of `n`, most significant first. -/
def hexPadded : Nat → Nat → List Char
  | 0, _ => []
  | width + 1, n => hexPadded width (n / 16) ++ [hexDigit (n % 16)]

/-- The value of a digit in either case. -/
def hexValue? (c : Char) : Option Nat :=
  if '0' ≤ c ∧ c ≤ '9' then some (c.toNat - 48)
  else if 'a' ≤ c ∧ c ≤ 'f' then some (c.toNat - 87)
  else if 'A' ≤ c ∧ c ≤ 'F' then some (c.toNat - 55)
  else none

/-- The number written by a list of digits, most significant first. -/
def hexNumber? (digits : List Char) : Option Nat :=
  digits.foldl (fun acc c => do return (← acc) * 16 + (← hexValue? c)) (some 0)

theorem hexValue?_hexDigit {n : Nat} (h : n < 16) : hexValue? (hexDigit n) = some n := by
  revert n
  decide

theorem hexDigit_inj {m n : Nat} (hm : m < 16) (hn : n < 16) (h : hexDigit m = hexDigit n) :
    m = n := by
  have hvalue := hexValue?_hexDigit hm
  rw [h, hexValue?_hexDigit hn] at hvalue
  exact (Option.some.inj hvalue).symm

theorem hexDigit_ne_newline {n : Nat} (h : n < 16) : hexDigit n ≠ '\n' := by
  revert n
  decide

theorem hexPadded_two (n : Nat) : hexPadded 2 n = [hexDigit (n / 16 % 16), hexDigit (n % 16)] := rfl

theorem hexPadded_four (n : Nat) : hexPadded 4 n = [hexDigit (n / 16 / 16 / 16 % 16),
    hexDigit (n / 16 / 16 % 16), hexDigit (n / 16 % 16), hexDigit (n % 16)] := rfl

/-- Four digits are read back. -/
theorem hexNumber?_hexPadded {n : Nat} (h : n < 65536) : hexNumber? (hexPadded 4 n) = some n := by
  have hvalue (m : Nat) : hexValue? (hexDigit (m % 16)) = some (m % 16) :=
    hexValue?_hexDigit (Nat.mod_lt m (by decide))
  rw [hexPadded_four, hexNumber?]
  simp only [List.foldl_cons, List.foldl_nil, hvalue, Option.bind_eq_bind, Option.bind_some,
    Option.pure_def, Option.some.injEq]
  omega

end Text
end ScriptWeave
