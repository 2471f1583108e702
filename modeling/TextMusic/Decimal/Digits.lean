/-
Decimal digits: their characters, and the digits of a natural number with the
highest first.
-/

namespace TextMusic

/-- A decimal digit. -/
abbrev Digit := Fin 10

def Digit.zero : Digit :=
  0

/-- The character that writes a digit. -/
def digitChar (digit : Digit) : Char :=
  Char.ofNat (48 + digit.val)

/-- The digit that a character writes; only the ten ASCII digits are digits. -/
def digit? (c : Char) : Option Digit :=
  if '0' ≤ c ∧ c ≤ '9' then some (Fin.ofNat 10 (c.toNat - 48)) else none

theorem digit?_digitChar (digit : Digit) : digit? (digitChar digit) = some digit := by
  revert digit
  decide

/-- The digits of a natural number, the highest first; zero has the digit 0. -/
def digitsOf (n : Nat) : List Digit :=
  if n < 10 then [Fin.ofNat 10 n] else digitsOf (n / 10) ++ [Fin.ofNat 10 n]
termination_by n

/-- The number that digits write, the highest first. -/
def digitsValue (digits : List Digit) : Nat :=
  digits.foldl (fun value digit => 10 * value + digit.val) 0

theorem digitsValue_append_singleton (digits : List Digit) (digit : Digit) :
    digitsValue (digits ++ [digit]) = 10 * digitsValue digits + digit.val := by
  simp [digitsValue]

/-- Writing a number and reading it back gives the number. -/
theorem digitsValue_digitsOf (n : Nat) : digitsValue (digitsOf n) = n := by
  fun_induction digitsOf n with
  | case1 n small => simp [digitsValue, Nat.mod_eq_of_lt small]
  | case2 n large ih =>
      rw [digitsValue_append_singleton, ih]
      simp only [Fin.val_ofNat]
      omega

/-- Split off the digits at the front of a text. -/
def takeDigits : List Char → List Digit × List Char
  | [] => ([], [])
  | c :: cs =>
      match digit? c with
      | some digit => (digit :: (takeDigits cs).1, (takeDigits cs).2)
      | none => ([], c :: cs)

theorem takeDigits_length_le (cs : List Char) :
    (takeDigits cs).2.length + (takeDigits cs).1.length ≤ cs.length := by
  induction cs with
  | nil => simp [takeDigits]
  | cons c cs ih =>
      unfold takeDigits
      split
      · simp only [List.length_cons]
        omega
      · simp

/-! ## Numbers in texts -/

/-- Texts write natural numbers in digits alone. -/
theorem isDigit_of_mem_repr {n : Nat} {c : Char} (h : c ∈ n.repr.toList) :
    c.isDigit = true := by
  rw [Nat.toList_repr] at h
  exact Nat.isDigit_of_mem_toDigits (by decide) (by decide) h

theorem not_mem_repr {c : Char} (hc : c.isDigit = false) (n : Nat) :
    c ∉ n.repr.toList := by
  intro hmem
  rw [isDigit_of_mem_repr hmem] at hc
  exact Bool.noConfusion hc

/-- Different numbers are written differently. -/
theorem repr_inj {m n : Nat} (h : m.repr = n.repr) : m = n := by
  have hdigits := congrArg String.toList h
  rw [Nat.toList_repr, Nat.toList_repr] at hdigits
  rw [← Nat.ofDigitChars_toDigits (b := 10) (n := m) (by decide) (by decide), hdigits,
    Nat.ofDigitChars_toDigits (by decide) (by decide)]

end TextMusic
