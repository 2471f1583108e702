/-
The tokens of a JSON text.  Blanks between tokens are skipped; a scanner takes
one token from the front and returns the rest, which is shorter.
-/
import TextMusic.Json.Basic

namespace TextMusic

namespace Json

inductive Token where
  | openArray
  | closeArray
  | openObject
  | closeObject
  | comma
  | colon
  | null
  | bool (value : Bool)
  | number (value : Number)
  | text (value : List Symbol)
deriving DecidableEq, Repr

/-- The four characters that may stand between tokens. -/
def isSpace (c : Char) : Bool :=
  c = ' ' || c = '\t' || c = '\n' || c = '\r'

/-! ## Strings -/

def hexDigit? (c : Char) : Option Nat :=
  if '0' ≤ c ∧ c ≤ '9' then some (c.toNat - 48)
  else if 'a' ≤ c ∧ c ≤ 'f' then some (c.toNat - 87)
  else if 'A' ≤ c ∧ c ≤ 'F' then some (c.toNat - 55)
  else none

/-- The character that a letter after a backslash stands for. -/
def escaped? : Char → Option Char
  | '"' => some '"'
  | '\\' => some '\\'
  | '/' => some '/'
  | 'b' => some '\x08'
  | 'f' => some '\x0c'
  | 'n' => some '\n'
  | 'r' => some '\r'
  | 't' => some '\t'
  | _ => none

/-- The element that a 16 bit unit stands for alone. -/
def Symbol.ofUnit (unit : Nat) : Symbol :=
  if 0xD800 ≤ unit ∧ unit < 0xE000 then .half unit else .scalar (Char.ofNat unit)

/-- Join each first half with the second half right behind it. -/
def joinHalves : List Symbol → List Symbol
  | .half high :: .half low :: rest =>
      if high < 0xDC00 ∧ 0xDC00 ≤ low then
        .scalar (Char.ofNat (0x10000 + (high - 0xD800) * 0x400 + (low - 0xDC00))) ::
          joinHalves rest
      else .half high :: joinHalves (.half low :: rest)
  | symbol :: rest => symbol :: joinHalves rest
  | [] => []

/-- Where a scanner is inside a string. -/
inductive TextState where
  | plain
  /-- Behind a backslash. -/
  | escape
  /-- Inside a unit of which `missing + 1` digits are still to come. -/
  | hex (missing unit : Nat)

/-- Put an element before what has been scanned. -/
def inFront (symbol : Symbol) (scanned : List Symbol × List Char) :
    List Symbol × List Char :=
  (symbol :: scanned.1, scanned.2)

/-- Scan a string behind its opening quote, up to and with the closing one.
Control characters may not stand in a string. -/
def scanText : TextState → List Char → Option (List Symbol × List Char)
  | _, [] => none
  | .plain, c :: cs =>
      if c = '"' then some ([], cs)
      else if c = '\\' then scanText .escape cs
      else if c.toNat < 0x20 then none
      else (scanText .plain cs).map (inFront (.scalar c))
  | .escape, c :: cs =>
      if c = 'u' then scanText (.hex 3 0) cs
      else match escaped? c with
        | some e => (scanText .plain cs).map (inFront (.scalar e))
        | none => none
  | .hex missing unit, c :: cs =>
      match hexDigit? c, missing with
      | none, _ => none
      | some d, 0 =>
          (scanText .plain cs).map (inFront (Symbol.ofUnit (16 * unit + d)))
      | some d, n + 1 => scanText (.hex n (16 * unit + d)) cs

theorem scanText_length_lt {state : TextState} {cs : List Char} {symbols : List Symbol}
    {rest : List Char} (h : scanText state cs = some (symbols, rest)) :
    rest.length < cs.length := by
  fun_induction scanText state cs generalizing symbols rest <;>
    grind [inFront, Option.map_eq_some_iff]

/-! ## Numbers -/

/-- The digits behind a point, at least one. -/
def scanFraction : List Char → Option (List Digit × List Char)
  | '.' :: cs =>
      let (digits, rest) := takeDigits cs
      if digits.isEmpty then none else some (digits, rest)
  | cs => some ([], cs)

/-- The sign of an exponent; without one it is not negative. -/
def scanSign : List Char → Bool × List Char
  | '-' :: cs => (true, cs)
  | '+' :: cs => (false, cs)
  | cs => (false, cs)

def scanExponent : List Char → Option (Option (Bool × List Digit) × List Char)
  | c :: cs =>
      if c = 'e' ∨ c = 'E' then
        let (negative, cs) := scanSign cs
        let (digits, rest) := takeDigits cs
        if digits.isEmpty then none else some (some (negative, digits), rest)
      else some (none, c :: cs)
  | [] => some (none, [])

/-- A number behind its sign.  It has a digit before the point, and no zero
stands before other digits there. -/
def scanUnsigned (negative : Bool) (cs : List Char) : Option (Number × List Char) :=
  let (whole, rest) := takeDigits cs
  if whole.isEmpty || (whole.head? == some Digit.zero && whole.length != 1) then none
  else do
    let (fraction, rest) ← scanFraction rest
    let (exponent, rest) ← scanExponent rest
    return (⟨negative, whole, fraction, exponent⟩, rest)

def scanNumber : List Char → Option (Number × List Char)
  | '-' :: cs => scanUnsigned true cs
  | cs => scanUnsigned false cs

theorem scanFraction_length_le {cs : List Char} {digits : List Digit} {rest : List Char}
    (h : scanFraction cs = some (digits, rest)) : rest.length ≤ cs.length := by
  unfold scanFraction at h
  split at h
  · next cs =>
      have := takeDigits_length_le cs
      simp only [Option.ite_none_left_eq_some, Option.some.injEq, Prod.mk.injEq] at h
      obtain ⟨_, _, rfl⟩ := h
      simp only [List.length_cons]
      omega
  · simp_all

theorem scanSign_length_le (cs : List Char) : (scanSign cs).2.length ≤ cs.length := by
  unfold scanSign
  split <;> simp

theorem scanExponent_length_le {cs : List Char} {exponent : Option (Bool × List Digit)}
    {rest : List Char} (h : scanExponent cs = some (exponent, rest)) :
    rest.length ≤ cs.length := by
  unfold scanExponent at h
  split at h
  · next c cs =>
      have := scanSign_length_le cs
      have := takeDigits_length_le (scanSign cs).2
      split at h
      · simp only [Option.ite_none_left_eq_some, Option.some.injEq, Prod.mk.injEq] at h
        obtain ⟨_, _, rfl⟩ := h
        simp only [List.length_cons]
        omega
      · simp_all
  · simp_all

theorem scanUnsigned_length_lt {negative : Bool} {cs : List Char} {number : Number}
    {rest : List Char} (h : scanUnsigned negative cs = some (number, rest)) :
    rest.length < cs.length := by
  have bound := takeDigits_length_le cs
  unfold scanUnsigned at h
  simp only [Option.ite_none_left_eq_some, Option.bind_eq_bind, Option.bind_eq_some_iff,
    Prod.exists] at h
  obtain ⟨some_digit, fraction, rest1, h1, exponent, rest2, h2, h3⟩ := h
  have := scanFraction_length_le h1
  have := scanExponent_length_le h2
  have : 0 < (takeDigits cs).1.length := by
    cases hd : (takeDigits cs).1 with
    | nil => simp [hd] at some_digit
    | cons => simp
  simp only [Option.pure_def, Option.some.injEq, Prod.mk.injEq] at h3
  obtain ⟨_, rfl⟩ := h3
  omega

theorem scanNumber_length_lt {cs : List Char} {number : Number} {rest : List Char}
    (h : scanNumber cs = some (number, rest)) : rest.length < cs.length := by
  unfold scanNumber at h
  split at h
  · have := scanUnsigned_length_lt h
    simp only [List.length_cons]
    omega
  · exact scanUnsigned_length_lt h

/-! ## Tokens -/

/-- The token at the front of a text that does not start with a blank. -/
def scanToken : List Char → Option (Token × List Char)
  | '[' :: cs => some (.openArray, cs)
  | ']' :: cs => some (.closeArray, cs)
  | '\x7b' :: cs => some (.openObject, cs)
  | '\x7d' :: cs => some (.closeObject, cs)
  | ',' :: cs => some (.comma, cs)
  | ':' :: cs => some (.colon, cs)
  | 'n' :: 'u' :: 'l' :: 'l' :: cs => some (.null, cs)
  | 't' :: 'r' :: 'u' :: 'e' :: cs => some (.bool true, cs)
  | 'f' :: 'a' :: 'l' :: 's' :: 'e' :: cs => some (.bool false, cs)
  | '"' :: cs => (scanText .plain cs).map fun scanned =>
      (.text (joinHalves scanned.1), scanned.2)
  | cs => (scanNumber cs).map fun scanned => (.number scanned.1, scanned.2)

theorem scanToken_length_lt {cs : List Char} {token : Token} {rest : List Char}
    (h : scanToken cs = some (token, rest)) : rest.length < cs.length := by
  unfold scanToken at h
  split at h <;> simp only [Option.some.injEq, Prod.mk.injEq, Option.map_eq_some_iff,
    Prod.exists] at h
  case h_10 =>
    obtain ⟨symbols, rest', hs, _, rfl⟩ := h
    have := scanText_length_lt hs
    simp only [List.length_cons]
    omega
  case h_11 =>
    obtain ⟨number, rest', hs, _, rfl⟩ := h
    exact scanNumber_length_lt hs
  all_goals
    obtain ⟨_, rfl⟩ := h
    simp only [List.length_cons]
    omega

/-- The tokens of a text, if it consists of tokens and blanks. -/
def tokens? : List Char → Option (List Token)
  | [] => some []
  | c :: cs =>
      if isSpace c then tokens? cs
      else
        match _h : scanToken (c :: cs) with
        | none => none
        | some (token, rest) => (tokens? rest).map (token :: ·)
termination_by cs => cs.length
decreasing_by
  · simp
  · exact scanToken_length_lt _h

end Json

end TextMusic
