/-
Singles as numbers.  The number that a finite single is written as is read as that single:
its digits are the significand and the power of ten of the shortest decimal, or of it with
zeros behind, and from these the single is read.
-/
import Mathlib.Tactic.Positivity
import TextMusic.Config.Text
import TextMusic.Proofs.RoundTrip
import TextMusic.Proofs.Scaling

namespace TextMusic

open Json

/-! ## Digits -/

theorem digitsValue_append (digits more : List Digit) :
    digitsValue (digits ++ more) =
      digitsValue digits * 10 ^ more.length + digitsValue more := by
  induction more using List.reverseRecOn with
  | nil => simp [digitsValue]
  | append_singleton more digit ih =>
      rw [← List.append_assoc, digitsValue_append_singleton,
        digitsValue_append_singleton, ih, List.length_append,
        List.length_singleton, Nat.pow_succ]
      ring

theorem digitsValue_cons (digit : Digit) (digits : List Digit) :
    digitsValue (digit :: digits) =
      digit.val * 10 ^ digits.length + digitsValue digits := by
  have hdigit : digitsValue [digit] = digit.val := by
    rw [digitsValue, List.foldl_cons, List.foldl_nil, Nat.mul_zero, Nat.zero_add]
  rw [← List.singleton_append, digitsValue_append, hdigit]

theorem digitsValue_zeros (count : Nat) :
    digitsValue (List.replicate count Digit.zero) = 0 := by
  induction count with
  | zero => rfl
  | succ count ih =>
      rw [List.replicate_succ, digitsValue_cons, ih]
      exact Nat.zero_mul _

theorem digitsValue_lt (digits : List Digit) :
    digitsValue digits < 10 ^ digits.length := by
  induction digits with
  | nil => exact Nat.one_pos
  | cons digit digits ih =>
      have hdigit :=
        Nat.mul_le_mul_right (10 ^ digits.length) (Nat.le_of_lt_succ digit.isLt)
      rw [digitsValue_cons, List.length_cons, Nat.pow_succ]
      omega

namespace Json

/-- A digit may be counted with the digits before it or with those behind it. -/
theorem pushed_eq (value : Nat) (digit : Digit) (digits : List Digit) :
    value * 10 ^ (digit :: digits).length + digitsValue (digit :: digits) =
      (value * 10 + digit.val) * 10 ^ digits.length + digitsValue digits := by
  rw [digitsValue_cons, List.length_cons, Nat.pow_succ]
  ring

theorem push?_eq {value : Nat} (power : Int) {digit : Digit} {digits : List Digit}
    (hroom : (value * 10 + digit.val) * 10 ^ digits.length +
      digitsValue digits < 2 ^ 64) :
    Scientific.push? ⟨value, power⟩ digit = some (value * 10 + digit.val) := by
  have hpower := Nat.le_mul_of_pos_right (value * 10 + digit.val)
    (Nat.pow_pos (n := digits.length) (show 0 < 10 by decide))
  have hpush : value * 10 + digit.val < 2 ^ 64 := by omega
  exact if_pos hpush

theorem takeWhole_eq {value : Nat} {power : Int} {digits : List Digit}
    (hroom : value * 10 ^ digits.length + digitsValue digits < 2 ^ 64) :
    Scientific.takeWhole ⟨value, power⟩ digits =
      ⟨value * 10 ^ digits.length + digitsValue digits, power⟩ := by
  induction digits generalizing value with
  | nil => simp [Scientific.takeWhole, digitsValue]
  | cons digit digits ih =>
      rw [pushed_eq] at hroom ⊢
      have hpushed := push?_eq power hroom
      rw [Scientific.takeWhole, hpushed]
      exact ih hroom

theorem takeFraction_eq {value : Nat} {power : Int} {digits : List Digit}
    (hroom : value * 10 ^ digits.length + digitsValue digits < 2 ^ 64) :
    Scientific.takeFraction ⟨value, power⟩ digits =
      ⟨value * 10 ^ digits.length + digitsValue digits, power - digits.length⟩ := by
  induction digits generalizing value power with
  | nil => simp [Scientific.takeFraction, digitsValue]
  | cons digit digits ih =>
      rw [pushed_eq] at hroom ⊢
      have hpushed := push?_eq power hroom
      have hpower : power - (digit :: digits).length = power - 1 - digits.length := by
        rw [List.length_cons]
        omega
      rw [Scientific.takeFraction, hpushed, hpower]
      exact ih hroom

/-- The significand of digits on both sides of a point. -/
theorem takeFraction_takeWhole {whole fraction : List Digit}
    (hroom : digitsValue (whole ++ fraction) < 2 ^ 64) :
    (Scientific.takeWhole ⟨0, 0⟩ whole).takeFraction fraction =
      ⟨digitsValue (whole ++ fraction), -fraction.length⟩ := by
  rw [digitsValue_append] at hroom ⊢
  have hwhole : digitsValue whole < 2 ^ 64 := by
    have hpower := Nat.le_mul_of_pos_right (digitsValue whole)
      (Nat.pow_pos (n := fraction.length) (show 0 < 10 by decide))
    omega
  rw [takeWhole_eq (by rwa [Nat.zero_mul, Nat.zero_add]), Nat.zero_mul, Nat.zero_add,
    takeFraction_eq hroom, zero_sub]

/-! ## The spelling of a decimal -/

/-- What a decimal is spelled as: a number with a point or a power of ten, whose digits
are read as a significand. -/
structure Number.Renders (number : Number) (negative : Bool) (s : Scientific) : Prop where
  negative : number.negative = negative
  legible : number.Legible
  magnitude : number.magnitude? = none
  scientific : number.scientific = s

/-- With a power of ten there is one digit before the point. -/
theorem renders_power {negative : Bool} {n : Nat} {place : Int} (hroom : n < 2 ^ 64)
    (h : isPositional (place + (digitsOf n).length - 1) = false) :
    (Number.ofDecimal negative ⟨n, place⟩).Renders negative ⟨n, place⟩ := by
  have hnil := digitsOf_ne_nil n
  have hlength : 0 < (digitsOf n).length := List.length_pos_of_ne_nil hnil
  have hdigits : (digitsOf n).take 1 ++ (digitsOf n).drop 1 = digitsOf n :=
    List.take_append_drop 1 _
  have hvalue : digitsValue ((digitsOf n).take 1 ++ (digitsOf n).drop 1) = n := by
    rw [hdigits, digitsValue_digitsOf]
  have hscientific := takeFraction_takeWhole (hvalue.trans_lt hroom)
  rw [hvalue, List.length_drop] at hscientific
  have hspelled : Number.ofDecimal negative ⟨n, place⟩ =
      ⟨negative, (digitsOf n).take 1, (digitsOf n).drop 1,
        some (decide (place + (digitsOf n).length - 1 < 0),
          digitsOf (place + (digitsOf n).length - 1).natAbs)⟩ := by
    rw [Number.ofDecimal]
    dsimp only
    rw [h]
    rfl
  rw [hspelled]
  refine ⟨rfl, ⟨?_, ?_, ?_⟩, ?_, ?_⟩
  · intro htake
    have hempty := congrArg List.length htake
    rw [List.length_take, List.length_nil] at hempty
    omega
  · intro _
    rw [List.length_take]
    omega
  · intro below hpower
    exact digitsOf_ne_nil _ (Prod.mk.inj (Option.some.inj hpower)).2
  · rw [Number.magnitude?, Option.isNone_some, Bool.and_false, if_neg Bool.false_ne_true]
  · rw [Number.scientific]
    dsimp only
    rw [hscientific, digitsValue_digitsOf]
    dsimp only
    congr 1
    by_cases hbelow : place + (digitsOf n).length - 1 < 0
    · rw [decide_eq_true hbelow, if_pos rfl]
      omega
    · rw [decide_eq_false hbelow, if_neg Bool.false_ne_true]
      omega

/-- Below the point zeros stand before the digits. -/
theorem renders_below {negative : Bool} {n : Nat} {place : Int} (hroom : n < 2 ^ 64)
    (h : isPositional (place + (digitsOf n).length - 1) = true)
    (hbelow : place + (digitsOf n).length - 1 < 0) :
    (Number.ofDecimal negative ⟨n, place⟩).Renders negative ⟨n, place⟩ := by
  have hspelled : Number.ofDecimal negative ⟨n, place⟩ =
      ⟨negative, [Digit.zero], List.replicate
        (-(place + (digitsOf n).length - 1) - 1).toNat Digit.zero ++
        digitsOf n, none⟩ := by
    rw [Number.ofDecimal]
    dsimp only
    rw [h, if_neg (by decide), if_pos hbelow]
  have hvalue : digitsValue ([Digit.zero] ++ (List.replicate
      (-(place + (digitsOf n).length - 1) - 1).toNat Digit.zero ++ digitsOf n)) = n := by
    rw [← List.append_assoc, digitsValue_append, List.singleton_append,
      ← List.replicate_succ, digitsValue_zeros, digitsValue_digitsOf,
      Nat.zero_mul, Nat.zero_add]
  have hscientific := takeFraction_takeWhole (hvalue.trans_lt hroom)
  rw [hvalue, List.length_append, List.length_replicate] at hscientific
  rw [hspelled]
  refine ⟨rfl,
    ⟨List.cons_ne_nil _ _, fun _ => rfl, fun _ => Option.some_ne_none _ |>.symm⟩, ?_, ?_⟩
  · have hfraction :
        (List.replicate (-(place + (digitsOf n).length - 1) - 1).toNat Digit.zero ++
        digitsOf n).isEmpty = false :=
      List.isEmpty_eq_false_iff.mpr
        (List.append_ne_nil_of_right_ne_nil _ (digitsOf_ne_nil n))
    rw [Number.magnitude?, hfraction, Bool.false_and, if_neg Bool.false_ne_true]
  · rw [Number.scientific]
    dsimp only
    rw [hscientific]
    congr 1
    push_cast
    omega

/-- Whole digits from which zeros follow to the point and no other digits behind it. -/
theorem renders_padded {negative : Bool} {n : Nat} {place : Int} (hn : 0 < n)
    (hplace : 0 ≤ place) (h : isPositional (place + (digitsOf n).length - 1) = true) :
    n * 10 ^ place.toNat < 10 ^ 13 ∧
      (Number.ofDecimal negative ⟨n, place⟩).Renders negative
      ⟨n * 10 ^ (place.toNat + 1), -1⟩ := by
  have hnil := digitsOf_ne_nil n
  have hlength : 0 < (digitsOf n).length := List.length_pos_of_ne_nil hnil
  have hceiling : place + (digitsOf n).length - 1 ≤ 12 := by
    rw [isPositional, Bool.and_eq_true, decide_eq_true_eq, decide_eq_true_eq] at h
    exact h.2
  have hlimit : n * 10 ^ place.toNat < 10 ^ 13 := by
    have hdigits := digitsValue_lt (digitsOf n)
    rw [digitsValue_digitsOf] at hdigits
    calc n * 10 ^ place.toNat < 10 ^ (digitsOf n).length * 10 ^ place.toNat :=
          Nat.mul_lt_mul_of_pos_right hdigits (Nat.pow_pos (by decide))
      _ = 10 ^ ((digitsOf n).length + place.toNat) := (Nat.pow_add _ _ _).symm
      _ ≤ 10 ^ 13 := Nat.pow_le_pow_right (by decide) (by omega)
  refine ⟨hlimit, ?_⟩
  let padded := digitsOf n ++ List.replicate place.toNat Digit.zero
  have hall : (place + (digitsOf n).length - 1 + 1).toNat = padded.length := by
    rw [List.length_append, List.length_replicate]
    omega
  have hspelled : Number.ofDecimal negative ⟨n, place⟩ =
      ⟨negative, padded, [Digit.zero], none⟩ := by
    rw [Number.ofDecimal]
    dsimp only
    rw [h, if_neg (by decide), if_neg (by omega), hall, List.drop_length,
      List.take_length]
    rfl
  have hvalue : digitsValue (padded ++ [Digit.zero]) = n * 10 ^ (place.toNat + 1) := by
    rw [digitsValue_append_singleton, digitsValue_append, digitsValue_zeros,
      digitsValue_digitsOf, List.length_replicate, Nat.pow_succ]
    change 10 * (n * 10 ^ place.toNat + 0) + 0 = _
    ring
  have hroom : digitsValue (padded ++ [Digit.zero]) < 2 ^ 64 := by
    rw [hvalue, Nat.pow_succ, ← Nat.mul_assoc]
    omega
  have hscientific := takeFraction_takeWhole hroom
  rw [hvalue] at hscientific
  rw [hspelled]
  refine ⟨rfl, ⟨?_, ?_, fun _ => (Option.some_ne_none _).symm⟩, rfl, hscientific⟩
  · exact List.append_ne_nil_of_left_ne_nil hnil _
  · intro hzero
    rw [List.head?_append_of_ne_nil _ hnil] at hzero
    exact absurd hzero (head_digitsOf_ne_zero hn)

/-- The point stands between the digits. -/
theorem renders_between {negative : Bool} {n : Nat} {place : Int} (hn : 0 < n)
    (hroom : n < 2 ^ 64) (hplace : place < 0)
    (h : isPositional (place + (digitsOf n).length - 1) = true)
    (habove : ¬ place + (digitsOf n).length - 1 < 0) :
    (Number.ofDecimal negative ⟨n, place⟩).Renders negative ⟨n, place⟩ := by
  have hnil := digitsOf_ne_nil n
  generalize hcount : (place + (digitsOf n).length - 1 + 1).toNat = count
  have hzeros : digitsOf n ++ List.replicate place.toNat Digit.zero = digitsOf n := by
    rw [Int.toNat_eq_zero.mpr hplace.le, List.replicate_zero, List.append_nil]
  have hfraction : ((digitsOf n).drop count).isEmpty = false := by
    rw [List.isEmpty_eq_false_iff, ← List.length_pos_iff, List.length_drop]
    omega
  have hspelled : Number.ofDecimal negative ⟨n, place⟩ =
      ⟨negative, (digitsOf n).take count, (digitsOf n).drop count, none⟩ := by
    rw [Number.ofDecimal]
    dsimp only
    rw [h, if_neg (by decide), if_neg habove, hzeros, hcount, hfraction,
      if_neg Bool.false_ne_true]
  have hvalue : digitsValue ((digitsOf n).take count ++ (digitsOf n).drop count) = n := by
    rw [List.take_append_drop, digitsValue_digitsOf]
  have hscientific := takeFraction_takeWhole (hvalue.trans_lt hroom)
  rw [hvalue, List.length_drop] at hscientific
  rw [hspelled]
  refine ⟨rfl, ⟨?_, ?_, fun _ => (Option.some_ne_none _).symm⟩, ?_, ?_⟩
  · rw [ne_eq, List.take_eq_nil_iff]
    rintro (hcount | hempty)
    · omega
    · exact hnil hempty
  · intro hzero
    rw [List.head?_take, if_neg (by omega)] at hzero
    exact absurd hzero (head_digitsOf_ne_zero hn)
  · rw [Number.magnitude?, hfraction, Bool.false_and, if_neg Bool.false_ne_true]
  · rw [Number.scientific]
    dsimp only
    rw [hscientific]
    congr 1
    omega

/-- A positive decimal is spelled with its own digits, or with zeros behind them. -/
theorem renders_ofDecimal (negative : Bool) {n : Nat} {place : Int} (hn : 0 < n)
    (hroom : n < 2 ^ 64) :
    (Number.ofDecimal negative ⟨n, place⟩).Renders negative ⟨n, place⟩ ∨
    (0 ≤ place ∧ n * 10 ^ place.toNat < 10 ^ 13 ∧
      (Number.ofDecimal negative ⟨n, place⟩).Renders negative
        ⟨n * 10 ^ (place.toNat + 1), -1⟩) := by
  cases h : isPositional (place + (digitsOf n).length - 1) with
  | false => exact .inl (renders_power hroom h)
  | true =>
      by_cases hplace : 0 ≤ place
      · exact .inr ⟨hplace, renders_padded hn hplace h⟩
      · by_cases hbelow : place + (digitsOf n).length - 1 < 0
        · exact .inl (renders_below hroom h hbelow)
        · exact .inl (renders_between hn hroom (not_le.mp hplace) h hbelow)

end Json

/-! ## Singles read from their decimals -/

/-- A significand and a power of ten from which a single without its sign is read. -/
def Dyadic.IsReadFrom (parts : Dyadic) (s : Scientific) : Prop :=
  s.toDouble?.map narrow = some (Float32.ofBits (UInt32.ofNat parts.bits))

/-- The single is read from its shortest decimal, also where zeros follow the digits. -/
structure Dyadic.IsReadBack (parts : Dyadic) : Prop where
  positive : 0 < parts.shortest.coefficient
  bits : parts.shortest.coefficient < 2 ^ 53
  own : parts.IsReadFrom ⟨parts.shortest.coefficient, parts.shortest.exponent⟩
  padded : 0 ≤ parts.shortest.exponent →
    parts.shortest.coefficient * 10 ^ parts.shortest.exponent.toNat < 10 ^ 13 →
      parts.IsReadFrom
        ⟨parts.shortest.coefficient * 10 ^ (parts.shortest.exponent.toNat + 1), -1⟩

/-! ### Powers of two -/

def Dyadic.readsFrom (parts : Dyadic) (s : Scientific) : Bool :=
  s.toDouble?.map (fun x => (narrow x).toBits) ==
    some (Float32.ofBits (UInt32.ofNat parts.bits)).toBits

theorem Dyadic.isReadFrom_of_readsFrom {parts : Dyadic} {s : Scientific}
    (h : parts.readsFrom s = true) : parts.IsReadFrom s := by
  rw [readsFrom, beq_iff_eq, Option.map_eq_some_iff] at h
  obtain ⟨x, hx, hbits⟩ := h
  rw [IsReadFrom, hx, Option.map_some, Single.eq_of_toBits hbits]

def Dyadic.readsBack (parts : Dyadic) : Bool :=
  let decimal := parts.shortest
  0 < decimal.coefficient && decimal.coefficient < 2 ^ 53 &&
    parts.readsFrom ⟨decimal.coefficient, decimal.exponent⟩ &&
    (decimal.exponent < 0 ||
      10 ^ 13 ≤ decimal.coefficient * 10 ^ decimal.exponent.toNat ||
      parts.readsFrom ⟨decimal.coefficient * 10 ^ (decimal.exponent.toNat + 1), -1⟩)

theorem readsBack_upTo : ∀ above : Nat, above < 253 →
    Dyadic.readsBack ⟨false, 2 ^ 23, (above : Int) - 148⟩ = true := by
  decide +kernel

/-- The neighbour below a power of two lies nearer than the one above, and each of them is
read back. -/
theorem isReadBack_of_irregular {parts : Dyadic} (hmantissa : parts.mantissa = 2 ^ 23)
    (hfloor : -149 < parts.exponent) (hceiling : parts.exponent ≤ 104) :
    parts.IsReadBack := by
  obtain ⟨negative, mantissa, exponent⟩ := parts
  dsimp only at hmantissa hfloor hceiling
  subst hmantissa
  obtain ⟨above, rfl⟩ : ∃ above : Nat, exponent = above - 148 :=
    ⟨(exponent + 148).toNat, by omega⟩
  have hpositive : Dyadic.IsReadBack ⟨false, 2 ^ 23, (above : Int) - 148⟩ := by
    have hreads := readsBack_upTo above (by omega)
    simp only [Dyadic.readsBack, Bool.and_eq_true, Bool.or_eq_true, decide_eq_true_eq]
      at hreads
    obtain ⟨⟨⟨hcoefficient, hbits⟩, hown⟩, hpadded⟩ := hreads
    refine ⟨hcoefficient, hbits, Dyadic.isReadFrom_of_readsFrom hown, ?_⟩
    intro hplace hlimit
    rcases hpadded with (hbelow | hlarge) | hpadded
    · omega
    · omega
    · exact Dyadic.isReadFrom_of_readsFrom hpadded
  exact ⟨hpositive.positive, hpositive.bits, hpositive.own, hpositive.padded⟩

/-! ### Other singles -/

namespace Dyadic.Canonical

variable {parts : Dyadic} (h : parts.Canonical)

include h

theorem isReadFrom_of_attracts {s : Scientific} {x : Float} {value : ℚ} {rounded : Nat}
    {lowest : Int} (hs : s.toDouble? = some x)
    (hx : Double.IsNearest x value rounded lowest)
    (hattracts : parts.Attracts (rounded * 2 ^ lowest)) : parts.IsReadFrom s := by
  obtain ⟨mantissa, exponent, hnormal, hequal⟩ := hx.normal
  rw [← hequal] at hattracts
  rw [IsReadFrom, hs, Option.map_some, h.narrow_eq hnormal hattracts]

theorem isReadBack : parts.IsReadBack := by
  obtain ⟨n, place, hshortest, hattracts, hnear, hfloor, hceiling, hbits⟩ :=
    h.exists_shortest
  have hn : 0 < n := by
    rw [Nat.pos_iff_ne_zero]
    rintro rfl
    have hone : (1 : ℚ) ≤ parts.mantissa := by exact_mod_cast h.positive
    have hpower : (0 : ℚ) < 2 ^ parts.exponent := zpow_pos two_pos _
    have habove := (abs_le.mp hattracts.near).1
    rw [Nat.cast_zero, zero_mul] at habove
    nlinarith only [habove, hone, hpower]
  have hcoefficient : parts.shortest.coefficient = n := by rw [hshortest]
  have hexponent : parts.shortest.exponent = place := by rw [hshortest]
  refine ⟨hcoefficient.symm ▸ hn, hcoefficient.symm ▸ hbits, ?_, ?_⟩
  · rw [hcoefficient, hexponent]
    obtain ⟨field, rfl⟩ : ∃ field : Nat, place = field - 53 :=
      ⟨(place + 53).toNat, by omega⟩
    obtain ⟨x, rounded, lowest, hx, hnearest⟩ := exists_toDouble? hn hbits
      (show field < 93 by omega)
    exact h.isReadFrom_of_attracts hx hnearest
      (h.attracts_scaled hn (by omega) hattracts hnear hnearest)
  · rw [hcoefficient, hexponent]
    intro hplace hlimit
    obtain ⟨zeros, rfl⟩ : ∃ zeros : Nat, place = zeros := Int.eq_ofNat_of_zero_le hplace
    rw [Int.toNat_natCast] at hlimit ⊢
    have hpadded : n * 10 ^ (zeros + 1) = n * 10 ^ zeros * 10 := by
      rw [Nat.pow_succ, Nat.mul_assoc]
    have hpositive : 0 < n * 10 ^ zeros := Nat.mul_pos hn (Nat.pow_pos (by decide))
    obtain ⟨x, rounded, lowest, hx, hnearest⟩ := exists_toDouble?
      (show 0 < n * 10 ^ (zeros + 1) by omega) (by omega) (show 52 < 93 by decide)
    -- the quotient by ten is the whole number again, which is not rounded
    have htenth : scale 52 = 1 / 10 := by
      have hpower : roundedPower 1 = 10 := by decide
      rw [scale, scaleNumerator, scaleDenominator, if_pos (by decide),
        if_pos (by decide), hpower]
      norm_num
    have hvalue : ((n * 10 ^ (zeros + 1) : Nat) : ℚ) * scale 52 =
        (n * 10 ^ zeros : Nat) * 2 ^ (0 : Int) := by
      rw [hpadded, htenth]
      push_cast
      ring
    rw [hvalue] at hnearest
    refine h.isReadFrom_of_attracts hx hnearest ?_
    rw [hnearest.exact (by omega), zpow_zero, mul_one]
    rw [zpow_natCast] at hattracts
    exact_mod_cast hattracts

end Dyadic.Canonical

/-! ## Singles as values -/

/-- A number that spells a significand is read by way of a double. -/
theorem Json.Number.Renders.toSingle? {number : Number} {parts : Dyadic} {s : Scientific}
    (h : number.Renders parts.negative s) (hs : parts.IsReadFrom s) :
    number.toSingle? =
      some (negateIf parts.negative (Float32.ofBits (UInt32.ofNat parts.bits))) := by
  obtain ⟨x, hx, hnarrow⟩ := Option.map_eq_some_iff.mp hs
  rw [Number.toSingle?, h.magnitude, h.scientific, h.negative, hx,
    Option.map_some, hnarrow]

/-- Zero is spelled with a digit on each side of the point. -/
theorem renders_zero (negative : Bool) :
    (Number.ofDecimal negative ⟨0, 0⟩).Renders negative ⟨0, -1⟩ := by
  have hspelled : Number.ofDecimal negative ⟨0, 0⟩ =
      ⟨negative, [Digit.zero], [Digit.zero], none⟩ := by
    have hdigits : digitsOf 0 = [Digit.zero] := by
      rw [digitsOf, if_pos (by decide)]
      rfl
    rw [Number.ofDecimal]
    dsimp only
    rw [hdigits]
    rfl
  rw [hspelled]
  exact ⟨rfl, ⟨List.cons_ne_nil _ _, fun _ => rfl, fun _ => (Option.some_ne_none _).symm⟩,
    rfl, rfl⟩

theorem isReadFrom_zero (negative : Bool) :
    Dyadic.IsReadFrom ⟨negative, 0, -149⟩ ⟨0, -1⟩ := by
  apply Dyadic.isReadFrom_of_readsFrom
  revert negative
  decide +kernel

/-- The number that the parts of a single are written as can be read, and is read as the
single. -/
theorem Single.IsMadeOf.exists_renders {x : Float32} {parts : Dyadic}
    (h : IsMadeOf x parts) :
    ∃ s, (Number.ofDecimal parts.negative parts.shortest).Renders parts.negative s ∧
      parts.IsReadFrom s := by
  have hmantissa := h.mantissa_lt
  have hfloor := h.floor
  have hceiling := h.ceiling
  by_cases hzero : parts.mantissa = 0
  · have hshortest : parts.shortest = ⟨0, 0⟩ := if_pos hzero
    have hlowest : parts.exponent = -149 := by
      rcases h.canonical with hnormal | hlowest
      · omega
      · exact hlowest
    have hparts : parts = ⟨parts.negative, 0, -149⟩ := by rw [← hzero, ← hlowest]
    rw [hshortest]
    refine ⟨_, renders_zero parts.negative, ?_⟩
    rw [hparts]
    exact isReadFrom_zero parts.negative
  · have hback : parts.IsReadBack := by
      by_cases hirregular : parts.mantissa = 2 ^ 23 ∧ -149 < parts.exponent
      · exact isReadBack_of_irregular hirregular.1 hirregular.2 hceiling
      · have hregular : parts.Canonical :=
          ⟨⟨Nat.pos_of_ne_zero hzero, hmantissa, hfloor, hceiling, by omega⟩, h.canonical⟩
        exact hregular.isReadBack
    have hbits := hback.bits
    rcases renders_ofDecimal parts.negative hback.positive (by omega) with hown | hpadded
    · exact ⟨_, hown, hback.own⟩
    · exact ⟨_, hpadded.2.2, hback.padded hpadded.1 hpadded.2.1⟩

namespace Json

theorem legible_ofSingle (x : Float32) : (ofSingle x).Legible := by
  rw [ofSingle]
  cases hparts : Dyadic.ofSingle? x with
  | none => exact .null
  | some parts =>
      obtain ⟨s, hrenders, -⟩ := (Single.isMadeOf hparts).exists_renders
      exact .number hrenders.legible

/-- A finite single is read back from what it is written as; of the others nothing is
left. -/
theorem single?_ofSingle (x : Float32) :
    (ofSingle x).single? = if x.isFinite then some x else none := by
  rw [ofSingle, ← Single.isSome_ofSingle?]
  cases hparts : Dyadic.ofSingle? x with
  | none => rfl
  | some parts =>
      have hmade := Single.isMadeOf hparts
      obtain ⟨s, hrenders, hs⟩ := hmade.exists_renders
      exact (hrenders.toSingle? hs).trans (congrArg some hmade.eq.symm)

end Json

end TextMusic
