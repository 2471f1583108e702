/-
The bits of floats.  Core's model packs a sign, an exponent and a mantissa into bits; here
the bits are counted, so that packing and unpacking are arithmetic on natural numbers, and
the parts of a double or a single are told from its bits and tell them.
-/
import Mathlib.Tactic.Ring
import Mathlib.Tactic.Linarith
import TextMusic.Json.Single

namespace TextMusic

open Float.Model UnpackedFloat

namespace Packed

variable {spec : Format}

theorem toNat_packComponents (sign : Sign) (exponent : BitVec spec.exponentBits)
    (mantissa : BitVec spec.mantissaBitsWithoutImplicit) :
    (packComponents spec sign exponent mantissa).toNat =
      (sign.toBitVec.toNat * 2 ^ spec.exponentBits + exponent.toNat) *
        2 ^ spec.mantissaBitsWithoutImplicit + mantissa.toNat := by
  have happend : ∀ {v w : Nat} (high : BitVec v) (low : BitVec w),
      (high ++ low).toNat = high.toNat * 2 ^ w + low.toNat := by
    intro v w high low
    rw [BitVec.toNat_append, ← Nat.shiftLeft_add_eq_or_of_lt low.isLt, Nat.shiftLeft_eq]
  rw [packComponents, happend, happend]

theorem toNat_unpackMantissa (bits : BitVec spec.numBits) :
    (unpackMantissa bits).toNat = bits.toNat % 2 ^ spec.mantissaBitsWithoutImplicit := by
  have hwidth := spec.hm
  rw [unpackMantissa, BitVec.toNat_cast, BitVec.extractLsb_toNat, Nat.shiftRight_zero]
  congr 2
  omega

theorem toNat_unpackExponent (bits : BitVec spec.numBits) :
    (unpackExponent bits).toNat =
      bits.toNat / 2 ^ spec.mantissaBitsWithoutImplicit % 2 ^ spec.exponentBits := by
  have hwidth := spec.he
  rw [unpackExponent, BitVec.toNat_cast, BitVec.extractLsb_toNat,
    Nat.shiftRight_eq_div_pow]
  congr 2
  omega

theorem toNat_unpackSign (bits : BitVec spec.numBits) :
    (unpackSign bits).toNat =
      bits.toNat / 2 ^ (spec.mantissaBitsWithoutImplicit + spec.exponentBits) := by
  have hbits := bits.isLt
  delta unpackSign
  rw [BitVec.toNat_cast, BitVec.extractLsb_toNat, Nat.shiftRight_eq_div_pow]
  rw [Nat.mod_eq_of_lt]
  apply Nat.div_lt_of_lt_mul
  rw [← Nat.pow_add]
  refine hbits.trans_le (Nat.pow_le_pow_right two_pos ?_)
  dsimp only [Format.numBits]
  omega

/-- The bits of a finite number: above the place of the lowest digit the mantissa is
counted on, whether its highest bit is there or not. -/
theorem toNat_pack_finite {sign : Sign} {mantissa place : Nat} {exponent : Int}
    (hpositive : 0 < mantissa)
    (hmantissa : mantissa < 2 ^ (spec.mantissaBitsWithoutImplicit + 1))
    (hplace : exponent + spec.exponentBias + spec.mantissaBitsWithoutImplicit = place + 1)
    (hfinite : place + 2 < 2 ^ spec.exponentBits)
    (hcanonical : 2 ^ spec.mantissaBitsWithoutImplicit ≤ mantissa ∨ place = 0) :
    (UnpackedFloat.pack spec (.finite sign mantissa exponent hpositive)).toNat =
      (sign.toBitVec.toNat * 2 ^ spec.exponentBits + place) *
        2 ^ spec.mantissaBitsWithoutImplicit + mantissa := by
  have hbiased : (exponent + spec.exponentBias + spec.mantissaBitsWithoutImplicit).toNat =
      place + 1 := by omega
  delta UnpackedFloat.pack
  dsimp only
  rw [hbiased, if_neg (by omega)]
  by_cases hnormal : 2 ^ spec.mantissaBitsWithoutImplicit ≤ mantissa
  · have hlog : mantissa.log2 = spec.mantissaBitsWithoutImplicit :=
      (Nat.log2_eq_iff hpositive.ne').mpr ⟨hnormal, hmantissa⟩
    have hmod : mantissa % 2 ^ spec.mantissaBitsWithoutImplicit =
        mantissa - 2 ^ spec.mantissaBitsWithoutImplicit := by
      rw [Nat.mod_eq_sub_mod hnormal, Nat.mod_eq_of_lt]
      rw [Nat.pow_succ] at hmantissa
      omega
    have hbits : mantissa.log2 + 1 = spec.mantissaBits := by
      rw [hlog]
      exact Nat.add_comm _ _
    rw [if_pos hbits, toNat_packComponents,
      BitVec.toNat_ofNat, BitVec.toNat_ofNat, Nat.mod_eq_of_lt (by omega), hmod]
    have hsplit : mantissa = mantissa - 2 ^ spec.mantissaBitsWithoutImplicit +
        2 ^ spec.mantissaBitsWithoutImplicit := (Nat.sub_add_cancel hnormal).symm
    generalize mantissa - 2 ^ spec.mantissaBitsWithoutImplicit = rest at hsplit
    rw [hsplit]
    ring
  · obtain rfl : place = 0 := hcanonical.resolve_left hnormal
    have hlog : mantissa.log2 < spec.mantissaBitsWithoutImplicit :=
      (Nat.log2_lt hpositive.ne').mpr (Nat.lt_of_not_le hnormal)
    have hbits : ¬ mantissa.log2 + 1 = spec.mantissaBits := by
      change ¬ mantissa.log2 + 1 = 1 + spec.mantissaBitsWithoutImplicit
      omega
    rw [if_neg hbits, toNat_packComponents, BitVec.toNat_ofNat,
      BitVec.toNat_ofNat, Nat.mod_eq_of_lt (Nat.lt_of_not_le hnormal), Nat.zero_mod]

/-- What is unpacked where the exponent is neither the lowest nor the highest. -/
theorem unpack_normal {bits : BitVec spec.numBits}
    (hlow : (unpackExponent bits).toNat ≠ 0)
    (hhigh : (unpackExponent bits).toNat + 1 ≠ 2 ^ spec.exponentBits) :
    ∃ hpositive, UnpackedFloat.unpack spec bits = .finite (.ofBitVec (unpackSign bits))
      (2 ^ spec.mantissaBitsWithoutImplicit + (unpackMantissa bits).toNat)
      ((unpackExponent bits).toNat -
        (spec.exponentBias + spec.mantissaBitsWithoutImplicit))
      hpositive := by
  have hmantissa : (1#1 ++ unpackMantissa bits).toNat =
      2 ^ spec.mantissaBitsWithoutImplicit + (unpackMantissa bits).toNat := by
    rw [BitVec.toNat_append, ← Nat.shiftLeft_add_eq_or_of_lt (unpackMantissa bits).isLt,
      Nat.shiftLeft_eq]
    exact congrArg (· + _) (Nat.one_mul _)
  have hlowest : unpackExponent bits ≠ 0#_ := fun h => hlow (by rw [h]; rfl)
  have hhighest : unpackExponent bits ≠ -1#_ := by
    intro h
    apply hhigh
    rw [h, BitVec.neg_one_eq_allOnes, BitVec.toNat_allOnes]
    exact Nat.sub_add_cancel Nat.one_le_two_pow
  refine ⟨by omega, ?_⟩
  delta UnpackedFloat.unpack
  dsimp only
  rw [if_neg hhighest, if_neg hlowest]
  congr 1

/-- The lowest exponent is not the highest one. -/
theorem lowest_of_toNat_eq_zero {bits : BitVec spec.numBits}
    (hlow : (unpackExponent bits).toNat = 0) :
    unpackExponent bits = 0#_ ∧ unpackExponent bits ≠ -1#_ := by
  have hone := Nat.one_lt_two_pow spec.he.ne'
  refine ⟨BitVec.eq_of_toNat_eq (hlow.trans rfl), ?_⟩
  intro h
  rw [h, BitVec.neg_one_eq_allOnes, BitVec.toNat_allOnes] at hlow
  omega

theorem unpack_subnormal {bits : BitVec spec.numBits}
    (hlow : (unpackExponent bits).toNat = 0)
    (hpositive : 0 < (unpackMantissa bits).toNat) :
    UnpackedFloat.unpack spec bits = .finite (.ofBitVec (unpackSign bits))
      (unpackMantissa bits).toNat
      (0 - (spec.exponentBias + spec.mantissaBitsWithoutImplicit : Int) + 1)
      hpositive := by
  obtain ⟨hlowest, hhighest⟩ := lowest_of_toNat_eq_zero hlow
  have hmantissa : unpackMantissa bits ≠ 0#_ := fun h => hpositive.ne' (by rw [h]; rfl)
  delta UnpackedFloat.unpack
  dsimp only
  rw [if_neg hhighest, if_pos hlowest, dif_neg hmantissa]
  congr 2
  rw [hlow]
  rfl

theorem unpack_zero {bits : BitVec spec.numBits} (hlow : (unpackExponent bits).toNat = 0)
    (hzero : (unpackMantissa bits).toNat = 0) :
    UnpackedFloat.unpack spec bits = .zero (.ofBitVec (unpackSign bits)) := by
  obtain ⟨hlowest, hhighest⟩ := lowest_of_toNat_eq_zero hlow
  have hmantissa : unpackMantissa bits = 0#_ := BitVec.eq_of_toNat_eq (hzero.trans rfl)
  delta UnpackedFloat.unpack
  dsimp only
  rw [if_neg hhighest, if_pos hlowest, dif_pos hmantissa]

/-- What is unpacked from the bits of a finite number is a magnitude with a sign, and with
either sign it is packed to the same bits below that of the sign. -/
theorem exists_magnitude (hwidth : 2 ≤ spec.exponentBits) {bits : BitVec spec.numBits}
    (hfinite : (unpackExponent bits).toNat + 1 ≠ 2 ^ spec.exponentBits) :
    ∃ signed : Sign → UnpackedFloat,
      UnpackedFloat.unpack spec bits = signed (.ofBitVec (unpackSign bits)) ∧
      (∀ sign, (signed sign).neg = signed (-sign)) ∧
      ∀ sign, (UnpackedFloat.pack spec (signed sign)).toNat =
        (sign.toBitVec.toNat * 2 ^ spec.exponentBits + (unpackExponent bits).toNat) *
          2 ^ spec.mantissaBitsWithoutImplicit + (unpackMantissa bits).toNat := by
  have hmantissa := (unpackMantissa bits).isLt
  have hexponent := (unpackExponent bits).isLt
  by_cases hlow : (unpackExponent bits).toNat = 0
  · by_cases hzero : (unpackMantissa bits).toNat = 0
    · refine ⟨.zero, unpack_zero hlow hzero, fun _ => rfl, fun sign => ?_⟩
      rw [hlow, hzero]
      exact toNat_packComponents sign 0 0
    · have hpositive : 0 < (unpackMantissa bits).toNat := Nat.pos_of_ne_zero hzero
      have hfour : 2 ^ 2 ≤ 2 ^ spec.exponentBits := Nat.pow_le_pow_right two_pos hwidth
      refine ⟨fun sign => .finite sign _ _ hpositive, unpack_subnormal hlow hpositive,
        fun _ => rfl, fun sign => ?_⟩
      rw [hlow]
      refine toNat_pack_finite hpositive ?_ ?_ ?_ (.inr rfl)
      · rw [Nat.pow_succ]
        omega
      · omega
      · omega
  · obtain ⟨hpositive, hunpack⟩ := unpack_normal hlow hfinite
    refine ⟨fun sign => .finite sign _ _ hpositive, hunpack, fun _ => rfl, fun sign => ?_⟩
    obtain ⟨place, hplace⟩ := Nat.exists_eq_add_one_of_ne_zero hlow
    have hbiased : ((unpackExponent bits).toNat : Int) -
        (spec.exponentBias + spec.mantissaBitsWithoutImplicit) + spec.exponentBias +
        spec.mantissaBitsWithoutImplicit = place + 1 := by omega
    refine (toNat_pack_finite hpositive (by rw [Nat.pow_succ]; omega) hbiased
      (by omega) (.inl (Nat.le_add_right _ _))).trans ?_
    rw [hplace]
    ring

/-- Only the highest exponent is not that of a finite number. -/
theorem isFinite_unpack (bits : BitVec spec.numBits) :
    (UnpackedFloat.unpack spec bits).isFinite = true ↔
      (unpackExponent bits).toNat + 1 ≠ 2 ^ spec.exponentBits := by
  by_cases hhigh : (unpackExponent bits).toNat + 1 = 2 ^ spec.exponentBits
  · have hhighest : unpackExponent bits = -1#_ := by
      apply BitVec.eq_of_toNat_eq
      rw [BitVec.neg_one_eq_allOnes, BitVec.toNat_allOnes]
      omega
    have hspecial : (UnpackedFloat.unpack spec bits).isFinite = false := by
      delta UnpackedFloat.unpack
      dsimp only
      rw [if_pos hhighest]
      split <;> rfl
    rw [hspecial]
    exact iff_of_false Bool.false_ne_true (not_not.mpr hhigh)
  · refine iff_of_true ?_ hhigh
    by_cases hlow : (unpackExponent bits).toNat = 0
    · by_cases hzero : (unpackMantissa bits).toNat = 0
      · rw [unpack_zero hlow hzero]
        rfl
      · rw [unpack_subnormal hlow (Nat.pos_of_ne_zero hzero)]
        rfl
    · obtain ⟨_, hunpack⟩ := unpack_normal hlow hhigh
      rw [hunpack]
      rfl

end Packed

/-! ## Doubles -/

/-- The parts of a double from its bits. -/
theorem Dyadic.ofDouble?_eq {x : Float} {sign field fraction : Nat}
    (hbits : x.toBits.toNat = (sign * 2 ^ 11 + field) * 2 ^ 52 + fraction)
    (hfield : field < 2 ^ 11) (hfraction : fraction < 2 ^ 52) :
    ofDouble? x =
      if field = 2047 then none
      else if field = 0 then some ⟨sign == 1, fraction, -1074⟩
      else some ⟨sign == 1, 2 ^ 52 + fraction, field - 1075⟩ := by
  have hsign : x.toBits.toNat / Nat.pow 2 63 = sign := by
    change x.toBits.toNat / 2 ^ 63 = sign
    omega
  have hmiddle : x.toBits.toNat / Nat.pow 2 52 % Nat.pow 2 11 = field := by
    change x.toBits.toNat / 2 ^ 52 % 2 ^ 11 = field
    omega
  have hrest : x.toBits.toNat % Nat.pow 2 52 = fraction := by
    change x.toBits.toNat % 2 ^ 52 = fraction
    omega
  rw [ofDouble?, hsign, hmiddle, hrest]
  rfl

namespace Double

open Packed

/-- The double is positive and its mantissa has all its 53 bits. -/
structure IsNormal (x : Float) (mantissa : Nat) (exponent : Int) : Prop where
  low : 2 ^ 52 ≤ mantissa
  high : mantissa < 2 ^ 53
  parts : Dyadic.ofDouble? x = some ⟨false, mantissa, exponent⟩

theorem IsNormal.unpack {x : Float} {mantissa : Nat} {exponent : Int}
    (h : IsNormal x mantissa exponent) :
    ∃ hpositive, x.toModel.unpack = .finite .positive mantissa exponent hpositive := by
  have hparts := h.parts
  have hlow := h.low
  let bits : BitVec (Format.numBits .binary64) := x.toModel.toBits.toBitVec
  have hbound : bits.toNat < 2 ^ 64 := bits.isLt
  have hmantissa : (unpackMantissa bits).toNat = bits.toNat % 2 ^ 52 :=
    toNat_unpackMantissa bits
  have hexponent : (unpackExponent bits).toNat = bits.toNat / 2 ^ 52 % 2 ^ 11 :=
    toNat_unpackExponent bits
  have hsign : (unpackSign bits).toNat = bits.toNat / 2 ^ 63 := toNat_unpackSign bits
  have hbits : bits.toNat =
      ((unpackSign bits).toNat * 2 ^ 11 + (unpackExponent bits).toNat) * 2 ^ 52 +
        (unpackMantissa bits).toNat := by omega
  rw [Dyadic.ofDouble?_eq hbits (by omega) (by omega)] at hparts
  by_cases hhighest : (unpackExponent bits).toNat = 2047
  · rw [if_pos hhighest] at hparts
    exact absurd hparts.symm (Option.some_ne_none _)
  rw [if_neg hhighest] at hparts
  by_cases hlowest : (unpackExponent bits).toNat = 0
  · rw [if_pos hlowest, Option.some.injEq, Dyadic.mk.injEq] at hparts
    omega
  rw [if_neg hlowest, Option.some.injEq, Dyadic.mk.injEq, beq_eq_false_iff_ne] at hparts
  obtain ⟨hnegative, rfl, rfl⟩ := hparts
  have hpositive : unpackSign bits = 0#1 := by
    apply BitVec.eq_of_toNat_eq
    change _ = 0
    omega
  obtain ⟨hmantissa', hunpack⟩ :=
    unpack_normal hlowest fun h => hhighest (Nat.succ_injective h)
  refine ⟨hmantissa', hunpack.trans ?_⟩
  rw [hpositive]
  rfl

theorem isNormal_pack {mantissa : Nat} {exponent : Int} (hpositive : 0 < mantissa)
    (hlow : 2 ^ 52 ≤ mantissa) (hhigh : mantissa < 2 ^ 53) (hfloor : -1074 ≤ exponent)
    (hceiling : exponent ≤ 971) :
    IsNormal (.ofModel (.pack (.finite .positive mantissa exponent hpositive))) mantissa
      exponent := by
  refine ⟨hlow, hhigh, ?_⟩
  obtain ⟨place, hplace⟩ : ∃ place : Nat, exponent + 1074 = place :=
    ⟨(exponent + 1074).toNat, by omega⟩
  have hbiased :
      exponent + (Format.exponentBias .binary64 : Nat) + (52 : Nat) = place + 1 := by
    change exponent + 1023 + 52 = _
    omega
  have hbits : (Float.toBits
      (.ofModel (.pack (.finite .positive mantissa exponent hpositive)))).toNat =
        (0 * 2 ^ 11 + place) * 2 ^ 52 + mantissa :=
    toNat_pack_finite hpositive hhigh hbiased (by change _ < 2 ^ 11; omega) (.inl hlow)
  have hparts : (0 * 2 ^ 11 + place) * 2 ^ 52 + mantissa =
    (0 * 2 ^ 11 + (place + 1)) * 2 ^ 52 + (mantissa - 2 ^ 52) := by omega
  rw [Dyadic.ofDouble?_eq (hbits.trans hparts) (by omega) (by omega), if_neg (by omega),
    if_neg (by omega), Option.some.injEq, Dyadic.mk.injEq]
  exact ⟨rfl, by omega, by omega⟩

end Double

/-! ## Singles -/

/-- The parts of a single from its bits. -/
theorem Dyadic.ofSingle?_eq {x : Float32} {sign field fraction : Nat}
    (hbits : x.toBits.toNat = (sign * 2 ^ 8 + field) * 2 ^ 23 + fraction)
    (hfield : field < 2 ^ 8) (hfraction : fraction < 2 ^ 23) :
    ofSingle? x =
      if field = 255 then none
      else if field = 0 then some ⟨sign == 1, fraction, -149⟩
      else some ⟨sign == 1, 2 ^ 23 + fraction, field - 150⟩ := by
  have hsign : x.toBits.toNat / Nat.pow 2 31 = sign := by
    change x.toBits.toNat / 2 ^ 31 = sign
    omega
  have hmiddle : x.toBits.toNat / Nat.pow 2 23 % Nat.pow 2 8 = field := by
    change x.toBits.toNat / 2 ^ 23 % 2 ^ 8 = field
    omega
  have hrest : x.toBits.toNat % Nat.pow 2 23 = fraction := by
    change x.toBits.toNat % 2 ^ 23 = fraction
    omega
  rw [ofSingle?, hsign, hmiddle, hrest]
  rfl

namespace Single

open Packed

theorem eq_of_toBits {x y : Float32} (h : x.toBits = y.toBits) : x = y := by
  obtain ⟨⟨xBits, hx⟩⟩ := x
  obtain ⟨⟨yBits, hy⟩⟩ := y
  obtain rfl : xBits = yBits := h
  rfl

/-- Below the bits of infinity no bits are lost, and a change of the sign is one of its
bit. -/
theorem toNat_toBits_ofBits {bits : UInt32} (h : bits.toNat < singleInfinityBits) :
    (Float32.ofBits bits).toBits.toNat = bits.toNat ∧
      (-Float32.ofBits bits).toBits.toNat = 2 ^ 31 + bits.toNat := by
  let vector : BitVec (Format.numBits .binary32) := bits.toBitVec
  change vector.toNat < 255 * 2 ^ 23 at h
  have hmantissa : (unpackMantissa vector).toNat = vector.toNat % 2 ^ 23 :=
    toNat_unpackMantissa vector
  have hexponent : (unpackExponent vector).toNat = vector.toNat / 2 ^ 23 % 2 ^ 8 :=
    toNat_unpackExponent vector
  have hsign : (unpackSign vector).toNat = vector.toNat / 2 ^ 31 :=
    toNat_unpackSign vector
  have hpositive : unpackSign vector = 0#1 := by
    apply BitVec.eq_of_toNat_eq
    change _ = 0
    omega
  have hhighest : (unpackExponent vector).toNat + 1 ≠ 2 ^ 8 := by omega
  have hwidth : 2 ≤ Format.binary32.exponentBits := by decide
  obtain ⟨signed, hunpack, hneg, hpack⟩ := exists_magnitude hwidth hhighest
  have hunpacked : UnpackedFloat.unpack .binary32 vector = signed .positive :=
    hunpack.trans (by rw [hpositive]; rfl)
  have hbits : (Float32.ofBits bits).toBits = bits := by
    apply UInt32.toNat_inj.mp
    change (UnpackedFloat.pack .binary32 (UnpackedFloat.unpack .binary32 vector)).toNat =
      vector.toNat
    rw [hunpacked, hpack]
    change (0 * 2 ^ 8 + _) * 2 ^ 23 + _ = _
    omega
  refine ⟨congrArg UInt32.toNat hbits, ?_⟩
  change (UnpackedFloat.pack .binary32 (UnpackedFloat.unpack .binary32
    (Float32.ofBits bits).toBits.toBitVec).neg).toNat = 2 ^ 31 + vector.toNat
  rw [hbits, hunpacked, hneg, hpack]
  change (1 * 2 ^ 8 + _) * 2 ^ 23 + _ = _
  omega

/-- The parts of a finite single, and its bits from them. -/
structure IsMadeOf (x : Float32) (parts : Dyadic) : Prop where
  mantissa_lt : parts.mantissa < 2 ^ 24
  floor : -149 ≤ parts.exponent
  ceiling : parts.exponent ≤ 104
  canonical : 2 ^ 23 ≤ parts.mantissa ∨ parts.exponent = -149
  bits : x.toBits.toNat = (if parts.negative then 2 ^ 31 else 0) +
    ((parts.exponent + 149).toNat * 2 ^ 23 + parts.mantissa)

theorem isMadeOf {x : Float32} {parts : Dyadic} (h : Dyadic.ofSingle? x = some parts) :
    IsMadeOf x parts := by
  have hbound : x.toBits.toNat < 2 ^ 32 := x.toBits.toNat_lt
  obtain ⟨sign, hsign⟩ : ∃ sign, x.toBits.toNat / 2 ^ 31 = sign := ⟨_, rfl⟩
  obtain ⟨field, hfield⟩ : ∃ field, x.toBits.toNat / 2 ^ 23 % 2 ^ 8 = field := ⟨_, rfl⟩
  obtain ⟨fraction, hfraction⟩ : ∃ fraction, x.toBits.toNat % 2 ^ 23 = fraction :=
    ⟨_, rfl⟩
  have hbits : x.toBits.toNat = (sign * 2 ^ 8 + field) * 2 ^ 23 + fraction := by omega
  have hnegative : (if (sign == 1) = true then 2 ^ 31 else 0) = sign * 2 ^ 31 := by
    rcases Nat.le_one_iff_eq_zero_or_eq_one.mp (show sign ≤ 1 by omega) with rfl | rfl <;>
      rfl
  rw [Dyadic.ofSingle?_eq hbits (by omega) (by omega)] at h
  by_cases hhighest : field = 255
  · rw [if_pos hhighest] at h
    exact absurd h.symm (Option.some_ne_none _)
  rw [if_neg hhighest] at h
  by_cases hlowest : field = 0
  · rw [if_pos hlowest] at h
    obtain rfl := Option.some.inj h
    have hplace : (-149 + 149 : Int).toNat = 0 := rfl
    refine ⟨by dsimp only; omega, le_rfl, by dsimp only; omega, .inr rfl, ?_⟩
    dsimp only
    rw [hnegative, hplace, hbits, hlowest]
    ring
  · rw [if_neg hlowest] at h
    obtain rfl := Option.some.inj h
    refine ⟨by dsimp only; omega, by dsimp only; omega, by dsimp only; omega,
      .inl (Nat.le_add_right _ _), ?_⟩
    have hplace : ((field : Int) - 150 + 149).toNat = field - 1 := by omega
    obtain ⟨below, rfl⟩ := Nat.exists_eq_add_one_of_ne_zero hlowest
    dsimp only
    rw [hnegative, hplace, hbits, Nat.add_sub_cancel]
    ring

/-- The parts of a finite single tell it. -/
theorem IsMadeOf.eq {x : Float32} {parts : Dyadic} (h : IsMadeOf x parts) :
    x = Json.negateIf parts.negative (Float32.ofBits
      (UInt32.ofNat ((parts.exponent + 149).toNat * 2 ^ 23 + parts.mantissa))) := by
  have hmantissa := h.mantissa_lt
  have hceiling := h.ceiling
  have hbits := h.bits
  generalize hmagnitude : (parts.exponent + 149).toNat * 2 ^ 23 + parts.mantissa =
    magnitude at *
  have hfinite : magnitude < 255 * 2 ^ 23 := by omega
  have hword : (UInt32.ofNat magnitude).toNat = magnitude :=
    UInt32.toNat_ofNat_of_lt' (hfinite.trans (by decide))
  obtain ⟨hpositive, hnegative⟩ := toNat_toBits_ofBits (hword.trans_lt hfinite)
  apply eq_of_toBits
  apply UInt32.toNat_inj.mp
  cases hsign : parts.negative with
  | true => rw [Json.negateIf, if_pos rfl, hnegative, hbits, hsign, if_pos rfl, hword]
  | false =>
      rw [Json.negateIf, if_neg Bool.false_ne_true, hpositive, hbits, hsign,
        if_neg Bool.false_ne_true, hword, Nat.zero_add]

/-- The finite singles are those that have parts. -/
theorem isSome_ofSingle? (x : Float32) : (Dyadic.ofSingle? x).isSome = x.isFinite := by
  let bits : BitVec (Format.numBits .binary32) := x.toModel.toBits.toBitVec
  have hexponent : (unpackExponent bits).toNat = bits.toNat / 2 ^ 23 % 2 ^ 8 :=
    toNat_unpackExponent bits
  have hbound : bits.toNat < 2 ^ 32 := bits.isLt
  have hbits : x.toBits.toNat =
      (bits.toNat / 2 ^ 31 * 2 ^ 8 + (unpackExponent bits).toNat) * 2 ^ 23 +
        bits.toNat % 2 ^ 23 := by
    change bits.toNat = _
    omega
  have hfinite : x.isFinite = true ↔ (unpackExponent bits).toNat + 1 ≠ 2 ^ 8 :=
    isFinite_unpack bits
  rw [Dyadic.ofSingle?_eq hbits (by omega) (by omega), Bool.eq_iff_iff, hfinite]
  split_ifs with hhighest hlowest
  · simp [hhighest]
  · simp [hlowest]
  · simpa using hhighest

end Single

end TextMusic
