/-
Tempos.  A new tempo is announced unless it is zero or less, and the microseconds that are
announced are the whole part of a quotient.  What is no number is neither above zero nor
at most zero, so that it is announced as well.
-/
import Mathlib.Algebra.Order.Floor.Semifield
import Mathlib.Data.Rat.Floor
import TextMusic.Proofs.Course
import TextMusic.Random.Stream

namespace TextMusic

open Float.Model

variable {σ : Type}

/-! ## Singles against zero -/

theorem unpack_zero : (0.0 : Float32).toModel.unpack = .zero .positive := rfl

theorem le_zero_iff (x : Float32) :
    x ≤ 0.0 ↔ UnpackedFloat.le x.toModel.unpack (.zero .positive) = true := by
  rw [← unpack_zero]
  exact decide_eq_true_iff

theorem zero_lt_iff (x : Float32) :
    0.0 < x ↔ UnpackedFloat.lt (.zero .positive) x.toModel.unpack = true := by
  rw [← unpack_zero]
  exact decide_eq_true_iff

/-- A single is at most zero, above zero or no number. -/
theorem not_le_zero_iff (x : Float32) : ¬ x ≤ 0.0 ↔ 0.0 < x ∨ x.isNaN = true := by
  rw [le_zero_iff, zero_lt_iff, Float32.isNaN, Float32.Model.isNaN]
  generalize x.toModel.unpack = unpacked
  cases unpacked with
  | notANumber => decide
  | zero sign | infinity sign => cases sign <;> decide
  | finite sign mantissa exponent hpos =>
      cases sign with
      | positive => exact iff_of_true Bool.false_ne_true (.inl rfl)
      | negative =>
          refine iff_of_false (not_not_intro rfl) ?_
          rintro (habove | hnan)
          · exact Bool.false_ne_true habove
          · exact Bool.false_ne_true hnan

/-- There is one single that is no number. -/
theorem eq_nan_of_isNaN {x : Float32} (h : x.isNaN = true) :
    x = Float32.ofBits 0x7FC00000 := by
  change UnpackedFloat.isNaN (UnpackedFloat.unpack .binary32 x.toModel.toBits.toBitVec) =
    true at h
  delta UnpackedFloat.unpack at h
  extract_lets mantissa exponentBits exponent signBit sign at h
  have hexponent : exponentBits = -BitVec.ofNat _ 1 := by
    by_contra hfinite
    rw [if_neg hfinite] at h
    by_cases hlowest : exponentBits = BitVec.ofNat _ 0
    · rw [if_pos hlowest] at h
      by_cases hmantissa : mantissa = BitVec.ofNat _ 0
      · rw [dif_pos hmantissa] at h
        exact Bool.false_ne_true h
      · rw [dif_neg hmantissa] at h
        exact Bool.false_ne_true h
    · rw [if_neg hlowest] at h
      exact Bool.false_ne_true h
  rw [if_pos hexponent] at h
  have hbits : x.toModel.toBits.toBitVec = UnpackedFloat.packedNaN .binary32 := by
    apply x.toModel.valid.eq_packedNaN hexponent
    intro hmantissa
    rw [if_pos hmantissa] at h
    exact Bool.false_ne_true h
  obtain ⟨⟨bits, hvalid⟩⟩ := x
  obtain rfl : bits = 0x7FC00000 := UInt32.toBitVec_inj.mp hbits
  rfl

/-! ## Doubles cut to words -/

/-- The number that a double stands for, if it is finite. -/
def doubleValue? (x : Float) : Option ℚ :=
  match x.toModel.unpack with
  | .finite sign mantissa exponent _ => some (sign.apply mantissa * 2 ^ exponent)
  | .zero _ => some 0
  | .infinity _ | .notANumber => none

/-- A shift halves the mantissa, whatever becomes of the bits that fall off. -/
theorem mantissa_shiftRight (extended : UnpackedFloat.ExtendedMantissa) (n : Nat) :
    (extended >>> n).mantissa = extended.mantissa / 2 ^ n := by
  change (Nat.repeat UnpackedFloat.ExtendedMantissa.shiftRightOne n extended).mantissa = _
  induction n with
  | zero => simp [Nat.repeat]
  | succ n ih =>
      rw [Nat.repeat, UnpackedFloat.ExtendedMantissa.shiftRightOne, ih,
        Nat.div_div_eq_div_mul, Nat.pow_succ]

theorem roundToInt_eq (sign : UnpackedFloat.Sign) (mantissa : Nat) (exponent : Int) :
    UnpackedFloat.roundToInt sign mantissa exponent =
      sign.apply (mantissa * 2 ^ exponent.toNat / 2 ^ (-exponent).toNat : Nat) := by
  have hshift : (0 - (exponent - (exponent.toNat : Int))).toNat = (-exponent).toNat := by
    omega
  rw [UnpackedFloat.roundToInt, UnpackedFloat.decreaseExponent]
  simp only [UnpackedFloat.shiftToExponent, mantissa_shiftRight, Int.sub_zero, hshift,
    Nat.shiftLeft_eq]
  rfl

theorem floor_mul_zpow (mantissa : Nat) (exponent : Int) :
    ⌊(mantissa : ℚ) * 2 ^ exponent⌋₊ =
      mantissa * 2 ^ exponent.toNat / 2 ^ (-exponent).toNat := by
  have hpower : (2 : ℚ) ^ exponent = 2 ^ exponent.toNat / 2 ^ (-exponent).toNat := by
    rw [← zpow_natCast, ← zpow_natCast, ← zpow_sub₀ two_ne_zero]
    congr 1
    omega
  rw [hpower, ← mul_div_assoc, ← Nat.floor_div_eq_div (K := ℚ)]
  push_cast
  rfl

theorem toNat_ofNatClamp (n : Nat) :
    (UInt32.ofNatClamp n).toNat = min n (UInt32.size - 1) := by
  have hsize : 0 < UInt32.size := by decide
  rw [UInt32.ofNatClamp]
  split_ifs with hn <;> rw [UInt32.toNat_ofNatLT] <;> omega

/-- What is below zero has no whole part left. -/
theorem toNat_negative_apply (n : Nat) :
    (UnpackedFloat.Sign.negative.apply n).toNat = 0 := by
  simp [UnpackedFloat.Sign.apply]

theorem floor_negative_apply (n : Nat) (exponent : Int) :
    ⌊((UnpackedFloat.Sign.negative.apply n : Int) : ℚ) * 2 ^ exponent⌋₊ = 0 := by
  apply Nat.floor_of_nonpos
  apply mul_nonpos_of_nonpos_of_nonneg
  · simp [UnpackedFloat.Sign.apply]
  · exact zpow_nonneg zero_le_two exponent

/-- A finite double is cut to its whole part, and to what 32 bits hold. -/
theorem toNat_toUInt32 {x : Float} {value : ℚ} (h : doubleValue? x = some value) :
    x.toUInt32.toNat = min ⌊value⌋₊ (UInt32.size - 1) := by
  rw [Float.toUInt32, Float.Model.toUInt32, UnpackedFloat.toUInt32, toNat_ofNatClamp]
  rw [doubleValue?] at h
  cases hunpack : x.toModel.unpack with
  | notANumber | infinity => simp [hunpack] at h
  | zero sign =>
      rw [hunpack] at h
      obtain rfl := Option.some.inj h
      rw [Nat.floor_zero]
      rfl
  | finite sign mantissa exponent hpos =>
      rw [hunpack] at h
      obtain rfl := Option.some.inj h
      have hwhole : UnpackedFloat.toInt 0 (UInt32.size - 1)
          (.finite sign mantissa exponent hpos) =
            UnpackedFloat.roundToInt sign mantissa exponent := rfl
      rw [hwhole, roundToInt_eq, ← floor_mul_zpow]
      cases sign with
      | positive => rfl
      | negative => rw [toNat_negative_apply, floor_negative_apply]

/-! ## Announcements -/

theorem Event.fits_tempoChange (micros : UInt32) (tick : Nat) :
    (tempoChange micros tick).fits = decide (micros ≤ 0xFFFFFF) := by
  rw [fits, encode]
  split_ifs with hmicros <;> simp [hmicros, Except.isOk, Except.toBool]

/-- A tempo that is no number comes to no microseconds at all. -/
theorem Voice.microsPerQuarter_eq_zero {voice : Voice} (h : voice.bpm.isNaN = true) :
    voice.microsPerQuarter = 0 := by
  rw [microsPerQuarter, eq_nan_of_isNaN h]
  decide +kernel

namespace Performance

/-- What the announcement of the tempo does to the timeline. -/
theorem timeline_writeTempo_eq (performance : Performance σ) :
    performance.writeTempo.timeline =
      if performance.voice.bpm ≤ 0.0 then performance.timeline
      else if performance.voice.microsPerQuarter ≤ 0xFFFFFF then
        { performance.timeline with
          events := performance.timeline.events.push
            (.tempoChange performance.voice.microsPerQuarter
              performance.timeline.cursor) }
      else { performance.timeline with dropped := performance.timeline.dropped + 1 } := by
  rw [timeline_writeTempo, Voice.tempoRequests]
  split_ifs with hbpm hmicros
  · rfl
  · rw [Timeline.grantAll_cons, Timeline.grantAll_nil, Timeline.grant, Timeline.append,
      Event.fits_tempoChange, decide_eq_true hmicros]
    rfl
  · rw [Timeline.grantAll_cons, Timeline.grantAll_nil, Timeline.grant, Timeline.append,
      Event.fits_tempoChange, decide_eq_false hmicros]
    rfl

theorem cursor_writeTempo (performance : Performance σ) :
    performance.writeTempo.timeline.cursor = performance.timeline.cursor := by
  rw [timeline_writeTempo_eq]
  split_ifs <;> rfl

theorem tempoIsKept_iff (performance : Performance σ) :
    performance.tempoIsKept = true ↔
      performance.writeTempo.timeline.events.size =
        performance.timeline.events.size + 1 := by
  rw [timeline_writeTempo_eq, tempoIsKept, Voice.tempoEvent?]
  split_ifs with hbpm hmicros
  · simp
  · simp [Event.fits_tempoChange, hmicros]
  · simp [Event.fits_tempoChange, hmicros]

/-- Raising the tempo adds to it and leaves all else in the voice, the dice and the cursor
as they are.  Unless the new tempo is zero or less, it is announced at the cursor: the
announcement is kept if its microseconds fit 24 bits, and counted as dropped otherwise.
They are the whole part of a quotient, as far as 32 bits hold it.  A tempo that is no
number is announced, too, with no microseconds.  Writing a tempo answers whether an event
was kept. -/
theorem increaseTempo_announces (performance : Performance σ) (delta : Float32) :
    let bpm := performance.voice.bpm + delta
    let raised := performance.increaseTempo delta
    let timeline := performance.timeline
    let micros := raised.voice.microsPerQuarter
    raised.voice = { performance.voice with bpm := bpm } ∧
      raised.dice = performance.dice ∧
      raised.timeline.cursor = timeline.cursor ∧
      (¬ bpm ≤ 0.0 ↔ 0.0 < bpm ∨ bpm.isNaN = true) ∧
      raised.timeline =
        (if bpm ≤ 0.0 then timeline
        else if micros ≤ 0xFFFFFF then
          { timeline with
            events := timeline.events.push (.tempoChange micros timeline.cursor) }
        else { timeline with dropped := timeline.dropped + 1 }) ∧
      (∀ value, doubleValue? (60000000.0 / widen bpm) = some value →
        micros.toNat = min ⌊value⌋₊ (UInt32.size - 1)) ∧
      (bpm.isNaN = true → micros = 0) ∧
      ∀ asking : Performance σ, asking.tempoIsKept = true ↔
        asking.writeTempo.timeline.events.size = asking.timeline.events.size + 1 := by
  intro bpm raised timeline micros
  have hvoice : raised.voice = { performance.voice with bpm := bpm } :=
    voice_increaseTempo performance delta
  have htimeline := timeline_writeTempo_eq
    { performance with voice := { performance.voice with bpm := bpm } }
  have hmicros : micros = { performance.voice with bpm := bpm }.microsPerQuarter :=
    congrArg Voice.microsPerQuarter hvoice
  refine ⟨hvoice, dice_writeTempo _, cursor_writeTempo _, not_le_zero_iff bpm, ?_, ?_, ?_,
    tempoIsKept_iff⟩
  · rw [hmicros]
    exact htimeline
  · intro value hvalue
    rw [hmicros]
    exact toNat_toUInt32 hvalue
  · intro hnan
    rw [hmicros]
    exact Voice.microsPerQuarter_eq_zero hnan

/-- A session that opens at an infinite tempo and lowers it without end.  The trigger
makes the tempo no number, which is not above zero, and yet announces it. -/
theorem nan_tempo_announced :
    let infinity := Float32.ofBits 0x7F800000
    let config : Config := { bpm := infinity, tempoStep := -infinity }
    let session := (Session.start config (RandomStream.ofSeed 1)).feedAll ['B', 'P', 'M']
    let performance := session.performance
    session.stepOf '+' = .trigger ∧
      (session.feed '+').performance = performance.increaseTempo (-infinity) ∧
      ¬ 0.0 < (performance.increaseTempo (-infinity)).voice.bpm ∧
      (performance.increaseTempo (-infinity)).timeline ≠ performance.timeline ∧
      (performance.increaseTempo (-infinity)).timeline.events =
        performance.timeline.events.push (.tempoChange 0 36) := by
  intro infinity config session performance
  have hreact : session.memory.react '+' = .trigger := by decide +kernel
  have hrules : session.config = config := Session.config_feedAll _ _
  have hbpm : ¬ 0.0 < (performance.increaseTempo (-infinity)).voice.bpm := by
    decide +kernel
  have hevents : (performance.increaseTempo (-infinity)).timeline.events =
      performance.timeline.events.push (.tempoChange 0 36) := by decide +kernel
  refine ⟨congrArg Reaction.step hreact, ?_, hbpm, ?_, hevents⟩
  · rw [Session.feed, hreact, hrules]
    rfl
  · intro hunchanged
    rw [hunchanged] at hevents
    exact Array.push_ne_self hevents.symm

end Performance

end TextMusic
