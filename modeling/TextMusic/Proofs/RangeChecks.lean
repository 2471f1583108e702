/-
The range checks of the decoder are exact.  The whole sequences that pass them are the
encodings of the characters, and the payload bits of such a sequence spell its character;
the cut ones that pass are the beginnings of these encodings.  So a decoder that gathers
the bytes of a sequence and has them read strictly never comes to what it would fall back
on.
-/
import Mathlib.Tactic.Ring
import TextMusic.Proofs.Failure

namespace TextMusic

namespace Utf8

/-! ## Payload bits -/

/-- The bits of a byte, the highest first. -/
def bits (byte : UInt8) : List Bool :=
  (List.range 8).reverse.map byte.toNat.testBit

/-- The bits that are left of a byte for the character: those behind the first zero, up to
which the bits mark what kind of byte it is. -/
def payloadBits (byte : UInt8) : List Bool :=
  ((bits byte).dropWhile id).tail

/-- The number that bits spell behind some number. -/
def number (start : Nat) (bits : List Bool) : Nat :=
  bits.foldl (fun n bit => 2 * n + bit.toNat) start

theorem number_append (start : Nat) (front back : List Bool) :
    number start (front ++ back) = number (number start front) back :=
  List.foldl_append

/-- What was there before the bits is moved up by their number. -/
theorem number_eq (start : Nat) (bits : List Bool) :
    number start bits = 2 ^ bits.length * start + number 0 bits := by
  induction bits generalizing start with
  | nil => simp [number]
  | cons bit bits ih =>
      have hstart : number start (bit :: bits) = number (2 * start + bit.toNat) bits :=
        rfl
      have hzero : number 0 (bit :: bits) = number bit.toNat bits := by
        simp [number]
      rw [hstart, hzero, ih, ih bit.toNat, List.length_cons, Nat.pow_succ]
      ring

/-- The bytes behind a lead byte have six bits of payload. -/
theorem payloadBits_following (byte : UInt8)
    (hbyte : 0x80 ≤ byte.toNat ∧ byte.toNat ≤ 0xBF) :
    (payloadBits byte).length = 6 ∧ number 0 (payloadBits byte) = byte.toNat % 64 := by
  revert byte
  apply forall_byte
  decide +kernel

theorem number_payloadBits_lead (lead : UInt8) (hlead : Decoder.width lead ≠ 0) :
    number 0 (payloadBits lead) = Decoder.leadPayload lead := by
  revert lead
  apply forall_byte
  decide +kernel

theorem number_payloadBits_rest {rest : List UInt8}
    (hrest : ∀ byte ∈ rest, 0x80 ≤ byte.toNat ∧ byte.toNat ≤ 0xBF) (payload : Nat) :
    number payload (rest.flatMap payloadBits) = spell payload rest := by
  induction rest generalizing payload with
  | nil => rfl
  | cons byte rest ih =>
      rw [List.forall_mem_cons] at hrest
      obtain ⟨hbyte, hrest⟩ := hrest
      obtain ⟨hlength, hvalue⟩ := payloadBits_following byte hbyte
      have hnumber :
          number payload (payloadBits byte) = 64 * payload + byte.toNat % 64 := by
        rw [number_eq, hlength, hvalue]
        norm_num
      rw [List.flatMap_cons, number_append, hnumber]
      exact ih hrest _

/-- The character of an encoding is what its payload spells.  An invalid number would have
come out as the character 0, which is what its own encoding spells. -/
theorem toNat_eq_spell {c : Char} {lead : UInt8} {rest : List UInt8}
    (h : String.utf8EncodeChar c = lead :: rest) :
    c.toNat = spell (Decoder.leadPayload lead) rest := by
  have hsequence : WellFormed (lead :: rest) := h ▸ wellFormed_utf8EncodeChar c
  have hc : Char.ofNat (spell (Decoder.leadPayload lead) rest) = c :=
    utf8EncodeChar_injective ((utf8EncodeChar_spell hsequence).trans h.symm)
  by_cases hvalid : (spell (Decoder.leadPayload lead) rest).isValidChar
  · rw [← hc]
    exact toNat_ofNat_of_isValidChar hvalid
  · have hzero : c = '\x00' := by
      rw [← hc, Char.ofNat, dif_neg hvalid]
      rfl
    subst hzero
    obtain ⟨rfl, rfl⟩ := List.cons.inj h
    rfl

/-! ## Strict reading -/

/-- Bytes are the text of one character exactly if they are its encoding. -/
theorem fromUTF8?_eq_singleton_iff {bytes : List UInt8} {c : Char} :
    String.fromUTF8? bytes.toByteArray = some (String.singleton c) ↔
      String.utf8EncodeChar c = bytes := by
  have hencode :
      (String.singleton c).toByteArray = (String.utf8EncodeChar c).toByteArray := by
    rw [String.toByteArray_singleton, List.utf8Encode, List.flatMap_singleton]
  constructor
  · intro h
    rw [String.fromUTF8?] at h
    split at h
    · have hbytes : bytes.toByteArray = (String.singleton c).toByteArray :=
        congrArg String.toByteArray (Option.some.inj h)
      rw [hencode] at hbytes
      have hdata := congrArg (fun array : ByteArray => array.data.toList) hbytes
      simpa using hdata.symm
    · simp at h
  · rintro rfl
    have hvalid : (String.utf8EncodeChar c).toByteArray.IsValidUTF8 :=
      hencode ▸ (String.singleton c).isValidUTF8
    rw [String.fromUTF8?, dif_pos hvalid, Option.some.injEq, ← String.toByteArray_inj]
    exact hencode.symm

end Utf8

namespace Decoder

open Utf8

/-! ## What passes -/

/-- The range that a byte is held against, by its place behind the lead byte. -/
def checkedRange (lead : UInt8) : Nat → UInt8 × UInt8
  | 0 => secondRange lead
  | _ + 1 => (0x80, 0xBF)

/-- The bytes pass every check, and behind them `missing` more are wanted. -/
def Passes (missing : Nat) : List UInt8 → Prop
  | [] => False
  | lead :: rest =>
      rest.length + 1 + missing = width lead ∧
        ∀ entry ∈ rest.zipIdx, InRange entry.1 (checkedRange lead entry.2)

instance (missing : Nat) : DecidablePred (Passes missing)
  | [] => inferInstanceAs (Decidable False)
  | lead :: rest =>
      inferInstanceAs (Decidable (rest.length + 1 + missing = width lead ∧
        ∀ entry ∈ rest.zipIdx, InRange entry.1 (checkedRange lead entry.2)))

theorem following_eq (lead : UInt8) :
    following lead = (List.range (width lead - 1)).map (checkedRange lead) := by
  rcases hwidth : width lead with _ | _ | missing
  · simp [following, hwidth]
  · simp [following, hwidth]
  · have htail : (checkedRange lead ∘ Nat.succ) = Function.const Nat (0x80, 0xBF) := rfl
    simp only [following, hwidth]
    rw [show missing + 1 + 1 - 1 = missing + 1 from rfl, List.range_succ_eq_map,
      List.map_cons, List.map_map, htail, List.map_const, List.length_range]
    rfl

/-- Every byte is in its range exactly if the bytes are in the first of the ranges. -/
theorem inRange_entries_iff {lead : UInt8} {rest : List UInt8} :
    (∀ entry ∈ rest.zipIdx, InRange entry.1 (checkedRange lead entry.2)) ↔
      List.Forall₂ InRange rest ((List.range rest.length).map (checkedRange lead)) := by
  rw [List.forall₂_map_right_iff, List.forall₂_iff_zip, List.zipIdx_eq_zip_range',
    ← List.range_eq_range', Prod.forall]
  constructor
  · intro hentries
    exact ⟨List.length_range.symm, fun hentry => hentries _ _ hentry⟩
  · intro hentries byte place hentry
    exact hentries.2 hentry

theorem following_eq_append {lead : UInt8} {taken missing : Nat}
    (hlength : taken + 1 + missing = width lead) :
    following lead = (List.range taken).map (checkedRange lead) ++
      (List.range missing).map (fun place => checkedRange lead (taken + place)) := by
  have hwidth : width lead - 1 = taken + missing := by omega
  rw [following_eq, hwidth, List.range_add, List.map_append, List.map_map]
  rfl

theorem checkedRange_inhabited (lead : UInt8) (place : Nat) :
    (checkedRange lead place).1 ≤ (checkedRange lead place).2 := by
  cases place with
  | zero => exact secondRange_inhabited lead
  | succ place => exact (by decide : (0x80 : UInt8) ≤ 0xBF)

/-- A sequence passes exactly if as many bytes complete it as are wanted. -/
theorem passes_iff {missing : Nat} {sequence : List UInt8} :
    Passes missing sequence ↔
      sequence ≠ [] ∧ ∃ tail, tail.length = missing ∧ WellFormed (sequence ++ tail) := by
  cases sequence with
  | nil => simp [Passes]
  | cons lead rest =>
      simp only [Passes, inRange_entries_iff, List.cons_append, wellFormed_cons_iff]
      constructor
      · rintro ⟨hlength, hrest⟩
        -- the lowest byte of each range that is left completes the sequence
        let ranges := (List.range missing).map fun place =>
          checkedRange lead (rest.length + place)
        have htail : List.Forall₂ InRange (ranges.map Prod.fst) ranges := by
          rw [List.forall₂_map_left_iff, List.forall₂_same]
          intro range hrange
          obtain ⟨place, -, rfl⟩ := List.mem_map.mp hrange
          exact ⟨UInt8.le_refl _, checkedRange_inhabited lead _⟩
        refine ⟨List.cons_ne_nil lead rest, ranges.map Prod.fst, ?_, ?_, ?_⟩
        · simp [ranges]
        · omega
        · rw [following_eq_append hlength]
          exact List.rel_append hrest htail
      · rintro ⟨-, tail, rfl, hlead, hbytes⟩
        have hlength : rest.length + 1 + tail.length = width lead := by
          have hfull := hbytes.length_eq
          rw [following_eq, List.length_map, List.length_range, List.length_append]
            at hfull
          omega
        rw [following_eq_append hlength] at hbytes
        exact ⟨hlength, (forall₂_append_inj hbytes (by simp)).1⟩

theorem passes_zero_iff {sequence : List UInt8} :
    Passes 0 sequence ↔ WellFormed sequence := by
  rw [passes_iff]
  constructor
  · rintro ⟨-, tail, htail, hsequence⟩
    rw [List.length_eq_zero_iff] at htail
    rwa [htail, List.append_nil] at hsequence
  · intro hsequence
    have hne : sequence ≠ [] := (begins_of_wellFormed hsequence).1
    exact ⟨hne, [], rfl, by rwa [List.append_nil]⟩

/-- Whole sequences that pass are the encodings, each of one character. -/
theorem passes_zero_iff_existsUnique {sequence : List UInt8} :
    Passes 0 sequence ↔ ∃! c, String.utf8EncodeChar c = sequence := by
  rw [passes_zero_iff]
  constructor
  · intro hsequence
    cases sequence with
    | nil => exact absurd hsequence not_wellFormed_nil
    | cons lead rest =>
        have hencode := utf8EncodeChar_spell hsequence
        refine ⟨_, hencode, ?_⟩
        intro other hother
        exact utf8EncodeChar_injective (hother.trans hencode.symm)
  · rintro ⟨c, rfl, -⟩
    exact wellFormed_utf8EncodeChar c

/-- The last character below the surrogates, and the first of these. -/
example : Passes 0 [0xED, 0x9F, 0xBF] ∧ ¬ Passes 0 [0xED, 0xA0, 0x80] := by
  decide

/-- Cut sequences that pass are those that begin a longer one. -/
theorem exists_passes_succ_iff {sequence : List UInt8} :
    (∃ missing, Passes (missing + 1) sequence) ↔ Incomplete sequence := by
  simp only [passes_iff]
  constructor
  · rintro ⟨missing, hne, tail, hlength, hsequence⟩
    exact ⟨hne, tail, List.ne_nil_of_length_eq_add_one hlength, hsequence⟩
  · rintro ⟨hne, tail, htail, hsequence⟩
    have hpos := List.length_pos_of_ne_nil htail
    obtain ⟨missing, hlength⟩ := Nat.exists_eq_add_of_lt hpos
    rw [Nat.zero_add] at hlength
    exact ⟨missing, hne, tail, hlength, hsequence⟩

/-! ## The value of what passes -/

theorem toNat_of_checkedRange {lead byte : UInt8} {place : Nat}
    (h : InRange byte (checkedRange lead place)) :
    0x80 ≤ byte.toNat ∧ byte.toNat ≤ 0xBF := by
  cases place with
  | zero => exact (toNat_of_inRange_secondRange h).1
  | succ place => exact toNat_of_inRange h

/-- The payload bits of an encoding spell its character. -/
theorem number_utf8EncodeChar (c : Char) :
    number 0 ((String.utf8EncodeChar c).flatMap payloadBits) = c.toNat := by
  have hpasses : Passes 0 (String.utf8EncodeChar c) :=
    passes_zero_iff.mpr (wellFormed_utf8EncodeChar c)
  rcases hbytes : String.utf8EncodeChar c with _ | ⟨lead, rest⟩
  · rw [hbytes] at hpasses
    exact hpasses.elim
  · rw [hbytes] at hpasses
    obtain ⟨hlength, hentries⟩ := hpasses
    have hrest : ∀ byte ∈ rest, 0x80 ≤ byte.toNat ∧ byte.toNat ≤ 0xBF := by
      intro byte hbyte
      obtain ⟨place, hplace⟩ := List.mem_iff_getElem?.mp hbyte
      have hentry : (byte, place) ∈ rest.zipIdx :=
        List.mk_mem_zipIdx_iff_getElem?.mpr hplace
      exact toNat_of_checkedRange (hentries _ hentry)
    rw [List.flatMap_cons, number_append, number_payloadBits_lead lead (by omega),
      number_payloadBits_rest hrest]
    exact (toNat_eq_spell hbytes).symm

example : number 0 ([0xE2, 0x82, 0xAC].flatMap payloadBits) = '€'.toNat := by
  decide

theorem utf8EncodeChar_eq_iff_number {c : Char} {sequence : List UInt8} :
    String.utf8EncodeChar c = sequence ↔
      Passes 0 sequence ∧ c.toNat = number 0 (sequence.flatMap payloadBits) := by
  constructor
  · rintro rfl
    exact ⟨passes_zero_iff.mpr (wellFormed_utf8EncodeChar c),
      (number_utf8EncodeChar c).symm⟩
  · rintro ⟨hpasses, hnumber⟩
    obtain ⟨d, rfl, -⟩ := passes_zero_iff_existsUnique.mp hpasses
    rw [number_utf8EncodeChar, Char.toNat_inj] at hnumber
    rw [hnumber]

/-! ## What comes out -/

/-- A sequence comes out as a character, and nothing else, exactly if it is its
encoding. -/
theorem utf8EncodeChar_eq_iff_decodeFrom {c : Char} {sequence : List UInt8} :
    String.utf8EncodeChar c = sequence ↔
      ∀ later, decodeFrom .start (sequence.map .byte ++ later) =
        .char c :: decodeFrom .start later := by
  constructor
  · rintro rfl later
    exact decodeFrom_utf8EncodeChar c later
  · intro h
    have halone : decode (sequence.map .byte) = [.char c] := by
      have hnil := h []
      rwa [List.append_nil] at hnil
    have htext : LossyText sequence [c] := by
      rw [lossyText_iff, halone]
      rfl
    cases htext with
    | character hsequence hcharacter hrest =>
        cases hrest
        rw [hcharacter, List.append_nil]
    | malformed hnone hpart hrest =>
        rw [decode, decodeFrom_malformed hnone hpart] at halone
        simp at halone

/-- Some bytes are a cut sequence exactly if a failure behind them comes out alone. -/
theorem incomplete_iff_decode {sequence : List UInt8} :
    Incomplete sequence ↔ sequence ≠ [] ∧ ∀ text,
      decode (sequence.map .byte ++ [.failure text]) = [.failure text] := by
  constructor
  · intro h
    exact ⟨h.1, fun text => decodeFrom_incomplete_failure h text []⟩
  · rintro ⟨hne, hfailure⟩
    obtain ⟨whole, hwhole⟩ := exists_wholePart sequence
    obtain ⟨text, htext⟩ := exists_lossyText whole
    have hitems := hfailure ""
    rw [decode, decodeFrom_failure hwhole htext] at hitems
    have hnothing : decode (whole.map .byte) = [] := by
      simpa [decodeFrom] using hitems
    have hnil : text = [] := by
      have hheard := decode_of_lossyText htext
      rw [hnothing] at hheard
      exact List.map_eq_nil_iff.mp hheard.symm
    subst hnil
    cases htext
    rcases hwhole with ⟨rfl, -⟩ | ⟨part, hpart, rfl⟩
    · exact absurd rfl hne
    · exact hpart

/-! ## Gathering -/

/-- The character of a gathered sequence: the first of its strict reading, or the fallback
if it has none. -/
def strictChar (fallback : Char) (sequence : List UInt8) : Char :=
  ((String.fromUTF8? sequence.toByteArray).bind fun text => text.toList.head?).getD
    fallback

/-- A sequence that has passed so far is gathered further or, if it is whole, read. -/
def settle (fallback : Char) (lead : UInt8) (rest : List UInt8) :
    List Item × List UInt8 :=
  if rest.length + 1 < width lead then ([], lead :: rest)
  else ([.char (strictChar fallback (lead :: rest))], [])

/-- Start to gather a sequence. -/
def gatherLead (fallback : Char) (byte : UInt8) : List Item × List UInt8 :=
  if width byte = 0 then ([.malformed], []) else settle fallback byte []

/-- Take a signal with the bytes of a sequence gathered so far, and give those that are
gathered behind it. -/
def gather (fallback : Char) : List UInt8 → Signal → List Item × List UInt8
  | [], .byte byte => gatherLead fallback byte
  | [], .failure text => ([.failure text], [])
  | [], .stop => ([.stop], [])
  | lead :: rest, .byte byte =>
      if InRange byte (checkedRange lead rest.length) then
        settle fallback lead (rest ++ [byte])
      else (.malformed :: (gatherLead fallback byte).1, (gatherLead fallback byte).2)
  | _ :: _, .failure text => ([.failure text], [])
  | _ :: _, .stop => ([.malformed], [])

/-- The items of signals up to the end behind the last of them. -/
def gatherFrom (fallback : Char) : List UInt8 → List Signal → List Item
  | [], [] => []
  | _ :: _, [] => [.malformed]
  | gathered, signal :: rest =>
      (gather fallback gathered signal).1 ++
        gatherFrom fallback (gather fallback gathered signal).2 rest

/-- The state of the decoder behind a lead byte and some of the bytes that it wants, of
which `missing + 1` are still to come. -/
def waiting (missing : Nat) (lead : UInt8) (rest : List UInt8) : State :=
  .inside missing (checkedRange lead rest.length).1 (checkedRange lead rest.length).2
    (spell (leadPayload lead) rest)

/-- The gathered bytes are those that the decoder has taken of its sequence. -/
inductive Holds : List UInt8 → State → Prop where
  | start : Holds [] .start
  | inside {lead : UInt8} {rest : List UInt8} {missing : Nat}
      (hpasses : Passes (missing + 1) (lead :: rest)) :
      Holds (lead :: rest) (waiting missing lead rest)

/-- The same has come out, and the same is held behind it. -/
structure Agree (gathered : List Item × List UInt8) (taken : List Item × State) :
    Prop where
  items : gathered.1 = taken.1
  holds : Holds gathered.2 taken.2

/-- Whatever the fallback is, strict reading makes of a whole sequence the character that
its payload spells. -/
theorem strictChar_eq {lead : UInt8} {rest : List UInt8} (h : Passes 0 (lead :: rest))
    (fallback : Char) :
    strictChar fallback (lead :: rest) = Char.ofNat (spell (leadPayload lead) rest) := by
  have hencode := utf8EncodeChar_spell (passes_zero_iff.mp h)
  rw [strictChar, fromUTF8?_eq_singleton_iff.mpr hencode]
  simp

theorem settle_whole {lead : UInt8} {rest : List UInt8} (h : Passes 0 (lead :: rest))
    (fallback : Char) :
    Agree (settle fallback lead rest)
      ([.char (Char.ofNat (spell (leadPayload lead) rest))], .start) := by
  have hlength : ¬ rest.length + 1 < width lead := by
    have hwidth := h.1
    omega
  rw [settle, if_neg hlength, strictChar_eq h]
  exact ⟨rfl, .start⟩

theorem settle_part {lead : UInt8} {rest : List UInt8} {missing : Nat}
    (h : Passes (missing + 1) (lead :: rest)) (fallback : Char) :
    Agree (settle fallback lead rest) ([], waiting missing lead rest) := by
  have hlength : rest.length + 1 < width lead := by
    have hwidth := h.1
    omega
  rw [settle, if_pos hlength]
  exact ⟨rfl, .inside h⟩

/-- A lead byte is taken alike. -/
theorem gatherLead_agree (fallback : Char) (byte : UInt8) :
    Agree (gatherLead fallback byte) (takeLead byte) := by
  have hentries : ∀ entry ∈ ([] : List UInt8).zipIdx,
      InRange entry.1 (checkedRange byte entry.2) := by
    simp
  rcases hwidth : width byte with _ | _ | missing
  · rw [gatherLead, if_pos hwidth]
    simp only [takeLead, hwidth]
    exact ⟨rfl, .start⟩
  · have hpasses : Passes 0 [byte] := ⟨by rw [hwidth, List.length_nil], hentries⟩
    rw [gatherLead, if_neg (by omega)]
    simp only [takeLead, hwidth]
    exact settle_whole hpasses fallback
  · have hpasses : Passes (missing + 1) [byte] := by
      refine ⟨?_, hentries⟩
      rw [hwidth, List.length_nil]
      omega
    rw [gatherLead, if_neg (by omega)]
    simp only [takeLead, hwidth]
    exact settle_part hpasses fallback

/-- A byte in its range goes on with what has passed. -/
theorem Passes.append_singleton {lead byte : UInt8} {rest : List UInt8} {missing : Nat}
    (h : Passes (missing + 1) (lead :: rest))
    (hbyte : InRange byte (checkedRange lead rest.length)) :
    Passes missing (lead :: (rest ++ [byte])) := by
  obtain ⟨hlength, hentries⟩ := h
  constructor
  · rw [List.length_append, List.length_singleton]
    omega
  · intro entry hentry
    rw [List.zipIdx_append, List.mem_append] at hentry
    rcases hentry with hentry | hentry
    · exact hentries entry hentry
    · simp only [Nat.zero_add, List.zipIdx_singleton, List.mem_singleton] at hentry
      rwa [hentry]

/-- A byte that goes on with a sequence is taken alike. -/
theorem settle_agree {lead byte : UInt8} {rest : List UInt8} {missing : Nat}
    (h : Passes missing (lead :: (rest ++ [byte]))) (fallback : Char) :
    Agree (settle fallback lead (rest ++ [byte]))
      (takeNext missing (spell (leadPayload lead) rest) byte) := by
  have hspell : spell (leadPayload lead) (rest ++ [byte]) =
      64 * spell (leadPayload lead) rest + byte.toNat % 64 := List.foldl_append
  cases missing with
  | zero =>
      have hsettle := settle_whole h fallback
      rwa [hspell] at hsettle
  | succ missing =>
      have hsettle := settle_part h fallback
      rw [waiting, hspell, List.length_append, List.length_singleton] at hsettle
      exact hsettle

theorem gather_agree_inside {lead : UInt8} {rest : List UInt8} {missing : Nat}
    (h : Passes (missing + 1) (lead :: rest)) (fallback : Char) (byte : UInt8) :
    Agree (gather fallback (lead :: rest) (.byte byte))
      (take (waiting missing lead rest) (.byte byte)) := by
  by_cases hbyte : InRange byte (checkedRange lead rest.length)
  · have hgather : gather fallback (lead :: rest) (.byte byte) =
        settle fallback lead (rest ++ [byte]) := if_pos hbyte
    have htake : take (waiting missing lead rest) (.byte byte) =
        takeNext missing (spell (leadPayload lead) rest) byte := if_pos hbyte
    rw [hgather, htake]
    exact settle_agree (h.append_singleton hbyte) fallback
  · have hgather : gather fallback (lead :: rest) (.byte byte) =
        (.malformed :: (gatherLead fallback byte).1, (gatherLead fallback byte).2) :=
          if_neg hbyte
    have htake : take (waiting missing lead rest) (.byte byte) =
        (.malformed :: (takeLead byte).1, (takeLead byte).2) := if_neg hbyte
    have hlead := gatherLead_agree fallback byte
    rw [hgather, htake]
    exact ⟨congrArg (.malformed :: ·) hlead.items, hlead.holds⟩

/-- Every signal is taken alike. -/
theorem gather_agree {gathered : List UInt8} {state : State} (h : Holds gathered state)
    (fallback : Char) (signal : Signal) :
    Agree (gather fallback gathered signal) (take state signal) := by
  cases h with
  | start =>
      cases signal with
      | byte byte => exact gatherLead_agree fallback byte
      | failure text => exact ⟨rfl, .start⟩
      | stop => exact ⟨rfl, .start⟩
  | inside hpasses =>
      cases signal with
      | byte byte => exact gather_agree_inside hpasses fallback byte
      | failure text => exact ⟨rfl, .start⟩
      | stop => exact ⟨rfl, .start⟩

theorem gatherFrom_cons (fallback : Char) (gathered : List UInt8) (signal : Signal)
    (rest : List Signal) :
    gatherFrom fallback gathered (signal :: rest) =
      (gather fallback gathered signal).1 ++
        gatherFrom fallback (gather fallback gathered signal).2 rest := by
  cases gathered <;> rfl

/-- All signals are taken alike, one after the other. -/
theorem gatherFrom_eq {gathered : List UInt8} {state : State} (h : Holds gathered state)
    (fallback : Char) (signals : List Signal) :
    gatherFrom fallback gathered signals = decodeFrom state signals := by
  induction signals generalizing gathered state with
  | nil => cases h <;> rfl
  | cons signal rest ih =>
      have hstep := gather_agree h fallback signal
      rw [gatherFrom_cons, decodeFrom_cons, hstep.items, ih hstep.holds]

/-- The range checks are exact.  Bytes pass with some missing just if so many make a
well-formed sequence of them.  Where none is missing they are the encoding of one
character: their payload bits spell it, strict reading makes it of them, and it comes out
of the decoder.  Where some are missing the decoder waits for them.  A decoder that
gathers the bytes for strict reading is therefore the same, whatever it would fall back
on. -/
theorem range_checks_exact :
    (∀ sequence : List UInt8,
      (∀ missing, Passes missing sequence ↔
        sequence ≠ [] ∧ ∃ tail, tail.length = missing ∧ WellFormed (sequence ++ tail)) ∧
      (Passes 0 sequence ↔ ∃! c, String.utf8EncodeChar c = sequence) ∧
      (∀ c, String.utf8EncodeChar c = sequence ↔
        Passes 0 sequence ∧ c.toNat = number 0 (sequence.flatMap payloadBits)) ∧
      (∀ c, String.utf8EncodeChar c = sequence ↔
        String.fromUTF8? sequence.toByteArray = some (String.singleton c)) ∧
      (∀ c, String.utf8EncodeChar c = sequence ↔
        ∀ later, decodeFrom .start (sequence.map .byte ++ later) =
          .char c :: decodeFrom .start later) ∧
      ((∃ missing, Passes (missing + 1) sequence) ↔
        sequence ≠ [] ∧ ∀ text,
          decode (sequence.map .byte ++ [.failure text]) = [.failure text])) ∧
    ∀ (fallback : Char) (signals : List Signal),
      gatherFrom fallback [] signals = decode signals := by
  constructor
  · intro sequence
    refine ⟨fun missing => passes_iff, passes_zero_iff_existsUnique,
      fun c => ?_, fun c => ?_, fun c => ?_, ?_⟩
    · exact utf8EncodeChar_eq_iff_number
    · exact fromUTF8?_eq_singleton_iff.symm
    · exact utf8EncodeChar_eq_iff_decodeFrom
    · rw [exists_passes_succ_iff]
      exact incomplete_iff_decode
  · intro fallback signals
    exact gatherFrom_eq .start fallback signals

end Decoder

end TextMusic
