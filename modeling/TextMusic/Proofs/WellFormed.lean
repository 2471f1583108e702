/-
Well-formed UTF-8 as the Unicode standard tabulates it, and the bytes that the
decoder's `width` and `secondRange` let pass.  Both accept the same sequences,
and each of them is the encoding of the character its payload bits spell.
-/
import Mathlib.Data.List.Forall2
import TextMusic.Text.Decoder

namespace TextMusic

namespace Utf8

/-- A byte is in a range, of which both ends belong to it. -/
def InRange (byte : UInt8) (range : UInt8 × UInt8) : Prop :=
  range.1 ≤ byte ∧ byte ≤ range.2

instance (byte : UInt8) (range : UInt8 × UInt8) : Decidable (InRange byte range) :=
  inferInstanceAs (Decidable (range.1 ≤ byte ∧ byte ≤ range.2))

/-- The well-formed sequences, each row with the range of every byte. -/
def table : List (List (UInt8 × UInt8)) :=
  [[(0x00, 0x7F)],
    [(0xC2, 0xDF), (0x80, 0xBF)],
    [(0xE0, 0xE0), (0xA0, 0xBF), (0x80, 0xBF)],
    [(0xE1, 0xEC), (0x80, 0xBF), (0x80, 0xBF)],
    [(0xED, 0xED), (0x80, 0x9F), (0x80, 0xBF)],
    [(0xEE, 0xEF), (0x80, 0xBF), (0x80, 0xBF)],
    [(0xF0, 0xF0), (0x90, 0xBF), (0x80, 0xBF), (0x80, 0xBF)],
    [(0xF1, 0xF3), (0x80, 0xBF), (0x80, 0xBF), (0x80, 0xBF)],
    [(0xF4, 0xF4), (0x80, 0x8F), (0x80, 0xBF), (0x80, 0xBF)]]

/-- The bytes are one well-formed sequence. -/
def WellFormed (sequence : List UInt8) : Prop :=
  ∃ row ∈ table, List.Forall₂ InRange sequence row

/-- A non-empty part that some well-formed sequence begins with, or is. -/
def Begins (part : List UInt8) : Prop :=
  part ≠ [] ∧ ∃ rest, WellFormed (part ++ rest)

/-! ## What the decoder lets pass -/

/-- The ranges of the bytes that the decoder wants behind a lead byte. -/
def following (lead : UInt8) : List (UInt8 × UInt8) :=
  match Decoder.width lead with
  | 0 | 1 => []
  | n + 2 => Decoder.secondRange lead :: List.replicate n (0x80, 0xBF)

/-- What a row of the table leaves for the bytes behind a lead byte. -/
def rowAfter (lead : UInt8) : List (UInt8 × UInt8) → Option (List (UInt8 × UInt8))
  | [] => none
  | range :: ranges => if InRange lead range then some ranges else none

/-- A property of all bytes, from its 256 instances. -/
theorem forall_byte {P : UInt8 → Prop} (h : ∀ n < 256, P (UInt8.ofNat n)) (byte : UInt8) :
    P byte := by
  have hbyte := h byte.toNat byte.toNat_lt
  rwa [UInt8.ofNat_toNat] at hbyte

/-- At most one row of the table fits a lead byte, and it is the decoder's. -/
theorem filterMap_rowAfter (lead : UInt8) :
    table.filterMap (rowAfter lead) =
      if Decoder.width lead = 0 then [] else [following lead] := by
  revert lead
  apply forall_byte
  decide +kernel

theorem secondRange_inhabited (lead : UInt8) :
    (Decoder.secondRange lead).1 ≤ (Decoder.secondRange lead).2 := by
  unfold Decoder.secondRange
  split_ifs <;> decide

theorem following_inhabited {lead : UInt8} {range : UInt8 × UInt8}
    (hrange : range ∈ following lead) : range.1 ≤ range.2 := by
  rcases hwidth : Decoder.width lead with _ | _ | missing
  · simp [following, hwidth] at hrange
  · simp [following, hwidth] at hrange
  · simp only [following, hwidth, List.mem_cons] at hrange
    rcases hrange with rfl | htail
    · exact secondRange_inhabited lead
    · rw [List.eq_of_mem_replicate htail]
      decide

theorem not_wellFormed_nil : ¬ WellFormed [] := by
  rintro ⟨row, hrow, hbytes⟩
  cases hbytes
  revert hrow
  decide

theorem rowAfter_eq_some {lead : UInt8} {row ranges : List (UInt8 × UInt8)} :
    rowAfter lead row = some ranges ↔
      ∃ range, row = range :: ranges ∧ InRange lead range := by
  cases row with
  | nil => simp [rowAfter]
  | cons range rest =>
      simp only [rowAfter, Option.ite_none_right_eq_some, Option.some.injEq,
        List.cons.injEq]
      constructor
      · rintro ⟨hlead, rfl⟩
        exact ⟨range, ⟨rfl, rfl⟩, hlead⟩
      · rintro ⟨_, ⟨rfl, rfl⟩, hlead⟩
        exact ⟨hlead, rfl⟩

/-- The table and the decoder accept the same sequences. -/
theorem wellFormed_cons_iff {lead : UInt8} {rest : List UInt8} :
    WellFormed (lead :: rest) ↔
      Decoder.width lead ≠ 0 ∧ List.Forall₂ InRange rest (following lead) := by
  have hrows : WellFormed (lead :: rest) ↔
      ∃ ranges ∈ table.filterMap (rowAfter lead), List.Forall₂ InRange rest ranges := by
    simp only [WellFormed, List.mem_filterMap, rowAfter_eq_some]
    constructor
    · rintro ⟨row, hrow, hbytes⟩
      obtain ⟨range, ranges, hlead, hrest, rfl⟩ := List.forall₂_cons_left_iff.mp hbytes
      exact ⟨ranges, ⟨_, hrow, range, rfl, hlead⟩, hrest⟩
    · rintro ⟨ranges, ⟨_, hrow, range, rfl, hlead⟩, hrest⟩
      exact ⟨_, hrow, .cons hlead hrest⟩
  rw [hrows, filterMap_rowAfter]
  by_cases hwidth : Decoder.width lead = 0
  · simp [hwidth]
  · simp [hwidth]

/-! ## Where a sequence stops -/

/-- The taken bytes are in the first of the ranges, and what is left does not
start with a byte in the next one. -/
def Stopped (ranges : List (UInt8 × UInt8)) (taken rest : List UInt8) : Prop :=
  ∃ met next unmet, ranges = met ++ next :: unmet ∧ List.Forall₂ InRange taken met ∧
    ∀ byte ∈ rest.head?, ¬ InRange byte next

theorem exists_split (ranges : List (UInt8 × UInt8)) (bytes : List UInt8) :
    ∃ taken rest, bytes = taken ++ rest ∧
      (List.Forall₂ InRange taken ranges ∨ Stopped ranges taken rest) := by
  induction ranges generalizing bytes with
  | nil => exact ⟨[], bytes, rfl, .inl .nil⟩
  | cons range ranges ih =>
      by_cases hhead : ∀ byte ∈ bytes.head?, ¬ InRange byte range
      · exact ⟨[], bytes, rfl, .inr ⟨[], range, ranges, rfl, .nil, hhead⟩⟩
      · push Not at hhead
        obtain ⟨byte, hbyte, hin⟩ := hhead
        obtain ⟨bytes, rfl⟩ := List.head?_eq_some_iff.mp hbyte
        obtain ⟨taken, rest, rfl, hsplit⟩ := ih bytes
        refine ⟨byte :: taken, rest, rfl, ?_⟩
        rcases hsplit with hall | ⟨met, next, unmet, rfl, hmet, hstop⟩
        · exact .inl (.cons hin hall)
        · exact .inr ⟨range :: met, next, unmet, rfl, .cons hin hmet, hstop⟩

theorem forall₂_append_inj {taken more : List UInt8} {met unmet : List (UInt8 × UInt8)}
    (h : List.Forall₂ InRange (taken ++ more) (met ++ unmet))
    (hlength : taken.length = met.length) :
    List.Forall₂ InRange taken met ∧ List.Forall₂ InRange more unmet := by
  have htaken := List.forall₂_take_append _ _ _ h
  have hmore := List.forall₂_drop_append _ _ _ h
  rw [← hlength, List.take_left] at htaken
  rw [← hlength, List.drop_left] at hmore
  exact ⟨htaken, hmore⟩

theorem Stopped.length_lt {ranges : List (UInt8 × UInt8)} {taken rest : List UInt8}
    (h : Stopped ranges taken rest) : taken.length < ranges.length := by
  obtain ⟨met, next, unmet, rfl, hmet, -⟩ := h
  simp [hmet.length_eq]

/-- Nothing longer than the taken bytes can be completed within the ranges. -/
theorem Stopped.length_le {ranges : List (UInt8 × UInt8)}
    {taken rest longer tail : List UInt8} (h : Stopped ranges taken rest)
    (hlonger : longer <+: taken ++ rest)
    (htail : List.Forall₂ InRange (longer ++ tail) ranges) :
    longer.length ≤ taken.length := by
  obtain ⟨met, next, unmet, rfl, hmet, hstop⟩ := h
  by_contra hlength
  obtain ⟨more, rfl⟩ : taken <+: longer :=
    List.prefix_of_prefix_length_le (List.prefix_append taken rest) hlonger (by omega)
  rw [List.prefix_append_right_inj] at hlonger
  rw [List.append_assoc] at htail
  have hmore := (forall₂_append_inj htail hmet.length_eq).2
  cases more with
  | nil => simp at hlength
  | cons byte more =>
      obtain ⟨suffix, rfl⟩ := hlonger
      exact hstop byte rfl (List.forall₂_cons.mp hmore).1

theorem begins_of_stopped {lead : UInt8} {taken rest : List UInt8}
    (hlead : Decoder.width lead ≠ 0) (h : Stopped (following lead) taken rest) :
    Begins (lead :: taken) := by
  obtain ⟨met, next, unmet, hranges, hmet, -⟩ := h
  have hcomplete :
      List.Forall₂ InRange ((next :: unmet).map Prod.fst) (next :: unmet) := by
    rw [List.forall₂_map_left_iff, List.forall₂_same]
    intro range hrange
    have hmem : range ∈ following lead := by
      rw [hranges]
      exact List.mem_append_right _ hrange
    exact ⟨UInt8.le_refl _, following_inhabited hmem⟩
  refine ⟨List.cons_ne_nil _ _, (next :: unmet).map Prod.fst, ?_⟩
  rw [List.cons_append, wellFormed_cons_iff, hranges]
  exact ⟨hlead, List.rel_append hmet hcomplete⟩

theorem begins_of_wellFormed {sequence : List UInt8} (h : WellFormed sequence) :
    Begins sequence := by
  refine ⟨?_, [], by rwa [List.append_nil]⟩
  rintro rfl
  exact not_wellFormed_nil h

/-- Where a sequence stops, nothing longer than what has come of it begins a
well-formed one. -/
theorem length_le_of_stopped {lead : UInt8} {taken rest longer : List UInt8}
    (h : Stopped (following lead) taken rest) (hlonger : longer <+: lead :: taken ++ rest)
    (hbegins : Begins longer) : longer.length ≤ (lead :: taken).length := by
  obtain ⟨hne, tail, hsequence⟩ := hbegins
  cases longer with
  | nil => exact absurd rfl hne
  | cons first longer =>
      rw [List.cons_append, List.cons_prefix_cons] at hlonger
      obtain ⟨rfl, hlonger⟩ := hlonger
      have hlength := h.length_le hlonger (wellFormed_cons_iff.mp hsequence).2
      exact Nat.succ_le_succ hlength

theorem not_prefix_of_stopped {lead : UInt8} {taken rest sequence : List UInt8}
    (h : Stopped (following lead) taken rest) (hsequence : WellFormed sequence) :
    ¬ sequence <+: lead :: taken ++ rest := by
  intro hprefix
  have hlength := length_le_of_stopped h hprefix (begins_of_wellFormed hsequence)
  cases sequence with
  | nil => exact not_wellFormed_nil hsequence
  | cons first sequence =>
      obtain ⟨rfl, -⟩ := List.cons_prefix_cons.mp hprefix
      have hfull := (wellFormed_cons_iff.mp hsequence).2.length_eq
      have hlt := h.length_lt
      simp only [List.length_cons] at hlength
      omega

theorem begins_singleton_iff {byte : UInt8} : Begins [byte] ↔ Decoder.width byte ≠ 0 := by
  constructor
  · rintro ⟨-, rest, hsequence⟩
    exact (wellFormed_cons_iff.mp hsequence).1
  · intro hlead
    obtain ⟨taken, rest, hnil, hsplit⟩ := exists_split (following byte) []
    obtain ⟨rfl, rfl⟩ := List.append_eq_nil_iff.mp hnil.symm
    rcases hsplit with hall | hstop
    · exact begins_of_wellFormed (wellFormed_cons_iff.mpr ⟨hlead, hall⟩)
    · exact begins_of_stopped hlead hstop

/-! ## The character of a sequence -/

/-- The number that the payload bits of bytes spell behind some payload. -/
def spell (payload : Nat) (bytes : List UInt8) : Nat :=
  bytes.foldl (fun payload byte => 64 * payload + byte.toNat % 64) payload

theorem toNat_ofNat_of_isValidChar {n : Nat} (h : n.isValidChar) :
    (Char.ofNat n).val.toNat = n := by
  rw [Char.ofNat, dif_pos h]
  rfl

theorem toNat_of_inRange {byte : UInt8} {range : UInt8 × UInt8} (h : InRange byte range) :
    range.1.toNat ≤ byte.toNat ∧ byte.toNat ≤ range.2.toNat :=
  ⟨UInt8.le_iff_toNat_le.mp h.1, UInt8.le_iff_toNat_le.mp h.2⟩

theorem ofNat_eq {n : Nat} (byte : UInt8) (h : n = byte.toNat) :
    UInt8.ofNat n = byte := by
  rw [h, UInt8.ofNat_toNat]

/-- What the second range of a lead byte says, in numbers. -/
theorem toNat_of_inRange_secondRange {lead byte : UInt8}
    (h : InRange byte (Decoder.secondRange lead)) :
    (0x80 ≤ byte.toNat ∧ byte.toNat ≤ 0xBF) ∧
      (lead.toNat = 0xE0 → 0xA0 ≤ byte.toNat) ∧ (lead.toNat = 0xED → byte.toNat ≤ 0x9F) ∧
      (lead.toNat = 0xF0 → 0x90 ≤ byte.toNat) ∧
      (lead.toNat = 0xF4 → byte.toNat ≤ 0x8F) := by
  have hbounds := toNat_of_inRange h
  simp only [Decoder.secondRange, ← UInt8.toNat_inj] at hbounds
  split_ifs at hbounds <;> simp only [UInt8.reduceToNat] at * <;> omega

theorem encode_one {lead : UInt8} (hlead : lead.toNat ≤ 0x7F) :
    String.utf8EncodeChar (Char.ofNat lead.toNat) = [lead] := by
  have hvalid : lead.toNat.isValidChar := by left; omega
  simp only [String.utf8EncodeChar, toNat_ofNat_of_isValidChar hvalid]
  rw [if_pos hlead, UInt8.ofNat_toNat]

theorem encode_two {lead second : UInt8} (hlead : 0xC2 ≤ lead.toNat ∧ lead.toNat ≤ 0xDF)
    (hsecond : 0x80 ≤ second.toNat ∧ second.toNat ≤ 0xBF) :
    String.utf8EncodeChar (Char.ofNat (spell (lead.toNat % 32) [second])) =
      [lead, second] := by
  have hspell :
      spell (lead.toNat % 32) [second] = 64 * (lead.toNat % 32) + second.toNat % 64 := rfl
  have hvalid : (spell (lead.toNat % 32) [second]).isValidChar := by left; omega
  simp only [String.utf8EncodeChar, toNat_ofNat_of_isValidChar hvalid]
  rw [if_neg (by omega), if_pos (by omega), ofNat_eq lead (by omega),
    ofNat_eq second (by omega)]

theorem encode_three {lead second third : UInt8}
    (hlead : 0xE0 ≤ lead.toNat ∧ lead.toNat ≤ 0xEF)
    (hsecond : 0x80 ≤ second.toNat ∧ second.toNat ≤ 0xBF)
    (hshorter : lead.toNat = 0xE0 → 0xA0 ≤ second.toNat)
    (hsurrogate : lead.toNat = 0xED → second.toNat ≤ 0x9F)
    (hthird : 0x80 ≤ third.toNat ∧ third.toNat ≤ 0xBF) :
    String.utf8EncodeChar (Char.ofNat (spell (lead.toNat % 16) [second, third])) =
      [lead, second, third] := by
  have hspell : spell (lead.toNat % 16) [second, third] =
      64 * (64 * (lead.toNat % 16) + second.toNat % 64) + third.toNat % 64 := rfl
  have hvalid : (spell (lead.toNat % 16) [second, third]).isValidChar := by
    rw [hspell, Nat.isValidChar]
    omega
  simp only [String.utf8EncodeChar, toNat_ofNat_of_isValidChar hvalid]
  rw [if_neg (by omega), if_neg (by omega), if_pos (by omega), ofNat_eq lead (by omega),
    ofNat_eq second (by omega), ofNat_eq third (by omega)]

theorem encode_four {lead second third fourth : UInt8}
    (hlead : 0xF0 ≤ lead.toNat ∧ lead.toNat ≤ 0xF4)
    (hsecond : 0x80 ≤ second.toNat ∧ second.toNat ≤ 0xBF)
    (hshorter : lead.toNat = 0xF0 → 0x90 ≤ second.toNat)
    (hlast : lead.toNat = 0xF4 → second.toNat ≤ 0x8F)
    (hthird : 0x80 ≤ third.toNat ∧ third.toNat ≤ 0xBF)
    (hfourth : 0x80 ≤ fourth.toNat ∧ fourth.toNat ≤ 0xBF) :
    String.utf8EncodeChar (Char.ofNat (spell (lead.toNat % 8) [second, third, fourth])) =
      [lead, second, third, fourth] := by
  have hspell : spell (lead.toNat % 8) [second, third, fourth] =
      64 * (64 * (64 * (lead.toNat % 8) + second.toNat % 64) + third.toNat % 64) +
        fourth.toNat % 64 := rfl
  have hvalid : (spell (lead.toNat % 8) [second, third, fourth]).isValidChar := by
    rw [hspell, Nat.isValidChar]
    omega
  simp only [String.utf8EncodeChar, toNat_ofNat_of_isValidChar hvalid]
  rw [if_neg (by omega), if_neg (by omega), if_neg (by omega), ofNat_eq lead (by omega),
    ofNat_eq second (by omega), ofNat_eq third (by omega), ofNat_eq fourth (by omega)]

/-- The widths, each with its lead bytes. -/
theorem width_cases (lead : UInt8) :
    Decoder.width lead = 0 ∨
      (Decoder.width lead = 1 ∧ lead.toNat ≤ 0x7F) ∨
      (Decoder.width lead = 2 ∧ 0xC2 ≤ lead.toNat ∧ lead.toNat ≤ 0xDF) ∨
      (Decoder.width lead = 3 ∧ 0xE0 ≤ lead.toNat ∧ lead.toNat ≤ 0xEF) ∨
      (Decoder.width lead = 4 ∧ 0xF0 ≤ lead.toNat ∧ lead.toNat ≤ 0xF4) := by
  revert lead
  apply forall_byte
  decide +kernel

theorem exists_of_forall₂_replicate_succ {bytes : List UInt8} {count : Nat}
    {range : UInt8 × UInt8}
    (h : List.Forall₂ InRange bytes (List.replicate (count + 1) range)) :
    ∃ byte rest, bytes = byte :: rest ∧
      (range.1.toNat ≤ byte.toNat ∧ byte.toNat ≤ range.2.toNat) ∧
      List.Forall₂ InRange rest (List.replicate count range) := by
  obtain ⟨byte, rest, hbyte, hrest, rfl⟩ := List.forall₂_cons_right_iff.mp h
  exact ⟨byte, rest, rfl, toNat_of_inRange hbyte, hrest⟩

/-- A well-formed sequence is the encoding of the character that it spells. -/
theorem utf8EncodeChar_spell {lead : UInt8} {rest : List UInt8}
    (h : WellFormed (lead :: rest)) :
    String.utf8EncodeChar (Char.ofNat (spell (Decoder.leadPayload lead) rest)) =
      lead :: rest := by
  obtain ⟨hlead, hrest⟩ := wellFormed_cons_iff.mp h
  simp only [following, Decoder.leadPayload] at hrest ⊢
  rcases width_cases lead with hwidth | ⟨hwidth, hbound⟩ | ⟨hwidth, hbound⟩ |
    ⟨hwidth, hbound⟩ | ⟨hwidth, hbound⟩
  · exact absurd hwidth hlead
  · simp only [hwidth] at hrest ⊢
    cases hrest
    exact encode_one hbound
  · simp only [hwidth] at hrest ⊢
    obtain ⟨second, _, hsecond, hnil, rfl⟩ := List.forall₂_cons_right_iff.mp hrest
    cases hnil
    exact encode_two hbound (toNat_of_inRange_secondRange hsecond).1
  · simp only [hwidth] at hrest ⊢
    obtain ⟨second, _, hsecond, htail, rfl⟩ := List.forall₂_cons_right_iff.mp hrest
    obtain ⟨third, _, rfl, hthird, hnil⟩ := exists_of_forall₂_replicate_succ htail
    cases hnil
    obtain ⟨hsecond, hshorter, hsurrogate, -⟩ := toNat_of_inRange_secondRange hsecond
    exact encode_three hbound hsecond hshorter hsurrogate hthird
  · simp only [hwidth] at hrest ⊢
    obtain ⟨second, _, hsecond, htail, rfl⟩ := List.forall₂_cons_right_iff.mp hrest
    obtain ⟨third, _, rfl, hthird, htail⟩ := exists_of_forall₂_replicate_succ htail
    obtain ⟨fourth, _, rfl, hfourth, hnil⟩ := exists_of_forall₂_replicate_succ htail
    cases hnil
    obtain ⟨hsecond, -, -, hshorter, hlast⟩ := toNat_of_inRange_secondRange hsecond
    exact encode_four hbound hsecond hshorter hlast hthird hfourth

/-- No two characters have the same encoding. -/
theorem utf8EncodeChar_injective : Function.Injective String.utf8EncodeChar := by
  intro c d h
  have hdecode (e : Char) :
      ((String.utf8EncodeChar e).toByteArray ++ ByteArray.empty).utf8DecodeChar? 0 =
        some e :=
    ByteArray.utf8DecodeChar?_utf8EncodeChar_append
  have hc := hdecode c
  rw [h, hdecode d] at hc
  exact (Option.some.inj hc).symm

/-! ## Every character has a well-formed encoding -/

theorem width_eq (lead : UInt8) :
    Decoder.width lead =
      if lead.toNat ≤ 0x7F then 1
      else if 0xC2 ≤ lead.toNat ∧ lead.toNat ≤ 0xDF then 2
      else if 0xE0 ≤ lead.toNat ∧ lead.toNat ≤ 0xEF then 3
      else if 0xF0 ≤ lead.toNat ∧ lead.toNat ≤ 0xF4 then 4
      else 0 := by
  simp only [Decoder.width, UInt8.le_iff_toNat_le]
  rfl

theorem inRange_of_toNat {byte : UInt8} {range : UInt8 × UInt8}
    (h : range.1.toNat ≤ byte.toNat ∧ byte.toNat ≤ range.2.toNat) : InRange byte range :=
  ⟨UInt8.le_iff_toNat_le.mpr h.1, UInt8.le_iff_toNat_le.mpr h.2⟩

theorem inRange_secondRange_of_toNat {lead byte : UInt8}
    (hbyte : 0x80 ≤ byte.toNat ∧ byte.toNat ≤ 0xBF)
    (hshorter : lead.toNat = 0xE0 → 0xA0 ≤ byte.toNat)
    (hsurrogate : lead.toNat = 0xED → byte.toNat ≤ 0x9F)
    (hshorter' : lead.toNat = 0xF0 → 0x90 ≤ byte.toNat)
    (hlast : lead.toNat = 0xF4 → byte.toNat ≤ 0x8F) :
    InRange byte (Decoder.secondRange lead) := by
  apply inRange_of_toNat
  simp only [Decoder.secondRange, ← UInt8.toNat_inj]
  split_ifs <;> simp only [UInt8.reduceToNat] at * <;> omega

theorem wellFormed_of_width {lead second : UInt8} {rest : List UInt8}
    (hwidth : Decoder.width lead = rest.length + 2)
    (hsecond : InRange second (Decoder.secondRange lead))
    (hrest : ∀ byte ∈ rest, 0x80 ≤ byte.toNat ∧ byte.toNat ≤ 0xBF) :
    WellFormed (lead :: second :: rest) := by
  rw [wellFormed_cons_iff]
  simp only [following, hwidth]
  refine ⟨by omega, .cons hsecond ?_⟩
  rw [List.forall₂_iff_get]
  constructor
  · rw [List.length_replicate]
  · intro i hi hreplicate
    have hbyte := hrest _ (List.get_mem rest ⟨i, hi⟩)
    simp only [List.get_eq_getElem, List.getElem_replicate] at hbyte ⊢
    exact inRange_of_toNat hbyte

theorem toNat_ofNat_of_le {n : Nat} (h : n ≤ 0xFF) : (UInt8.ofNat n).toNat = n :=
  UInt8.toNat_ofNat_of_lt' (Nat.lt_succ_of_le h)

/-- What the decoder lets pass includes the encoding of every character. -/
theorem wellFormed_utf8EncodeChar (c : Char) : WellFormed (String.utf8EncodeChar c) := by
  have hvalid : c.val.toNat < 0xD800 ∨ 0xDFFF < c.val.toNat ∧ c.val.toNat < 0x110000 :=
    c.valid
  simp only [String.utf8EncodeChar]
  generalize c.val.toNat = n at hvalid
  have htail (m : Nat) :
      0x80 ≤ (UInt8.ofNat (m % 64 + 128)).toNat ∧
        (UInt8.ofNat (m % 64 + 128)).toNat ≤ 0xBF := by
    rw [toNat_ofNat_of_le (by omega)]
    omega
  split_ifs with hone htwo hthree
  · have hwidth : Decoder.width (UInt8.ofNat n) = 1 := by
      rw [width_eq, toNat_ofNat_of_le (by omega), if_pos hone]
    rw [wellFormed_cons_iff]
    simp [following, hwidth]
  · have hlead : (UInt8.ofNat (n / 64 % 32 + 192)).toNat = n / 64 % 32 + 192 :=
      toNat_ofNat_of_le (by omega)
    apply wellFormed_of_width
    · rw [width_eq, hlead, if_neg (by omega), if_pos (by omega)]
      rfl
    · apply inRange_secondRange_of_toNat (htail n) <;> omega
    · simp
  · have hlead : (UInt8.ofNat (n / 4096 % 16 + 224)).toNat = n / 4096 % 16 + 224 :=
      toNat_ofNat_of_le (by omega)
    have hsecond : (UInt8.ofNat (n / 64 % 64 + 128)).toNat = n / 64 % 64 + 128 :=
      toNat_ofNat_of_le (by omega)
    apply wellFormed_of_width
    · rw [width_eq, hlead, if_neg (by omega), if_neg (by omega), if_pos (by omega)]
      rfl
    · apply inRange_secondRange_of_toNat (htail (n / 64)) <;> omega
    · intro byte hbyte
      rw [List.mem_singleton.mp hbyte]
      exact htail n
  · have hlead : (UInt8.ofNat (n / 262144 % 8 + 240)).toNat = n / 262144 % 8 + 240 :=
      toNat_ofNat_of_le (by omega)
    have hsecond : (UInt8.ofNat (n / 4096 % 64 + 128)).toNat = n / 4096 % 64 + 128 :=
      toNat_ofNat_of_le (by omega)
    apply wellFormed_of_width
    · rw [width_eq, hlead, if_neg (by omega), if_neg (by omega), if_neg (by omega),
        if_pos (by omega)]
      rfl
    · apply inRange_secondRange_of_toNat (htail (n / 4096)) <;> omega
    · intro byte hbyte
      rcases List.mem_cons.mp hbyte with rfl | hbyte
      · exact htail (n / 64)
      · rw [List.mem_singleton.mp hbyte]
        exact htail n

end Utf8

end TextMusic
