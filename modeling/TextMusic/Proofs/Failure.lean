/-
Failing sources: a session keeps what it has heard of a source up to its failure.
Only the sequence inside which the source breaks off is lost, and nothing comes out
in its place.
-/
import TextMusic.Proofs.Orderly
import TextMusic.Proofs.Pieces

namespace TextMusic

variable {σ : Type}

namespace Utf8

/-! ## Incomplete sequences -/

/-- Some but not all bytes of a well-formed sequence. -/
def Incomplete (part : List UInt8) : Prop :=
  part ≠ [] ∧ ∃ rest, rest ≠ [] ∧ WellFormed (part ++ rest)

/-- The bytes up to the sequence inside which they break off, or all of them if
they break off inside none. -/
def WholePart (bytes whole : List UInt8) : Prop :=
  (whole = bytes ∧ ∀ part, part <:+ bytes → ¬ Incomplete part) ∨
    ∃ part, Incomplete part ∧ bytes = whole ++ part

/-- Incomplete sequences are those behind which the decoder wants more. -/
theorem incomplete_cons_iff {lead : UInt8} {taken : List UInt8} :
    Incomplete (lead :: taken) ↔
      Decoder.width lead ≠ 0 ∧ Stopped (following lead) taken [] := by
  constructor
  · rintro ⟨-, rest, hrest, hsequence⟩
    rw [List.cons_append, wellFormed_cons_iff] at hsequence
    obtain ⟨hlead, hbytes⟩ := hsequence
    refine ⟨hlead, ?_⟩
    obtain ⟨met, later, rfl, hsplit⟩ := exists_split (following lead) taken
    rcases hsplit with hall | hstop
    · have hlength := hbytes.length_eq
      rw [← hall.length_eq, List.length_append, List.length_append] at hlength
      have hpos := List.length_pos_of_ne_nil hrest
      omega
    · have hle := hstop.length_le List.prefix_rfl hbytes
      have hlater : later = [] := by
        rw [← List.length_eq_zero_iff]
        rw [List.length_append] at hle
        omega
      subst later
      rwa [List.append_nil]
  · rintro ⟨hlead, hstop⟩
    obtain ⟨hne, rest, hsequence⟩ := begins_of_stopped hlead hstop
    refine ⟨hne, rest, ?_, hsequence⟩
    rintro rfl
    rw [List.append_nil, wellFormed_cons_iff] at hsequence
    have hlength := hsequence.2.length_eq
    have hlt := hstop.length_lt
    omega

/-- Whatever follows a lead byte lies in the range of the bytes that start no
sequence. -/
theorem width_eq_zero_of_following {lead byte : UInt8} {range : UInt8 × UInt8}
    (hrange : range ∈ following lead) (hbyte : InRange byte range) :
    Decoder.width byte = 0 := by
  have hbounds : 0x80 ≤ byte.toNat ∧ byte.toNat ≤ 0xBF := by
    rcases hwidth : Decoder.width lead with _ | _ | missing
    · simp [following, hwidth] at hrange
    · simp [following, hwidth] at hrange
    · simp only [following, hwidth, List.mem_cons] at hrange
      rcases hrange with rfl | htail
      · exact (toNat_of_inRange_secondRange hbyte).1
      · rw [List.eq_of_mem_replicate htail] at hbyte
        exact toNat_of_inRange hbyte
  rw [width_eq, if_neg (by omega), if_neg (by omega), if_neg (by omega),
    if_neg (by omega)]

theorem width_eq_zero_of_mem_taken {lead : UInt8} {taken rest : List UInt8}
    (h : Stopped (following lead) taken rest) :
    ∀ byte ∈ taken, Decoder.width byte = 0 := by
  obtain ⟨met, next, unmet, hranges, hmet, -⟩ := h
  have hfollowing : ∀ range ∈ met, range ∈ following lead := by
    intro range hrange
    rw [hranges]
    exact List.mem_append_left _ hrange
  clear hranges
  induction hmet with
  | nil => simp
  | cons hbyte hmet ih =>
      rw [List.forall_mem_cons] at hfollowing ⊢
      exact ⟨width_eq_zero_of_following hfollowing.1 hbyte, ih hfollowing.2⟩

/-- A byte that starts a sequence stops the one before it. -/
theorem Stopped.lead {lead next : UInt8} {taken : List UInt8}
    (h : Stopped (following lead) taken []) (hnext : Decoder.width next ≠ 0)
    (rest : List UInt8) : Stopped (following lead) taken (next :: rest) := by
  obtain ⟨met, range, unmet, hranges, hmet, -⟩ := h
  refine ⟨met, range, unmet, hranges, hmet, ?_⟩
  rintro byte hbyte hin
  obtain rfl : next = byte := Option.some.inj hbyte
  have hrange : range ∈ following lead := by
    rw [hranges]
    exact List.mem_append_right _ List.mem_cons_self
  exact hnext (width_eq_zero_of_following hrange hin)

/-- Bytes break off inside at most one sequence. -/
theorem eq_of_incomplete_suffix {first second : List UInt8} (hfirst : Incomplete first)
    (hsecond : Incomplete second) (hsuffix : first <:+ second) : first = second := by
  obtain ⟨lead, taken, rfl⟩ := List.exists_cons_of_ne_nil hfirst.1
  obtain ⟨lead', taken', rfl⟩ := List.exists_cons_of_ne_nil hsecond.1
  rcases List.suffix_cons_iff.mp hsuffix with heq | htail
  · exact heq
  · have hmem : lead ∈ taken' := htail.subset List.mem_cons_self
    have hstop := (incomplete_cons_iff.mp hsecond).2
    have hwidth := width_eq_zero_of_mem_taken hstop lead hmem
    exact absurd hwidth (incomplete_cons_iff.mp hfirst).1

theorem exists_wholePart (bytes : List UInt8) : ∃ whole, WholePart bytes whole := by
  by_cases h : ∃ part, part <:+ bytes ∧ Incomplete part
  · obtain ⟨part, ⟨whole, rfl⟩, hpart⟩ := h
    exact ⟨whole, .inr ⟨part, hpart, rfl⟩⟩
  · push Not at h
    exact ⟨bytes, .inl ⟨rfl, h⟩⟩

theorem WholePart.unique {bytes first second : List UInt8}
    (hfirst : WholePart bytes first) (hsecond : WholePart bytes second) :
    first = second := by
  rcases hfirst with ⟨rfl, hnone⟩ | ⟨part, hpart, rfl⟩
  · rcases hsecond with ⟨rfl, -⟩ | ⟨part, hpart, rfl⟩
    · rfl
    · exact absurd hpart (hnone part (List.suffix_append _ _))
  · rcases hsecond with ⟨rfl, hnone⟩ | ⟨part', hpart', hbytes⟩
    · exact absurd hpart (hnone part (List.suffix_append _ _))
    · have hsuffix : part' <:+ first ++ part := hbytes ▸ List.suffix_append second part'
      have heq : part = part' := by
        rcases List.suffix_or_suffix_of_suffix
          (List.suffix_append first part) hsuffix with h | h
        · exact eq_of_incomplete_suffix hpart hpart' h
        · exact (eq_of_incomplete_suffix hpart' hpart h).symm
      subst part'
      exact List.append_cancel_right hbytes

end Utf8

namespace Decoder

open Utf8

/-! ## What the decoder makes of the bytes before a failure -/

/-- Inside a sequence a failure comes out alone. -/
theorem decodeFrom_incomplete_failure {part : List UInt8} (h : Incomplete part)
    (text : String) (later : List Signal) :
    decodeFrom .start (part.map .byte ++ .failure text :: later) =
      .failure text :: decodeFrom .start later := by
  obtain ⟨lead, taken, rfl⟩ := List.exists_cons_of_ne_nil h.1
  obtain ⟨-, met, next, unmet, hranges, hmet, -⟩ := incomplete_cons_iff.mp h
  rw [decodeFrom_start_append hranges hmet]
  rfl

/-- No sequence goes on from the bytes into the signals behind them. -/
def Apart (bytes : List UInt8) (later : List Signal) : Prop :=
  (∀ part, part <:+ bytes → ¬ Incomplete part) ∨
    ∃ lead rest, width lead ≠ 0 ∧ later = .byte lead :: rest

theorem Apart.of_append {front back : List UInt8} {later : List Signal}
    (h : Apart (front ++ back) later) : Apart back later := by
  rcases h with hnone | hlead
  · refine .inl fun part hpart => hnone part ?_
    exact hpart.trans (List.suffix_append front back)
  · exact .inr hlead

/-- Bytes and signals that are apart are decoded by themselves. -/
theorem decodeFrom_append {bytes : List UInt8} {text : List Char} {later : List Signal}
    (h : LossyText bytes text) (hapart : Apart bytes later) :
    decodeFrom .start (bytes.map .byte ++ later) =
      decodeFrom .start (bytes.map .byte) ++ decodeFrom .start later := by
  induction h with
  | nil => rfl
  | character hsequence hcharacter hrest ih =>
      have hih := ih hapart.of_append
      rw [← hcharacter, List.map_append, List.append_assoc, decodeFrom_utf8EncodeChar,
        decodeFrom_utf8EncodeChar, hih, List.cons_append]
  | @malformed part rest text hnone hpart hrest ih =>
      have hih := ih hapart.of_append
      rcases malformed_iff.mp ⟨hnone, hpart⟩ with
        ⟨byte, rfl, hwidth⟩ | ⟨lead, taken, rfl, hlead, hstop⟩
      · rw [List.singleton_append, List.map_cons, List.cons_append,
          decodeFrom_unbegun hwidth, decodeFrom_unbegun hwidth, hih, List.cons_append]
      · rw [decodeFrom_stopped hstop, List.map_append, List.append_assoc,
          List.cons_append, ← hih]
        cases rest with
        | cons byte rest => exact decodeFrom_stopped_byte hstop _
        | nil =>
            rcases hapart with hnone | ⟨next, rest, hnext, rfl⟩
            · have hpart : Incomplete (lead :: taken) :=
                incomplete_cons_iff.mpr ⟨hlead, hstop⟩
              rw [List.append_nil] at hnone
              exact absurd hpart (hnone _ List.suffix_rfl)
            · exact decodeFrom_stopped_byte (hstop.lead hnext []) rest

/-- The whole part of bytes is decoded apart from the sequence inside which they break
off. -/
theorem decodeFrom_append_incomplete {whole part : List UInt8} {text : List Char}
    (htext : LossyText whole text) (hpart : Incomplete part) (later : List Signal) :
    decodeFrom .start ((whole ++ part).map .byte ++ later) =
      decode (whole.map .byte) ++ decodeFrom .start (part.map .byte ++ later) := by
  obtain ⟨lead, taken, rfl⟩ := List.exists_cons_of_ne_nil hpart.1
  have hlead := (incomplete_cons_iff.mp hpart).1
  rw [List.map_append, List.append_assoc]
  exact decodeFrom_append htext (.inr ⟨lead, _, hlead, rfl⟩)

/-- Before a failure the whole part of the bytes comes out, and nothing else. -/
theorem decodeFrom_failure {bytes whole : List UInt8} {text : List Char}
    (hwhole : WholePart bytes whole) (htext : LossyText whole text) (failure : String)
    (later : List Signal) :
    decodeFrom .start (bytes.map .byte ++ .failure failure :: later) =
      decode (whole.map .byte) ++ .failure failure :: decodeFrom .start later := by
  rcases hwhole with ⟨rfl, hnone⟩ | ⟨part, hpart, rfl⟩
  · exact decodeFrom_append htext (.inl hnone)
  · rw [decodeFrom_append_incomplete htext hpart, decodeFrom_incomplete_failure hpart]

/-- What is heard of bytes and a failure behind them. -/
theorem hear_failure {bytes whole : List UInt8} {text : List Char}
    (hwhole : WholePart bytes whole) (htext : LossyText whole text) (failure : String)
    (later : List Signal) :
    hear (decode (bytes.map .byte ++ .failure failure :: later)) =
      (text, some failure) := by
  rw [decode, decodeFrom_failure hwhole htext,
    hear_append (decode_of_lossyText htext), hear, List.append_nil]

theorem signals_failing {source : List Delivery} {bytes : List UInt8} {kind : FailureKind}
    (h : Delivers source bytes) (hkind : kind ≠ .interrupted) (text : Option String)
    (later : List Delivery) :
    signals (source ++ .failure kind text :: later) =
      bytes.map .byte ++ .failure (text.getD kind.description) :: signals later := by
  have hfailure : Delivery.signals (.failure kind text) =
      [.failure (text.getD kind.description)] := by
    cases kind with
    | interrupted => exact absurd rfl hkind
    | _ => rfl
  rw [← signals_of_delivers h, signals, List.flatMap_append, List.flatMap_cons, hfailure]
  rfl

theorem lossyText_eq {bytes : List UInt8} {text other : List Char}
    (h : LossyText bytes text) (hother : LossyText bytes other) : other = text := by
  have hheard := hear_of_lossyText hother
  rw [hear_of_lossyText h] at hheard
  exact (congrArg Prod.fst hheard).symm

end Decoder

/-! ## Sessions -/

namespace Session

variable [Dice σ]

/-- No character takes an event away. -/
theorem events_prefix_feedAll (session : Session σ) (text : List Char) :
    session.timeline.events.toList <+: (session.feedAll text).timeline.events.toList :=
  (session.extends_feedAll text).events

/-- A source that fails behind some bytes leaves a session as if it had been fed the
lossy text of their whole part, and all goes on from there. -/
theorem readFrom_failing {source : List Delivery} {bytes : List UInt8}
    {kind : FailureKind} (hsource : Decoder.Delivers source bytes)
    (hkind : kind ≠ .interrupted) (session : Session σ) (description : Option String)
    (later : List Delivery) :
    let failing := source ++ .failure kind description :: later
    let failure := description.getD kind.description
    ∃ whole text, (∀ other, Utf8.WholePart bytes other ↔ other = whole) ∧
      (∀ other, Decoder.LossyText whole other ↔ other = text) ∧
      session.readFrom failing = (.error failure, session.feedAll text) ∧
      session.timeline.events.toList <+:
        (session.readFrom failing).2.timeline.events.toList ∧
      (∀ operations, session.performAll (.readFrom failing :: operations) =
        session.performAll (.feedText text :: operations)) ∧
      ∀ config (dice : σ), render failing config dice = .error (.io failure) := by
  intro failing failure
  obtain ⟨whole, hwhole⟩ := Utf8.exists_wholePart bytes
  obtain ⟨text, htext⟩ := Decoder.exists_lossyText whole
  have hheard :
      Decoder.hear (Decoder.decode (signals failing)) = (text, some failure) := by
    rw [Decoder.signals_failing hsource hkind]
    exact Decoder.hear_failure hwhole htext failure _
  have hread (session : Session σ) :
      session.readFrom failing = (.error failure, session.feedAll text) := by
    simp only [readFrom, hheard]
  refine ⟨whole, text, ?_, ?_, hread session, ?_, ?_, ?_⟩
  · intro other
    constructor
    · intro hother
      exact hother.unique hwhole
    · rintro rfl
      exact hwhole
  · intro other
    constructor
    · exact Decoder.lossyText_eq htext
    · rintro rfl
      exact htext
  · rw [hread]
    exact events_prefix_feedAll session text
  · intro operations
    have hperform :
        session.perform (.readFrom failing) = session.perform (.feedText text) :=
      congrArg Prod.snd (hread session)
    exact congrArg (performAll · operations) hperform
  · intro config dice
    rw [render, hread]

/-- A source that fails behind a lead byte which has just broken another sequence.
Nothing comes out for that lead byte. -/
theorem readFrom_failing_behind_lead :
    let source : List Delivery :=
      [.bytes [0x43, 0xF0], .failure .interrupted none, .bytes [0x9F, 0xE2]]
    let session := start {} (RandomStream.ofSeed 7)
    Decoder.Delivers source [0x43, 0xF0, 0x9F, 0xE2] ∧
      FailureKind.brokenPipe ≠ .interrupted ∧
      session.readFrom (source ++ .failure .brokenPipe none :: [.bytes [0x82]]) =
        (.error "broken pipe", session.feedAll ['C', replacement]) := by
  intro source session
  have hsource : Decoder.Delivers source [0x43, 0xF0, 0x9F, 0xE2] :=
    .portion (by decide) (.interrupted (.portion (by decide) .done))
  have hkind : FailureKind.brokenPipe ≠ .interrupted := by decide
  have hincomplete : Utf8.Incomplete [0xE2] :=
    ⟨by decide, [0x82, 0xAC], by decide, Utf8.wellFormed_utf8EncodeChar '€'⟩
  obtain ⟨whole, text, hwhole, htext, hread, -⟩ :=
    readFrom_failing hsource hkind session none [.bytes [0x82]]
  obtain rfl : [0x43, 0xF0, 0x9F] = whole :=
    (hwhole _).mp (.inr ⟨[0xE2], hincomplete, rfl⟩)
  obtain rfl : ['C', replacement] = text := by
    rw [← htext, Decoder.lossyText_iff]
    decide
  exact ⟨hsource, hkind, hread⟩

end Session

end TextMusic
