/-
Lossy decoding: however a source hands its bytes over, the decoder makes of them
the one text that reads well-formed sequences as their characters and every
malformed part as a replacement.
-/
import TextMusic.Proofs.WellFormed

namespace TextMusic

namespace Decoder

open Utf8

/-! ## The lossy text of bytes -/

/-- A part of the bytes that one replacement stands for: the longest that begins
a well-formed sequence, or a byte that begins none. -/
def MalformedPart (part rest : List UInt8) : Prop :=
  (Begins part ∧
      ∀ longer, longer <+: part ++ rest → Begins longer →
        longer.length ≤ part.length) ∨
    ∃ byte, part = [byte] ∧ ¬ Begins [byte]

/-- The text of bytes, read from left to right.  Only where no well-formed
sequence starts does a replacement come out. -/
inductive LossyText : List UInt8 → List Char → Prop where
  | nil : LossyText [] []
  | character {sequence rest : List UInt8} {c : Char} {text : List Char}
      (hsequence : WellFormed sequence) (hcharacter : String.utf8EncodeChar c = sequence)
      (hrest : LossyText rest text) : LossyText (sequence ++ rest) (c :: text)
  | malformed {part rest : List UInt8} {text : List Char}
      (hnone : ∀ sequence, WellFormed sequence → ¬ sequence <+: part ++ rest)
      (hpart : MalformedPart part rest)
      (hrest : LossyText rest text) : LossyText (part ++ rest) (replacement :: text)

/-- The source hands the bytes over in portions of any sizes, may be interrupted
in between, and has nothing behind them. -/
inductive Delivers : List Delivery → List UInt8 → Prop where
  | done : Delivers [] []
  | portion {portion bytes : List UInt8} {source : List Delivery}
      (hportion : portion ≠ []) (hrest : Delivers source bytes) :
      Delivers (.bytes portion :: source) (portion ++ bytes)
  | interrupted {text : Option String} {bytes : List UInt8} {source : List Delivery}
      (hrest : Delivers source bytes) :
      Delivers (.failure .interrupted text :: source) bytes

theorem signals_of_delivers {source : List Delivery} {bytes : List UInt8}
    (h : Delivers source bytes) : signals source = bytes.map .byte := by
  induction h with
  | done => rfl
  | portion hportion hrest ih =>
      obtain ⟨byte, portion, rfl⟩ := List.exists_cons_of_ne_nil hportion
      rw [List.map_append, ← ih]
      rfl
  | interrupted hrest ih => exact ih

/-! ## Malformed parts -/

theorem not_prefix_of_unbegun {byte : UInt8} {rest sequence : List UInt8}
    (hwidth : width byte = 0) (hsequence : WellFormed sequence) :
    ¬ sequence <+: byte :: rest := by
  intro hprefix
  cases sequence with
  | nil => exact not_wellFormed_nil hsequence
  | cons first sequence =>
      obtain ⟨rfl, -⟩ := List.cons_prefix_cons.mp hprefix
      exact (wellFormed_cons_iff.mp hsequence).1 hwidth

/-- The longest part that begins a sequence goes up to where the decoder stops. -/
theorem stopped_of_longest {lead : UInt8} {part rest : List UInt8}
    (hbegins : Begins (lead :: part))
    (hlongest : ∀ longer, longer <+: lead :: part ++ rest → Begins longer →
      longer.length ≤ (lead :: part).length)
    (hnone : ∀ sequence, WellFormed sequence → ¬ sequence <+: lead :: part ++ rest) :
    width lead ≠ 0 ∧ Stopped (following lead) part rest := by
  obtain ⟨-, tail, hsequence⟩ := hbegins
  obtain ⟨hlead, htail⟩ := wellFormed_cons_iff.mp hsequence
  obtain ⟨taken, later, hbytes, hsplit⟩ := exists_split (following lead) (part ++ rest)
  have htaken : lead :: taken <+: lead :: part ++ rest := by
    rw [List.cons_append, hbytes, ← List.cons_append]
    exact List.prefix_append _ _
  rcases hsplit with hall | hstop
  · exact absurd htaken (hnone _ (wellFormed_cons_iff.mpr ⟨hlead, hall⟩))
  · have hle := hlongest _ htaken (begins_of_stopped hlead hstop)
    have hge : part.length ≤ taken.length :=
      hstop.length_le (hbytes ▸ List.prefix_append part rest) htail
    have hlength : part.length = taken.length := by
      simp only [List.length_cons] at hle
      omega
    obtain ⟨rfl, rfl⟩ := List.append_inj hbytes hlength
    exact ⟨hlead, hstop⟩

/-- What malformed parts look like to the decoder. -/
theorem malformed_iff {part rest : List UInt8} :
    (∀ sequence, WellFormed sequence → ¬ sequence <+: part ++ rest) ∧
      MalformedPart part rest ↔
      (∃ byte, part = [byte] ∧ width byte = 0) ∨
        ∃ lead taken, part = lead :: taken ∧ width lead ≠ 0 ∧
          Stopped (following lead) taken rest := by
  constructor
  · rintro ⟨hnone, ⟨hbegins, hlongest⟩ | ⟨byte, rfl, hbyte⟩⟩
    · obtain ⟨lead, part, rfl⟩ := List.exists_cons_of_ne_nil hbegins.1
      exact .inr ⟨lead, part, rfl, stopped_of_longest hbegins hlongest hnone⟩
    · refine .inl ⟨byte, rfl, ?_⟩
      by_contra hwidth
      exact hbyte (begins_singleton_iff.mpr hwidth)
  · rintro (⟨byte, rfl, hwidth⟩ | ⟨lead, taken, rfl, hlead, hstop⟩)
    · refine ⟨fun sequence hsequence => not_prefix_of_unbegun hwidth hsequence, .inr ?_⟩
      exact ⟨byte, rfl, fun hbegins => begins_singleton_iff.mp hbegins hwidth⟩
    · refine ⟨fun sequence hsequence => not_prefix_of_stopped hstop hsequence, .inl ?_⟩
      refine ⟨begins_of_stopped hlead hstop, ?_⟩
      intro longer hlonger hbegins
      exact length_le_of_stopped hstop hlonger hbegins

/-- Every byte sequence has a lossy text. -/
theorem exists_lossyText (bytes : List UInt8) : ∃ text, LossyText bytes text := by
  induction hlength : bytes.length using Nat.strongRecOn generalizing bytes with
  | ind n ih =>
      cases bytes with
      | nil => exact ⟨[], .nil⟩
      | cons lead bytes =>
          by_cases hlead : width lead = 0
          · obtain ⟨text, htext⟩ :=
              ih bytes.length (hlength ▸ Nat.lt_succ_self _) bytes rfl
            obtain ⟨hnone, hpart⟩ := malformed_iff.mpr (.inl ⟨lead, rfl, hlead⟩)
            exact ⟨replacement :: text, .malformed hnone hpart htext⟩
          · obtain ⟨taken, rest, rfl, hsplit⟩ := exists_split (following lead) bytes
            have hshorter : rest.length < n := by
              simp only [← hlength, List.length_cons, List.length_append]
              omega
            obtain ⟨text, htext⟩ := ih rest.length hshorter rest rfl
            rcases hsplit with hall | hstop
            · have hsequence := wellFormed_cons_iff.mpr ⟨hlead, hall⟩
              exact ⟨_, .character hsequence (utf8EncodeChar_spell hsequence) htext⟩
            · obtain ⟨hnone, hpart⟩ :=
                malformed_iff.mpr (.inr ⟨lead, taken, rfl, hlead, hstop⟩)
              exact ⟨replacement :: text, .malformed hnone hpart htext⟩

/-! ## What the decoder makes of a sequence -/

theorem decodeFrom_cons (state : State) (signal : Signal) (rest : List Signal) :
    decodeFrom state (signal :: rest) =
      (take state signal).1 ++ decodeFrom (take state signal).2 rest := by
  cases state <;> rfl

theorem decodeFrom_inside_step {byte : UInt8} {range : UInt8 × UInt8}
    (hbyte : InRange byte range) (missing payload : Nat) (later : List Signal) :
    decodeFrom (.inside (missing + 1) range.1 range.2 payload) (.byte byte :: later) =
      decodeFrom (.inside missing 0x80 0xBF (64 * payload + byte.toNat % 64)) later := by
  have htake : take (.inside (missing + 1) range.1 range.2 payload) (.byte byte) =
      ([], .inside missing 0x80 0xBF (64 * payload + byte.toNat % 64)) :=
    if_pos hbyte
  rw [decodeFrom_cons, htake]
  rfl

/-- The last byte of a sequence makes it a character. -/
theorem decodeFrom_inside_last {byte : UInt8} {range : UInt8 × UInt8}
    (hbyte : InRange byte range) (payload : Nat) (later : List Signal) :
    decodeFrom (.inside 0 range.1 range.2 payload) (.byte byte :: later) =
      .char (Char.ofNat (64 * payload + byte.toNat % 64)) :: decodeFrom .start later := by
  have htake : take (.inside 0 range.1 range.2 payload) (.byte byte) =
      ([.char (Char.ofNat (64 * payload + byte.toNat % 64))], .start) :=
    if_pos hbyte
  rw [decodeFrom_cons, htake]
  rfl

/-- A byte out of range is left for the next sequence. -/
theorem decodeFrom_inside_break {byte : UInt8} {range : UInt8 × UInt8}
    (hbyte : ¬ InRange byte range) (missing payload : Nat) (later : List Signal) :
    decodeFrom (.inside missing range.1 range.2 payload) (.byte byte :: later) =
      .malformed :: decodeFrom .start (.byte byte :: later) := by
  have htake : take (.inside missing range.1 range.2 payload) (.byte byte) =
      (.malformed :: (takeLead byte).1, (takeLead byte).2) :=
    if_neg hbyte
  rw [decodeFrom_cons, htake]
  rfl

/-- Behind some of the bytes that it wants, the decoder wants the next one. -/
theorem decodeFrom_inside_append {taken : List UInt8} {met unmet : List (UInt8 × UInt8)}
    (hmet : List.Forall₂ InRange taken met) {missing payload : Nat}
    {range next : UInt8 × UInt8}
    (hranges : range :: List.replicate missing (0x80, 0xBF) = met ++ next :: unmet)
    (later : List Signal) :
    decodeFrom (.inside missing range.1 range.2 payload) (taken.map .byte ++ later) =
      decodeFrom (.inside unmet.length next.1 next.2 (spell payload taken)) later := by
  induction hmet generalizing missing payload range with
  | nil =>
      obtain ⟨rfl, hunmet⟩ := List.cons.inj hranges
      rw [← hunmet, List.length_replicate]
      rfl
  | cons hbyte hmet ih =>
      obtain ⟨rfl, htail⟩ := List.cons.inj hranges
      cases missing with
      | zero => simp at htail
      | succ missing =>
          rw [List.map_cons, List.cons_append, decodeFrom_inside_step hbyte]
          exact ih htail

/-- Behind all the bytes that it wants, the decoder has a character. -/
theorem decodeFrom_inside_complete {bytes : List UInt8} {missing payload : Nat}
    {range : UInt8 × UInt8}
    (h : List.Forall₂ InRange bytes (range :: List.replicate missing (0x80, 0xBF)))
    (later : List Signal) :
    decodeFrom (.inside missing range.1 range.2 payload) (bytes.map .byte ++ later) =
      .char (Char.ofNat (spell payload bytes)) :: decodeFrom .start later := by
  induction missing generalizing bytes payload range with
  | zero =>
      obtain ⟨byte, _, hbyte, hnil, rfl⟩ := List.forall₂_cons_right_iff.mp h
      cases hnil
      exact decodeFrom_inside_last hbyte payload later
  | succ missing ih =>
      obtain ⟨byte, rest, hbyte, hrest, rfl⟩ := List.forall₂_cons_right_iff.mp h
      rw [List.map_cons, List.cons_append, decodeFrom_inside_step hbyte]
      exact ih hrest

theorem decodeFrom_lead {lead : UInt8} {missing : Nat} (hwidth : width lead = missing + 2)
    (later : List Signal) :
    decodeFrom .start (.byte lead :: later) =
      decodeFrom
        (.inside missing (secondRange lead).1 (secondRange lead).2 (leadPayload lead))
        later := by
  have htake : take .start (.byte lead) =
      ([], .inside missing (secondRange lead).1 (secondRange lead).2
        (leadPayload lead)) := by
    simp only [take, takeLead, hwidth]
  rw [decodeFrom_cons, htake]
  rfl

theorem decodeFrom_start_append {lead : UInt8} {taken : List UInt8}
    {met unmet : List (UInt8 × UInt8)} {next : UInt8 × UInt8}
    (hranges : following lead = met ++ next :: unmet)
    (hmet : List.Forall₂ InRange taken met) (later : List Signal) :
    decodeFrom .start ((lead :: taken).map .byte ++ later) =
      decodeFrom
        (.inside unmet.length next.1 next.2 (spell (leadPayload lead) taken)) later := by
  rcases hwidth : width lead with _ | _ | missing
  · simp [following, hwidth] at hranges
  · simp [following, hwidth] at hranges
  · simp only [following, hwidth] at hranges
    rw [List.map_cons, List.cons_append, decodeFrom_lead hwidth]
    exact decodeFrom_inside_append hmet hranges later

/-- A well-formed sequence comes out as the character that it spells. -/
theorem decodeFrom_wellFormed {lead : UInt8} {rest : List UInt8}
    (h : WellFormed (lead :: rest)) (later : List Signal) :
    decodeFrom .start ((lead :: rest).map .byte ++ later) =
      .char (Char.ofNat (spell (leadPayload lead) rest)) :: decodeFrom .start later := by
  obtain ⟨hlead, hrest⟩ := wellFormed_cons_iff.mp h
  rw [List.map_cons, List.cons_append]
  rcases hwidth : width lead with _ | _ | missing
  · exact absurd hwidth hlead
  · simp only [following, hwidth] at hrest
    cases hrest
    have htake :
        take .start (.byte lead) = ([.char (Char.ofNat (leadPayload lead))], .start) := by
      simp only [take, takeLead, hwidth]
    rw [decodeFrom_cons, htake]
    rfl
  · simp only [following, hwidth] at hrest
    rw [decodeFrom_lead hwidth]
    exact decodeFrom_inside_complete hrest later

/-- A byte that stops a sequence is read as if nothing had been before. -/
theorem decodeFrom_stopped_byte {lead byte : UInt8} {taken rest : List UInt8}
    (h : Stopped (following lead) taken (byte :: rest)) (later : List Signal) :
    decodeFrom .start ((lead :: taken).map .byte ++ .byte byte :: later) =
      .malformed :: decodeFrom .start (.byte byte :: later) := by
  obtain ⟨met, next, unmet, hranges, hmet, hstop⟩ := h
  rw [decodeFrom_start_append hranges hmet]
  exact decodeFrom_inside_break (hstop byte rfl) _ _ _

/-- A sequence that stops before its end comes out as malformed, and what
stopped it is read as if nothing had been before. -/
theorem decodeFrom_stopped {lead : UInt8} {taken rest : List UInt8}
    (h : Stopped (following lead) taken rest) :
    decodeFrom .start ((lead :: taken ++ rest).map .byte) =
      .malformed :: decodeFrom .start (rest.map .byte) := by
  rw [List.map_append]
  cases rest with
  | nil =>
      obtain ⟨met, next, unmet, hranges, hmet, -⟩ := h
      rw [decodeFrom_start_append hranges hmet]
      rfl
  | cons byte rest => exact decodeFrom_stopped_byte h _

theorem decodeFrom_unbegun {byte : UInt8} (hwidth : width byte = 0)
    (later : List Signal) :
    decodeFrom .start (.byte byte :: later) = .malformed :: decodeFrom .start later := by
  have htake : take .start (.byte byte) = ([.malformed], .start) := by
    simp only [take, takeLead, hwidth]
  rw [decodeFrom_cons, htake]
  rfl

/-- The bytes of a character come out as that character. -/
theorem decodeFrom_utf8EncodeChar (c : Char) (later : List Signal) :
    decodeFrom .start ((String.utf8EncodeChar c).map .byte ++ later) =
      .char c :: decodeFrom .start later := by
  have hsequence := wellFormed_utf8EncodeChar c
  rcases hbytes : String.utf8EncodeChar c with _ | ⟨lead, rest⟩
  · rw [hbytes] at hsequence
    exact absurd hsequence not_wellFormed_nil
  · rw [hbytes] at hsequence
    have hc : Char.ofNat (spell (leadPayload lead) rest) = c :=
      utf8EncodeChar_injective ((utf8EncodeChar_spell hsequence).trans hbytes.symm)
    rw [decodeFrom_wellFormed hsequence, hc]

/-- A malformed part comes out as malformed, and what is behind it is read as if nothing
had been before. -/
theorem decodeFrom_malformed {part rest : List UInt8}
    (hnone : ∀ sequence, WellFormed sequence → ¬ sequence <+: part ++ rest)
    (hpart : MalformedPart part rest) :
    decodeFrom .start ((part ++ rest).map .byte) =
      .malformed :: decodeFrom .start (rest.map .byte) := by
  rcases malformed_iff.mp ⟨hnone, hpart⟩ with
    ⟨byte, rfl, hwidth⟩ | ⟨lead, taken, rfl, -, hstop⟩
  · rw [List.singleton_append, List.map_cons, decodeFrom_unbegun hwidth]
  · exact decodeFrom_stopped hstop

theorem decode_of_lossyText {bytes : List UInt8} {text : List Char}
    (h : LossyText bytes text) :
    (decode (bytes.map .byte)).map Item.character? = text.map some := by
  rw [decode]
  induction h with
  | nil => rfl
  | character hsequence hcharacter hrest ih =>
      rw [← hcharacter, List.map_append, decodeFrom_utf8EncodeChar, List.map_cons, ih]
      rfl
  | malformed hnone hpart hrest ih =>
      rw [decodeFrom_malformed hnone hpart, List.map_cons, ih]
      rfl

/-- What is heard of bytes is their lossy text and nothing else. -/
theorem lossyText_iff {bytes : List UInt8} {text : List Char} :
    LossyText bytes text ↔
      (decode (bytes.map .byte)).map Item.character? = text.map some := by
  refine ⟨decode_of_lossyText, fun h => ?_⟩
  obtain ⟨other, hother⟩ := exists_lossyText bytes
  rw [decode_of_lossyText hother, List.map_inj_right (fun _ _ => Option.some.inj)] at h
  rwa [← h]

/-! ## The end -/

theorem untilStop_nil (stops : Nat) :
    untilStop stops [] = List.replicate stops .stop := by
  induction stops with
  | zero => rw [untilStop, List.replicate_zero]
  | succ stops ih => rw [untilStop, ih, List.replicate_succ]

theorem untilStop_of_not_mem {items : List Item} (h : .stop ∉ items) (stops : Nat) :
    untilStop (stops + 1) items = items ++ List.replicate (stops + 1) .stop := by
  induction items with
  | nil => exact untilStop_nil (stops + 1)
  | cons item items ih =>
      rw [List.mem_cons, not_or] at h
      obtain ⟨hitem, hitems⟩ := h
      rw [List.cons_append, ← ih hitems]
      rw [untilStop]
      exact fun heq => hitem heq.symm

theorem stop_not_mem {items : List Item} {text : List Char}
    (h : items.map Item.character? = text.map some) : .stop ∉ items := by
  intro hstop
  have hnone : none ∈ items.map Item.character? :=
    List.mem_map_of_mem (f := Item.character?) hstop
  rw [h] at hnone
  simp at hnone

/-- However a source hands bytes over, what comes out is the lossy text of the
bytes, of which there is exactly one, and then only the end. -/
theorem decode_signals_lossy {source : List Delivery} {bytes : List UInt8}
    (h : Delivers source bytes) :
    ∃ text, (∀ other, LossyText bytes other ↔ other = text) ∧
      (decode (signals source)).map Item.character? = text.map some ∧
      ∀ stops, untilStop (stops + 1) (decode (signals source)) =
        decode (signals source) ++ List.replicate (stops + 1) .stop := by
  obtain ⟨text, htext⟩ := exists_lossyText bytes
  have hdecode := decode_of_lossyText htext
  rw [signals_of_delivers h]
  refine ⟨text, ?_, hdecode, untilStop_of_not_mem (stop_not_mem hdecode)⟩
  intro other
  rw [lossyText_iff, hdecode, List.map_inj_right (fun _ _ => Option.some.inj), eq_comm]

/-- A sequence that a letter breaks, a surrogate, a character cut by an
interruption, and a sequence that the end cuts. -/
theorem decode_signals_lossy_broken :
    Delivers
        [.bytes [0xF0], .failure .interrupted none, .bytes [0x9F, 0x41, 0xED],
          .bytes [0xA0, 0xE2, 0x82], .failure .interrupted (some "again"),
          .bytes [0xAC, 0xC3]]
        [0xF0, 0x9F, 0x41, 0xED, 0xA0, 0xE2, 0x82, 0xAC, 0xC3] ∧
      ∀ text, LossyText [0xF0, 0x9F, 0x41, 0xED, 0xA0, 0xE2, 0x82, 0xAC, 0xC3] text ↔
        text = [replacement, 'A', replacement, replacement, '€', replacement] := by
  have hsource : Delivers
      [.bytes [0xF0], .failure .interrupted none, .bytes [0x9F, 0x41, 0xED],
        .bytes [0xA0, 0xE2, 0x82], .failure .interrupted (some "again"),
        .bytes [0xAC, 0xC3]]
      [0xF0, 0x9F, 0x41, 0xED, 0xA0, 0xE2, 0x82, 0xAC, 0xC3] := by
    refine .portion (by decide)
      (.interrupted (.portion (by decide) (.portion (by decide) ?_)))
    exact .interrupted (.portion (by decide) .done)
  obtain ⟨text, hunique, hdecode, -⟩ := decode_signals_lossy hsource
  have htext : [replacement, 'A', replacement, replacement, '€', replacement] = text := by
    rw [← List.map_inj_right (f := some) (fun _ _ => Option.some.inj), ← hdecode]
    decide
  refine ⟨hsource, fun other => ?_⟩
  rw [hunique, htext]

end Decoder

end TextMusic
