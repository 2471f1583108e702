/-
Segments: what a source says between its failures and ends is read by itself.  However
often the decoder is asked, it answers with the lossy text of one segment after the other
and behind each with what ended it, so that nothing is lost or told twice on the way.
-/
import Mathlib.Data.List.GetD
import TextMusic.Proofs.Failure

namespace TextMusic

namespace Decoder

open Utf8

/-! ## One item at a time -/

/-- A byte that cannot go on with the sequence before it. -/
def breaks : State → Signal → Bool
  | .inside _ low high _, .byte byte => !decide (low ≤ byte ∧ byte ≤ high)
  | _, _ => false

/-- What one request brings: the next item, and the signals that are left for the requests
behind it.  A byte that breaks a sequence is among them again. -/
def next : State → List Signal → Item × List Signal
  | .start, [] => (.stop, [])
  | .inside .., [] => (.malformed, [])
  | state, signal :: rest =>
      if breaks state signal then (.malformed, signal :: rest)
      else match take state signal with
        | ([], state) => next state rest
        | (item :: _, _) => (item, rest)

/-- The item that the `n`-th request brings, counted from 0. -/
def request : List Signal → Nat → Item
  | signals, 0 => (next .start signals).1
  | signals, n + 1 => request (next .start signals).2 n

theorem take_of_breaks {state : State} {signal : Signal}
    (h : breaks state signal = true) :
    take state signal =
      (.malformed :: (take .start signal).1, (take .start signal).2) := by
  cases state with
  | start => simp [breaks] at h
  | inside missing low high payload =>
      cases signal with
      | byte byte =>
          rw [breaks, Bool.not_eq_true', decide_eq_false_iff_not] at h
          exact if_neg h
      | failure | stop => simp [breaks] at h

/-- Any other signal either goes on with a sequence or brings one item. -/
theorem take_of_not_breaks {state : State} {signal : Signal}
    (h : breaks state signal = false) :
    (∃ missing low high payload,
        take state signal = ([], .inside missing low high payload)) ∨
      ∃ item, take state signal = ([item], .start) := by
  cases state with
  | start =>
      cases signal with
      | byte byte =>
          rcases hwidth : width byte with _ | _ | missing
          · exact .inr ⟨.malformed, by simp only [take, takeLead, hwidth]⟩
          · refine .inr ⟨.char (Char.ofNat (leadPayload byte)), ?_⟩
            simp only [take, takeLead, hwidth]
          · refine .inl ⟨missing, (secondRange byte).1, (secondRange byte).2,
              leadPayload byte, ?_⟩
            simp only [take, takeLead, hwidth]
      | failure text => exact .inr ⟨.failure text, rfl⟩
      | stop => exact .inr ⟨.stop, rfl⟩
  | inside missing low high payload =>
      cases signal with
      | byte byte =>
          rw [breaks, Bool.not_eq_false', decide_eq_true_eq] at h
          have htake : take (.inside missing low high payload) (.byte byte) =
              takeNext missing payload byte := if_pos h
          cases missing with
          | zero => exact .inr ⟨_, htake⟩
          | succ missing => exact .inl ⟨missing, _, _, _, htake⟩
      | failure text => exact .inr ⟨.failure text, rfl⟩
      | stop => exact .inr ⟨.malformed, rfl⟩

/-- One request takes the first item of those that are to come. -/
theorem decodeFrom_eq_next {state : State} {signals : List Signal}
    (h : state ≠ .start ∨ signals ≠ []) :
    decodeFrom state signals =
      (next state signals).1 :: decodeFrom .start (next state signals).2 := by
  induction signals generalizing state with
  | nil =>
      cases state with
      | start => simp at h
      | inside => rfl
  | cons signal rest ih =>
      rw [decodeFrom_cons]
      by_cases hbreaks : breaks state signal = true
      · rw [next, if_pos hbreaks, take_of_breaks hbreaks, decodeFrom_cons,
          List.cons_append]
      · rw [next, if_neg hbreaks]
        rcases take_of_not_breaks (Bool.not_eq_true _ ▸ hbreaks) with
          ⟨missing, low, high, payload, htake⟩ | ⟨item, htake⟩
        · rw [htake, List.nil_append]
          exact ih (.inl (State.noConfusion ·))
        · rw [htake]
          rfl

/-- Asked one by one, the items are those of the whole decoding and then the end. -/
theorem request_eq_getD (signals : List Signal) (n : Nat) :
    request signals n = (decode signals).getD n .stop := by
  induction n generalizing signals with
  | zero =>
      cases signals with
      | nil => rfl
      | cons signal rest =>
          rw [decode, decodeFrom_eq_next (.inr (List.cons_ne_nil signal rest))]
          rfl
  | succ n ih =>
      cases signals with
      | nil => exact ih []
      | cons signal rest =>
          rw [decode, decodeFrom_eq_next (.inr (List.cons_ne_nil signal rest))]
          exact ih _

/-! ## Segments -/

/-- What ends a segment. -/
inductive Ending where
  | failure (text : String)
  | stop
deriving DecidableEq, Repr

def Ending.signal : Ending → Signal
  | failure text => .failure text
  | stop => .stop

/-- The bytes between two failures or ends, and what came behind them. -/
structure Segment where
  bytes : List UInt8
  ending : Ending
deriving DecidableEq, Repr

/-- A source as its segments, each of them delivered in portions of any sizes and with any
interruptions.  The last one is ended by the end that is behind every source. -/
inductive Divided : List Delivery → List Segment → Prop where
  | last {source : List Delivery} {bytes : List UInt8} (hbytes : Delivers source bytes) :
      Divided source [⟨bytes, .stop⟩]
  | failed {source rest : List Delivery} {bytes : List UInt8} {segments : List Segment}
      {kind : FailureKind} {text : Option String} (hbytes : Delivers source bytes)
      (hkind : kind ≠ .interrupted) (hrest : Divided rest segments) :
      Divided (source ++ .failure kind text :: rest)
        (⟨bytes, .failure (text.getD kind.description)⟩ :: segments)
  | ended {source rest : List Delivery} {bytes : List UInt8} {segments : List Segment}
      (hbytes : Delivers source bytes) (hrest : Divided rest segments) :
      Divided (source ++ .bytes [] :: rest) (⟨bytes, .stop⟩ :: segments)

/-- More bytes in front belong to the first segment. -/
theorem Divided.portion {source : List Delivery} {segments : List Segment}
    (h : Divided source segments) {portion : List UInt8} (hportion : portion ≠ []) :
    ∃ segments, Divided (.bytes portion :: source) segments := by
  cases h with
  | last hbytes => exact ⟨_, .last (.portion hportion hbytes)⟩
  | failed hbytes hkind hrest => exact ⟨_, .failed (.portion hportion hbytes) hkind hrest⟩
  | ended hbytes hrest => exact ⟨_, .ended (.portion hportion hbytes) hrest⟩

theorem Divided.interrupted {source : List Delivery} {segments : List Segment}
    (h : Divided source segments) (text : Option String) :
    ∃ segments, Divided (.failure .interrupted text :: source) segments := by
  cases h with
  | last hbytes => exact ⟨_, .last (.interrupted hbytes)⟩
  | failed hbytes hkind hrest => exact ⟨_, .failed (.interrupted hbytes) hkind hrest⟩
  | ended hbytes hrest => exact ⟨_, .ended (.interrupted hbytes) hrest⟩

/-- Every source consists of segments. -/
theorem exists_divided (source : List Delivery) :
    ∃ segments, Divided source segments := by
  induction source with
  | nil => exact ⟨_, .last .done⟩
  | cons delivery rest ih =>
      obtain ⟨segments, hrest⟩ := ih
      cases delivery with
      | bytes portion =>
          by_cases hportion : portion = []
          · subst portion
            exact ⟨_, .ended .done hrest⟩
          · exact hrest.portion hportion
      | failure kind text =>
          by_cases hkind : kind = .interrupted
          · subst kind
            exact hrest.interrupted text
          · exact ⟨_, .failed .done hkind hrest⟩

def Segment.signals (segment : Segment) : List Signal :=
  segment.bytes.map .byte ++ [segment.ending.signal]

/-- The signals of a source are those of its segments, of which the last ends with the end
that is behind every source. -/
theorem signals_of_divided {source : List Delivery} {segments : List Segment}
    (h : Divided source segments) :
    signals source ++ [.stop] = segments.flatMap Segment.signals := by
  induction h with
  | last hbytes =>
      rw [signals_of_delivers hbytes, List.flatMap_singleton]
      rfl
  | failed hbytes hkind hrest ih =>
      rw [signals_failing hbytes hkind, List.append_assoc, List.cons_append, ih,
        List.flatMap_cons, Segment.signals, List.append_assoc]
      rfl
  | @ended source rest bytes segments hbytes hrest ih =>
      have hsource : signals (source ++ .bytes [] :: rest) =
          bytes.map .byte ++ .stop :: signals rest := by
        rw [← signals_of_delivers hbytes, signals, List.flatMap_append]
        rfl
      rw [hsource, List.append_assoc, List.cons_append, ih, List.flatMap_cons,
        Segment.signals, List.append_assoc]
      rfl

/-! ## Answers -/

end Decoder

/-- What a reader is told of an item. -/
inductive Answer where
  | character (c : Char)
  | failure (text : String)
  | stop
deriving DecidableEq, Repr

def Item.answer : Item → Answer
  | char c => .character c
  | malformed => .character replacement
  | failure text => .failure text
  | stop => .stop

namespace Decoder

open Utf8

/-- What a reader is told of a segment: its lossy text, and then what ended it.  A
sequence inside which the bytes break off is passed over before a failure, and is one
replacement before an end, which is then not told. -/
inductive Segment.Answered : Segment → List Answer → Prop where
  | failed {bytes whole : List UInt8} {text : List Char} {failure : String}
      (hwhole : WholePart bytes whole) (htext : LossyText whole text) :
      Answered ⟨bytes, .failure failure⟩ (text.map .character ++ [.failure failure])
  | ended {bytes : List UInt8} {text : List Char}
      (hwhole : ∀ part, part <:+ bytes → ¬ Incomplete part)
      (htext : LossyText bytes text) :
      Answered ⟨bytes, .stop⟩ (text.map .character ++ [.stop])
  | cut {whole part : List UInt8} {text : List Char}
      (hpart : Incomplete part) (htext : LossyText whole text) :
      Answered ⟨whole ++ part, .stop⟩ (text.map .character ++ [.character replacement])

theorem exists_answered (segment : Segment) : ∃ answers, segment.Answered answers := by
  obtain ⟨bytes, ending⟩ := segment
  obtain ⟨whole, hwhole⟩ := exists_wholePart bytes
  obtain ⟨text, htext⟩ := exists_lossyText whole
  cases ending with
  | failure failure => exact ⟨_, .failed hwhole htext⟩
  | stop =>
      rcases hwhole with ⟨rfl, hnone⟩ | ⟨part, hpart, rfl⟩
      · exact ⟨_, .ended hnone htext⟩
      · exact ⟨_, .cut hpart htext⟩

theorem answers_of_lossyText {bytes : List UInt8} {text : List Char}
    (h : LossyText bytes text) :
    (decode (bytes.map .byte)).map Item.answer = text.map .character := by
  have hanswer (item : Item) (c : Char) (hitem : item.character? = some c) :
      item.answer = .character c := by
    cases item with
    | char d =>
        obtain rfl : d = c := Option.some.inj hitem
        rfl
    | malformed =>
        obtain rfl : replacement = c := Option.some.inj hitem
        rfl
    | failure | stop => exact absurd hitem.symm (Option.some_ne_none c)
  have hitems := decode_of_lossyText h
  generalize decode (bytes.map .byte) = items at hitems
  rw [← List.forall₂_eq_eq_eq, List.forall₂_map_left_iff, List.forall₂_map_right_iff]
    at hitems ⊢
  exact hitems.imp hanswer

/-- An end inside a sequence comes out as one malformed item alone. -/
theorem decodeFrom_incomplete_stop {part : List UInt8} (h : Incomplete part)
    (later : List Signal) :
    decodeFrom .start (part.map .byte ++ .stop :: later) =
      .malformed :: decodeFrom .start later := by
  obtain ⟨lead, taken, rfl⟩ := List.exists_cons_of_ne_nil h.1
  obtain ⟨-, met, next, unmet, hranges, hmet, -⟩ := incomplete_cons_iff.mp h
  rw [decodeFrom_start_append hranges hmet]
  rfl

/-- A segment is read by itself, and what is behind it as if nothing had been before. -/
theorem answers_append {segment : Segment} {answers : List Answer}
    (h : segment.Answered answers) (later : List Signal) :
    (decodeFrom .start (segment.signals ++ later)).map Item.answer =
      answers ++ (decodeFrom .start later).map Item.answer := by
  cases h with
  | @failed bytes whole text failure hwhole htext =>
      have hsignals : Segment.signals ⟨bytes, .failure failure⟩ ++ later =
          bytes.map .byte ++ .failure failure :: later := List.append_assoc _ _ _
      rw [hsignals, decodeFrom_failure hwhole htext, List.map_append,
        answers_of_lossyText htext, List.append_assoc]
      rfl
  | @ended bytes text hwhole htext =>
      have hsignals : Segment.signals ⟨bytes, .stop⟩ ++ later =
          bytes.map .byte ++ .stop :: later := List.append_assoc _ _ _
      rw [hsignals, decodeFrom_append htext (.inl hwhole), List.map_append,
        List.append_assoc]
      exact congrArg (· ++ _) (answers_of_lossyText htext)
  | @cut whole part text hpart htext =>
      have hsignals : Segment.signals ⟨whole ++ part, .stop⟩ ++ later =
          (whole ++ part).map .byte ++ .stop :: later := List.append_assoc _ _ _
      rw [hsignals, decodeFrom_append_incomplete htext hpart,
        decodeFrom_incomplete_stop hpart, List.map_append, answers_of_lossyText htext,
        List.append_assoc]
      rfl

/-- What is told of a segment is settled by the segment. -/
theorem answered_iff {segment : Segment} {answers : List Answer} :
    segment.Answered answers ↔ answers = (decode segment.signals).map Item.answer := by
  have heq {answers : List Answer} (h : segment.Answered answers) :
      answers = (decode segment.signals).map Item.answer := by
    have happend := answers_append h []
    rw [List.append_nil] at happend
    rw [decode, happend]
    exact (List.append_nil answers).symm
  constructor
  · exact heq
  · rintro rfl
    obtain ⟨answers, hanswers⟩ := exists_answered segment
    rwa [← heq hanswers]

/-- What is told of several segments is settled segment by segment. -/
theorem forall₂_answered_iff (segments : List Segment) (answers : List (List Answer)) :
    List.Forall₂ Segment.Answered segments answers ↔
      answers = segments.map fun segment => (decode segment.signals).map Item.answer := by
  induction segments generalizing answers with
  | nil => simp
  | cons segment rest ih => cases answers <;> simp [answered_iff, ih]

theorem answers_flatMap {segments : List Segment} {answers : List (List Answer)}
    (h : List.Forall₂ Segment.Answered segments answers) :
    (decode (segments.flatMap Segment.signals)).map Item.answer = answers.flatten := by
  induction h with
  | nil => rfl
  | cons hsegment hrest ih =>
      rw [decode, List.flatMap_cons, answers_append hsegment, List.flatten_cons, ← ih]
      rfl

/-- An end behind everything is no news. -/
theorem getD_decodeFrom_append_stop (state : State) (signals : List Signal) (n : Nat) :
    (decodeFrom state (signals ++ [.stop])).getD n .stop =
      (decodeFrom state signals).getD n .stop := by
  have hcases : decodeFrom state (signals ++ [.stop]) = decodeFrom state signals ∨
      decodeFrom state (signals ++ [.stop]) = decodeFrom state signals ++ [.stop] := by
    induction signals generalizing state with
    | nil =>
        cases state with
        | start => exact .inr rfl
        | inside => exact .inl rfl
    | cons signal rest ih =>
        rw [List.cons_append, decodeFrom_cons, decodeFrom_cons, List.append_assoc]
        rcases ih (take state signal).2 with hsame | hmore
        · exact .inl (congrArg (_ ++ ·) hsame)
        · exact .inr (congrArg (_ ++ ·) hmore)
  rcases hcases with hsame | hmore
  · rw [hsame]
  · rw [hmore]
    rcases Nat.lt_or_ge n (decodeFrom state signals).length with hlt | hge
    · exact List.getD_append _ _ _ _ hlt
    · rw [List.getD_append_right _ _ _ _ hge, List.getD_eq_default _ _ hge]
      exact List.getElem?_getD_singleton_default_eq _ _

/-- However often the decoder is asked, it answers segment by segment. -/
theorem request_segment_by_segment {source : List Delivery} {segments : List Segment}
    (h : Divided source segments) :
    ∃ answers, (∀ other, List.Forall₂ Segment.Answered segments other ↔ other = answers) ∧
      ∀ n, request (signals source) n = (decode (signals source)).getD n .stop ∧
        (request (signals source) n).answer = answers.flatten.getD n .stop := by
  have hanswers := answers_flatMap ((forall₂_answered_iff segments _).mpr rfl)
  refine ⟨_, forall₂_answered_iff segments, ?_⟩
  intro n
  refine ⟨request_eq_getD _ n, ?_⟩
  rw [request_eq_getD, decode, ← getD_decodeFrom_append_stop,
    signals_of_divided h, ← hanswers]
  exact (List.getD_map _ _ Item.answer).symm

/-- A failure inside a sequence, a byte that breaks one just before an end, a failure
behind that end, an end inside a sequence, and a last segment that starts with what would
have gone on with it. -/
theorem request_segment_by_segment_resumed :
    let source : List Delivery :=
      [.bytes [0x41, 0xE2], .failure .interrupted none, .bytes [0x82],
        .failure .brokenPipe none, .bytes [0xE9, 0x43], .bytes [],
        .failure .timedOut (some "late"), .bytes [0xF0], .failure .interrupted none,
        .bytes [], .bytes [0x9F, 0xC3]]
    let segments : List Segment :=
      [⟨[0x41, 0xE2, 0x82], .failure "broken pipe"⟩, ⟨[0xE9, 0x43], .stop⟩,
        ⟨[], .failure "late"⟩, ⟨[0xF0], .stop⟩, ⟨[0x9F, 0xC3], .stop⟩]
    Divided source segments ∧ ∀ n, (request (signals source) n).answer =
      [.character 'A', .failure "broken pipe", .character replacement,
        .character 'C', .stop, .failure "late", .character replacement,
        .character replacement, .character replacement].getD n Answer.stop := by
  intro source segments
  have hsource : Divided source segments := by
    refine .failed (.portion (by decide) (.interrupted (.portion (by decide) .done)))
      (by decide) ?_
    refine .ended (.portion (by decide) .done) (.failed .done (by decide) ?_)
    exact .ended (.portion (by decide) (.interrupted .done))
      (.last (.portion (by decide) .done))
  have htold : List.Forall₂ Segment.Answered segments
      [[.character 'A', .failure "broken pipe"],
        [.character replacement, .character 'C', .stop], [.failure "late"],
        [.character replacement], [.character replacement, .character replacement]] := by
    refine .cons ?_ (.cons ?_ (.cons ?_ (.cons ?_ (.cons ?_ .nil)))) <;>
      exact answered_iff.mpr (by decide)
  obtain ⟨answers, hunique, hanswers⟩ := request_segment_by_segment hsource
  obtain rfl := (hunique _).mp htold
  exact ⟨hsource, fun n => (hanswers n).2⟩

end Decoder

end TextMusic
