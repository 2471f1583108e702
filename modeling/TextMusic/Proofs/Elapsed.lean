/-
Elapsed time.  The moments of a schedule are told by a definition that looks at all the
events before: each event is as many ticks on as it goes beyond the latest of them, at the
tempo that the last tempo change among them has set.
-/
import Mathlib.Algebra.Ring.Nat
import TextMusic.Proofs.Agreement
import TextMusic.Proofs.Wire

namespace TextMusic

namespace Schedule

/-! ## The definition -/

/-- The latest tick of events, zero where there are none. -/
def latest (events : List Event) : Nat :=
  (events.map Event.tick).foldl max 0

/-- The tempo that events leave behind: that of the last tempo change. -/
def tempoAfter (events : List Event) : UInt32 :=
  (events.filterMap Event.micros?).getLastD Clock.defaultMicros

/-- By how many ticks event `i` goes beyond all the events before it. -/
def gap (events : List Event) (i : Nat) : Nat :=
  match events[i]? with
  | some event => event.tick - latest (events.take i)
  | none => 0

/-- The milliseconds up to the end of the first events. -/
def elapsed (resolution : UInt16) (events : List Event) : Nat → Float
  | 0 => 0.0
  | i + 1 =>
      elapsed resolution events i +
        ticksToMillis (gap events i) (tempoAfter (events.take i)) resolution

theorem gap_eq {events : List Event} {i : Nat} {event : Event}
    (h : events[i]? = some event) :
    gap events i = event.tick - latest (events.take i) := by
  rw [gap, h]

theorem gap_eq_zero {events : List Event} {i : Nat} (h : events[i]? = none) :
    gap events i = 0 := by
  rw [gap, h]

theorem latest_concat (events : List Event) (event : Event) :
    latest (events ++ [event]) = max (latest events) event.tick := by
  rw [latest, List.map_append, List.foldl_append]
  rfl

theorem tempoAfter_concat (events : List Event) (event : Event) :
    tempoAfter (events ++ [event]) = event.micros?.getD (tempoAfter events) := by
  rw [tempoAfter, List.filterMap_append]
  cases hmicros : event.micros? with
  | none => simp [hmicros, tempoAfter]
  | some micros => simp [hmicros]

/-- No tick is counted twice and none is lost: the gaps come to the latest tick. -/
theorem sum_gap (events : List Event) (i : Nat) :
    ((List.range i).map (gap events)).sum = latest (events.take i) := by
  induction i with
  | zero => rfl
  | succ i ih =>
      rw [List.range_succ, List.map_append, List.sum_append, ih, List.take_add_one,
        List.map_singleton, List.sum_singleton]
      cases hevent : events[i]? with
      | none => rw [gap_eq_zero hevent, Option.toList_none, List.append_nil, Nat.add_zero]
      | some event =>
          rw [gap_eq hevent, Option.toList_some, latest_concat]
          omega

theorem gap_take {events : List Event} {i n : Nat} (h : i < n) :
    gap (events.take n) i = gap events i := by
  rw [gap, gap, List.getElem?_take_of_lt h, List.take_take,
    Nat.min_eq_left (Nat.le_of_lt h)]

theorem elapsed_take (resolution : UInt16) {events : List Event} {i n : Nat} (h : i ≤ n) :
    elapsed resolution (events.take n) i = elapsed resolution events i := by
  induction i with
  | zero => rfl
  | succ i ih =>
      rw [elapsed, elapsed, ih (Nat.le_of_succ_le h), gap_take h, List.take_take,
        Nat.min_eq_left (Nat.le_of_succ_le h)]

theorem gap_congr {events others : List Event} {i : Nat}
    (hbefore : events.take i = others.take i)
    (htick : events[i]?.map Event.tick = others[i]?.map Event.tick) :
    gap events i = gap others i := by
  cases hevent : events[i]? with
  | none =>
      rw [hevent, Option.map_none] at htick
      rw [gap_eq_zero hevent, gap_eq_zero (Option.map_eq_none_iff.mp htick.symm)]
  | some event =>
      rw [hevent, Option.map_some] at htick
      obtain ⟨other, hother, hsame⟩ := Option.map_eq_some_iff.mp htick.symm
      rw [gap_eq hevent, gap_eq hother, hsame, hbefore]

/-- The time up to an event depends on its tick and on the events before it, and not on
any tempo from there on. -/
theorem elapsed_succ_congr (resolution : UInt16) {events others : List Event} {i : Nat}
    (hbefore : events.take i = others.take i)
    (htick : events[i]?.map Event.tick = others[i]?.map Event.tick) :
    elapsed resolution events (i + 1) = elapsed resolution others (i + 1) := by
  have hearlier : elapsed resolution events i = elapsed resolution others i := by
    rw [← elapsed_take resolution (Nat.le_refl i), hbefore,
      elapsed_take resolution (Nat.le_refl i)]
  rw [elapsed, elapsed, hearlier, gap_congr hbefore htick, hbefore]

/-! ## The clock -/

/-- The clock behind the first events. -/
def clockAt (resolution : UInt16) (events : List Event) (i : Nat) : Clock :=
  ⟨tempoAfter (events.take i), latest (events.take i), elapsed resolution events i⟩

theorem clockAt_zero (resolution : UInt16) (events : List Event) :
    clockAt resolution events 0 = Clock.zero := rfl

theorem elapsed_advance {resolution : UInt16} {events : List Event} {i : Nat}
    {event : Event} (hevent : events[i]? = some event) :
    ((clockAt resolution events i).advance resolution event.tick).elapsed =
      elapsed resolution events (i + 1) := by
  rw [elapsed, gap_eq hevent]
  rfl

theorem clockAt_succ {resolution : UInt16} {events : List Event} {i : Nat} {event : Event}
    (hevent : events[i]? = some event) {message : Message}
    (hmessage : event.encode = .ok message) :
    ((clockAt resolution events i).advance resolution event.tick).hear message =
      clockAt resolution events (i + 1) := by
  have htake : events.take (i + 1) = events.take i ++ [event] := by
    rw [List.take_add_one, hevent, Option.toList_some]
  rw [clockAt.eq_def _ _ (i + 1), ← elapsed_advance hevent, htake, latest_concat,
    tempoAfter_concat, ← Wire.tempo?_eq_micros? hmessage]
  rfl

/-! ## Schedules -/

/-- The item is made of event `i`: it stands for it, and it is due when time has come
there. -/
structure IsItem (resolution : UInt16) (events : List Event) (i : Nat)
    (item : Scheduled) : Prop where
  standsFor : ∃ event, events[i]? = some event ∧ item.StandsFor event
  due : Duration.ofMillis? (elapsed resolution events (i + 1)) = some item.due

theorem IsItem.tick {resolution : UInt16} {events : List Event} {i : Nat}
    {item : Scheduled} (h : IsItem resolution events i item) :
    events[i]?.map Event.tick = some item.tick := by
  obtain ⟨event, hevent, htick, -⟩ := h.standsFor
  rw [hevent, Option.map_some, htick]

/-- When an item is due is settled by its tick and by the events before it. -/
theorem IsItem.due_eq {resolution : UInt16} {events others : List Event} {i : Nat}
    {item other : Scheduled} (h : IsItem resolution events i item)
    (hother : IsItem resolution others i other) (hbefore : events.take i = others.take i)
    (htick : item.tick = other.tick) : item.due = other.due := by
  have helapsed :=
    elapsed_succ_congr resolution hbefore (by rw [h.tick, hother.tick, htick])
  rw [← Option.some_inj, ← h.due, ← hother.due, helapsed]

section Encodable

variable (resolution : UInt16) {events : List Event}
  (hencodable : ∀ event ∈ events, ∃ message, event.encode = .ok message)

include hencodable

/-- What comes of the events from one on: it becomes an item as soon as its moment is
found, and the others follow it from the clock behind it. -/
theorem from?_drop {i : Nat} {event : Event} (hevent : events[i]? = some event) :
    ∃ message, event.encode = .ok message ∧
      from? resolution (clockAt resolution events i) (events.drop i) = do
        let due ← Duration.ofMillis? (elapsed resolution events (i + 1))
        let later ← from? resolution (clockAt resolution events (i + 1))
          (events.drop (i + 1))
        return ⟨due, event.tick, message⟩ :: later := by
  obtain ⟨message, hmessage⟩ := hencodable event (List.mem_of_getElem? hevent)
  have hdrop : events.drop i = event :: events.drop (i + 1) := by
    obtain ⟨hi, rfl⟩ := List.getElem?_eq_some_iff.mp hevent
    exact List.drop_eq_getElem_cons hi
  refine ⟨message, hmessage, ?_⟩
  rw [hdrop, from?, hmessage]
  simp only [elapsed_advance hevent, clockAt_succ hevent hmessage]

theorem isItem_of_from? {i : Nat} {schedule : List Scheduled}
    (h : from? resolution (clockAt resolution events i) (events.drop i) = some schedule)
    {k : Nat} {item : Scheduled} (hitem : schedule[k]? = some item) :
    IsItem resolution events (i + k) item := by
  induction schedule generalizing i k with
  | nil => simp at hitem
  | cons first later ih =>
      cases hevent : events[i]? with
      | none =>
          rw [List.drop_eq_nil_of_le (List.getElem?_eq_none_iff.mp hevent)] at h
          exact absurd (Option.some.inj h).symm (List.cons_ne_nil first later)
      | some event =>
          obtain ⟨message, hmessage, hfrom⟩ := from?_drop resolution hencodable hevent
          rw [hfrom] at h
          obtain ⟨due, hdue, h⟩ := Option.bind_eq_some_iff.mp h
          obtain ⟨rest, hrest, h⟩ := Option.bind_eq_some_iff.mp h
          obtain ⟨rfl, rfl⟩ := List.cons.inj (Option.some.inj h)
          cases k with
          | zero =>
              obtain rfl := Option.some.inj hitem
              exact ⟨⟨event, hevent, rfl, hmessage⟩, hdue⟩
          | succ k =>
              rw [← Nat.succ_add_eq_add_succ]
              exact ih hrest hitem

/-- There is a schedule as soon as every moment is found. -/
theorem exists_from? {i : Nat}
    (hdue : ∀ k < events.length, ∃ due,
      Duration.ofMillis? (elapsed resolution events (k + 1)) = some due) :
    ∃ schedule, from? resolution (clockAt resolution events i) (events.drop i) =
      some schedule := by
  induction hleft : events.length - i generalizing i with
  | zero =>
      rw [List.drop_eq_nil_of_le (Nat.le_of_sub_eq_zero hleft)]
      exact ⟨[], rfl⟩
  | succ left ih =>
      have hi : i < events.length := by omega
      obtain ⟨message, -, hfrom⟩ :=
        from?_drop resolution hencodable (List.getElem?_eq_getElem hi)
      obtain ⟨due, hdue⟩ := hdue i hi
      obtain ⟨later, hlater⟩ := ih (i := i + 1) (by omega)
      rw [hfrom, hdue, hlater]
      exact ⟨_, rfl⟩

end Encodable

end Schedule

namespace Playback

open Schedule

/-- A playback is made of the events of a timeline, one by one. -/
theorem isItem_of_ofTimeline {timeline : Timeline} (hencodable : timeline.Encodable)
    {resolution : UInt16} {playback : Playback}
    (h : ofTimeline timeline resolution = .ok playback) :
    playback.schedule.size = timeline.events.toList.length ∧
      ∀ i item, playback.schedule[i]? = some item →
        IsItem resolution timeline.events.toList i item := by
  obtain ⟨schedule, hschedule, rfl⟩ := ofTimeline_eq_ok h
  refine ⟨(from?_encodable hencodable hschedule).length_eq, ?_⟩
  intro i item hitem
  rw [List.getElem?_toArray] at hitem
  rw [← Nat.zero_add i]
  exact isItem_of_from? resolution hencodable (i := 0) hschedule hitem

/-- Every event has its place in the playback. -/
theorem exists_isItem {timeline : Timeline} (hencodable : timeline.Encodable)
    {resolution : UInt16} {playback : Playback}
    (h : ofTimeline timeline resolution = .ok playback) {i : Nat}
    (hi : i < timeline.events.toList.length) :
    ∃ item, playback.schedule[i]? = some item ∧
      IsItem resolution timeline.events.toList i item := by
  obtain ⟨hsize, hitems⟩ := isItem_of_ofTimeline hencodable h
  have hitem := Array.getElem?_eq_getElem (Nat.lt_of_lt_of_eq hi hsize.symm)
  exact ⟨_, hitem, hitems i _ hitem⟩

/-- A timeline can be played as long as no moment is too far away. -/
theorem exists_ofTimeline_iff {timeline : Timeline} (hencodable : timeline.Encodable)
    (resolution : UInt16) :
    (∃ playback, ofTimeline timeline resolution = .ok playback) ↔
      ∀ i < timeline.events.toList.length, ∃ due,
        Duration.ofMillis? (elapsed resolution timeline.events.toList (i + 1)) =
          some due := by
  constructor
  · rintro ⟨playback, h⟩ i hi
    obtain ⟨item, -, hitem⟩ := exists_isItem hencodable h hi
    exact ⟨item.due, hitem.due⟩
  · intro hdue
    obtain ⟨schedule, hschedule⟩ := exists_from? resolution hencodable (i := 0) hdue
    rw [clockAt_zero, List.drop_zero] at hschedule
    refine ⟨⟨schedule.toArray, 0, false⟩, ?_⟩
    rw [ofTimeline, ofTimeline?, hschedule]

/-- The schedule of a timeline, whatever was done to it and whatever the order of its
ticks, has an item for each event, with its tick and its message, and it is due when the
time by definition has come.  There is no schedule only if one of these times is too far
away.  What the gaps come to is the latest tick, and a tempo has no part in the time
before it: two timelines that share their first events, and the tick of the next one, have
it due at the same time. -/
theorem ofTimeline_by_definition (tick : Nat) (edits : List Timeline.Edit)
    (resolution : UInt16) :
    let timeline := (Timeline.startingAt tick).editAll edits
    let events := timeline.events.toList
    ((∃ playback, ofTimeline timeline resolution = .ok playback) ↔
        ∀ i < events.length, ∃ due,
          Duration.ofMillis? (elapsed resolution events (i + 1)) = some due) ∧
      (∀ i, ((List.range i).map (gap events)).sum = latest (events.take i)) ∧
      ∀ playback, ofTimeline timeline resolution = .ok playback →
        playback.schedule.size = events.length ∧
        (∀ i (hi : i < events.length), ∃ item, playback.schedule[i]? = some item ∧
          item.tick = events[i].tick ∧ events[i].encode = .ok item.message ∧
          Duration.ofMillis? (elapsed resolution events (i + 1)) = some item.due) ∧
        ∀ otherTick otherEdits otherPlayback,
          let other := (Timeline.startingAt otherTick).editAll otherEdits
          ofTimeline other resolution = .ok otherPlayback →
          ∀ i item otherItem, playback.schedule[i]? = some item →
            otherPlayback.schedule[i]? = some otherItem →
            events.take i = other.events.toList.take i → item.tick = otherItem.tick →
            item.due = otherItem.due := by
  intro timeline events
  have hencodable : timeline.Encodable :=
    (Timeline.encodable_startingAt tick).editAll edits
  refine ⟨exists_ofTimeline_iff hencodable resolution, sum_gap events, ?_⟩
  intro playback hplayback
  obtain ⟨hsize, hitems⟩ := isItem_of_ofTimeline hencodable hplayback
  refine ⟨hsize, ?_, ?_⟩
  · intro i hi
    obtain ⟨item, hitem, ⟨event, hevent, htick, hmessage⟩, hdue⟩ :=
      exists_isItem hencodable hplayback hi
    obtain ⟨_, rfl⟩ := List.getElem?_eq_some_iff.mp hevent
    exact ⟨item, hitem, htick, hmessage, hdue⟩
  · intro otherTick otherEdits otherPlayback other hother i item otherItem
      hitem hotherItem
    have hotherEncodable : other.Encodable :=
      (Timeline.encodable_startingAt otherTick).editAll otherEdits
    obtain ⟨-, hotherItems⟩ := isItem_of_ofTimeline hotherEncodable hother
    exact (hitems i item hitem).due_eq (hotherItems i otherItem hotherItem)

/-- A tempo change goes back in time, another one shares its tick with a note. -/
theorem ofTimeline_by_definition_out_of_order :
    let edits : List Timeline.Edit :=
      [.append (.noteOn 0 60 100 8), .append (.tempoChange 1000000 4),
        .append (.noteOff 0 60 100 12), .append (.tempoChange 250000 12),
        .append (.noteOn 0 62 100 16)]
    let timeline := (Timeline.startingAt 0).editAll edits
    let gaps := (List.range 5).map (gap timeline.events.toList)
    gaps = [8, 0, 4, 0, 4] ∧ gaps.sum = 16 ∧
      ∃ playback, ofTimeline timeline 4 = .ok playback ∧ playback.schedule.size = 5 ∧
        ∃ item, playback.schedule[4]? = some item ∧ item.tick = 16 ∧
          item.due = ⟨2250000000⟩ := by
  intro edits timeline gaps
  obtain ⟨-, hsum, hplayed⟩ := ofTimeline_by_definition 0 edits 4
  refine ⟨by decide +kernel, (hsum 5).trans (by decide +kernel), ?_⟩
  have hok : (ofTimeline timeline 4).isOk = true := by decide +kernel
  cases hplayback : ofTimeline timeline 4 with
  | error failure => simp [hplayback, Except.isOk, Except.toBool] at hok
  | ok playback =>
      obtain ⟨hsize, hitems, -⟩ := hplayed playback hplayback
      obtain ⟨item, hitem, htick, -, hdue⟩ := hitems 4 (by decide)
      have hmoment : Duration.ofMillis? (elapsed 4 timeline.events.toList 5) =
          some ⟨2250000000⟩ := by decide +kernel
      exact ⟨playback, rfl, hsize, item, hitem, htick,
        Option.some.inj (hdue.symm.trans hmoment)⟩

end Playback

end TextMusic
