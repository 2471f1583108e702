/-
Causality: what a text has brought about stays as it is, whatever text follows.  Timelines
only grow at their end, and journals and schedules follow them event by event.
-/
import TextMusic.Proofs.Agreement
import TextMusic.Proofs.Lines
import TextMusic.Proofs.Orderly

namespace TextMusic

variable {σ : Type}

/-! ## Journals -/

namespace Journal

theorem text_prefix {first second : List Event} (h : first <+: second) :
    text first <+: text second := by
  obtain ⟨rest, rfl⟩ := h
  rw [text_append]
  exact List.prefix_append _ _

theorem utf8Bytes_prefix {first second : List Char} (h : first <+: second) :
    utf8Bytes first <+: utf8Bytes second := by
  obtain ⟨rest, rfl⟩ := h
  rw [utf8Bytes_append]
  exact List.prefix_append _ _

/-- Without a limit on its room, a writer takes the whole journal. -/
theorem logTimeline_unlimited (timeline : Timeline) :
    logTimeline .unlimited timeline =
      (.ok (), Writer.unlimited.behind (utf8Bytes (text timeline.events.toList))) :=
  logTimeline_ok_iff.mpr ⟨⟨by simp [Writer.HasRoom, Writer.unlimited], rfl⟩, rfl⟩

end Journal

/-! ## Schedules -/

/-- A schedule is made from left to right: the items of the first events are those that
they have alone. -/
theorem Schedule.from?_append {resolution : UInt16} {clock : Clock}
    {first second : List Event} {schedule : List Scheduled}
    (h : from? resolution clock (first ++ second) = some schedule) :
    ∃ early late, from? resolution clock first = some early ∧
      schedule = early ++ late := by
  induction first generalizing clock schedule with
  | nil => exact ⟨[], schedule, rfl, rfl⟩
  | cons event rest ih =>
      rw [List.cons_append] at h
      cases hmessage : event.encode with
      | error error =>
          simp only [from?, hmessage] at h ⊢
          exact ih h
      | ok message =>
          simp only [from?, hmessage] at h ⊢
          obtain ⟨due, hdue, h⟩ := Option.bind_eq_some_iff.mp h
          obtain ⟨later, hlater, h⟩ := Option.bind_eq_some_iff.mp h
          obtain rfl : ⟨due, event.tick, message⟩ :: later = schedule := Option.some.inj h
          obtain ⟨early, late, hearly, rfl⟩ := ih hlater
          refine ⟨⟨due, event.tick, message⟩ :: early, late, ?_, rfl⟩
          simp [hdue, hearly]

theorem Playback.ofTimeline_prefix {earlier later : Timeline}
    (hevents : earlier.events.toList <+: later.events.toList) {resolution : UInt16}
    {whole : Playback} (h : ofTimeline later resolution = .ok whole) :
    ∃ part, ofTimeline earlier resolution = .ok part ∧
      part.schedule.toList <+: whole.schedule.toList := by
  obtain ⟨schedule, hschedule, rfl⟩ := ofTimeline_eq_ok h
  obtain ⟨rest, hrest⟩ := hevents
  rw [Schedule.ofTimeline?, ← hrest] at hschedule
  obtain ⟨early, late, hearly, rfl⟩ := Schedule.from?_append hschedule
  refine ⟨⟨early.toArray, 0, false⟩, ?_, List.prefix_append _ _⟩
  rw [ofTimeline, Schedule.ofTimeline?, hearly]

/-! ## Renderings -/

theorem render_of_delivers [Dice σ] {source : List Delivery} {text : List Char}
    (h : Decoder.Delivers source (utf8Bytes text)) (config : Config) (dice : σ) :
    render source config dice =
      .ok ((Session.start config dice).feedAll text).timeline := by
  rw [render, Session.readFrom_of_delivers h]

/-- A text that goes on takes back nothing.  With the same dice the rendering of the
longer text begins with the events of the shorter one, its journal with that one's
journal, and at any resolution its schedule, if it has one, with that one's schedule. -/
theorem render_append [Dice σ] (config : Config) (dice : σ) {text more : List Char}
    {source longer : List Delivery} (hsource : Decoder.Delivers source (utf8Bytes text))
    (hlonger : Decoder.Delivers longer (utf8Bytes (text ++ more))) :
    ∃ earlier later, render source config dice = .ok earlier ∧
      render longer config dice = .ok later ∧
      earlier.events.toList <+: later.events.toList ∧
      earlier.cursor ≤ later.cursor ∧ earlier.dropped ≤ later.dropped ∧
      (∃ short long, Journal.logTimeline .unlimited earlier = (.ok (), short) ∧
        Journal.logTimeline .unlimited later = (.ok (), long) ∧
        short.written.toList <+: long.written.toList) ∧
      ∀ resolution whole, Playback.ofTimeline later resolution = .ok whole →
        ∃ part, Playback.ofTimeline earlier resolution = .ok part ∧
          part.schedule.toList <+: whole.schedule.toList := by
  have hfeed : (Session.start config dice).feedAll (text ++ more) =
      ((Session.start config dice).feedAll text).feedAll more :=
    List.foldl_append
  have hextends := ((Session.start config dice).feedAll text).extends_feedAll more
  rw [← hfeed] at hextends
  refine ⟨_, _, render_of_delivers hsource config dice,
    render_of_delivers hlonger config dice, hextends.events, hextends.cursor,
    hextends.dropped, ?_, ?_⟩
  · refine ⟨_, _, Journal.logTimeline_unlimited _, Journal.logTimeline_unlimited _, ?_⟩
    simpa [Writer.behind, Writer.unlimited] using
      Journal.utf8Bytes_prefix (Journal.text_prefix hextends.events)
  · intro resolution whole hwhole
    exact Playback.ofTimeline_prefix hextends.events hwhole

/-- The longer text turns the end of the shorter one into a tempo trigger, and its source
is interrupted inside. -/
theorem render_append_trigger :
    let source : List Delivery := [.bytes [0x42, 0x50, 0x4D]]
    let longer : List Delivery :=
      [.bytes [0x42, 0x50], .failure .interrupted none, .bytes [0x4D, 0x2B, 0x6F]]
    let dice := RandomStream.ofSeed 7
    Decoder.Delivers source (utf8Bytes ['B', 'P', 'M']) ∧
      Decoder.Delivers longer (utf8Bytes (['B', 'P', 'M'] ++ ['+', 'o'])) ∧
      ∃ earlier later part whole, render source {} dice = .ok earlier ∧
        render longer {} dice = .ok later ∧ later.events.size = 13 ∧
        earlier.events.toList <+: later.events.toList ∧
        Playback.ofTimeline earlier 4 = .ok part ∧
        Playback.ofTimeline later 4 = .ok whole ∧
        part.schedule.toList <+: whole.schedule.toList := by
  intro source longer dice
  have hsource : Decoder.Delivers source (utf8Bytes ['B', 'P', 'M']) :=
    .portion (by decide) .done
  have hlonger : Decoder.Delivers longer (utf8Bytes (['B', 'P', 'M'] ++ ['+', 'o'])) :=
    .portion (by decide) (.interrupted (.portion (by decide) .done))
  obtain ⟨earlier, later, hearlier, hlater, hevents, -, -, -, hschedules⟩ :=
    render_append {} dice hsource hlonger
  have htimeline := hlater.symm.trans (render_of_delivers hlonger {} dice)
  have hsize : later.events.size = 13 := by
    rw [Except.ok.inj htimeline]
    decide +kernel
  have hok : (Playback.ofTimeline later 4).isOk = true := by
    rw [Except.ok.inj htimeline]
    decide +kernel
  refine ⟨hsource, hlonger, earlier, later, ?_⟩
  cases hwhole : Playback.ofTimeline later 4 with
  | error failure => simp [hwhole, Except.isOk, Except.toBool] at hok
  | ok whole =>
      obtain ⟨part, hpart, hprefix⟩ := hschedules 4 whole hwhole
      exact ⟨part, whole, hearlier, hlater, hsize, hevents, hpart, rfl, hprefix⟩

end TextMusic
