/-
Ticks.  A session asks for the same and comes to the same state at whatever tick its
timeline stands.  On a clock with a limited number of ticks a run is therefore the run
without a limit, up to the note that would end behind the last tick: there a clock that
ends stops the run, and one that starts over shows each tick without its whole turns.
-/
import TextMusic.Proofs.Later
import TextMusic.Proofs.Orderly

namespace TextMusic

variable {σ : Type}

/-! ## Nothing depends on the timeline -/

/-- A reaction changes voice, timeline and dice, and looks at the voice and the dice
alone. -/
theorem Performance.respond_eq [Dice σ] (rules : Rules) (performance : Performance σ)
    (reaction : Reaction) :
    performance.respond rules reaction =
      ⟨performance.voice.after rules performance.dice reaction,
        performance.timeline.grantAll
          (performance.voice.requests rules performance.dice reaction),
        reaction.roll rules performance.dice⟩ := by
  rw [← voice_respond, ← timeline_respond, ← dice_respond]

namespace Session

/-- The same session with another timeline. -/
def onTimeline (session : Session σ) (timeline : Timeline) : Session σ :=
  { session with performance := { session.performance with timeline := timeline } }

variable [Dice σ]

theorem feed_onTimeline (session : Session σ) (timeline : Timeline) (c : Char) :
    (session.onTimeline timeline).feed c =
      (session.feed c).onTimeline (timeline.grantAll (session.characterRequests c)) := by
  rw [feed, feed, onTimeline, onTimeline, Performance.respond_eq, Performance.respond_eq]
  rfl

theorem feedAll_onTimeline (session : Session σ) (timeline : Timeline)
    (text : List Char) :
    (session.onTimeline timeline).feedAll text =
      (session.feedAll text).onTimeline
        (timeline.grantAll (session.textRequests text)) := by
  induction text generalizing session timeline with
  | nil => rfl
  | cons c rest ih =>
      have hrest := ih (session.feed c) (timeline.grantAll (session.characterRequests c))
      rw [← feed_onTimeline, ← Timeline.grantAll_append] at hrest
      exact hrest

theorem perform_onTimeline (session : Session σ) (timeline : Timeline)
    (operation : Operation) :
    (session.onTimeline timeline).perform operation =
      (session.perform operation).onTimeline
        (timeline.grantAll (session.operationRequests operation)) := by
  cases operation with
  | feed c => exact session.feed_onTimeline timeline c
  | feedText text => exact session.feedAll_onTimeline timeline text
  | setInstrument instrument => rfl
  | readFrom source => exact session.feedAll_onTimeline timeline _

theorem textRequests_onTimeline (session : Session σ) (timeline : Timeline)
    (text : List Char) :
    (session.onTimeline timeline).textRequests text = session.textRequests text := by
  induction text generalizing session timeline with
  | nil => rfl
  | cons c rest ih =>
      rw [textRequests, textRequests, feed_onTimeline, ih]
      rfl

theorem operationRequests_onTimeline (session : Session σ) (timeline : Timeline)
    (operation : Operation) :
    (session.onTimeline timeline).operationRequests operation =
      session.operationRequests operation := by
  cases operation with
  | feed c => rfl
  | feedText text => exact session.textRequests_onTimeline timeline text
  | setInstrument instrument => rfl
  | readFrom source => exact session.textRequests_onTimeline timeline _

/-- Whatever its timeline holds and wherever that stands, a session takes the same steps,
asks for the same and comes to the same state. -/
theorem performAll_onTimeline (session : Session σ) (timeline : Timeline)
    (operations : List Operation) :
    (session.onTimeline timeline).runSteps operations = session.runSteps operations ∧
      (session.onTimeline timeline).requests operations = session.requests operations ∧
      (session.onTimeline timeline).performAll operations =
        (session.performAll operations).onTimeline
          (timeline.grantAll (session.requests operations)) := by
  constructor
  · rw [runSteps_eq_memory, runSteps_eq_memory]
    rfl
  · induction operations generalizing session timeline with
    | nil => exact ⟨rfl, rfl⟩
    | cons operation rest ih =>
        obtain ⟨hrequests, hrest⟩ := ih (session.perform operation)
          (timeline.grantAll (session.operationRequests operation))
        rw [← perform_onTimeline] at hrequests hrest
        rw [← Timeline.grantAll_append] at hrest
        refine ⟨?_, hrest⟩
        rw [requests, requests, operationRequests_onTimeline, hrequests]

end Session

/-! ## A clock that starts over -/

namespace Event

/-- The same event on a clock that starts over after so many ticks. -/
def wrapped (limit : Nat) (event : Event) : Event :=
  event.moved (event.tick % limit)

theorem wrapped_wrapped (limit : Nat) (event : Event) :
    (event.wrapped limit).wrapped limit = event.wrapped limit := by
  cases event <;> simp [wrapped, moved, tick]

theorem wrapped_eq_self {limit : Nat} {event : Event} (h : event.tick < limit) :
    event.wrapped limit = event := by
  cases event <;> simp_all [wrapped, moved, tick, Nat.mod_eq_of_lt]

end Event

namespace Timeline

/-- The same timeline on a clock that starts over after so many ticks. -/
def wrapped (limit : Nat) (timeline : Timeline) : Timeline where
  events := timeline.events.map (Event.wrapped limit)
  cursor := timeline.cursor % limit
  dropped := timeline.dropped

theorem wrapped_wrapped (limit : Nat) (timeline : Timeline) :
    (timeline.wrapped limit).wrapped limit = timeline.wrapped limit := by
  have hevents : Event.wrapped limit ∘ Event.wrapped limit = Event.wrapped limit :=
    funext (Event.wrapped_wrapped limit)
  simp [wrapped, hevents]

/-- A timeline that has not come to the end of the clock shows no difference. -/
theorem wrapped_eq_self {limit : Nat} {timeline : Timeline}
    (hcursor : timeline.cursor < limit)
    (hevents : ∀ event ∈ timeline.events.toList, event.tick < limit) :
    timeline.wrapped limit = timeline := by
  have hsame : timeline.events.map (Event.wrapped limit) = timeline.events := by
    apply Array.toList_inj.mp
    rw [Array.toList_map]
    exact (List.map_congr_left fun event hevent =>
      Event.wrapped_eq_self (hevents event hevent)).trans (List.map_id' _)
  rw [wrapped, hsame, Nat.mod_eq_of_lt hcursor]

theorem append_wrapped (limit : Nat) (timeline : Timeline) (event : Event) :
    (timeline.append event).wrapped limit =
      (timeline.wrapped limit).append (event.wrapped limit) := by
  have hfits : (event.wrapped limit).fits = event.fits := event.fits_moved _
  rw [append, append, hfits]
  split_ifs
  · rw [wrapped, wrapped, Array.map_push]
  · rfl

/-- An event may be put in before or after whole turns are left out. -/
theorem append_of_wrapped (limit : Nat) (timeline : Timeline) (event : Event) :
    ((timeline.wrapped limit).append (event.wrapped limit)).wrapped limit =
      (timeline.append event).wrapped limit := by
  rw [append_wrapped, wrapped_wrapped, Event.wrapped_wrapped, ← append_wrapped]

/-- On a clock that starts over a request is granted as without a limit, but for whole
turns. -/
theorem grant_wrapped (limit : Nat) (timeline : Timeline) (request : Request) :
    ((timeline.wrapped limit).grant request).wrapped limit =
      (timeline.grant request).wrapped limit := by
  cases request with
  | tempo micros =>
      exact timeline.append_of_wrapped limit (.tempoChange micros timeline.cursor)
  | program channel instrument =>
      exact timeline.append_of_wrapped limit
        (.programChange channel instrument timeline.cursor)
  | note channel pitch velocity =>
      let onset : Event := .noteOn channel pitch velocity timeline.cursor
      let ending (tick : Nat) : Event :=
        .noteOff channel pitch velocity (tick + noteLength)
      have htick : (timeline.cursor % limit + noteLength) % limit =
          (timeline.cursor + noteLength) % limit := Nat.mod_add_mod _ limit _
      have hending : (ending (timeline.cursor % limit)).wrapped limit =
          (ending timeline.cursor).wrapped limit :=
        congrArg (Event.noteOff channel pitch velocity) htick
      have hsounded : (((timeline.wrapped limit).append (onset.wrapped limit)).append
            (ending (timeline.cursor % limit))).wrapped limit =
          ((timeline.append onset).append (ending timeline.cursor)).wrapped limit := by
        rw [append_wrapped, append_of_wrapped, hending, ← append_wrapped]
      exact congrArg₂ (fun (sounded : Timeline) tick => { sounded with cursor := tick })
        hsounded htick

/-- Requests one after the other, with whole turns left out as often as wanted. -/
theorem grantAll_wrapped (limit : Nat) (timeline : Timeline) (requests : List Request) :
    ((timeline.wrapped limit).grantAll requests).wrapped limit =
      (timeline.grantAll requests).wrapped limit := by
  induction requests using List.reverseRecOn with
  | nil => exact timeline.wrapped_wrapped limit
  | append_singleton requests request ih =>
      rw [grantAll_append, grantAll_append]
      change (Timeline.grant _ request).wrapped limit =
        (Timeline.grant _ request).wrapped limit
      rw [← grant_wrapped, ih, grant_wrapped]

end Timeline

namespace Session

/-- The same session on a clock that starts over after so many ticks. -/
def wrapped (limit : Nat) (session : Session σ) : Session σ :=
  session.onTimeline (session.timeline.wrapped limit)

variable [Dice σ]

theorem perform_wrapped (limit : Nat) (session : Session σ) (operation : Operation) :
    ((session.wrapped limit).perform operation).wrapped limit =
      (session.perform operation).wrapped limit := by
  have htimeline : (session.perform operation).timeline =
      session.timeline.grantAll (session.operationRequests operation) := by
    have hrequests := session.timeline_requests [operation]
    rwa [requests, requests, List.append_nil] at hrequests
  rw [wrapped, wrapped, wrapped, perform_onTimeline, htimeline]
  exact congrArg (session.perform operation).onTimeline
    (session.timeline.grantAll_wrapped limit _)

/-- A run on a clock that starts over is the run without a limit, with each tick shown
without its whole turns. -/
theorem performAll_wrapped (limit : Nat) (session : Session σ)
    (operations : List Operation) :
    operations.foldl (fun session operation => (session.perform operation).wrapped limit)
        (session.wrapped limit) =
      (session.performAll operations).wrapped limit := by
  induction operations generalizing session with
  | nil => rfl
  | cons operation rest ih =>
      rw [List.foldl_cons, perform_wrapped]
      exact ih (session.perform operation)

/-- A run that does not come to the end of the clock is the same on it. -/
theorem wrapped_eq_self (config : Config) (dice : σ) (operations : List Operation)
    {limit : Nat}
    (h : ((start config dice).performAll operations).timeline.cursor < limit) :
    ((start config dice).performAll operations).wrapped limit =
      (start config dice).performAll operations := by
  have horderly := orderly_performAll config dice operations
  have hsame := Timeline.wrapped_eq_self h fun event hevent =>
    Nat.lt_of_le_of_lt (horderly.bounds event hevent).2 h
  rw [wrapped, hsame]
  rfl

end Session

/-! ## A clock that ends -/

namespace Timeline

/-- Grant a request on a clock that ends after so many ticks: not if what is granted would
end behind the last of them. -/
def grantWithin? (limit : Nat) (timeline : Timeline) (request : Request) :
    Option Timeline :=
  if timeline.cursor + request.length < limit then some (timeline.grant request) else none

def grantAllWithin? (limit : Nat) (timeline : Timeline) (requests : List Request) :
    Option Timeline :=
  requests.foldlM (grantWithin? limit) timeline

theorem cursor_le_grantAll (timeline : Timeline) (requests : List Request) :
    timeline.cursor ≤ (timeline.grantAll requests).cursor := by
  apply grantAll_induction (P := fun later => timeline.cursor ≤ later.cursor)
  · intro later request h
    rw [cursor_grant]
    exact Nat.le_add_right_of_le h
  · exact Nat.le_refl _

/-- Requests are granted on a clock that ends exactly if the last of them does not go
beyond it, and then as without a limit. -/
theorem grantAllWithin?_eq {limit : Nat} {timeline : Timeline}
    (h : timeline.cursor < limit) (requests : List Request) :
    timeline.grantAllWithin? limit requests =
      if (timeline.grantAll requests).cursor < limit
      then some (timeline.grantAll requests)
      else none := by
  induction requests generalizing timeline with
  | nil => exact (if_pos h).symm
  | cons request rest ih =>
      rw [grantAllWithin?, List.foldlM_cons, grantWithin?, ← cursor_grant, grantAll_cons]
      by_cases hrequest : (timeline.grant request).cursor < limit
      · rw [if_pos hrequest]
        exact ih hrequest
      · have hlast := (timeline.grant request).cursor_le_grantAll rest
        rw [if_neg hrequest, if_neg fun hlt => hrequest (Nat.lt_of_le_of_lt hlast hlt)]
        rfl

end Timeline

end TextMusic
