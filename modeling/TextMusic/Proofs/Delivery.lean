/-
Delivery: whatever runs, pauses and restarts a playback goes through, the
messages of its schedule are handed over exactly once and in order, and none is
handed over while a pause is pending.
-/
import TextMusic.Playback

namespace TextMusic

namespace Playback

variable {β : Type}

/-! ## What happens to a playback -/

/-- Something that happens to a playback. -/
inductive Entry where
  /-- A message is handed over, and the listener may ask for a pause. -/
  | message (message : Message) (asked : Bool)
  | pause
  | resume
  | restart
deriving DecidableEq, Repr

/-- The messages handed over since the last restart, behind one more entry. -/
def Entry.play (messages : List Message) : Entry → List Message
  | message next _ => messages ++ [next]
  | pause | resume => messages
  | restart => []

/-- Whether a pause is pending behind one more entry. -/
def Entry.hold (held : Bool) : Entry → Bool
  | message _ asked => held || asked
  | pause => true
  | resume | restart => false

/-- The messages handed over since the last restart. -/
def played (trace : List Entry) : List Message :=
  trace.foldl Entry.play []

/-- Whether a pause has been asked for that no resume or restart has ended. -/
def pending (trace : List Entry) : Bool :=
  trace.foldl Entry.hold false

/-- A listener that keeps a trace of what it hears and answers. -/
def recording (hear : β → Message → β × Bool) (listener : β × List Entry)
    (message : Message) : (β × List Entry) × Bool :=
  let (heard, asked) := hear listener.1 message
  ((heard, listener.2 ++ [.message message asked]), asked)

/-- What can be done to a playback.  Each run may have a listener and a pace of
its own. -/
inductive Command where
  | run {β : Type} (hear : β → Message → β × Bool) (pace : Pace) (listener : β)
  | pause
  | resume
  | restart

/-- A playback and the trace of what has happened to it. -/
structure History where
  playback : Playback
  trace : List Entry

namespace History

/-- A playback that nothing has happened to. -/
def ofSchedule (schedule : Array Scheduled) : History :=
  ⟨⟨schedule, 0, false⟩, []⟩

def perform (history : History) : Command → History
  | .run hear pace listener =>
      ⟨(history.playback.run hear pace listener).playback,
        (history.playback.run (recording hear) pace (listener, history.trace)).listener.2⟩
  | .pause => ⟨history.playback.pause, history.trace ++ [.pause]⟩
  | .resume => ⟨history.playback.resume, history.trace ++ [.resume]⟩
  | .restart => ⟨history.playback.restart, history.trace ++ [.restart]⟩

def performAll (history : History) (commands : List Command) : History :=
  commands.foldl perform history

end History

/-! ## Traces -/

@[simp] theorem played_concat (trace : List Entry) (entry : Entry) :
    played (trace ++ [entry]) = entry.play (played trace) := by
  simp [played, List.foldl_append]

@[simp] theorem pending_concat (trace : List Entry) (entry : Entry) :
    pending (trace ++ [entry]) = entry.hold (pending trace) := by
  simp [pending, List.foldl_append]

/-- No message is handed over while a pause is pending. -/
def Calm (trace : List Entry) : Prop :=
  ∀ before message asked after,
    trace = before ++ .message message asked :: after → pending before = false

theorem Calm.concat {trace : List Entry} (h : Calm trace) {entry : Entry}
    (hentry : ∀ message asked, entry = .message message asked → pending trace = false) :
    Calm (trace ++ [entry]) := by
  intro before message asked after htrace
  rcases List.eq_nil_or_concat after with rfl | ⟨after, last, rfl⟩
  · obtain ⟨rfl, hlast⟩ := List.append_inj' htrace rfl
    exact hentry message asked (List.cons.inj hlast).1
  · rw [List.concat_eq_append, ← List.cons_append, ← List.append_assoc] at htrace
    exact h before message asked after (List.append_inj' htrace rfl).1

/-- A trace that agrees with a playback of some messages: all but the remaining
ones have been handed over since the last restart, and the flag says whether a
pause is pending. -/
structure Faithful (messages remaining : List Message) (paused : Bool)
    (trace : List Entry) : Prop where
  played_append : played trace ++ remaining = messages
  pending_eq : pending trace = paused
  calm : Calm trace

theorem faithful_nil (messages : List Message) : Faithful messages messages false [] where
  played_append := rfl
  pending_eq := rfl
  calm := by
    intro before message asked after htrace
    simp at htrace

theorem Faithful.message {messages remaining : List Message} {message : Message}
    {trace : List Entry} (h : Faithful messages (message :: remaining) false trace)
    (asked : Bool) :
    Faithful messages remaining asked (trace ++ [.message message asked]) where
  played_append := by
    rw [played_concat, Entry.play, List.append_assoc]
    exact h.played_append
  pending_eq := by
    rw [pending_concat, h.pending_eq]
    rfl
  calm := h.calm.concat fun _ _ _ => h.pending_eq

theorem Faithful.pause {messages remaining : List Message} {paused : Bool}
    {trace : List Entry} (h : Faithful messages remaining paused trace) :
    Faithful messages remaining true (trace ++ [.pause]) where
  played_append := by
    rw [played_concat]
    exact h.played_append
  pending_eq := pending_concat trace .pause
  calm := h.calm.concat nofun

theorem Faithful.resume {messages remaining : List Message} {paused : Bool}
    {trace : List Entry} (h : Faithful messages remaining paused trace) :
    Faithful messages remaining false (trace ++ [.resume]) where
  played_append := by
    rw [played_concat]
    exact h.played_append
  pending_eq := pending_concat trace .resume
  calm := h.calm.concat nofun

theorem Faithful.restart {messages remaining : List Message} {paused : Bool}
    {trace : List Entry} (h : Faithful messages remaining paused trace) :
    Faithful messages messages false (trace ++ [.restart]) where
  played_append := by rw [played_concat, Entry.play, List.nil_append]
  pending_eq := pending_concat trace .restart
  calm := h.calm.concat nofun

/-! ## One run -/

theorem handOver_cons (hear : β → Message → β × Bool) {pace : Pace}
    {start wait : Duration} {n : Nat} {item : Scheduled}
    (hwait : pace.wait? start n item.due = some wait) (listener : β)
    (rest : List Scheduled) :
    handOver hear pace start n false listener (item :: rest) =
      let answer := hear listener item.message
      let later := handOver hear pace start (n + 1) answer.2 answer.1 rest
      { later with waits := wait :: later.waits } := by
  simp [handOver, hwait]

/-- A run hands over some of the messages, one wait for each, and the trace that
a recording listener keeps of it stays faithful. -/
theorem handOver_faithful (hear : β → Message → β × Bool) (pace : Pace) (start : Duration)
    (n : Nat) (paused : Bool) (listener : β) (items : List Scheduled)
    {messages : List Message} {trace : List Entry}
    (h : Faithful messages (items.map (·.message)) paused trace) :
    let delivered := handOver hear pace start n paused listener items
    let recorded := handOver (recording hear) pace start n paused (listener, trace) items
    Faithful messages ((items.drop delivered.waits.length).map (·.message))
      delivered.paused recorded.listener.2 ∧
      ∃ heard : List (Message × Bool),
        recorded.listener.2 = trace ++ heard.map (fun turn => .message turn.1 turn.2) ∧
        heard.length = delivered.waits.length ∧
        heard.foldl (fun listener turn => (hear listener turn.1).1) listener =
          delivered.listener := by
  induction items generalizing n paused listener trace with
  | nil => exact ⟨h, [], by simp [handOver]⟩
  | cons item rest ih =>
      cases paused with
      | true => exact ⟨h, [], by simp [handOver]⟩
      | false =>
          cases hwait : pace.wait? start n item.due with
          | none =>
              simp only [handOver, hwait]
              exact ⟨h, [], by simp⟩
          | some wait =>
              rw [handOver_cons hear hwait, handOver_cons (recording hear) hwait]
              obtain ⟨hfaithful, heard, htrace, hlength, hlistener⟩ :=
                ih (n + 1) (hear listener item.message).2 (hear listener item.message).1
                  (Faithful.message h (hear listener item.message).2)
              refine ⟨hfaithful, (item.message, (hear listener item.message).2) :: heard,
                ?_, ?_, ?_⟩
              · exact htrace.trans (by simp)
              · simp [hlength]
              · exact hlistener

/-- A run that does not break off ends with a pause or with nothing left. -/
theorem handOver_stops (hear : β → Message → β × Bool) (pace : Pace) (start : Duration)
    (n : Nat) (paused : Bool) (listener : β) (items : List Scheduled) :
    let delivered := handOver hear pace start n paused listener items
    delivered.waits.length ≤ items.length ∧
      (delivered.failure? = none →
        delivered.paused = true ∨ delivered.waits.length = items.length) := by
  induction items generalizing n paused listener with
  | nil => simp [handOver]
  | cons item rest ih =>
      cases paused with
      | true => simp [handOver]
      | false =>
          cases hwait : pace.wait? start n item.due with
          | none => simp [handOver, hwait]
          | some wait =>
              rw [handOver_cons hear hwait]
              obtain ⟨hle, hstops⟩ :=
                ih (n + 1) (hear listener item.message).2 (hear listener item.message).1
              refine ⟨Nat.succ_le_succ hle, fun hfailure => ?_⟩
              exact (hstops hfailure).imp_right (congrArg (· + 1))

/-- The message that a run starts with is never late. -/
theorem wait?_start (pace : Pace) (start : Duration) (n : Nat) :
    ∃ wait, pace.wait? start n start = some wait := by
  cases pace with
  | immediate => exact ⟨.zero, rfl⟩
  | timed clock => simp [Pace.wait?, Duration.since?]

theorem failure?_handOver_immediate (hear : β → Message → β × Bool) (start : Duration)
    (n : Nat) (paused : Bool) (listener : β) (items : List Scheduled) :
    (handOver hear .immediate start n paused listener items).failure? = none := by
  induction items generalizing n paused listener with
  | nil => rfl
  | cons item rest ih =>
      cases paused with
      | true => rfl
      | false =>
          have hwait : Pace.immediate.wait? start n item.due = some .zero := rfl
          rw [handOver_cons hear hwait]
          exact ih _ _ _

theorem remaining_eq_nil_iff (playback : Playback) :
    playback.remaining = [] ↔ playback.isFinished = true := by
  simp [remaining, isFinished]

theorem sent_run_eq_zero_iff (playback : Playback) (hear : β → Message → β × Bool)
    (pace : Pace) (listener : β) :
    (playback.run hear pace listener).sent = 0 ↔
      playback.paused = true ∨ playback.isFinished = true := by
  rw [← remaining_eq_nil_iff, Outcome.sent, List.length_eq_zero_iff]
  simp only [run, start]
  cases hremaining : playback.remaining with
  | nil => simp [handOver]
  | cons item rest =>
      cases playback.paused with
      | true => simp [handOver]
      | false =>
          obtain ⟨wait, hwait⟩ := wait?_start pace item.due 0
          simp [handOver_cons hear hwait]

theorem remaining_run (playback : Playback) (hear : β → Message → β × Bool) (pace : Pace)
    (listener : β) :
    (playback.run hear pace listener).playback.remaining =
      playback.remaining.drop (playback.run hear pace listener).sent := by
  simp [run, remaining, Outcome.sent]

theorem position_run_le_size (playback : Playback) (hear : β → Message → β × Bool)
    (pace : Pace) (listener : β)
    (hposition : playback.position ≤ playback.schedule.size) :
    (playback.run hear pace listener).playback.position ≤ playback.schedule.size := by
  have hle := (handOver_stops hear pace playback.start 0 playback.paused listener
    playback.remaining).1
  simp only [remaining, List.length_drop, Array.length_toList] at hle
  simp only [run, remaining]
  omega

/-- A run that does not break off leaves the playback paused or finished. -/
theorem paused_or_isFinished_run (playback : Playback) (hear : β → Message → β × Bool)
    (pace : Pace) (listener : β)
    (hfailure : (playback.run hear pace listener).failure? = none) :
    (playback.run hear pace listener).playback.paused = true ∨
      (playback.run hear pace listener).playback.isFinished = true := by
  have hstops := (handOver_stops hear pace playback.start 0 playback.paused listener
    playback.remaining).2 hfailure
  refine hstops.imp_right fun hlength => ?_
  rw [← remaining_eq_nil_iff, remaining_run, List.drop_eq_nil_iff]
  exact Nat.le_of_eq hlength.symm

/-! ## Whole histories -/

namespace History

/-- The invariant of a history over a schedule. -/
structure Sound (schedule : Array Scheduled) (history : History) : Prop where
  schedule_eq : history.playback.schedule = schedule
  position_le : history.playback.position ≤ schedule.size
  faithful : Faithful (schedule.toList.map (·.message))
    (history.playback.remaining.map (·.message)) history.playback.paused history.trace

theorem sound_ofSchedule (schedule : Array Scheduled) :
    (ofSchedule schedule).Sound schedule where
  schedule_eq := rfl
  position_le := Nat.zero_le _
  faithful := faithful_nil _

theorem Sound.perform {schedule : Array Scheduled} {history : History}
    (h : history.Sound schedule) (command : Command) :
    (history.perform command).Sound schedule := by
  obtain ⟨rfl, hposition, hfaithful⟩ := h
  cases command with
  | run hear pace listener =>
      refine ⟨rfl, position_run_le_size _ hear pace listener hposition, ?_⟩
      have hrun := (handOver_faithful hear pace history.playback.start 0
        history.playback.paused listener history.playback.remaining hfaithful).1
      rw [History.perform, remaining_run]
      exact hrun
  | pause => exact ⟨rfl, hposition, hfaithful.pause⟩
  | resume => exact ⟨rfl, hposition, hfaithful.resume⟩
  | restart => exact ⟨rfl, Nat.zero_le _, hfaithful.restart⟩

theorem sound_performAll {schedule : Array Scheduled} {history : History}
    (h : history.Sound schedule) (commands : List Command) :
    (history.performAll commands).Sound schedule := by
  induction commands generalizing history with
  | nil => exact h
  | cons command rest ih => exact ih (h.perform command)

theorem Sound.played_eq {schedule : Array Scheduled} {history : History}
    (h : history.Sound schedule) :
    played history.trace =
      (schedule.toList.take history.playback.position).map (·.message) := by
  have happend : played history.trace ++ history.playback.remaining.map (·.message) =
      (schedule.toList.take history.playback.position).map (·.message) ++
        history.playback.remaining.map (·.message) := by
    rw [h.faithful.played_append, remaining, h.schedule_eq, ← List.map_append,
      List.take_append_drop]
  exact List.append_cancel_right happend

/-- Whatever is done to the playback of a schedule, the messages handed over since
the last restart are those before its position, in order, and none was handed
over while a pause was pending.  A run from there returns the number of messages
that its listener hears, hears none only if it is held or finished, and breaks off
or stops held or finished. -/
theorem delivered_once_in_order (schedule : Array Scheduled) (commands : List Command) :
    let history := (ofSchedule schedule).performAll commands
    history.playback.schedule = schedule ∧
      history.playback.position ≤ schedule.size ∧
      played history.trace =
        (schedule.toList.take history.playback.position).map (·.message) ∧
      history.playback.paused = pending history.trace ∧
      Calm history.trace ∧
      ∀ (β : Type) (hear : β → Message → β × Bool) (pace : Pace) (listener : β),
        let outcome := history.playback.run hear pace listener
        (∃ heard : List (Message × Bool),
          (history.perform (.run hear pace listener)).trace =
            history.trace ++ heard.map (fun turn => .message turn.1 turn.2) ∧
          heard.foldl (fun listener turn => (hear listener turn.1).1) listener =
            outcome.listener ∧
          outcome.sent = heard.length) ∧
        (outcome.sent = 0 ↔
          history.playback.paused = true ∨ history.playback.isFinished = true) ∧
        (outcome.failure? = none →
          outcome.playback.paused = true ∨ outcome.playback.isFinished = true) ∧
        (pace = .immediate → outcome.failure? = none) := by
  intro history
  have h : history.Sound schedule := sound_performAll (sound_ofSchedule schedule) commands
  refine ⟨h.schedule_eq, h.position_le, h.played_eq, h.faithful.pending_eq.symm,
    h.faithful.calm, ?_⟩
  intro β hear pace listener outcome
  obtain ⟨heard, htrace, hlength, hlistener⟩ :=
    (handOver_faithful hear pace history.playback.start 0 history.playback.paused listener
      history.playback.remaining (h.schedule_eq ▸ h.faithful)).2
  refine ⟨⟨heard, htrace, hlistener, hlength.symm⟩, ?_, ?_, ?_⟩
  · exact sent_run_eq_zero_iff history.playback hear pace listener
  · exact paused_or_isFinished_run history.playback hear pace listener
  · rintro rfl
    exact failure?_handOver_immediate hear _ _ _ _ _

end History

end Playback

end TextMusic
