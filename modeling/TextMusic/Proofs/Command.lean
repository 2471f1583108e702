/-
Command runs: whatever fails on the way, a run that fails has printed nothing and
delivered nothing, and a run that does not fail has delivered and recorded the whole
timeline.
-/
import TextMusic.CommandLine.Run
import TextMusic.FileTree
import TextMusic.Proofs.Agreement
import TextMusic.Proofs.FreshNames
import TextMusic.Proofs.Lines
import TextMusic.Proofs.Sinks

namespace TextMusic

namespace CommandLine

/-! ## What is demanded of a whole result -/

/-- The names of the sinks that the options ask for. -/
def Options.sinkNames (options : Options) : List String :=
  Sink.listedNames (String.ofList options.sink)

/-- Every memory that is named holds the messages of the events, each once and in order,
and every console that is named has printed the line of each of them. -/
def Result.DeliversWhole (result : Result) (names : List String) (events : List Event) :
    Prop :=
  ∃ sink messages,
    List.Forall₂ (fun event message => event.encode = .ok message) events messages ∧
      result.sink? = some sink ∧
      sink.memories = List.replicate (names.count "memory") messages ∧
      result.printed.map Prod.snd = messages.map fun message =>
        Sink.repeated (names.countP Sink.isConsoleName) (Sink.line message)

/-- The journal has a name that was not in use, and a line for each event, in order. -/
def Result.RecordsWhole (result : Result) (used : List (List Char))
    (events : List Event) : Prop :=
  ∃ name lines,
    result.journal? = some (name, (utf8Bytes (lines.flatMap (· ++ ['\n']))).toArray) ∧
      name ∉ used ∧
      List.Forall₂ (fun event line => line = (Journal.entry event).write ∧ '\n' ∉ line)
        events lines

/-! ## Playing -/

/-- What is heard of messages is what the sink makes of them. -/
theorem foldl_listen (sink : Sink) (printed : Array String) (messages : List Message) :
    messages.foldl (fun heard message => (listen heard message).1) (sink, printed) =
      ((sink.processEach messages).1, printed ++ (sink.processEach messages).2) := by
  induction messages generalizing sink printed with
  | nil => simp [Sink.processEach]
  | cons message rest ih =>
      rw [List.foldl_cons]
      refine (ih _ _).trans ?_
      simp [Sink.processEach]

theorem run_listen (schedule : List Scheduled) (sink : Sink) :
    let outcome :=
      (Playback.mk schedule.toArray 0 false).run listen .immediate (sink, #[])
    let answer := sink.processEach (schedule.map (·.message))
    outcome.failure? = none ∧ outcome.listener = (answer.1, answer.2.toArray) := by
  have hlisten : listen = fun heard message => ((listen heard message).1, false) := rfl
  obtain ⟨hlistener, -, hfailure, -⟩ := Playback.run_unpaused schedule
    (fun heard message => (listen heard message).1) (sink, #[])
  rw [← hlisten] at hlistener hfailure
  refine ⟨hfailure, hlistener.trans ?_⟩
  simp [foldl_listen]

/-- Without a pace to keep, all messages of a schedule are played. -/
theorem play_immediate (schedule : List Scheduled) (sink : Sink)
    (journal? : Option (List Char × Array UInt8)) :
    let result := play ⟨schedule.toArray, 0, false⟩ .immediate sink journal?
    let answer := sink.processEach (schedule.map (·.message))
    result.ending = .success ∧ result.printed.map Prod.snd = answer.2 ∧
      result.journal? = journal? ∧ result.sink? = some answer.1 := by
  intro result answer
  obtain ⟨hfailure, hlistener⟩ := run_listen schedule sink
  have hlength :
      answer.2.length ≤ (Playback.mk schedule.toArray 0 false).moments.length := by
    simp [answer, (Sink.processEach_eq sink _).1, Playback.moments, Playback.remaining]
  simp only [result, play, hfailure, hlistener, List.toList_toArray]
  exact ⟨trivial, List.map_snd_zip hlength, trivial, rfl⟩

/-! ## What a run can come to -/

/-- The session that reads the file of a run, and what comes of the reading. -/
def reading (files : Files) (options : Options) (config : Config)
    (unseeded : RandomStream) : Except String Nat × Session RandomStream :=
  (Session.start config (config.stream unseeded)).readFrom (files.source options.file)

/-- A session has read the whole file of a run that does not ask for a document. -/
structure Finished (files : Files) (options : Options) (unseeded : RandomStream)
    (config : Config) (session : Session RandomStream) : Prop where
  json_eq : options.json = false
  config_eq : configOf files options = .ok config
  reading_eq : ∃ count, reading files options config unseeded = (.ok count, session)

/-- What has become of the journal before a timeline is played. -/
def Journaled (files : Files) (options : Options) (timeline : Timeline)
    (journal? : Option (List Char × Array UInt8)) : Prop :=
  if options.journal then
    ∃ name, FreshName.fresh? files.used journalPattern = some name ∧
      writeJournal files name timeline = (.ok (), journal?)
  else journal? = none

/-- Why a run fails: its configuration, its document, its file, its journal or its sinks,
each behind those before it. -/
inductive Obstacle (files : Files) (options : Options) (unseeded : RandomStream) :
    Error → Prop
  | config {error : Error} (h : configOf files options = .error error) :
      Obstacle files options unseeded error
  | document {error : Error} {config : Config}
      (hconfig : configOf files options = .ok config) (hjson : options.json = true)
      (h : documentLine files options config (config.stream unseeded) = .error error) :
      Obstacle files options unseeded error
  | file {failure : String} {config : Config}
      (hconfig : configOf files options = .ok config) (hjson : options.json = false)
      (h : (reading files options config unseeded).1 = .error failure) :
      Obstacle files options unseeded (.io failure)
  | journal {error : Error} {config : Config} {session : Session RandomStream}
      {name : List Char} (hfinished : Finished files options unseeded config session)
      (hjournal : options.journal = true)
      (hname : FreshName.fresh? files.used journalPattern = some name)
      (h : (writeJournal files name session.timeline).1 = .error error) :
      Obstacle files options unseeded error
  | sinks {error : SystemError} {config : Config} {session : Session RandomStream}
      {journal? : Option (List Char × Array UInt8)}
      (hfinished : Finished files options unseeded config session)
      (hjournal : Journaled files options session.timeline journal?)
      (h : Sink.ofNames (String.ofList options.sink) = .error error) :
      Obstacle files options unseeded (.system error)

/-- What a run can come to. -/
inductive Course (files : Files) (options : Options) (unseeded : RandomStream) :
    Result → Prop
  | failure {error : Error} (journal? : Option (List Char × Array UInt8))
      (h : Obstacle files options unseeded error) :
      Course files options unseeded ⟨.failure error, [], journal?, none⟩
  | document (line : String) (hjson : options.json = true) :
      Course files options unseeded ⟨.success, [(.zero, line)], none, none⟩
  | brokenOff {config : Config} {session : Session RandomStream} {error : TimingError}
      (journal? : Option (List Char × Array UInt8))
      (hfinished : Finished files options unseeded config session)
      (h : Playback.ofTimeline session.timeline config.resolution = .error error) :
      Course files options unseeded ⟨.brokenOff error, [], journal?, none⟩
  | outOfNumbers {config : Config} {session : Session RandomStream}
      (hfinished : Finished files options unseeded config session)
      (hjournal : options.journal = true)
      (h : FreshName.fresh? files.used journalPattern = none) :
      Course files options unseeded ⟨.outOfNumbers, [], none, none⟩
  | played {config : Config} {session : Session RandomStream}
      {playback : Playback} {sink : Sink} {journal? : Option (List Char × Array UInt8)}
      (hfinished : Finished files options unseeded config session)
      (hjournal : Journaled files options session.timeline journal?)
      (hsink : Sink.ofNames (String.ofList options.sink) = .ok sink)
      (hplayback : Playback.ofTimeline session.timeline config.resolution =
        .ok playback) :
      Course files options unseeded (play playback options.pace sink journal?)

section

variable {files : Files} {options : Options} {unseeded : RandomStream} {config : Config}
  {session : Session RandomStream}

theorem course_playTo (hfinished : Finished files options unseeded config session)
    {journal? : Option (List Char × Array UInt8)}
    (hjournal : Journaled files options session.timeline journal?) :
    Course files options unseeded
      (playTo options config.resolution session.timeline journal?) := by
  rw [playTo]
  rcases hsink : Sink.ofNames (String.ofList options.sink) with error | sink
  · exact .failure journal? (.sinks hfinished hjournal hsink)
  · rcases hplayback : Playback.ofTimeline session.timeline config.resolution with
      error | playback
    · exact .brokenOff journal? hfinished hplayback
    · exact .played hfinished hjournal hsink hplayback

theorem course_perform (hconfig : configOf files options = .ok config)
    (hjson : options.json = false) :
    Course files options unseeded
      (perform files options config (config.stream unseeded)) := by
  rcases hreading : reading files options config unseeded with ⟨failure | count, session⟩
  · have hrender : render (files.source options.file) config (config.stream unseeded) =
        .error (.io failure) := by
      rw [render, ← reading, hreading]
    rw [perform, hrender]
    exact .failure none (.file hconfig hjson (congrArg Prod.fst hreading))
  · have hrender : render (files.source options.file) config (config.stream unseeded) =
        .ok session.timeline := by
      rw [render, ← reading, hreading]
    have hfinished : Finished files options unseeded config session :=
      ⟨hjson, hconfig, count, hreading⟩
    rw [perform, hrender]
    by_cases hjournal : options.journal = true
    · simp only [hjournal, if_true]
      rcases hname : FreshName.fresh? files.used journalPattern with _ | name
      · exact .outOfNumbers hfinished hjournal hname
      · rcases hwrite : writeJournal files name session.timeline with
          ⟨error | ⟨⟩, journal?⟩
        · simp only [hwrite]
          exact .failure journal?
            (.journal hfinished hjournal hname (congrArg Prod.fst hwrite))
        · have hjournaled : Journaled files options session.timeline journal? := by
            rw [Journaled, if_pos hjournal]
            exact ⟨name, hname, hwrite⟩
          simp only [hwrite]
          exact course_playTo hfinished hjournaled
    · simp only [hjournal]
      exact course_playTo hfinished (by rw [Journaled, if_neg hjournal])

end

theorem course_run (files : Files) (options : Options) (unseeded : RandomStream) :
    Course files options unseeded (run files options unseeded) := by
  rw [run]
  rcases hconfig : configOf files options with error | config
  · exact .failure none (.config hconfig)
  · by_cases hjson : options.json = true
    · simp only [hjson, if_true]
      rcases hline : documentLine files options config (config.stream unseeded) with
        error | line
      · exact .failure none (.document hconfig hjson hline)
      · exact .document line hjson
    · simp only [hjson]
      exact course_perform hconfig (Bool.eq_false_iff.mpr hjson)

/-! ## All or nothing -/

theorem Options.pace_immediate (options : Options) (h : options.realtime = false) :
    options.pace = .immediate := by
  simp [Options.pace, h]

/-- What has begun to play neither fails nor lacks a name. -/
theorem ending_play (playback : Playback) (pace : Playback.Pace) (sink : Sink)
    (journal? : Option (List Char × Array UInt8)) :
    (play playback pace sink journal?).ending = .success ∨
      ∃ error, (play playback pace sink journal?).ending = .brokenOff error := by
  simp only [play]
  split
  · exact .inr ⟨_, rfl⟩
  · exact .inl rfl

section

variable {files : Files} {options : Options} {unseeded : RandomStream} {config : Config}
  {session : Session RandomStream}

theorem Finished.encodable (h : Finished files options unseeded config session) :
    session.timeline.Encodable := by
  obtain ⟨count, hreading⟩ := h.reading_eq
  have hsession : (reading files options config unseeded).2 = session :=
    congrArg Prod.snd hreading
  rw [← hsession]
  exact Session.encodable_feedAll config _ _

theorem Finished.deliversWhole (h : Finished files options unseeded config session)
    {playback : Playback} {sink : Sink} (journal? : Option (List Char × Array UInt8))
    (hsink : Sink.ofNames (String.ofList options.sink) = .ok sink)
    (hplayback : Playback.ofTimeline session.timeline config.resolution = .ok playback) :
    let result := play playback .immediate sink journal?
    result.ending = .success ∧ result.journal? = journal? ∧
      result.DeliversWhole options.sinkNames session.timeline.events.toList := by
  intro result
  obtain ⟨messages, -, hmessages⟩ := exists_mapM_encode h.encodable
  obtain ⟨schedule, rfl, heq⟩ :=
    Playback.exists_of_ofTimeline h.encodable hplayback hmessages
  obtain ⟨hending, hprinted, hjournal, hbehind⟩ := play_immediate schedule sink journal?
  obtain ⟨hconsoles, hmemories⟩ := Sink.ofNames_ok hsink
  rw [heq] at hprinted hbehind
  obtain ⟨hlines, hkept⟩ := Sink.processEach_eq sink messages
  refine ⟨hending, hjournal, _, messages, hmessages, hbehind, ?_, ?_⟩
  · rw [hkept, hmemories, List.map_replicate, List.nil_append]
    rfl
  · rw [hprinted, hlines, hconsoles]
    rfl

theorem Journaled.recordsWhole {timeline : Timeline}
    {journal? : Option (List Char × Array UInt8)}
    (h : Journaled files options timeline journal?) (hjournal : options.journal = true)
    (hcreate : ∀ name writer, files.create name = .ok writer → writer.written = #[])
    {result : Result} (hresult : result.journal? = journal?) :
    result.RecordsWhole files.used timeline.events.toList := by
  rw [Journaled, if_pos hjournal] at h
  obtain ⟨name, hname, h⟩ := h
  rw [writeJournal] at h
  obtain ⟨i, -, hfirst, hcandidate⟩ := FreshName.fresh?_eq_some_iff.mp hname
  rcases hwriter : files.create name with failure | writer
  · simp [hwriter] at h
  · obtain ⟨lines, htext, hlines⟩ := Journal.text_eq_lines timeline.events.toList
    simp only [hwriter] at h
    rcases hlog : Journal.logTimeline writer timeline with ⟨error | ⟨⟩, behind⟩
    · simp [hlog] at h
    · simp only [hlog, Prod.mk.injEq, true_and] at h
      have hwritten := congrArg Writer.written (Journal.logTimeline_ok_iff.mp hlog).2
      rw [Writer.behind, hcreate _ _ hwriter, htext] at hwritten
      refine ⟨name, lines, ?_, ?_, hlines⟩
      · rw [hresult, ← h, hwritten]
        simp
      · rw [hcandidate]
        exact hfirst.free

/-- A failure leaves nothing printed and nothing sent. -/
theorem Course.of_failure {result : Result} {error : Error}
    (h : Course files options unseeded result)
    (hending : result.ending = .failure error) :
    Obstacle files options unseeded error ∧ result.printed = [] ∧
      result.sink? = none := by
  cases h with
  | failure journal? hobstacle =>
      cases hending
      exact ⟨hobstacle, rfl, rfl⟩
  | document line hjson => cases hending
  | brokenOff journal? hfinished hplayback => cases hending
  | outOfNumbers => cases hending
  | @played _ _ playback sink journal? =>
      rcases ending_play playback options.pace sink journal? with
        hplayed | ⟨_, hplayed⟩ <;>
        cases hplayed.symm.trans hending

/-- Without a pace to keep, only a missing schedule makes a run break off. -/
theorem Course.of_brokenOff {result : Result} {error : TimingError}
    (h : Course files options unseeded result)
    (hending : result.ending = .brokenOff error) (hpace : options.realtime = false) :
    ∃ config session, Finished files options unseeded config session ∧
      Playback.ofTimeline session.timeline config.resolution = .error error := by
  cases h with
  | failure journal? hobstacle => cases hending
  | document line hjson => cases hending
  | brokenOff journal? hfinished hplayback =>
      cases hending
      exact ⟨_, _, hfinished, hplayback⟩
  | outOfNumbers => cases hending
  | @played _ _ _ _ journal? hfinished _ hsink hplayback =>
      have hplayed := (hfinished.deliversWhole journal? hsink hplayback).1
      rw [options.pace_immediate hpace, hplayed] at hending
      cases hending

/-- Without a number for its journal a run leaves nothing behind. -/
theorem Course.of_outOfNumbers {result : Result}
    (h : Course files options unseeded result) (hending : result.ending = .outOfNumbers) :
    options.journal = true ∧ FreshName.fresh? files.used journalPattern = none ∧
      result.printed = [] ∧ result.journal? = none ∧ result.sink? = none := by
  cases h with
  | failure journal? hobstacle => cases hending
  | document line hjson => cases hending
  | brokenOff journal? hfinished hplayback => cases hending
  | outOfNumbers hfinished hjournal hname => exact ⟨hjournal, hname, rfl, rfl, rfl⟩
  | @played _ _ playback sink journal? =>
      rcases ending_play playback options.pace sink journal? with
        hplayed | ⟨_, hplayed⟩ <;>
        cases hplayed.symm.trans hending

/-- Where neither a document nor a pace is asked for, a success delivers everything. -/
theorem Course.of_success {result : Result} (h : Course files options unseeded result)
    (hending : result.ending = .success) (hjson : options.json = false)
    (hpace : options.realtime = false)
    (hcreate : ∀ name writer, files.create name = .ok writer → writer.written = #[]) :
    ∃ config session, Finished files options unseeded config session ∧
      result.DeliversWhole options.sinkNames session.timeline.events.toList ∧
      if options.journal then
        result.RecordsWhole files.used session.timeline.events.toList
      else result.journal? = none := by
  cases h with
  | failure journal? hobstacle => cases hending
  | document line hdocument =>
      rw [hjson] at hdocument
      cases hdocument
  | brokenOff journal? hfinished hplayback => cases hending
  | outOfNumbers => cases hending
  | @played config session _ _ journal? hfinished hjournaled hsink hplayback =>
      rw [options.pace_immediate hpace]
      obtain ⟨-, -, hdelivers⟩ := hfinished.deliversWhole journal? hsink hplayback
      refine ⟨config, session, hfinished, hdelivers, ?_⟩
      by_cases hjournal : options.journal = true
      · rw [if_pos hjournal]
        exact hjournaled.recordsWhole hjournal hcreate rfl
      · rw [if_neg hjournal]
        rw [Journaled, if_neg hjournal] at hjournaled
        exact hjournaled

end

/-- A run that fails has met an obstacle and has printed nothing and sent nothing to any
sink, and one that plays without keeping a pace breaks off only where there is no
schedule.  One that succeeds without asking for a document or a pace has delivered the
whole timeline, and has recorded it if a journal was asked for and new files are empty.
Where there is no number for the name of the journal, nothing is printed, written or
sent. -/
theorem run_all_or_nothing (files : Files) (options : Options) (unseeded : RandomStream)
    (hcreate : ∀ name writer, files.create name = .ok writer → writer.written = #[]) :
    let result := run files options unseeded
    (∀ error, result.ending = .failure error →
      Obstacle files options unseeded error ∧ result.printed = [] ∧ result.sink? = none) ∧
    (∀ error, result.ending = .brokenOff error → options.realtime = false →
      ∃ config session, Finished files options unseeded config session ∧
        Playback.ofTimeline session.timeline config.resolution = .error error) ∧
    (result.ending = .success → options.json = false → options.realtime = false →
      ∃ config session, Finished files options unseeded config session ∧
        result.DeliversWhole options.sinkNames session.timeline.events.toList ∧
        if options.journal then
          result.RecordsWhole files.used session.timeline.events.toList
        else result.journal? = none) ∧
    (result.ending = .outOfNumbers → options.journal = true ∧
      FreshName.fresh? files.used journalPattern = none ∧
      result.printed = [] ∧ result.journal? = none ∧ result.sink? = none) := by
  intro result
  have hcourse : Course files options unseeded result := course_run files options unseeded
  refine ⟨?_, ?_, ?_, hcourse.of_outOfNumbers⟩
  · intro error hending
    exact hcourse.of_failure hending
  · intro error hending hpace
    exact hcourse.of_brokenOff hending hpace
  · intro hending hjson hpace
    exact hcourse.of_success hending hjson hpace hcreate

/-- The name of the journal is taken, and a second run names a sink that there is not. -/
theorem run_all_or_nothing_taken_name :
    let tree : FileTree :=
      ⟨[([['i', 'n']], .file [0x43, 0x20, 0x44]), ([journalPattern], .file [])]⟩
    let files := tree.files journalPattern
    let options : Options :=
      { config? := none, sink := "console, memory".toList, realtime := false,
        json := false, journal := true, seed? := some 7, file := ['i', 'n'] }
    let misdirected := { options with sink := ['j', 'a', 'c', 'k'] }
    let played := run files options (.ofSeed 0)
    let failed := run files misdirected (.ofSeed 0)
    (∀ name writer, files.create name = .ok writer → writer.written = #[]) ∧
      played.ending = .success ∧ played.printed.length = 6 ∧
      (∃ config session, Finished files options (.ofSeed 0) config session ∧
        played.DeliversWhole ["console", "memory"] session.timeline.events.toList ∧
        played.RecordsWhole [journalPattern] session.timeline.events.toList) ∧
      failed.ending = .failure (.system .unknownSink) ∧
      failed.printed = [] ∧ failed.sink? = none := by
  intro tree files options misdirected played failed
  have hcreate :
      ∀ name writer, files.create name = .ok writer → writer.written = #[] := by
    rintro name writer ⟨⟩
    rfl
  have hplayed : (run files options (.ofSeed 0)).ending = .success ∧
      (run files options (.ofSeed 0)).printed.length = 6 := by decide +kernel
  have hfailed :
      (run files misdirected (.ofSeed 0)).ending = .failure (.system .unknownSink) := by
    decide +kernel
  obtain ⟨-, -, hsuccess, -⟩ := run_all_or_nothing files options (.ofSeed 0) hcreate
  obtain ⟨hfailure, -⟩ := run_all_or_nothing files misdirected (.ofSeed 0) hcreate
  obtain ⟨config, session, hfinished, hdelivers, hrecords⟩ := hsuccess hplayed.1 rfl rfl
  have hnames : options.sinkNames = ["console", "memory"] := by decide
  have hused : files.used = [journalPattern] := by decide
  rw [hnames] at hdelivers
  rw [if_pos rfl, hused] at hrecords
  exact ⟨hcreate, hplayed.1, hplayed.2, ⟨config, session, hfinished, hdelivers, hrecords⟩,
    hfailed, (hfailure _ hfailed).2⟩

end CommandLine

end TextMusic
