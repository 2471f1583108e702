/-
Output modes: playing a file and describing it tell of the same messages, but where
playing reads malformed bytes as replacements, describing refuses the whole file.
-/
import TextMusic.Proofs.Command
import TextMusic.Proofs.Described
import TextMusic.Proofs.Failure

namespace TextMusic

namespace Decoder

/-! ## Reading without replacements -/

theorem decode_utf8Bytes (text : List Char) :
    decode ((utf8Bytes text).map .byte) = text.map .char := by
  induction text with
  | nil => rfl
  | cons c rest ih =>
      rw [decode] at ih ⊢
      rw [utf8Bytes, List.flatMap_cons, ← utf8Bytes, List.map_append,
        decodeFrom_utf8EncodeChar, ih, List.map_cons]

/-- Bytes in which nothing has to be replaced are those of their text. -/
theorem eq_utf8Bytes_of_lossyText {bytes : List UInt8} {text : List Char}
    (h : LossyText bytes text) (hwhole : .malformed ∉ decode (bytes.map .byte)) :
    bytes = utf8Bytes text := by
  rw [decode] at hwhole
  induction h with
  | nil => rfl
  | @character sequence rest c text hsequence hcharacter hrest ih =>
      rw [← hcharacter, List.map_append, decodeFrom_utf8EncodeChar, List.mem_cons, not_or]
        at hwhole
      rw [ih hwhole.2, ← hcharacter]
      rfl
  | malformed hnone hpart hrest ih =>
      rw [decodeFrom_malformed hnone hpart] at hwhole
      exact absurd List.mem_cons_self hwhole

theorem characters?_utf8Bytes (text : List Char) :
    characters? (utf8Bytes text) = some text := by
  rw [characters?, decode_utf8Bytes]
  induction text with
  | nil => rfl
  | cons c rest ih => simp [ih]

theorem characters?_eq_none {bytes : List UInt8}
    (h : .malformed ∈ decode (bytes.map .byte)) :
    characters? bytes = none := by
  obtain ⟨front, back, hitems⟩ := List.append_of_mem h
  rw [characters?, hitems]
  simp

/-- What well-formed bytes spell is their lossy text; other bytes spell nothing. -/
theorem textOfBytes?_of_lossyText {bytes : List UInt8} {text : List Char}
    (h : LossyText bytes text) :
    textOfBytes? bytes =
      if bytes = utf8Bytes text then some (String.ofList text) else none := by
  by_cases hwhole : bytes = utf8Bytes text
  · rw [if_pos hwhole, hwhole, textOfBytes?, characters?_utf8Bytes]
    rfl
  · rw [if_neg hwhole, textOfBytes?, characters?_eq_none]
    · rfl
    · by_contra hmalformed
      exact hwhole (eq_utf8Bytes_of_lossyText h hmalformed)

end Decoder

theorem wholeBytes_bytes (bytes : List UInt8) :
    wholeBytes (bytes.map .byte) = .ok bytes := by
  induction bytes with
  | nil => rfl
  | cons byte rest ih =>
      rw [List.map_cons, wholeBytes, ih]
      rfl

theorem Files.readText_of_delivers {files : Files} {path : List Char} {bytes : List UInt8}
    {text : List Char} (hsource : Decoder.Delivers (files.source path) bytes)
    (htext : Decoder.LossyText bytes text) :
    files.readText path = if bytes = utf8Bytes text then .ok (String.ofList text)
      else .error (.io "stream did not contain valid UTF-8") := by
  rw [readText, Decoder.signals_of_delivers hsource, wholeBytes_bytes]
  simp only [Decoder.textOfBytes?_of_lossyText htext]
  by_cases hwhole : bytes = utf8Bytes text <;> simp [hwhole]

namespace CommandLine

/-! ## Two modes -/

section

variable {files : Files} {unseeded : RandomStream} {config : Config} {bytes : List UInt8}
  {text : List Char}

/-- A text that can be scheduled is played to the console, one line for each message. -/
theorem run_played (options : Options)
    (hsource : Decoder.Delivers (files.source options.file) bytes)
    (htext : Decoder.LossyText bytes text) (hconfig : configOf files options = .ok config)
    (hsink : Sink.ofNames (String.ofList options.sink) = .ok .console)
    (hjson : options.json = false) (hjournal : options.journal = false)
    (hrealtime : options.realtime = false) {playback : Playback}
    (hplayback : Playback.ofTimeline
      ((Session.start config (config.stream unseeded)).feedAll text).timeline
        config.resolution = .ok playback) :
    run files options unseeded = play playback .immediate .console none := by
  have hrender : render (files.source options.file) config (config.stream unseeded) =
      .ok ((Session.start config (config.stream unseeded)).feedAll text).timeline := by
    rw [render, Session.readFrom_of_lossyText hsource htext]
  simp [run, hconfig, hjson, perform, hrender, hjournal, playTo, hsink, hplayback,
    options.pace_immediate hrealtime]

/-- A text is described where its bytes are well-formed, and else refused. -/
theorem run_described (options : Options)
    (hsource : Decoder.Delivers (files.source options.file) bytes)
    (htext : Decoder.LossyText bytes text) (hconfig : configOf files options = .ok config)
    (hjson : options.json = true) {document : Document}
    (hdocument : simulate (String.ofList text) config (config.stream unseeded) =
      .ok document) :
    run files options unseeded =
      if bytes = utf8Bytes text then
        ⟨.success, [(.zero, document.toJson.render ++ "\n")], none, none⟩
      else .fail (.io "stream did not contain valid UTF-8") := by
  simp only [run, hconfig, hjson, if_true, documentLine,
    Files.readText_of_delivers hsource htext]
  by_cases hwhole : bytes = utf8Bytes text
  · simp [hwhole, hdocument, bind, Except.bind, pure, Except.pure]
  · simp [hwhole, bind, Except.bind]

/-- A file that can be scheduled is always played, one line to the console for each
message of its lossy text.  It is described just where its bytes are well-formed, and then
the document that is printed holds these messages and can be read back; else nothing of it
is described. -/
theorem described_iff_wellFormed {options : Options}
    (hsource : Decoder.Delivers (files.source options.file) bytes)
    (htext : Decoder.LossyText bytes text) (hconfig : configOf files options = .ok config)
    (hsink : Sink.ofNames (String.ofList options.sink) = .ok .console)
    (hjournal : options.journal = false) (hrealtime : options.realtime = false)
    {playback : Playback}
    (hplayback : Playback.ofTimeline
      ((Session.start config (config.stream unseeded)).feedAll text).timeline
        config.resolution = .ok playback) :
    let played := run files { options with json := false } unseeded
    let described := run files { options with json := true } unseeded
    ∃ document,
      simulate (String.ofList text) config (config.stream unseeded) = .ok document ∧
      played.ending = .success ∧
      played.printed.map Prod.snd = document.messages.map Sink.line ∧
      (described.ending = .success ↔ ∃ original : List Char, bytes = utf8Bytes original) ∧
      (described.ending = .success →
        described.printed.map Prod.snd = [document.toJson.render ++ "\n"]) ∧
      (described.ending ≠ .success →
        described = .fail (.io "stream did not contain valid UTF-8")) ∧
      ∃ value, Json.read? document.toJson.render.toList = some value ∧
        document.Described value := by
  intro played described
  have hencodable := Session.encodable_feedAll config (config.stream unseeded) text
  obtain ⟨messages, hsimulate, hmessages⟩ :=
    exists_simulate (String.ofList text) config (config.stream unseeded)
  rw [String.toList_ofList] at hsimulate hmessages
  have hplayed : played = play playback .immediate .console none :=
    run_played { options with json := false } hsource htext hconfig hsink rfl
      hjournal hrealtime hplayback
  have hdescribed : described = _ :=
    run_described { options with json := true } hsource htext hconfig rfl hsimulate
  obtain ⟨schedule, rfl, heq⟩ :=
    Playback.exists_of_ofTimeline hencodable hplayback hmessages
  obtain ⟨hending, hprinted, -, -⟩ := play_immediate schedule .console none
  rw [heq, (Sink.processEach_eq .console messages).1, ← hplayed] at hprinted
  refine ⟨_, hsimulate, hplayed ▸ hending, hprinted.trans ?_, ?_⟩
  · refine List.map_congr_left fun message _ => ?_
    simp [Sink.consoles, Sink.repeated]
  · by_cases hwhole : bytes = utf8Bytes text
    · rw [hdescribed, if_pos hwhole]
      exact ⟨iff_of_true rfl ⟨text, hwhole⟩, fun _ => rfl,
        fun hfailed => absurd rfl hfailed, Document.exists_described _⟩
    · have hnone : ¬ ∃ original : List Char, bytes = utf8Bytes original := by
        rintro ⟨original, rfl⟩
        exact hwhole
          (by rw [Decoder.lossyText_eq (Decoder.lossyText_utf8Bytes original) htext])
      have hfailed :
          (Result.fail (.io "stream did not contain valid UTF-8")).ending ≠ .success := by
        simp [Result.fail]
      rw [hdescribed, if_neg hwhole]
      exact ⟨iff_of_false hfailed hnone,
        fun hsuccess => absurd hsuccess hfailed, fun _ => rfl,
        Document.exists_described _⟩

end

/-- A portion cuts a character in two. -/
theorem described_iff_wellFormed_cut :
    let files : Files :=
      { source := fun _ =>
          [.bytes [0x43, 0xC3], .failure .interrupted none, .bytes [0xA9, 0x44]]
        used := []
        create := fun _ => .ok .unlimited }
    let options : Options :=
      { config? := none, sink := [], realtime := false, json := false, journal := false,
        seed? := some 1, file := ['i', 'n'] }
    let played := run files { options with json := false } (.ofSeed 0)
    let described := run files { options with json := true } (.ofSeed 0)
    ∃ document : Document, played.ending = .success ∧ document.messages.length = 8 ∧
      played.printed.map Prod.snd = document.messages.map Sink.line ∧
      described.ending = .success ∧
      described.printed.map Prod.snd = [document.toJson.render ++ "\n"] := by
  intro files options played described
  have hsource :
      Decoder.Delivers (files.source options.file) (utf8Bytes ['C', 'é', 'D']) :=
    .portion (by decide) (.interrupted (.portion (by decide) .done))
  let config : Config := { seed := some 1 }
  have hconfig : configOf files options = .ok config := rfl
  have hok :
      (Playback.ofTimeline ((Session.start config (config.stream (.ofSeed 0))).feedAll
        ['C', 'é', 'D']).timeline config.resolution).isOk = true := by
    decide +kernel
  have hlength :
      (run files { options with json := false } (.ofSeed 0)).printed.length = 8 := by
    decide +kernel
  rcases hplayback : Playback.ofTimeline
      ((Session.start config (config.stream (.ofSeed 0))).feedAll
        ['C', 'é', 'D']).timeline config.resolution with error | playback
  · simp [hplayback, Except.isOk, Except.toBool] at hok
  · obtain ⟨document, -, hplayed, hprinted, hdescribed, hdocument, -⟩ :=
      described_iff_wellFormed hsource
        (Decoder.lossyText_utf8Bytes ['C', 'é', 'D']) hconfig rfl rfl rfl hplayback
    have hsuccess : described.ending = .success := hdescribed.mpr ⟨_, rfl⟩
    refine ⟨document, hplayed, ?_, hprinted, hsuccess, hdocument hsuccess⟩
    have hlengths := congrArg List.length hprinted
    rw [List.length_map, List.length_map] at hlengths
    exact hlengths.symm.trans hlength

/-- In the middle of a file a byte that is no text is played as a replacement, but the
file is not described. -/
theorem malformed_played_not_described :
    let files : Files :=
      { source := fun _ => [.bytes [0x43, 0xE9, 0x44]]
        used := []
        create := fun _ => .ok .unlimited }
    let options : Options :=
      { config? := none, sink := [], realtime := false, json := false, journal := false,
        seed? := some 1, file := ['i', 'n'] }
    let played := run files options (.ofSeed 0)
    let described := run files { options with json := true } (.ofSeed 0)
    configOf files options = .ok { seed := some 1 } ∧
      Sink.ofNames (String.ofList options.sink) = .ok .console ∧
      played.ending = .success ∧ played.printed.length = 8 ∧
      described.ending = .failure (.io "stream did not contain valid UTF-8") ∧
      described.printed = [] ∧
      ¬ (described.ending = .success ↔ played.ending = .success) := by
  intro files options played described
  have hplayed : (run files options (.ofSeed 0)).ending = .success ∧
      (run files options (.ofSeed 0)).printed.length = 8 := by decide +kernel
  have hdescribed : (run files { options with json := true } (.ofSeed 0)).ending =
      .failure (.io "stream did not contain valid UTF-8") := by decide +kernel
  obtain ⟨-, hprinted, -⟩ := (course_run files _ _).of_failure hdescribed
  refine ⟨rfl, rfl, hplayed.1, hplayed.2, hdescribed, hprinted, fun h => ?_⟩
  rw [hdescribed] at h
  cases h.mpr hplayed.1

end CommandLine

end TextMusic
