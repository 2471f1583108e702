/-
The ledger of a run.  It has an entry for each block of events that is asked for, with the
steps taken before, the voice there and the action that asks.  The blocks that fit are the
events of the timeline, in order, and the others are what it has dropped.
-/
import TextMusic.Proofs.Course
import TextMusic.Proofs.Orderly

namespace TextMusic

variable {σ : Type}

/-! ## Blocks -/

/-- The blocks of requests that are granted one after the other, the first at a tick. -/
def Request.blocks (tick : Nat) : List Request → List Block
  | [] => []
  | request :: rest => request.block tick :: blocks (tick + request.length) rest

theorem Request.mem_blocks {tick : Nat} {requests : List Request} {block : Block}
    (h : block ∈ blocks tick requests) :
    ∃ request ∈ requests, ∃ onset, block = request.block onset := by
  induction requests generalizing tick with
  | nil => exact absurd h List.not_mem_nil
  | cons request rest ih =>
      rcases List.mem_cons.mp h with rfl | hrest
      · exact ⟨request, List.mem_cons_self, tick, rfl⟩
      · obtain ⟨other, hother, onset, hblock⟩ := ih hrest
        exact ⟨other, List.mem_cons_of_mem request hother, onset, hblock⟩

namespace Timeline

/-- A timeline that goes on by some blocks.  Those that fit are kept, and the events of
the others are counted as dropped. -/
structure GoesOnBy (timeline : Timeline) (blocks : List Block) (later : Timeline) :
    Prop where
  events : later.events.toList =
    timeline.events.toList ++ (blocks.filter Block.fits).flatMap Block.events
  dropped : later.dropped =
    timeline.dropped + ((blocks.filter (!·.fits)).flatMap Block.events).length

theorem goesOnBy_nil (timeline : Timeline) : timeline.GoesOnBy [] timeline :=
  ⟨(List.append_nil _).symm, rfl⟩

theorem GoesOnBy.append {timeline later last : Timeline} {blocks more : List Block}
    (h : timeline.GoesOnBy blocks later) (hmore : later.GoesOnBy more last) :
    timeline.GoesOnBy (blocks ++ more) last := by
  refine ⟨?_, ?_⟩
  · rw [hmore.events, h.events, List.filter_append, List.flatMap_append,
      List.append_assoc]
  · rw [hmore.dropped, h.dropped, List.filter_append, List.flatMap_append,
      List.length_append, Nat.add_assoc]

theorem dropped_append (timeline : Timeline) (event : Event) :
    (timeline.append event).dropped = timeline.dropped + if event.fits then 0 else 1 := by
  unfold append
  split_ifs <;> rfl

/-- A request drops nothing or every event of its block. -/
theorem dropped_grant (timeline : Timeline) (request : Request) :
    (timeline.grant request).dropped = timeline.dropped +
      if (request.block timeline.cursor).fits then 0
      else (request.block timeline.cursor).events.length := by
  cases request with
  | tempo | program =>
      rw [grant, dropped_append, Request.block, Block.fits, Block.events, List.all_cons,
        List.all_nil, Bool.and_true]
      rfl
  | note channel pitch velocity =>
      have hoff :=
        fits_noteOff channel pitch velocity (timeline.cursor + 4) timeline.cursor
      have hdropped : (timeline.grant (.note channel pitch velocity)).dropped =
          ((timeline.append (.noteOn channel pitch velocity timeline.cursor)).append
            (.noteOff channel pitch velocity (timeline.cursor + 4))).dropped := rfl
      rw [hdropped, dropped_append, dropped_append, hoff, Request.block,
        Block.fits, Block.events, List.all_cons, List.all_cons, List.all_nil,
        Bool.and_true, hoff, Bool.and_self]
      split_ifs <;> rfl

theorem goesOnBy_grant (timeline : Timeline) (request : Request) :
    timeline.GoesOnBy [request.block timeline.cursor] (timeline.grant request) := by
  refine ⟨?_, ?_⟩
  · rw [events_grant]
    cases hfits : (request.block timeline.cursor).fits <;> simp [hfits]
  · rw [dropped_grant]
    cases hfits : (request.block timeline.cursor).fits <;> simp [hfits]

theorem goesOnBy_grantAll (timeline : Timeline) (requests : List Request) :
    timeline.GoesOnBy (Request.blocks timeline.cursor requests)
      (timeline.grantAll requests) := by
  induction requests generalizing timeline with
  | nil => exact timeline.goesOnBy_nil
  | cons request rest ih =>
      have hrest := ih (timeline.grant request)
      rw [cursor_grant] at hrest
      exact (timeline.goesOnBy_grant request).append hrest

end Timeline

/-! ## Semitones -/

/-- The semitone of the note that carrying out a binding plays, if it plays one. -/
def Binding.semitone? [Dice σ] (rules : Rules) (dice : σ) (binding : Binding) :
    Option UInt8 :=
  match binding.action with
  | .newNote => TextMusic.semitone? binding.character
  | .repeatNote => some
      (if isNoteLetter binding.previousCharacter then
        binding.previousPitch.getD fallbackSemitone
      else fallbackSemitone)
  | .randomNote => TextMusic.semitone? (noteLetters.get (Dice.letter dice).1)
  | .rest => Performance.restSemitone? rules binding
  | .doubleVolume | .increaseOctave | .decreaseOctave | .newInstrument => none

/-- The semitone of the note that a reaction plays, if it plays one. -/
def Reaction.semitone? [Dice σ] (rules : Rules) (dice : σ) (reaction : Reaction) :
    Option UInt8 :=
  reaction.binding?.bind (Binding.semitone? rules dice)

/-! ## Deeds -/

/-- What is done to a session at once: it takes a character or is set to an instrument. -/
inductive Deed where
  | character (c : Char)
  | instrument (instrument : UInt8)
deriving DecidableEq, Repr

/-- An operation, one thing after the other. -/
def Operation.deeds : Operation → List Deed
  | setInstrument instrument => [.instrument instrument]
  | operation => operation.characters.map .character

namespace Session

variable [Dice σ]

def act (session : Session σ) : Deed → Session σ
  | .character c => session.feed c
  | .instrument instrument => session.setInstrument instrument

theorem perform_eq_foldl_act (session : Session σ) (operation : Operation) :
    session.perform operation = operation.deeds.foldl act session := by
  cases operation with
  | feed | setInstrument => rfl
  | feedText text => exact (List.foldl_map (f := Deed.character) (g := act)).symm
  | readFrom source => exact (List.foldl_map (f := Deed.character) (g := act)).symm

theorem performAll_eq_foldl_act (session : Session σ) (operations : List Operation) :
    session.performAll operations =
      (operations.flatMap Operation.deeds).foldl act session := by
  induction operations generalizing session with
  | nil => rfl
  | cons operation rest ih =>
      rw [List.flatMap_cons, List.foldl_append, ← perform_eq_foldl_act]
      exact ih (session.perform operation)

/-- The steps that a deed takes. -/
def deedSteps (session : Session σ) : Deed → List Step
  | .character c => [session.stepOf c]
  | .instrument _ => []

end Session

/-! ## Entries -/

namespace Ledger

/-- A block of events that is asked for, with what there was when it was. -/
structure Entry where
  /-- The steps taken before. -/
  before : List Step
  /-- The voice just before the step that asks. -/
  voice : Voice
  /-- The action that asks, if one does: the opening, a tempo trigger and a set instrument
  are none. -/
  action? : Option Action
  /-- The semitone of the note that the action plays, if it plays one. -/
  semitone? : Option UInt8
  block : Block

namespace Entry

/-- Whether the events of the block are kept. -/
def kept (entry : Entry) : Bool :=
  entry.block.fits

def events (entry : Entry) : List Event :=
  entry.block.events

/-- Whether a tempo is announced that the wire cannot carry. -/
def isTooSlow (entry : Entry) : Bool :=
  match entry.block with
  | .tempo micros _ => 0xFFFFFF < micros
  | .program .. | .note .. => false

end Entry

/-- The entries of what is asked for at once, the first of them at a tick. -/
def entries (before : List Step) (voice : Voice) (action? : Option Action)
    (semitone? : Option UInt8) (tick : Nat) (requests : List Request) : List Entry :=
  (Request.blocks tick requests).map fun block =>
    ⟨before, voice, action?, semitone?, block⟩

theorem map_block_entries (before : List Step) (voice : Voice) (action? : Option Action)
    (semitone? : Option UInt8) (tick : Nat) (requests : List Request) :
    (entries before voice action? semitone? tick requests).map Entry.block =
      Request.blocks tick requests :=
  List.map_map.trans (List.map_id _)

/-- The entries of the opening. -/
def opening (config : Config) : List Entry :=
  let voice := Voice.ofConfig config
  entries [] voice none none config.startTick
    (voice.tempoRequests ++ [.program config.channel config.instrument])

variable [Dice σ]

/-- The entries of a deed. -/
def ofDeed (before : List Step) (session : Session σ) : Deed → List Entry
  | .character c =>
      let reaction := session.memory.react c
      entries before session.voice reaction.action?
        (reaction.semitone? session.config.rules session.performance.dice)
        session.timeline.cursor (session.characterRequests c)
  | .instrument instrument =>
      entries before session.voice none none session.timeline.cursor
        [.program session.voice.channel instrument]

/-- The entries of several deeds. -/
def ofDeeds : List Step → Session σ → List Deed → List Entry
  | _, _, [] => []
  | before, session, deed :: rest =>
      ofDeed before session deed ++
        ofDeeds (before ++ session.deedSteps deed) (session.act deed) rest

/-- The ledger of a run, from its opening on. -/
def ofRun (config : Config) (dice : σ) (operations : List Operation) : List Entry :=
  opening config ++
    ofDeeds [] (Session.start config dice) (operations.flatMap Operation.deeds)

/-! ## What becomes of the timeline -/

theorem goesOnBy_act (before : List Step) (session : Session σ) (deed : Deed) :
    session.timeline.GoesOnBy ((ofDeed before session deed).map Entry.block)
      (session.act deed).timeline := by
  cases deed with
  | character c =>
      rw [ofDeed, map_block_entries, Session.act, Session.timeline_feed]
      exact session.timeline.goesOnBy_grantAll (session.characterRequests c)
  | instrument instrument =>
      exact session.timeline.goesOnBy_grant (.program session.voice.channel instrument)

theorem goesOnBy_acts (before : List Step) (session : Session σ) (deeds : List Deed) :
    session.timeline.GoesOnBy ((ofDeeds before session deeds).map Entry.block)
      (deeds.foldl Session.act session).timeline := by
  induction deeds generalizing before session with
  | nil => exact session.timeline.goesOnBy_nil
  | cons deed rest ih =>
      rw [ofDeeds, List.map_append]
      exact (goesOnBy_act before session deed).append (ih _ _)

theorem goesOnBy_performAll (config : Config) (dice : σ) (operations : List Operation) :
    (Timeline.startingAt config.startTick).GoesOnBy
      ((ofRun config dice operations).map Entry.block)
      ((Session.start config dice).performAll operations).timeline := by
  have hopened := (Timeline.startingAt config.startTick).goesOnBy_grantAll
    ((Voice.ofConfig config).tempoRequests ++ [.program config.channel config.instrument])
  rw [← Session.timeline_start config dice] at hopened
  rw [ofRun, List.map_append, opening, map_block_entries, Session.performAll_eq_foldl_act]
  exact hopened.append (goesOnBy_acts _ _ _)

end Ledger

end TextMusic
