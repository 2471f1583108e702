/-
Rests before the first letter.  They are all that the rest policy decides: under the one
policy they hold silent notes, under the other nothing, and all else is performed alike,
by so much earlier.
-/
import TextMusic.Proofs.Dropped
import TextMusic.Proofs.Wire

namespace TextMusic

variable {σ : Type}

/-! ## Rests of a text -/

/-- Whether a step carries out a rest. -/
def Step.isRest : Step → Bool
  | bound .rest | replay .rest => true
  | _ => false

/-- How many rests are carried out before the first letter of a text. -/
def earlyRests (text : List Char) : Nat :=
  (Memory.empty.steps (text.takeWhile (!isNoteLetter ·))).countP Step.isRest

namespace Ledger

/-- Whether the entry is that of a rest before the first letter of the text. -/
def Entry.isEarlyRest (text : List Char) (entry : Entry) : Bool :=
  entry.action? = some .rest && !(text.take entry.before.length).any isNoteLetter

/-- The events of a ledger without those of the gaps.  What comes behind a gap moves up by
the length of a note. -/
def closeUp (gap : Entry → Bool) : Nat → List Entry → List Event
  | _, [] => []
  | ticks, entry :: rest =>
      if gap entry then closeUp gap (ticks + noteLength) rest
      else
        (if entry.kept then entry.events.map fun event => event.moved (event.tick - ticks)
          else []) ++ closeUp gap ticks rest

end Ledger

/-! ## What the policy decides -/

/-- Whether a rest is carried out for which no pitch is known. -/
def Reaction.restsEarly (reaction : Reaction) : Bool :=
  reaction.binding?.any fun binding =>
    binding.action = .rest && binding.previousPitch.isNone

/-- The same rules with another policy. -/
def Rules.under (policy : RestPolicy) (rules : Rules) : Rules :=
  { rules with restPolicy := policy }

section

variable [Dice σ] (rules : Rules) (voice : Voice) (dice : σ)

theorem Voice.requests_of_restsEarly {reaction : Reaction}
    (h : reaction.restsEarly = true) :
    voice.requests (rules.under .sentinel) dice reaction =
      [voice.note 0 fallbackSemitone] ∧
      voice.requests (rules.under .skip) dice reaction = [] := by
  cases reaction with
  | trigger | ignored => exact absurd h Bool.false_ne_true
  | bound binding | replay binding =>
      have hrest : binding.action = .rest ∧ binding.previousPitch = none := by
        simpa [Reaction.restsEarly, Reaction.binding?] using h
      rw [requests, requests, bindingRequests, bindingRequests, hrest.1]
      simp [restRequests, Performance.restSemitone?, hrest.2, Rules.under]

theorem Voice.requests_under {reaction : Reaction} (h : reaction.restsEarly = false) :
    voice.requests (rules.under .sentinel) dice reaction =
      voice.requests (rules.under .skip) dice reaction := by
  cases reaction with
  | trigger | ignored => rfl
  | bound binding | replay binding =>
      rw [requests, requests, bindingRequests, bindingRequests]
      cases haction : binding.action with
      | rest =>
          have hpitch : binding.previousPitch.isSome = true := by
            simpa [Reaction.restsEarly, Reaction.binding?, haction,
              Option.isSome_iff_ne_none] using h
          obtain ⟨semitone, hsemitone⟩ := Option.isSome_iff_exists.mp hpitch
          simp [restRequests, Performance.restSemitone?, hsemitone]
      | _ => rfl

theorem Voice.after_under (policy : RestPolicy) (reaction : Reaction) :
    voice.after (rules.under policy) dice reaction = voice.after rules dice reaction := by
  cases reaction with
  | trigger | ignored => rfl
  | bound binding | replay binding => rfl

theorem Reaction.roll_under (policy : RestPolicy) (reaction : Reaction) :
    reaction.roll (rules.under policy) dice = reaction.roll rules dice := by
  rfl

end

/-! ## Behind a text -/

/-- A step carries out a rest where the action is one. -/
theorem Reaction.isRest_step (reaction : Reaction) :
    reaction.step.isRest = decide (reaction.action? = some .rest) := by
  cases reaction with
  | trigger | ignored => rfl
  | bound binding | replay binding =>
      rw [step, action?, binding?, Option.map_some]
      cases binding.action <;> rfl

/-- A rest is early just where no letter has been read. -/
theorem Memory.restsEarly_react (heard : List Char) (c : Char) :
    ((empty.observeAll heard).react c).restsEarly =
      (((empty.observeAll heard).react c).step.isRest && !heard.any isNoteLetter) := by
  have hpitch :
      (empty.observeAll heard).previousPitch.isSome = heard.any isNoteLetter := by
    rw [previousPitch_observeAll, ← isSome_lastSemitone?]
    exact congrArg Option.isSome Option.or_none
  rw [Reaction.isRest_step, Reaction.restsEarly, Reaction.action?]
  cases hbinding : ((empty.observeAll heard).react c).binding? with
  | none => rfl
  | some binding =>
      obtain ⟨hcoherent, hcaptured⟩ := (coherent_observeAll heard).react hbinding
      by_cases hrest : binding.action = .rest
      · have hnone : semitone? binding.character = none := by
          apply semitone?_eq_none_of_action
          rw [hcoherent.action_eq, hrest]
          decide
        rw [← hpitch, ← hcaptured hnone]
        cases hknown : binding.previousPitch <;> simp [hrest, hknown]
      · simp [hrest]

/-- No rest is carried out by a letter. -/
theorem Memory.isRest_of_letter (memory : Memory) {c : Char} (h : isNoteLetter c = true) :
    (memory.react c).step.isRest = false := by
  have hbound := (ofChar?_eq_newNote_iff c).mpr h
  rw [react, hbound]
  split_ifs <;> rfl

/-! ## Side by side -/

/-- The characters that a deed feeds to a session. -/
def Deed.characters : Deed → List Char
  | character c => [c]
  | instrument _ => []

namespace Request

theorem fits_block (request : Request) (tick later : Nat) :
    (request.block later).fits = (request.block tick).fits := by
  cases request <;> rfl

theorem length_events_block (request : Request) (tick later : Nat) :
    (request.block later).events.length = (request.block tick).events.length := by
  cases request <;> rfl

/-- The events of a request that was granted some ticks later move back to their place. -/
theorem map_moved_events_block (request : Request) (tick ticks : Nat) :
    (request.block (tick + ticks)).events.map
        (fun event => event.moved (event.tick - ticks)) =
      (request.block tick).events := by
  cases request with
  | tempo | program => simp [block, Block.events, Event.moved, Event.tick]
  | note =>
      have hend : tick + ticks + 4 - ticks = tick + 4 := by omega
      simp [block, Block.events, Event.moved, Event.tick, hend]

end Request

/-- A silent note is kept on every channel that the wire can carry. -/
theorem Block.fits_silent {channel : UInt8} (hchannel : channel ≤ 15) (octave : Int)
    (semitone : UInt8) (onset : Nat) :
    (note channel (pitchOf octave semitone) 0 onset).fits = true := by
  have hpitch : pitchOf octave semitone ≤ 127 := by
    rw [UInt8.le_iff_toNat_le, UInt8.toNat_ofNat]
    have hmax : maxPitch.toNat = 127 := rfl
    unfold pitchOf
    dsimp only
    split_ifs with hhigh
    · exact hmax.le
    · rw [UInt8.toNat_ofNat']
      omega
  rw [fits_note, decide_eq_true hchannel, decide_eq_true hpitch]
  rfl

namespace Timeline

/-- A timeline that has come some ticks further, and has dropped no more. -/
structure Ahead (ticks : Nat) (other timeline : Timeline) : Prop where
  cursor : other.cursor = timeline.cursor + ticks
  dropped : other.dropped = timeline.dropped

theorem eq_of_parts {timeline other : Timeline}
    (hevents : timeline.events.toList = other.events.toList)
    (hcursor : timeline.cursor = other.cursor)
    (hdropped : timeline.dropped = other.dropped) :
    timeline = other := by
  obtain ⟨events, cursor, dropped⟩ := timeline
  obtain ⟨otherEvents, otherCursor, otherDropped⟩ := other
  obtain rfl : events = otherEvents := Array.toList_inj.mp hevents
  obtain rfl : cursor = otherCursor := hcursor
  obtain rfl : dropped = otherDropped := hdropped
  rfl

theorem Ahead.grantAll {ticks : Nat} {other timeline : Timeline}
    (h : other.Ahead ticks timeline) (requests : List Request) :
    (other.grantAll requests).Ahead ticks (timeline.grantAll requests) := by
  induction requests generalizing timeline other with
  | nil => exact h
  | cons request rest ih =>
      apply ih
      constructor
      · rw [cursor_grant, cursor_grant, h.cursor]
        exact Nat.add_right_comm _ _ _
      · rw [dropped_grant, dropped_grant, h.dropped, request.fits_block timeline.cursor,
          request.length_events_block timeline.cursor]

/-- A silent note on a channel that the wire can carry drops nothing. -/
theorem Ahead.silentNote {ticks : Nat} {other timeline : Timeline}
    (h : other.Ahead ticks timeline) {channel : UInt8} (hchannel : channel ≤ 15)
    (octave : Int) (semitone : UInt8) :
    (other.grant (.note channel (pitchOf octave semitone) 0)).Ahead (ticks + noteLength)
      timeline := by
  have hfits := Block.fits_silent hchannel octave semitone other.cursor
  constructor
  · rw [cursor_grant, h.cursor]
    exact Nat.add_assoc _ _ _
  · rw [dropped_grant, Request.block, if_pos hfits]
    exact h.dropped

end Timeline

namespace Ledger

theorem closeUp_append (gap : Entry → Bool) (ticks : Nat) (front back : List Entry) :
    closeUp gap ticks (front ++ back) =
      closeUp gap ticks front ++
        closeUp gap (ticks + noteLength * front.countP gap) back := by
  induction front generalizing ticks with
  | nil => rfl
  | cons entry rest ih =>
      rw [List.cons_append, closeUp, closeUp, List.countP_cons]
      by_cases hgap : gap entry = true
      · rw [if_pos hgap, if_pos hgap, if_pos hgap, ih]
        congr 2
        rw [Nat.mul_succ]
        omega
      · rw [if_neg hgap, if_neg hgap, if_neg hgap, ih, List.append_assoc]
        rfl

/-- Without a gap, what is granted some ticks later moves back to its place. -/
theorem closeUp_entries {gap : Entry → Bool} {before : List Step} {voice : Voice}
    {action? : Option Action} {semitone? : Option UInt8}
    (hgap : ∀ block, gap ⟨before, voice, action?, semitone?, block⟩ = false)
    (ticks tick : Nat) (requests : List Request) :
    closeUp gap ticks (entries before voice action? semitone? (tick + ticks) requests) =
      ((Request.blocks tick requests).filter Block.fits).flatMap Block.events := by
  induction requests generalizing tick with
  | nil => rfl
  | cons request rest ih =>
      have hnext : tick + ticks + request.length = tick + request.length + ticks := by
        omega
      have hrest := ih (tick + request.length)
      rw [← hnext] at hrest
      have hentries :
          entries before voice action? semitone? (tick + ticks) (request :: rest) =
            ⟨before, voice, action?, semitone?, request.block (tick + ticks)⟩ ::
              entries before voice action? semitone?
                (tick + ticks + request.length) rest := rfl
      have hkept : (request.block (tick + ticks)).fits = (request.block tick).fits :=
        request.fits_block tick _
      have hmoved := request.map_moved_events_block tick ticks
      rw [hentries, closeUp, hgap, hrest, Request.blocks, List.filter_cons]
      cases hfits : (request.block tick).fits <;>
        simp [Entry.kept, Entry.events, hkept, hmoved, hfits]

/-- What entries make of a timeline and of one that is ahead: their gaps are missing from
the one, and the other has come further by them. -/
structure Splits (gap : Entry → Bool) (ticks : Nat) (entries : List Entry)
    (timeline later otherLater : Timeline) : Prop where
  ahead : otherLater.Ahead (ticks + noteLength * entries.countP gap) later
  events : later.events.toList = timeline.events.toList ++ closeUp gap ticks entries

theorem splits_nil {gap : Entry → Bool} {ticks : Nat} {timeline other : Timeline}
    (h : other.Ahead ticks timeline) : Splits gap ticks [] timeline timeline other :=
  ⟨h, (List.append_nil _).symm⟩

theorem Splits.append {gap : Entry → Bool} {ticks : Nat} {entries more : List Entry}
    {timeline later otherLater last otherLast : Timeline}
    (h : Splits gap ticks entries timeline later otherLater)
    (hmore : Splits gap (ticks + noteLength * entries.countP gap) more later
      last otherLast) :
    Splits gap ticks (entries ++ more) timeline last otherLast := by
  constructor
  · have hahead := hmore.ahead
    rwa [Nat.add_assoc, ← Nat.mul_add, ← List.countP_append] at hahead
  · rw [hmore.events, h.events, closeUp_append, List.append_assoc]

/-- Both timelines are asked for the same, and none of it is a gap. -/
theorem splits_same {gap : Entry → Bool} {before : List Step} {voice : Voice}
    {action? : Option Action} {semitone? : Option UInt8}
    (hgap : ∀ block, gap ⟨before, voice, action?, semitone?, block⟩ = false) {ticks : Nat}
    {timeline other : Timeline} (h : other.Ahead ticks timeline)
    (requests : List Request) :
    Splits gap ticks
      (entries before voice action? semitone? other.cursor requests) timeline
      (timeline.grantAll requests) (other.grantAll requests) := by
  have hnone :
      (entries before voice action? semitone? other.cursor requests).countP gap = 0 := by
    rw [List.countP_eq_zero]
    intro entry hentry
    obtain ⟨block, -, rfl⟩ := List.mem_map.mp hentry
    rw [hgap]
    exact Bool.false_ne_true
  have hclosed := closeUp_entries hgap ticks timeline.cursor requests
  rw [← h.cursor] at hclosed
  constructor
  · rw [hnone]
    exact h.grantAll requests
  · rw [hclosed]
    exact (timeline.goesOnBy_grantAll requests).events

/-- The other timeline alone is asked for a silent note, and that is a gap. -/
theorem splits_gap {gap : Entry → Bool} {before : List Step} {voice : Voice}
    {action? : Option Action} {semitone? : Option UInt8}
    (hgap : ∀ block, gap ⟨before, voice, action?, semitone?, block⟩ = true)
    (hchannel : voice.channel ≤ 15) {ticks : Nat}
    {timeline other : Timeline} (h : other.Ahead ticks timeline) (semitone : UInt8) :
    Splits gap ticks
      (entries before voice action? semitone? other.cursor [voice.note 0 semitone])
      timeline timeline (other.grantAll [voice.note 0 semitone]) := by
  have hentries :
      entries before voice action? semitone? other.cursor [voice.note 0 semitone] =
        [⟨before, voice, action?, semitone?,
          (voice.note 0 semitone).block other.cursor⟩] := rfl
  rw [hentries]
  constructor
  · rw [List.countP_singleton, hgap]
    exact h.silentNote hchannel voice.octave semitone
  · rw [closeUp, hgap, if_pos rfl, closeUp, List.append_nil]

end Ledger

namespace Session

/-- Sessions that have heard the same text under the two policies. -/
structure PolicyTwins (heard : List Char) (twin session : Session σ) : Prop where
  rules : session.config.rules = session.config.rules.under .skip
  twin_rules : twin.config.rules = session.config.rules.under .sentinel
  memory : session.memory = Memory.empty.observeAll heard
  twin_memory : twin.memory = session.memory
  voice : twin.voice = session.voice
  channel : session.voice.channel ≤ 15
  dice : twin.performance.dice = session.performance.dice

variable {heard : List Char} {twin session : Session σ}

theorem PolicyTwins.setInstrument (h : twin.PolicyTwins heard session)
    (instrument : UInt8) :
    (twin.setInstrument instrument).PolicyTwins heard
      (session.setInstrument instrument) := by
  refine ⟨h.rules, h.twin_rules, h.memory, h.twin_memory, ?_, h.channel, h.dice⟩
  change { twin.voice with instrument := instrument } = _
  rw [h.voice]
  rfl

variable [Dice σ]

theorem PolicyTwins.feed (h : twin.PolicyTwins heard session) (c : Char) :
    (twin.feed c).PolicyTwins (heard ++ [c]) (session.feed c) := by
  have hvoice : (twin.feed c).voice = (session.feed c).voice := by
    change (twin.performance.respond _ _).voice = (session.performance.respond _ _).voice
    rw [Performance.voice_respond, Performance.voice_respond, h.twin_rules, h.twin_memory,
      Voice.after_under, h.dice]
    exact congrArg (Voice.after _ · _ _) h.voice
  have hdice : (twin.feed c).performance.dice = (session.feed c).performance.dice := by
    change (twin.performance.respond _ _).dice = (session.performance.respond _ _).dice
    rw [Performance.dice_respond, Performance.dice_respond, h.twin_rules, h.twin_memory,
      Reaction.roll_under, h.dice]
  refine ⟨h.rules, h.twin_rules, ?_, ?_, hvoice, ?_, hdice⟩
  · change session.memory.observe c = _
    rw [h.memory, Memory.observeAll_append]
    rfl
  · exact congrArg (Memory.observe · c) h.twin_memory
  · change (session.performance.respond _ _).voice.channel ≤ 15
    rw [Performance.channel_respond]
    exact h.channel

theorem PolicyTwins.act (h : twin.PolicyTwins heard session) (deed : Deed) :
    (twin.act deed).PolicyTwins (heard ++ deed.characters) (session.act deed) := by
  cases deed with
  | character c => exact h.feed c
  | instrument instrument =>
      rw [Deed.characters, List.append_nil]
      exact h.setInstrument instrument

omit [Dice σ] in
/-- Of a character the entries are early rests if the character stands for one. -/
theorem PolicyTwins.isEarlyRest_eq (h : twin.PolicyTwins heard session)
    {before : List Step} (hbefore : before.length = heard.length) (c : Char)
    (more : List Char) (semitone? : Option UInt8) (block : Block) :
    Ledger.Entry.isEarlyRest (heard ++ more)
        ⟨before, twin.voice, (twin.memory.react c).action?, semitone?, block⟩ =
      (twin.memory.react c).restsEarly := by
  rw [h.twin_memory, h.memory, Memory.restsEarly_react, Reaction.isRest_step,
    Ledger.Entry.isEarlyRest, hbefore, List.take_left]

/-- What a character asks of both sessions. -/
theorem PolicyTwins.splits_feed (h : twin.PolicyTwins heard session) {ticks : Nat}
    (hahead : twin.timeline.Ahead ticks session.timeline) {before : List Step}
    (hbefore : before.length = heard.length) (c : Char) (more : List Char) :
    Ledger.Splits (Ledger.Entry.isEarlyRest (heard ++ more)) ticks
      (Ledger.ofDeed before twin (.character c)) session.timeline
      (session.feed c).timeline (twin.feed c).timeline := by
  have htwin : twin.characterRequests c =
      twin.voice.requests (session.config.rules.under .sentinel) session.performance.dice
        (twin.memory.react c) := by
    rw [characterRequests, h.twin_rules, h.dice]
  have hsession : session.characterRequests c =
      twin.voice.requests (session.config.rules.under .skip) session.performance.dice
        (twin.memory.react c) := by
    rw [characterRequests, ← h.rules, h.voice, h.twin_memory]
  have hgap := h.isEarlyRest_eq hbefore c more
  rw [Ledger.ofDeed, timeline_feed, timeline_feed]
  cases hearly : (twin.memory.react c).restsEarly with
  | true =>
      obtain ⟨hone, hnone⟩ := Voice.requests_of_restsEarly session.config.rules twin.voice
        session.performance.dice hearly
      rw [hsession, hnone, htwin, hone]
      exact Ledger.splits_gap (fun block => (hgap _ block).trans hearly)
        (h.voice ▸ h.channel) hahead _
  | false =>
      have hsame :=
        Voice.requests_under session.config.rules twin.voice session.performance.dice
        hearly
      rw [hsession, ← hsame, ← htwin]
      exact Ledger.splits_same (fun block => (hgap _ block).trans hearly) hahead _

theorem PolicyTwins.splits_act (h : twin.PolicyTwins heard session) {ticks : Nat}
    (hahead : twin.timeline.Ahead ticks session.timeline) {before : List Step}
    (hbefore : before.length = heard.length) (deed : Deed) (more : List Char) :
    Ledger.Splits (Ledger.Entry.isEarlyRest (heard ++ more)) ticks
      (Ledger.ofDeed before twin deed) session.timeline (session.act deed).timeline
      (twin.act deed).timeline := by
  cases deed with
  | character c => exact h.splits_feed hahead hbefore c more
  | instrument instrument =>
      have htimeline : (session.act (.instrument instrument)).timeline =
          session.timeline.grantAll [.program twin.voice.channel instrument] := by
        rw [h.voice]
        rfl
      rw [htimeline]
      exact Ledger.splits_same (fun _ => rfl) hahead
        [.program twin.voice.channel instrument]

/-- What several deeds ask of both sessions. -/
theorem PolicyTwins.splits_acts (h : twin.PolicyTwins heard session) {ticks : Nat}
    (hahead : twin.timeline.Ahead ticks session.timeline) {before : List Step}
    (hbefore : before.length = heard.length) (deeds : List Deed) :
    Ledger.Splits
      (Ledger.Entry.isEarlyRest (heard ++ deeds.flatMap Deed.characters)) ticks
      (Ledger.ofDeeds before twin deeds) session.timeline
      (deeds.foldl Session.act session).timeline
      (deeds.foldl Session.act twin).timeline := by
  induction deeds generalizing heard twin session ticks before with
  | nil => exact Ledger.splits_nil hahead
  | cons deed rest ih =>
      have hfirst := h.splits_act hahead hbefore deed
        (deed.characters ++ rest.flatMap Deed.characters)
      have hlater : (before ++ twin.deedSteps deed).length =
          (heard ++ deed.characters).length := by
        rw [List.length_append, List.length_append, hbefore]
        cases deed <;> rfl
      have hrest := ih (h.act deed) hfirst.ahead hlater
      rw [List.append_assoc] at hrest
      exact hfirst.append hrest

/-! ## How many there are -/

/-- A character has one early rest among its entries or none. -/
theorem PolicyTwins.countP_ofDeed (h : twin.PolicyTwins heard session)
    {before : List Step} (hbefore : before.length = heard.length) (c : Char)
    (more : List Char) :
    (Ledger.ofDeed before twin (.character c)).countP
        (Ledger.Entry.isEarlyRest (heard ++ more)) =
      if (twin.memory.react c).restsEarly then 1 else 0 := by
  have hgap := h.isEarlyRest_eq hbefore c more
  cases hearly : (twin.memory.react c).restsEarly with
  | true =>
      have hone := (Voice.requests_of_restsEarly session.config.rules twin.voice
        twin.performance.dice hearly).1
      rw [Ledger.ofDeed, characterRequests, h.twin_rules, hone]
      change List.countP _ [_] = 1
      rw [List.countP_singleton, hgap, hearly]
      rfl
  | false =>
      rw [if_neg Bool.false_ne_true, List.countP_eq_zero]
      intro entry hentry
      obtain ⟨block, -, rfl⟩ := List.mem_map.mp hentry
      rw [hgap, hearly]
      exact Bool.false_ne_true

/-- The early rests of the ledger are those of the text. -/
theorem PolicyTwins.countP_ofDeeds (h : twin.PolicyTwins heard session)
    {before : List Step} (hbefore : before.length = heard.length) (deeds : List Deed) :
    (Ledger.ofDeeds before twin deeds).countP
        (Ledger.Entry.isEarlyRest (heard ++ deeds.flatMap Deed.characters)) =
      if heard.any isNoteLetter then 0
      else (twin.memory.steps ((deeds.flatMap Deed.characters).takeWhile
        (!isNoteLetter ·))).countP Step.isRest := by
  induction deeds generalizing heard twin session before with
  | nil => simp [Ledger.ofDeeds, Memory.steps]
  | cons deed rest ih =>
      have hlater : (before ++ twin.deedSteps deed).length =
          (heard ++ deed.characters).length := by
        rw [List.length_append, List.length_append, hbefore]
        cases deed <;> rfl
      have hrest := ih (h.act deed) hlater
      rw [List.append_assoc] at hrest
      rw [Ledger.ofDeeds, List.countP_append, List.flatMap_cons, hrest]
      cases deed with
      | instrument instrument =>
          rw [Deed.characters, List.append_nil, List.nil_append]
          exact Nat.zero_add _
      | character c =>
          have hmemory : (twin.act (.character c)).memory = twin.memory.observe c := rfl
          rw [h.countP_ofDeed hbefore, hmemory, Deed.characters, List.any_append,
            List.any_cons, List.any_nil, Bool.or_false, List.singleton_append]
          have hrests : (twin.memory.react c).restsEarly =
              ((twin.memory.react c).step.isRest && !heard.any isNoteLetter) := by
            rw [h.twin_memory, h.memory, Memory.restsEarly_react]
          rw [hrests]
          cases hheard : heard.any isNoteLetter with
          | true => simp
          | false =>
              cases hletter : isNoteLetter c with
              | true => simp [hletter, twin.memory.isRest_of_letter hletter, Memory.steps]
              | false =>
                  simp only [hletter, Bool.not_false, Bool.and_true, Bool.or_self,
                    Bool.false_eq_true, if_false, List.takeWhile_cons,
                    if_true, Memory.steps, List.countP_cons]
                  exact Nat.add_comm _ _

/-- An early rest is a silent note that the wire can carry. -/
theorem PolicyTwins.silent_of_isEarlyRest (h : twin.PolicyTwins heard session)
    {before : List Step} (hbefore : before.length = heard.length) {deeds : List Deed}
    {entry : Ledger.Entry} (hentry : entry ∈ Ledger.ofDeeds before twin deeds)
    (hearly : entry.isEarlyRest (heard ++ deeds.flatMap Deed.characters) = true) :
    entry.kept = true ∧
      ∃ channel pitch onset, entry.block = .note channel pitch 0 onset := by
  induction deeds generalizing heard twin session before with
  | nil => exact absurd hentry List.not_mem_nil
  | cons deed rest ih =>
      rw [List.flatMap_cons] at hearly
      rcases List.mem_append.mp hentry with hfirst | hrest
      · cases deed with
        | instrument instrument =>
            obtain ⟨block, -, rfl⟩ := List.mem_map.mp hfirst
            exact absurd hearly Bool.false_ne_true
        | character c =>
            obtain ⟨block, hblock, rfl⟩ := List.mem_map.mp hfirst
            rw [h.isEarlyRest_eq hbefore] at hearly
            have hone := (Voice.requests_of_restsEarly session.config.rules twin.voice
              twin.performance.dice hearly).1
            rw [characterRequests, h.twin_rules, hone] at hblock
            obtain rfl := List.mem_singleton.mp hblock
            refine ⟨?_, _, _, _, rfl⟩
            exact Block.fits_silent (h.voice ▸ h.channel) _ _ _
      · have hlater : (before ++ twin.deedSteps deed).length =
            (heard ++ deed.characters).length := by
          rw [List.length_append, List.length_append, hbefore]
          cases deed <;> rfl
        rw [← List.append_assoc] at hearly
        exact ih (h.act deed) hlater hrest hearly

/-! ## Whole runs -/

omit [Dice σ] in
/-- Both sessions open alike. -/
theorem policyTwins_start (config : Config) (hchannel : config.channel ≤ 15) (dice : σ) :
    (start { config with restPolicy := .sentinel } dice).PolicyTwins []
      (start { config with restPolicy := .skip } dice) := by
  have hvoice (policy : RestPolicy) :
      (start { config with restPolicy := policy } dice).voice = Voice.ofConfig config :=
    voice_start { config with restPolicy := policy } dice
  have hdice (policy : RestPolicy) :
      (start { config with restPolicy := policy } dice).performance.dice = dice :=
    dice_start { config with restPolicy := policy } dice
  refine ⟨rfl, rfl, rfl, rfl, ?_, ?_, ?_⟩
  · rw [hvoice, hvoice]
  · rw [hvoice]
    exact hchannel
  · rw [hdice, hdice]

omit [Dice σ] in
/-- The openings are the same, and have no gap. -/
theorem splits_opening (config : Config) (dice : σ) (text : List Char) :
    Ledger.Splits (Ledger.Entry.isEarlyRest text) 0 (Ledger.opening config)
      (Timeline.startingAt config.startTick)
      (start { config with restPolicy := .skip } dice).timeline
      (start { config with restPolicy := .sentinel } dice).timeline := by
  have hahead : (Timeline.startingAt config.startTick).Ahead 0
      (Timeline.startingAt config.startTick) := ⟨rfl, rfl⟩
  rw [timeline_start, timeline_start]
  exact Ledger.splits_same (fun _ => rfl) hahead _

theorem PolicyTwins.acts (h : twin.PolicyTwins heard session) (deeds : List Deed) :
    (deeds.foldl Session.act twin).PolicyTwins (heard ++ deeds.flatMap Deed.characters)
      (deeds.foldl Session.act session) := by
  induction deeds generalizing heard twin session with
  | nil =>
      rw [List.flatMap_nil, List.append_nil]
      exact h
  | cons deed rest ih =>
      rw [List.flatMap_cons, ← List.append_assoc]
      exact ih (h.act deed)

end Session

theorem Operation.flatMap_characters_deeds (operations : List Operation) :
    (operations.flatMap Operation.deeds).flatMap Deed.characters =
      operations.flatMap Operation.characters := by
  have hcharacters : ∀ text : List Char,
      (text.map Deed.character).flatMap Deed.characters = text := fun text => by
    rw [List.flatMap_map]
    exact List.flatMap_singleton' text
  rw [List.flatMap_assoc]
  congr 1
  funext operation
  cases operation with
  | setInstrument instrument => rfl
  | feed c => rfl
  | feedText text => exact hcharacters text
  | readFrom source => exact hcharacters _

namespace Ledger

/-- Without a gap the events stay as they are. -/
theorem closeUp_of_no_gap {gap : Entry → Bool} {ledger : List Entry}
    (h : ledger.countP gap = 0) :
    closeUp gap 0 ledger = (ledger.filter Entry.kept).flatMap Entry.events := by
  induction ledger with
  | nil => rfl
  | cons entry rest ih =>
      have hunmoved : entry.events.map (fun event => event.moved (event.tick - 0)) =
          entry.events := by
        rw [List.map_congr_left (g := id), List.map_id]
        intro event _
        cases event <;> rfl
      rw [List.countP_cons] at h
      have hgap : ¬ gap entry = true := by
        intro hgap
        rw [if_pos hgap] at h
        omega
      rw [closeUp, if_neg hgap, hunmoved, ih (by omega), List.filter_cons]
      cases entry.kept <;> rfl

end Ledger

namespace Session

variable [Dice σ]

/-- Sessions that differ in the rest policy alone take the same steps and come to the same
memory, voice, dice and number of dropped events, wherever their run stops.  Of the ledger
of the one, the entries of rests before the first letter of the text are silent notes, one
for each such rest, and without them it holds the events of the other, each of them
earlier by the length of a note for every such rest before it, as is the cursor.  Without
such rests the timelines are the same. -/
theorem rest_policy_before_letters (config : Config) (hchannel : config.channel ≤ 15)
    (dice : σ) (operations : List Operation) :
    let skipOpened := start { config with restPolicy := .skip } dice
    let sentinelOpened := start { config with restPolicy := .sentinel } dice
    let skip := skipOpened.performAll operations
    let sentinel := sentinelOpened.performAll operations
    let text := operations.flatMap Operation.characters
    let ledger := Ledger.ofRun { config with restPolicy := .sentinel } dice operations
    sentinelOpened.runSteps operations = skipOpened.runSteps operations ∧
      sentinel.memory = skip.memory ∧
      sentinel.voice = skip.voice ∧
      sentinel.performance.dice = skip.performance.dice ∧
      sentinel.timeline.dropped = skip.timeline.dropped ∧
      sentinel.timeline.events.toList =
        (ledger.filter Ledger.Entry.kept).flatMap Ledger.Entry.events ∧
      (∀ entry ∈ ledger, entry.isEarlyRest text = true →
        entry.kept = true ∧
          ∃ channel pitch onset, entry.block = .note channel pitch 0 onset) ∧
      ledger.countP (Ledger.Entry.isEarlyRest text) = earlyRests text ∧
      skip.timeline.events.toList =
        Ledger.closeUp (Ledger.Entry.isEarlyRest text) 0 ledger ∧
      sentinel.timeline.cursor = skip.timeline.cursor + noteLength * earlyRests text ∧
      (earlyRests text = 0 → sentinel.timeline = skip.timeline) := by
  intro skipOpened sentinelOpened skip sentinel text ledger
  have hopened : sentinelOpened.PolicyTwins [] skipOpened :=
    policyTwins_start config hchannel dice
  have htext := Operation.flatMap_characters_deeds operations
  have htwins := hopened.acts (operations.flatMap Operation.deeds)
  have hopening := splits_opening config dice text
  have hbefore : ([] : List Step).length = ([] : List Char).length := rfl
  have hdeeds :=
    hopened.splits_acts hopening.ahead hbefore (operations.flatMap Operation.deeds)
  have hcount := hopened.countP_ofDeeds hbefore (operations.flatMap Operation.deeds)
  have hsilent := fun entry (hentry : entry ∈ Ledger.ofDeeds [] sentinelOpened
    (operations.flatMap Operation.deeds)) => hopened.silent_of_isEarlyRest hbefore hentry
  rw [← performAll_eq_foldl_act, ← performAll_eq_foldl_act] at htwins hdeeds
  rw [htext, List.nil_append] at hdeeds hcount hsilent
  obtain ⟨hahead, hevents⟩ := hopening.append hdeeds
  have hfresh : ∀ entry ∈ Ledger.opening config, entry.isEarlyRest text = false := by
    intro entry hentry
    obtain ⟨block, -, rfl⟩ := List.mem_map.mp hentry
    rfl
  have hcounted : ledger.countP (Ledger.Entry.isEarlyRest text) = earlyRests text := by
    have hnone : (Ledger.opening config).countP (Ledger.Entry.isEarlyRest text) = 0 := by
      rw [List.countP_eq_zero]
      intro entry hentry
      rw [hfresh entry hentry]
      exact Bool.false_ne_true
    change (Ledger.opening config ++ _).countP _ = _
    rw [List.countP_append, hnone, hcount, Nat.zero_add]
    rfl
  have hwhole : sentinel.timeline.events.toList =
      (ledger.filter Ledger.Entry.kept).flatMap Ledger.Entry.events := by
    have hgoesOn :=
      (Ledger.goesOnBy_performAll { config with restPolicy := .sentinel } dice
        operations).events
    rw [List.filter_map, List.flatMap_map] at hgoesOn
    exact hgoesOn.trans (List.nil_append _)
  have hcursor : sentinel.timeline.cursor =
      skip.timeline.cursor + noteLength * earlyRests text := by
    rw [← hcounted, hahead.cursor, Nat.zero_add]
    rfl
  refine ⟨?_, htwins.twin_memory, htwins.voice, htwins.dice, hahead.dropped,
    hwhole, ?_, hcounted, hevents, hcursor, ?_⟩
  · rw [runSteps_eq_memory, runSteps_eq_memory]
    rfl
  · intro entry hentry hearly
    rcases List.mem_append.mp hentry with hopened | hlater
    · exact absurd ((hfresh entry hopened).symm.trans hearly) Bool.false_ne_true
    · exact hsilent entry hlater hearly
  · intro hnone
    have hsame : sentinel.timeline.events.toList = skip.timeline.events.toList := by
      rw [hwhole, ← Ledger.closeUp_of_no_gap (hcounted.trans hnone)]
      exact hevents.symm
    rw [hnone, Nat.mul_zero, Nat.add_zero] at hcursor
    exact Timeline.eq_of_parts hsame hcursor hahead.dropped

/-- Three of the four rests are early; the third replays the second, and both come when
the octave has gone up. -/
theorem rest_policy_before_letters_replayed :
    let text := [';', '+', '?', ';', 'x', 'D', ';', 'o']
    let dice := RandomStream.ofSeed 1
    let skip := (start { restPolicy := .skip } dice).performAll [.feedText text]
    let sentinel := (start { restPolicy := .sentinel } dice).performAll [.feedText text]
    ({} : Config).channel ≤ 15 ∧ earlyRests text = 3 ∧
      sentinel.timeline.cursor = skip.timeline.cursor + 12 ∧
      sentinel.timeline.dropped = skip.timeline.dropped ∧
      skip.timeline.events.toList = Ledger.closeUp (Ledger.Entry.isEarlyRest text) 0
        (Ledger.ofRun { restPolicy := .sentinel } dice [.feedText text]) := by
  intro text dice skip sentinel
  have hearly : earlyRests text = 3 := by decide
  have hchannel : ({} : Config).channel ≤ 15 := by decide
  obtain ⟨-, -, -, -, hdropped, -, -, -, hevents, hcursor, -⟩ :=
    rest_policy_before_letters {} hchannel dice [.feedText text]
  have htext : [Operation.feedText text].flatMap Operation.characters = text := by decide
  rw [htext] at hevents hcursor
  rw [hearly] at hcursor
  exact ⟨hchannel, hearly, hcursor, hdropped, hevents⟩

end Session

end TextMusic
