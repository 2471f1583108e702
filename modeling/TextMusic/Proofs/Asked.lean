/-
What a run asks for.  The requests of all that is done to a session, one after the other,
make a log, and the timeline of the session is what is granted of it.
-/
import TextMusic.Proofs.History
import TextMusic.Proofs.Request

namespace TextMusic

variable {σ : Type}

namespace Session

variable [Dice σ]

/-- What the next character asks for. -/
def characterRequests (session : Session σ) (c : Char) : List Request :=
  session.voice.requests session.config.rules session.performance.dice
    (session.memory.react c)

/-- What the characters of a text ask for. -/
def textRequests : Session σ → List Char → List Request
  | _, [] => []
  | session, c :: rest =>
      session.characterRequests c ++ textRequests (session.feed c) rest

/-- What an operation asks for. -/
def operationRequests (session : Session σ) : Operation → List Request
  | .setInstrument instrument => [.program session.voice.channel instrument]
  | .feed c => session.characterRequests c
  | .feedText text => session.textRequests text
  | .readFrom source => session.textRequests (Operation.readFrom source).characters

/-- What several operations ask for. -/
def requests : Session σ → List Operation → List Request
  | _, [] => []
  | session, operation :: rest =>
      session.operationRequests operation ++ requests (session.perform operation) rest

/-- All that has been asked for since a session was opened. -/
def requested (config : Config) (dice : σ) (operations : List Operation) : List Request :=
  (Voice.ofConfig config).tempoRequests ++ .program config.channel config.instrument ::
    (start config dice).requests operations

/-! ## Facts about whole runs -/

section Induction

variable {P : Session σ → List Request → Session σ → Prop}

theorem textRequests_induction (hnil : ∀ session, P session [] session)
    (hfeed : ∀ session c, P session (session.characterRequests c) (session.feed c))
    (hthen : ∀ {first second third requests more},
      P first requests second → P second more third → P first (requests ++ more) third)
    (session : Session σ) (text : List Char) :
    P session (session.textRequests text) (session.feedAll text) := by
  induction text generalizing session with
  | nil => exact hnil session
  | cons c rest ih => exact hthen (hfeed session c) (ih (session.feed c))

/-- What holds of every character and of every instrument that is set, with the requests
made there, and is handed on from one run to the next, holds of every run. -/
theorem requests_induction {operations : List Operation}
    (hnil : ∀ session, P session [] session)
    (hfeed : ∀ session c, P session (session.characterRequests c) (session.feed c))
    (hset : ∀ session instrument, .setInstrument instrument ∈ operations →
      P session [.program session.voice.channel instrument]
        (session.setInstrument instrument))
    (hthen : ∀ {first second third requests more},
      P first requests second → P second more third → P first (requests ++ more) third)
    (session : Session σ) :
    P session (session.requests operations) (session.performAll operations) := by
  induction operations generalizing session with
  | nil => exact hnil session
  | cons operation rest ih =>
      have hrest := ih (fun session instrument hmem =>
        hset session instrument (List.mem_cons_of_mem operation hmem))
        (session.perform operation)
      refine hthen ?_ hrest
      cases operation with
      | feed c => exact hfeed session c
      | feedText text => exact textRequests_induction hnil hfeed hthen session text
      | setInstrument instrument => exact hset session instrument List.mem_cons_self
      | readFrom source => exact textRequests_induction hnil hfeed hthen session _

end Induction

/-- What every operation keeps of a session a run keeps, and what every request is under
that invariant, all requests of the run are. -/
theorem requests_invariant {I : Session σ → Prop} {Q : Request → Prop}
    {operations : List Operation}
    (hfeed : ∀ session c, I session →
      I (session.feed c) ∧ ∀ request ∈ session.characterRequests c, Q request)
    (hset : ∀ session instrument, .setInstrument instrument ∈ operations → I session →
      I (session.setInstrument instrument) ∧
        Q (.program session.voice.channel instrument))
    {session : Session σ} (h : I session) :
    I (session.performAll operations) ∧
      ∀ request ∈ session.requests operations, Q request := by
  revert h
  apply requests_induction (P := fun session requests after =>
    I session → I after ∧ ∀ request ∈ requests, Q request)
  · intro session h
    exact ⟨h, List.forall_mem_nil Q⟩
  · exact hfeed
  · intro session instrument hmem h
    obtain ⟨hafter, hrequest⟩ := hset session instrument hmem h
    exact ⟨hafter, List.forall_mem_singleton.mpr hrequest⟩
  · intro first second third requests more hsecond hthird h
    obtain ⟨hmiddle, hrequests⟩ := hsecond h
    obtain ⟨hafter, hmore⟩ := hthird hmiddle
    exact ⟨hafter, List.forall_mem_append.mpr ⟨hrequests, hmore⟩⟩

theorem timeline_feed (session : Session σ) (c : Char) :
    (session.feed c).timeline = session.timeline.grantAll (session.characterRequests c) :=
  Performance.timeline_respond _ session.performance _

theorem timeline_requests (session : Session σ) (operations : List Operation) :
    (session.performAll operations).timeline =
      session.timeline.grantAll (session.requests operations) := by
  apply requests_induction (P := fun session requests after =>
    after.timeline = session.timeline.grantAll requests)
  · intro session
    rfl
  · exact timeline_feed
  · intro session instrument _
    rfl
  · intro first second third requests more hsecond hthird
    rw [Timeline.grantAll_append, ← hsecond]
    exact hthird

/-- The timeline of a session is what is granted of the log. -/
theorem timeline_requested (config : Config) (dice : σ) (operations : List Operation) :
    ((start config dice).performAll operations).timeline =
      (Timeline.startingAt config.startTick).grantAll
        (requested config dice operations) := by
  rw [timeline_requests, timeline_start, ← Timeline.grantAll_append, requested,
    List.append_assoc]
  rfl

end Session

end TextMusic
