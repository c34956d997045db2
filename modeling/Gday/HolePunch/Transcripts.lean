import Gday.HolePunch.ServerRuns

/-! # What the server says on a connection

A handler first says that there is its room, and the last thing it can say is why it ends.
In between it is silent, whatever the other handlers and the timers do: contacts are never
shared, so that all that is ever said fits the buffers. -/
set_option autoImplicit false
namespace Gday.HolePunch

open Gday.Lib.Machine Gday.Lib.OneShot

/-- The answer to `CreateRoom` or `JoinRoom`. -/
def greeting (roomId : RoomId) (isCreator : Bool) : ServerMessage :=
  if isCreator then .roomCreated roomId else .roomJoined

def ServerMessage.IsFarewell (message : ServerMessage) : Prop :=
  message = .syntaxError ∨ message = .errorNoSuchRoomId

/-- What a handler has said by the time it is there. -/
inductive Said : Handler → List ServerMessage → Prop where
  | starting : Said .starting []
  | bound (handler : Handler) (roomId : RoomId) (isCreator : Bool)
      (its : handler.bound = some (roomId, isCreator)) : Said handler [greeting roomId isCreator]
  | silent : Said .ended []
  | refused (message : ServerMessage) (farewell : message.IsFarewell) : Said .ended [message]
  | left (roomId : RoomId) (isCreator : Bool) : Said .ended [greeting roomId isCreator]
  | dismissed (roomId : RoomId) (isCreator : Bool) (message : ServerMessage)
      (farewell : message.IsFarewell) : Said .ended [greeting roomId isCreator, message]

/-! ## One turn -/

/-- A message is sent, or the handler ends with what it has said before. -/
theorem Said.replied (state : State) (handler : Handler) (sent : Bool) (message : ServerMessage)
    (messages : List ServerMessage) (goesOn : Said handler (messages ++ [message]))
    (fails : Said .ended messages) :
    Said (reply state handler sent message).handler
      (messages ++ (reply state handler sent message).written) := by
  rcases reply_cases state handler sent message with same | same
  · rw [same]
    exact goesOn
  · rw [same, List.append_nil]
    exact fails

theorem Said.refuse (state : State) (sent : Bool) (message : ServerMessage)
    (farewell : message.IsFarewell) :
    Said (reply state .ended sent message).handler (reply state .ended sent message).written :=
  .replied state .ended sent message [] (.refused message farewell) .silent

theorem Said.greet (state : State) (roomId : RoomId) (isCreator sent : Bool) :
    Said (reply state (.serving roomId isCreator) sent (greeting roomId isCreator)).handler
      (reply state (.serving roomId isCreator) sent (greeting roomId isCreator)).written :=
  .replied state (.serving roomId isCreator) sent (greeting roomId isCreator) []
    (.bound _ roomId isCreator rfl) .silent

theorem Said.dismiss (state : State) (roomId : RoomId) (isCreator sent : Bool)
    (message : ServerMessage) (farewell : message.IsFarewell) :
    Said (reply state .ended sent message).handler
      ([greeting roomId isCreator] ++ (reply state .ended sent message).written) :=
  .replied state .ended sent message [greeting roomId isCreator]
    (.dismissed roomId isCreator message farewell) (.left roomId isCreator)

theorem Said.start {state : State} {input : Except SerializationError ClientMessage}
    {draws : List (Fin 1048576)} {sent : Bool} {turn : Turn}
    (run : Handler.start state input draws sent = some turn) :
    Said turn.handler turn.written := by
  unfold Handler.start at run
  split at run
  · obtain ⟨⟨roomId, next⟩, _, same⟩ := Option.bind_eq_some_iff.mp run
    cases Option.some.inj same
    exact .greet next roomId true sent
  · next roomId =>
      by_cases there : state.roomExists roomId = true
      · rw [if_pos there] at run
        cases Option.some.inj run
        exact .greet state roomId false sent
      · rw [if_neg there] at run
        cases Option.some.inj run
        exact .refuse state sent _ (Or.inr rfl)
  · cases Option.some.inj run
    exact .refuse state sent _ (Or.inl rfl)
  · cases Option.some.inj run
    exact .refuse state sent _ (Or.inl rfl)

theorem Said.handleMessage (state : State) (roomId : RoomId) (isCreator : Bool)
    (peerAddr : Option SocketAddr) (input : Except SerializationError ClientMessage)
    (sent : Bool) :
    Said (Handler.handleMessage state roomId isCreator peerAddr input sent).handler
      ([greeting roomId isCreator] ++
        (Handler.handleMessage state roomId isCreator peerAddr input sent).written) := by
  have stays : ∀ handler : Handler, handler.bound = some (roomId, isCreator) →
      Said handler ([greeting roomId isCreator] ++ []) := fun handler its =>
    .bound handler roomId isCreator its
  unfold Handler.handleMessage
  split
  · split
    · exact .left roomId isCreator
    · split
      · exact .dismiss state roomId isCreator sent _ (Or.inr rfl)
      · split
        · exact stays _ rfl
        · exact stays _ rfl
  · split
    · exact .dismiss state roomId isCreator sent _ (Or.inr rfl)
    · exact stays _ rfl
  · exact .dismiss state roomId isCreator sent _ (Or.inl rfl)
  · exact .dismiss state roomId isCreator sent _ (Or.inl rfl)

/-- A handler that goes on with its room has greeted, and that is all it has said. -/
theorem Said.of_bound {handler : Handler} {messages : List ServerMessage}
    (said : Said handler messages) {roomId : RoomId} {isCreator : Bool}
    (its : handler.bound = some (roomId, isCreator)) :
    messages = [greeting roomId isCreator] := by
  cases said with
  | starting => cases its
  | bound _ otherId role other =>
      rw [its] at other
      cases other
      rfl
  | silent => cases its
  | refused message farewell => cases its
  | left otherId role => cases its
  | dismissed otherId role message farewell => cases its

theorem Said.receive {state : State} {handler : Handler} {peerAddr : Option SocketAddr}
    {input : Except SerializationError ClientMessage} {draws : List (Fin 1048576)} {sent : Bool}
    {turn : Turn} {messages : List ServerMessage} (said : Said handler messages)
    (run : handler.receive state peerAddr input draws sent = some turn) :
    Said turn.handler (messages ++ turn.written) := by
  rcases Handler.receive_cases run with ⟨rfl, started⟩ | ⟨roomId, isCreator, rfl, rfl⟩
  · cases said with
    | starting => exact .start started
    | bound _ roomId isCreator its => cases its
  · rw [said.of_bound rfl]
    exact .handleMessage state roomId isCreator peerAddr input sent

theorem Said.proceed {state : State} {handler : Handler} {sent : Bool} {turn : Turn}
    {messages : List ServerMessage} (said : Said handler messages)
    (run : handler.proceed state sent = some turn) :
    Said turn.handler (messages ++ turn.written) := by
  obtain ⟨roomId, isCreator, addr, rfl, ⟨_, rfl⟩ | ⟨next, _, rfl⟩⟩ := Handler.proceed_cases run
  · rw [said.of_bound rfl]
    exact .dismiss state roomId isCreator sent _ (Or.inr rfl)
  · rw [said.of_bound rfl]
    exact .bound _ roomId isCreator rfl

/-- Nobody gets contacts in a quiet state. -/
theorem Said.resolve {state : State} (quiet : state.Quiet) {handler : Handler} {sent : Bool}
    {turn : Turn} {messages : List ServerMessage} (said : Said handler messages)
    (run : handler.resolve state sent = some turn) :
    Said turn.handler (messages ++ turn.written) := by
  obtain ⟨roomId, isCreator, receiver, rfl, ⟨_, _, contacts, _⟩ | ⟨_, rfl⟩⟩ :=
    Handler.resolve_cases run
  · exact absurd contacts (quiet.noContacts receiver _)
  · rw [said.of_bound rfl]
    exact .left roomId isCreator

/-! ## Whole runs -/

/-- The server, and what each of its handlers has said so far. -/
structure Transcripts (Conn : Type) where
  server : Server Conn
  said : Conn → List ServerMessage

namespace Transcripts

variable {Conn : Type} [DecidableEq Conn]

def initial : Transcripts Conn := ⟨.initial, fun _ => []⟩

/-- What is written goes to the connection of the handler that made the step. -/
def record (transcripts : Transcripts Conn) (conn : Option Conn) (written : List ServerMessage)
    (next : Server Conn) : Transcripts Conn :=
  match conn with
  | none => ⟨next, transcripts.said⟩
  | some conn =>
      ⟨next, Function.update transcripts.said conn (transcripts.said conn ++ written)⟩

def step (transcripts : Transcripts Conn) (event : ServerEvent Conn) :
    Option (Transcripts Conn) :=
  (transcripts.server.respond event).map fun (next, written) =>
    transcripts.record event.conn written next

structure Shaped (transcripts : Transcripts Conn) : Prop where
  quiet : transcripts.server.state.Quiet
  said : ∀ conn, Said (transcripts.server.handlers conn) (transcripts.said conn)

omit [DecidableEq Conn] in
theorem initial_shaped : Shaped (initial : Transcripts Conn) where
  quiet := State.empty_quiet
  said _ := .starting

/-- A turn of one handler leaves what the others have said. -/
theorem Shaped.take {transcripts : Transcripts Conn} (shaped : transcripts.Shaped) (conn : Conn)
    (turn : Turn) (quiet : turn.state.Quiet)
    (said : Said turn.handler (transcripts.said conn ++ turn.written)) :
    Shaped (transcripts.record (some conn) turn.written (transcripts.server.take conn turn).1) where
  quiet := quiet
  said other := by
    simp only [record, Server.take]
    by_cases same : other = conn
    · subst same
      rw [Function.update_self, Function.update_self]
      exact said
    · rw [Function.update_of_ne same, Function.update_of_ne same]
      exact shaped.said other

/-- The step lemma, by the event. -/
theorem Shaped.step {transcripts next : Transcripts Conn} (shaped : transcripts.Shaped)
    (event : ServerEvent Conn) (run : transcripts.step event = some next) : next.Shaped := by
  obtain ⟨⟨after, written⟩, responded, rfl⟩ := Option.map_eq_some_iff.mp run
  have quiet : after.state.Quiet := Server.step_quiet shaped.quiet event
    (Option.map_eq_some_iff.mpr ⟨_, responded, rfl⟩)
  cases event with
  | receive conn peerAddr input draws sent =>
      obtain ⟨turn, received, same⟩ := Option.map_eq_some_iff.mp responded
      cases same
      exact shaped.take conn turn quiet ((shaped.said conn).receive received)
  | proceed conn sent =>
      obtain ⟨turn, proceeded, same⟩ := Option.map_eq_some_iff.mp responded
      cases same
      exact shaped.take conn turn quiet ((shaped.said conn).proceed proceeded)
  | resolve conn sent =>
      obtain ⟨turn, resolved, same⟩ := Option.map_eq_some_iff.mp responded
      cases same
      exact shaped.take conn turn quiet ((shaped.said conn).resolve shaped.quiet resolved)
  | roomTimeout place =>
      obtain ⟨state, _, same⟩ := Option.map_eq_some_iff.mp responded
      cases same
      exact ⟨quiet, shaped.said⟩

theorem run_shaped (events : List (ServerEvent Conn)) (transcripts : Transcripts Conn)
    (run : runInputs step events initial = some transcripts) : transcripts.Shaped :=
  runInputs_invariant step Shaped (fun _ event _ shaped => shaped.step event) events initial
    transcripts initial_shaped run

end Transcripts

theorem greeting_fits (roomId : RoomId) (isCreator : Bool) : (greeting roomId isCreator).Fits := by
  cases isCreator <;> trivial

theorem ServerMessage.IsFarewell.fits {message : ServerMessage} (farewell : message.IsFarewell) :
    message.Fits := by
  rcases farewell with rfl | rfl <;> trivial

/-- On every connection, in every run of the server: at most a greeting and a farewell, in this
order; a handler that holds on to a room has said just the greeting for it, and one that has
said farewell has ended; all of it fits the buffers. -/
theorem said_in_order {Conn : Type} [DecidableEq Conn] (events : List (ServerEvent Conn))
    (transcripts : Transcripts Conn)
    (run : runInputs Transcripts.step events .initial = some transcripts) (conn : Conn) :
    (∃ first last : Option ServerMessage,
      transcripts.said conn = first.toList ++ last.toList ∧
        (∀ message ∈ first, ∃ roomId isCreator, message = greeting roomId isCreator) ∧
        (∀ message ∈ last, message.IsFarewell ∧ transcripts.server.handlers conn = .ended)) ∧
      (∀ roomId isCreator,
        (transcripts.server.handlers conn).bound = some (roomId, isCreator) →
          transcripts.said conn = [greeting roomId isCreator]) ∧
      ∀ message ∈ transcripts.said conn, message.Fits := by
  have said := (Transcripts.run_shaped events transcripts run).said conn
  have greets : ∀ roomId isCreator, ∀ message ∈ some (greeting roomId isCreator),
      ∃ roomId isCreator, message = greeting roomId isCreator := by
    rintro roomId isCreator message ⟨rfl⟩
    exact ⟨roomId, isCreator, rfl⟩
  refine ⟨?_, fun roomId isCreator its => said.of_bound its, ?_⟩
  · generalize transcripts.server.handlers conn = handler at said ⊢
    generalize transcripts.said conn = messages at said ⊢
    cases said with
    | starting => exact ⟨none, none, rfl, by simp, by simp⟩
    | bound handler roomId isCreator its =>
        exact ⟨some _, none, rfl, greets roomId isCreator, by simp⟩
    | silent => exact ⟨none, none, rfl, by simp, by simp⟩
    | refused message farewell => exact ⟨none, some message, rfl, by simp, by simpa using farewell⟩
    | left roomId isCreator => exact ⟨some _, none, rfl, greets roomId isCreator, by simp⟩
    | dismissed roomId isCreator message farewell =>
        exact ⟨some _, some message, rfl, greets roomId isCreator, by simpa using farewell⟩
  · generalize transcripts.server.handlers conn = handler at said
    generalize transcripts.said conn = messages at said ⊢
    cases said <;> simp [greeting_fits, ServerMessage.IsFarewell.fits, *]

/-- A creator that is done too early, and a joiner who asks for another room. -/
theorem two_said_in_order :
    ∃ transcripts : Transcripts Nat, runInputs Transcripts.step
        [.receive 0 none (.ok .createRoom) [7] true, .receive 1 none (.ok (.joinRoom 9)) [] true,
          .receive 0 none (.ok .doneSending) [] true, .resolve 0 true] .initial =
          some transcripts ∧
      transcripts.said 0 = [.roomCreated 7] ∧ transcripts.said 1 = [.errorNoSuchRoomId] ∧
      ∀ message ∈ transcripts.said 0, message.Fits := by
  obtain ⟨transcripts, run⟩ : ∃ transcripts : Transcripts Nat, runInputs Transcripts.step
      [.receive 0 none (.ok .createRoom) [7] true, .receive 1 none (.ok (.joinRoom 9)) [] true,
        .receive 0 none (.ok .doneSending) [] true, .resolve 0 true] .initial =
      some transcripts := ⟨_, rfl⟩
  have creator : some [ServerMessage.roomCreated 7] = some (transcripts.said 0) :=
    congrArg (Option.map fun transcripts : Transcripts Nat => transcripts.said 0) run
  have joiner : some [ServerMessage.errorNoSuchRoomId] = some (transcripts.said 1) :=
    congrArg (Option.map fun transcripts : Transcripts Nat => transcripts.said 1) run
  exact ⟨transcripts, run, (Option.some.inj creator).symm, (Option.some.inj joiner).symm,
    (said_in_order _ transcripts run 0).2.2⟩

end Gday.HolePunch
