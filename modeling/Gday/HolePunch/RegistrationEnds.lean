import Gday.HolePunch.Agreement

/-! # How every registration ends

A client has a bounded number of steps ahead of it, and as long as it has not returned it or one
of its handlers can make one of them.  It is never given a contact: no handler ever waits on a
channel that is still open, and none writes `SharePeerContacts`. -/
set_option autoImplicit false
namespace Gday.HolePunch

open Gday.Lib.Machine Gday.Lib.OneShot

/-! ## Channels stay closed -/

/-- A call leaves the channels as they are, or adds one that is closed. -/
theorem State.Quiet.channels_step {state next : State} (quiet : state.Quiet) {call : Call}
    (run : state.step call = some next) :
    next.channels = state.channels ∨ next.channels = state.channels ++ [.closed] := by
  obtain ⟨⟨answer, after⟩, responded, rfl⟩ := Option.map_eq_some_iff.mp run
  cases quiet.respond_cases call responded with
  | isDone roomId isCreator room found => exact .inr rfl
  | _ => exact .inl rfl

theorem State.Quiet.closed_step {state next : State} (quiet : state.Quiet) {call : Call}
    (run : state.step call = some next) {receiver : Nat}
    (closed : status state.channels receiver = some .closed) :
    status next.channels receiver = some .closed := by
  rcases quiet.channels_step run with same | more
  · rw [same]
    exact closed
  · rw [more]
    unfold status at closed ⊢
    rw [List.getElem?_append_left (List.getElem?_eq_some_iff.mp closed).1]
    exact closed

theorem AtMostOneCall.closed {before after : State} (calls : AtMostOneCall before after)
    (quiet : before.Quiet) {receiver : Nat}
    (closed : status before.channels receiver = some .closed) :
    status after.channels receiver = some .closed := by
  rcases calls with rfl | ⟨call, _, run⟩
  · exact closed
  · exact quiet.closed_step run closed

/-! ## Turns of a handler -/

def ServerMessage.shares : ServerMessage → Bool
  | .sharePeerContacts _ _ => true
  | _ => false

namespace Handler

/-- How many turns a handler can still make without another message. -/
def weight : Handler → Nat
  | .starting => 2
  | .serving _ _ => 1
  | .updating _ _ _ => 2
  | .waiting _ _ _ => 2
  | .ended => 0

theorem weight_le (handler : Handler) : handler.weight ≤ 2 := by
  cases handler <;> simp [weight]

/-- The handler reads no further message. -/
def Last (handler : Handler) : Prop :=
  handler = .ended ∨ ∃ roomId isCreator receiver, handler = .waiting roomId isCreator receiver

end Handler

/-- What holds of every turn in a quiet state. -/
structure Turn.Fair (turn : Turn) : Prop where
  started : turn.handler ≠ .starting
  unshared : ∀ message ∈ turn.written, message.shares = false
  closed : ∀ roomId isCreator receiver, turn.handler = .waiting roomId isCreator receiver →
    status turn.state.channels receiver = some .closed

theorem reply_fair (state : State) (next : Handler) (sent : Bool) (message : ServerMessage)
    (started : next ≠ .starting) (busy : ∀ roomId isCreator receiver,
      next ≠ .waiting roomId isCreator receiver) (plain : message.shares = false) :
    (reply state next sent message).Fair := by
  rcases reply_cases state next sent message with whole | broken
  · rw [whole]
    refine ⟨started, fun other member => ?_, fun _ _ _ same => absurd same (busy _ _ _)⟩
    rw [List.mem_singleton.mp member]
    exact plain
  · rw [broken]
    exact ⟨Handler.noConfusion, fun _ member => absurd member List.not_mem_nil,
      fun _ _ _ same => Handler.noConfusion same⟩

/-- A reply is written, or the handler has ended. -/
theorem reply_answers (state : State) (next : Handler) (sent : Bool) (message : ServerMessage) :
    (reply state next sent message).written ≠ [] ∨
      (reply state next sent message).handler = .ended := by
  rcases reply_cases state next sent message with whole | broken
  · rw [whole]
    exact .inl (List.cons_ne_nil _ _)
  · rw [broken]
    exact .inr rfl

theorem reply_ended (state : State) (sent : Bool) (message : ServerMessage) :
    (reply state .ended sent message).handler = .ended := by
  rcases reply_cases state .ended sent message with whole | broken
  · rw [whole]
  · rw [broken]

theorem reply_ended_fair (state : State) (sent : Bool) {message : ServerMessage}
    (plain : message.shares = false) : (reply state .ended sent message).Fair :=
  reply_fair state .ended sent message Handler.noConfusion (fun _ _ _ => Handler.noConfusion) plain

namespace Handler

/-- The first message of a handler. -/
theorem start_fair {state : State} {input : Except SerializationError ClientMessage}
    {draws : List (Fin 1048576)} {sent : Bool} {turn : Turn}
    (run : start state input draws sent = some turn) :
    turn.Fair ∧ (turn.written ≠ [] ∨ turn.handler = .ended) := by
  unfold start at run
  split at run
  · obtain ⟨⟨roomId, next⟩, _, same⟩ := Option.bind_eq_some_iff.mp run
    cases Option.some.inj same
    exact ⟨reply_fair _ _ sent _ Handler.noConfusion (fun _ _ _ => Handler.noConfusion) rfl,
      reply_answers ..⟩
  · split at run
    · cases Option.some.inj run
      exact ⟨reply_fair _ _ sent _ Handler.noConfusion (fun _ _ _ => Handler.noConfusion) rfl,
        reply_answers ..⟩
    · cases Option.some.inj run
      exact ⟨reply_ended_fair _ sent rfl, reply_answers ..⟩
  · cases Option.some.inj run
    exact ⟨reply_ended_fair _ sent rfl, reply_answers ..⟩
  · cases Option.some.inj run
    exact ⟨reply_ended_fair _ sent rfl, reply_answers ..⟩

theorem handleMessage_fair {state : State} (quiet : state.Quiet) (roomId : RoomId)
    (isCreator : Bool) (peerAddr : Option SocketAddr)
    (input : Except SerializationError ClientMessage) (sent : Bool) :
    (handleMessage state roomId isCreator peerAddr input sent).Fair := by
  unfold handleMessage
  split
  · split
    · exact ⟨Handler.noConfusion, fun _ member => absurd member List.not_mem_nil,
        fun _ _ _ same => Handler.noConfusion same⟩
    · split
      · exact reply_ended_fair _ sent rfl
      · split <;> exact ⟨Handler.noConfusion, fun _ member => absurd member List.not_mem_nil,
          fun _ _ _ same => Handler.noConfusion same⟩
  · split
    · exact reply_ended_fair _ sent rfl
    · next receiver next done =>
        refine ⟨Handler.noConfusion, fun _ member => absurd member List.not_mem_nil, ?_⟩
        intro _ _ _ same
        cases same
        exact quiet.receiver_closed roomId isCreator receiver done
  · exact reply_ended_fair _ sent rfl
  · exact reply_ended_fair _ sent rfl

/-- After `DoneSending` nothing more is read. -/
theorem handleMessage_last (state : State) (roomId : RoomId) (isCreator : Bool)
    (peerAddr : Option SocketAddr) (sent : Bool) :
    (handleMessage state roomId isCreator peerAddr (.ok .doneSending) sent).handler.Last := by
  simp only [handleMessage]
  split
  · exact .inl (reply_ended ..)
  · exact .inr ⟨_, _, _, rfl⟩

theorem handleMessage_error (state : State) (roomId : RoomId) (isCreator : Bool)
    (peerAddr : Option SocketAddr) (error : SerializationError) (sent : Bool) :
    (handleMessage state roomId isCreator peerAddr (.error error) sent).handler = .ended :=
  reply_ended ..

end Handler

/-! ## Turns of the client's handlers -/

/-- What is left to be read, and what becomes of it and of the handler in a turn. -/
inductive Turned (phase : Phase) (state : State) :
    List ClientMessage → Handler → List ClientMessage → Turn → Prop where
  | message (message : ClientMessage) (rest : List ClientMessage) (handler : Handler)
      (peerAddr : Option SocketAddr) (draws : List (Fin 1048576)) (sent : Bool) (turn : Turn)
      (run : handler.receive state peerAddr (.ok message) draws sent = some turn) :
      Turned phase state (message :: rest) handler rest turn
  | endOfStream (ok : Bool) (over_ : phase = .returned ok) (handler : Handler)
      (peerAddr : Option SocketAddr) (draws : List (Fin 1048576)) (sent : Bool) (turn : Turn)
      (run : handler.receive state peerAddr (.error .io) draws sent = some turn) :
      Turned phase state [] handler [] turn
  | proceeds (queue : List ClientMessage) (handler : Handler) (sent : Bool) (turn : Turn)
      (run : handler.proceed state sent = some turn) : Turned phase state queue handler queue turn
  | resolves (queue : List ClientMessage) (handler : Handler) (sent : Bool) (turn : Turn)
      (run : handler.resolve state sent = some turn) : Turned phase state queue handler queue turn

section Turned

variable {phase : Phase} {state : State} {queue rest : List ClientMessage} {handler : Handler}
  {turn : Turn}

theorem Turned.calls (turned : Turned phase state queue handler rest turn) :
    AtMostOneCall state turn.state := by
  cases turned with
  | message _ _ _ _ _ _ _ run => exact Handler.receive_calls _ _ _ _ _ _ turn run
  | endOfStream _ _ _ _ _ _ _ run => exact Handler.receive_calls _ _ _ _ _ _ turn run
  | proceeds _ _ _ _ run => exact Handler.proceed_calls _ _ _ turn run
  | resolves _ _ _ _ run => exact .inl (Handler.resolve_calls _ _ _ turn run)

theorem Turned.fair (turned : Turned phase state queue handler rest turn) (quiet : state.Quiet) :
    turn.Fair := by
  have receives : ∀ {peerAddr input draws sent},
      handler.receive state peerAddr input draws sent = some turn → turn.Fair := by
    intro peerAddr input draws sent run
    rcases Handler.receive_cases run with ⟨_, started⟩ | ⟨roomId, isCreator, _, rfl⟩
    · exact (Handler.start_fair started).1
    · exact Handler.handleMessage_fair quiet roomId isCreator peerAddr input sent
  cases turned with
  | message _ _ _ _ _ _ _ run => exact receives run
  | endOfStream _ _ _ _ _ _ _ run => exact receives run
  | proceeds _ _ sent _ run =>
      obtain ⟨_, _, _, _, ⟨_, rfl⟩ | ⟨next, _, rfl⟩⟩ := Handler.proceed_cases run
      · exact reply_ended_fair state sent rfl
      · exact ⟨Handler.noConfusion, fun _ member => absurd member List.not_mem_nil,
          fun _ _ _ same => Handler.noConfusion same⟩
  | resolves _ _ sent _ run =>
      obtain ⟨_, _, receiver, _, ⟨_, _, contacts, _⟩ | ⟨_, rfl⟩⟩ := Handler.resolve_cases run
      · exact absurd contacts (quiet.noContacts receiver _)
      · exact ⟨Handler.noConfusion, fun _ member => absurd member List.not_mem_nil,
          fun _ _ _ same => Handler.noConfusion same⟩

/-- A message weighs more than all turns that it can lead to. -/
theorem Turned.lighter (turned : Turned phase state queue handler rest turn) :
    3 * rest.length + turn.handler.weight < 3 * queue.length + handler.weight := by
  cases turned with
  | message message _ _ _ _ _ _ run =>
      have most := turn.handler.weight_le
      rw [List.length_cons]
      omega
  | endOfStream _ _ _ peerAddr draws sent _ run =>
      have ended : turn.handler = .ended ∧ handler.weight ≠ 0 := by
        rcases Handler.receive_cases run with ⟨rfl, started⟩ | ⟨roomId, isCreator, rfl, rfl⟩
        · cases Option.some.inj started
          exact ⟨reply_ended .., by simp [Handler.weight]⟩
        · exact ⟨Handler.handleMessage_error .., by simp [Handler.weight]⟩
      rw [ended.1]
      have none_ : Handler.ended.weight = 0 := rfl
      omega
  | proceeds _ _ sent _ run =>
      have lower : turn.handler.weight < handler.weight := by
        obtain ⟨_, _, _, rfl, ⟨_, rfl⟩ | ⟨next, _, rfl⟩⟩ := Handler.proceed_cases run
        · rw [reply_ended]
          simp [Handler.weight]
        · simp [Handler.weight]
      omega
  | resolves _ _ sent _ run =>
      have lower : turn.handler.weight < handler.weight := by
        obtain ⟨roomId, isCreator, _, rfl, ⟨_, _, _, rfl⟩ | ⟨_, rfl⟩⟩ := Handler.resolve_cases run
        · rcases reply_cases state (.serving roomId isCreator) sent _ with whole | broken
          · rw [whole]
            simp [Handler.weight]
          · rw [broken]
            simp [Handler.weight]
        · simp [Handler.weight]
      omega

end Turned

/-- The client's own events. -/
def RegistrationEvent.own : RegistrationEvent → Bool
  | .other _ => false
  | _ => true

/-- A turn of the handler of this connection, and what it leaves. -/
structure Registration.Turns (registration : Registration) (family : Family)
    (next : Registration) (rest : List ClientMessage) (turn : Turn) : Prop where
  turned : Turned registration.phase registration.server.state (registration.toServer family)
    (registration.server.handlers (.inl family)) rest turn
  phase : next.phase = registration.phase
  server : next.server = ⟨turn.state,
    Function.update registration.server.handlers (.inl family) turn.handler⟩
  toServer : next.toServer = Function.update registration.toServer family rest
  toClient : next.toClient = Function.update registration.toClient family
    (registration.toClient family ++ turn.written)
  answered : next.answered = registration.answered ++ turn.written

section Steps

variable {connection : ServerConnection} {goal : Goal} {registration next : Registration}

theorem receiveStep_turns {family : Family} {draws : List (Fin 1048576)} {sent : Bool}
    (run : registration.receiveStep connection family draws sent = some next) :
    ∃ rest turn, registration.Turns family next rest turn := by
  obtain ⟨link, held, run'⟩ := Option.bind_eq_some_iff.mp run
  cases queued : registration.toServer family with
  | cons message rest =>
      rw [receiveStep_message registration held queued draws sent] at run
      obtain ⟨turn, received, rfl⟩ := Option.map_eq_some_iff.mp run
      refine ⟨rest, turn, ?_, rfl, rfl, rfl, rfl, rfl⟩
      rw [queued]
      exact .message message rest _ _ draws sent turn received
  | nil =>
      rw [queued] at run'
      cases over_ : registration.phase with
      | returned ok =>
          rw [over_] at run'
          simp only at run'
          rw [serverStep_turn registration family _ _ rfl] at run'
          obtain ⟨turn, received, rfl⟩ := Option.map_eq_some_iff.mp run'
          refine ⟨_, turn, ?_, rfl, rfl, rfl, rfl, rfl⟩
          rw [queued, over_]
          exact .endOfStream ok rfl _ _ draws sent turn received
      | _ =>
          rw [over_] at run'
          cases run'

theorem proceed_turns {family : Family} {sent : Bool}
    (run : registration.serverStep family (.proceed (.inl family) sent) = some next) :
    ∃ rest turn, registration.Turns family next rest turn := by
  rw [serverStep_turn registration family _ _ rfl] at run
  obtain ⟨turn, proceeded, rfl⟩ := Option.map_eq_some_iff.mp run
  exact ⟨_, turn, .proceeds _ _ sent turn proceeded, rfl, rfl, rfl, rfl, rfl⟩

theorem resolve_turns {family : Family} {sent : Bool}
    (run : registration.serverStep family (.resolve (.inl family) sent) = some next) :
    ∃ rest turn, registration.Turns family next rest turn := by
  rw [serverStep_turn registration family _ _ rfl] at run
  obtain ⟨turn, resolved, rfl⟩ := Option.map_eq_some_iff.mp run
  exact ⟨_, turn, .resolves _ _ sent turn resolved, rfl, rfl, rfl, rfl, rfl⟩

/-- What reading takes from the connection, and what it leaves as it is. -/
theorem read_keeps {family : Family} {response : Option ServerMessage}
    (run : registration.read family = some (response, next)) :
    next.server = registration.server ∧ next.toServer = registration.toServer ∧
      next.answered = registration.answered ∧
      (∀ message, response = some message → message ∈ registration.toClient family) ∧
      (∀ other, ∀ message ∈ next.toClient other, message ∈ registration.toClient other) ∧
      ∀ other, other ≠ family → next.toClient other = registration.toClient other := by
  unfold Registration.read at run
  split at run
  · next message rest queued =>
      cases run
      refine ⟨rfl, rfl, rfl, ?_, fun other message member => ?_, fun other apart => ?_⟩
      · intro message same
        cases same
        rw [queued]
        exact List.mem_cons_self
      · by_cases own : other = family
        · subst own
          simp only [Function.update_self] at member
          rw [queued]
          exact List.mem_cons_of_mem _ member
        · simpa only [Function.update_of_ne own] using member
      · exact Function.update_of_ne apart _ _
  · split at run
    · cases run
      exact ⟨rfl, rfl, rfl, fun message same => Option.some_ne_none message same.symm |>.elim,
        fun _ _ => id, fun _ _ => rfl⟩
    · cases run

/-- There is something to read, or the handler has ended. -/
theorem read_there {family : Family} {response : Option ServerMessage}
    (run : registration.read family = some (response, next)) :
    registration.toClient family ≠ [] ∨ registration.server.handlers (.inl family) = .ended := by
  by_cases ended : registration.server.handlers (.inl family) = .ended
  · exact .inr ended
  · refine .inl fun empty => ?_
    rw [read_open empty ended] at run
    exact Option.some_ne_none _ run.symm

/-! ## The steps are bounded -/

def Phase.weight : Phase → Nat
  | .opening => 21
  | .awaitingRoom => 17
  | .sharing left => 8 + 4 * left.length
  | .awaitingContacts => 4
  | .returned _ => 0

namespace Registration

/-- What the handler of a connection still has to do. -/
def load (registration : Registration) (family : Family) : Nat :=
  3 * (registration.toServer family).length + (registration.server.handlers (.inl family)).weight

def weight (registration : Registration) : Nat :=
  registration.phase.weight + (registration.load .v6 + registration.load .v4)

def inPhase (registration : Registration) (phase : Phase) : Registration :=
  { registration with phase := phase }

theorem initial_weight : initial.weight = 25 := rfl

/-- A message adds to what its handler has to do. -/
theorem write_weight (registration : Registration) (family : Family) (message : ClientMessage)
    (phase : Phase) : ((registration.write family message).inPhase phase).weight +
      registration.phase.weight = registration.weight + phase.weight + 3 := by
  cases family with
  | v6 =>
      simp only [weight, load, write, inPhase, Function.update_self, List.length_append,
        List.length_singleton, Function.update_of_ne (show Family.v4 ≠ .v6 by decide)]
      omega
  | v4 =>
      simp only [weight, load, write, inPhase, Function.update_self, List.length_append,
        List.length_singleton, Function.update_of_ne (show Family.v6 ≠ .v4 by decide)]
      omega

theorem Turns.lighter {family : Family} {rest : List ClientMessage} {turn : Turn}
    (turns : registration.Turns family next rest turn) : next.weight < registration.weight := by
  have lighter := turns.turned.lighter
  unfold weight load
  rw [turns.phase, turns.server, turns.toServer]
  cases family with
  | v6 =>
      have other : (Sum.inl Family.v4 : Conn) ≠ .inl .v6 := by decide
      simp only [Function.update_self, Function.update_of_ne other,
        Function.update_of_ne (show Family.v4 ≠ .v6 by decide)]
      omega
  | v4 =>
      have other : (Sum.inl Family.v6 : Conn) ≠ .inl .v4 := by decide
      simp only [Function.update_self, Function.update_of_ne other,
        Function.update_of_ne (show Family.v6 ≠ .v4 by decide)]
      omega

/-- Where only the phase and what was read change, only the phase counts. -/
theorem weight_inPhase (server : next.server = registration.server)
    (toServer : next.toServer = registration.toServer) (phase : Phase) :
    (next.inPhase phase).weight + registration.phase.weight =
      registration.weight + phase.weight := by
  unfold weight load inPhase
  simp only [server, toServer]
  omega

end Registration

theorem getAllMessengers_length (connection : ServerConnection) :
    connection.getAllMessengers.length ≤ 2 := by
  unfold ServerConnection.getAllMessengers
  split <;> split <;> decide

theorem getAllMessengers_head (connection : ServerConnection) :
    connection.getAllMessengers.head? = some connection.getAnyMessenger := by
  have provided := connection.provided
  unfold ServerConnection.getAllMessengers ServerConnection.getAnyMessenger
  by_cases six : connection.v6.isSome
  · rw [if_pos six, if_pos six]
    rfl
  · rw [if_neg six, if_neg six, if_pos (provided.resolve_left six)]
    rfl

theorem getAllMessengers_held (connection : ServerConnection) :
    ∀ family ∈ connection.getAllMessengers, (connection.link family).isSome := by
  intro family member
  unfold ServerConnection.getAllMessengers at member
  rcases List.mem_append.mp member with six | four
  · split at six
    · rw [List.mem_singleton.mp six]
      assumption
    · exact absurd six List.not_mem_nil
  · split at four
    · rw [List.mem_singleton.mp four]
      assumption
    · exact absurd four List.not_mem_nil

/-- What the client does in each phase. -/
inductive ClientCase (connection : ServerConnection) (goal : Goal) (registration : Registration) :
    Phase → Registration → Prop where
  | opens : ClientCase connection goal registration .opening
      ((registration.write connection.getAnyMessenger goal.message).inPhase .awaitingRoom)
  | accepted (response : Option ServerMessage) (other : Registration)
      (read : registration.read connection.getAnyMessenger = some (response, other)) :
      ClientCase connection goal registration .awaitingRoom
        (other.inPhase (.sharing connection.getAllMessengers))
  | refused (response : Option ServerMessage) (other : Registration)
      (read : registration.read connection.getAnyMessenger = some (response, other)) :
      ClientCase connection goal registration .awaitingRoom (other.inPhase (.returned false))
  | shares (family : Family) (left : List Family) (message : ClientMessage) :
      ClientCase connection goal registration (.sharing (family :: left))
        ((registration.write family message).inPhase (.sharing left))
  | finishes : ClientCase connection goal registration (.sharing [])
      ((registration.write connection.getAnyMessenger .doneSending).inPhase .awaitingContacts)
  | contacts (client peer : FullContact) (other : Registration)
      (read : registration.read connection.getAnyMessenger =
        some (some (.sharePeerContacts client peer), other)) :
      ClientCase connection goal registration .awaitingContacts
        (other.inPhase (.returned true))
  | failed (response : Option ServerMessage) (other : Registration)
      (read : registration.read connection.getAnyMessenger = some (response, other)) :
      ClientCase connection goal registration .awaitingContacts
        (other.inPhase (.returned false))

theorem clientStep_cases (run : registration.clientStep connection goal = some next) :
    ClientCase connection goal registration registration.phase next := by
  have head := getAllMessengers_head connection
  unfold Registration.clientStep at run
  generalize registration.phase = phase at run
  cases phase with
  | opening =>
      cases run
      exact .opens
  | awaitingRoom =>
      obtain ⟨⟨response, other⟩, read, went⟩ := Option.bind_eq_some_iff.mp run
      simp only at went
      split at went
      · cases went
        exact .accepted response other read
      · cases went
        exact .refused response other read
  | sharing left =>
      cases left with
      | nil =>
          simp only [head, Option.bind_eq_bind, Option.bind_some] at run
          cases run
          exact .finishes
      | cons family left =>
          obtain ⟨link, _, went⟩ := Option.bind_eq_some_iff.mp run
          cases went
          exact .shares family left _
  | awaitingContacts =>
      simp only [head, Option.bind_eq_bind, Option.bind_some] at run
      obtain ⟨⟨response, other⟩, read, went⟩ := Option.bind_eq_some_iff.mp run
      simp only at went
      split at went
      · cases went
        exact .contacts _ _ other read
      · cases went
        exact .failed response other read
  | returned ok => cases run

theorem ClientCase.lighter {phase : Phase} (phaseIs : registration.phase = phase)
    (step : ClientCase connection goal registration phase next) :
    next.weight < registration.weight := by
  have most := getAllMessengers_length connection
  have keeps : ∀ {response other}, registration.read connection.getAnyMessenger =
      some (response, other) → ∀ phase, (other.inPhase phase).weight +
        registration.phase.weight = registration.weight + phase.weight := by
    intro response other read phase
    obtain ⟨server, toServer, _⟩ := read_keeps read
    exact Registration.weight_inPhase server toServer phase
  have writes := registration.write_weight
  rw [phaseIs] at keeps writes
  cases step with
  | opens =>
      have added := writes connection.getAnyMessenger goal.message .awaitingRoom
      simp only [Phase.weight] at added
      omega
  | accepted response other read =>
      have left_ := keeps read (.sharing connection.getAllMessengers)
      simp only [Phase.weight] at left_
      omega
  | refused response other read =>
      have left_ := keeps read (.returned false)
      simp only [Phase.weight] at left_
      omega
  | shares family left message =>
      have added := writes family message (.sharing left)
      simp only [Phase.weight, List.length_cons] at added
      omega
  | finishes =>
      have added := writes connection.getAnyMessenger .doneSending .awaitingContacts
      simp only [Phase.weight, List.length_nil] at added
      omega
  | contacts client peer other read =>
      have left_ := keeps read (.returned true)
      simp only [Phase.weight] at left_
      omega
  | failed response other read =>
      have left_ := keeps read (.returned false)
      simp only [Phase.weight] at left_
      omega

/-- An event of the client's own leaves less to do. -/
theorem own_lighter {event : RegistrationEvent} (own : event.own = true)
    (run : registration.step connection goal event = some next) :
    next.weight < registration.weight := by
  cases event with
  | client => exact (clientStep_cases run).lighter rfl
  | receive family draws sent =>
      obtain ⟨_, _, turns⟩ := receiveStep_turns run
      exact turns.lighter
  | proceed family sent =>
      obtain ⟨_, _, turns⟩ := proceed_turns run
      exact turns.lighter
  | resolve family sent =>
      obtain ⟨_, _, turns⟩ := resolve_turns run
      exact turns.lighter
  | other event => cases own

/-! ## The client is never stuck -/

/-- How far the first connection of the client is. -/
inductive Going (connection : ServerConnection) (goal : Goal) :
    Phase → List ClientMessage → Handler → List ServerMessage → Prop where
  | opening : Going connection goal .opening [] .starting []
  | asked : Going connection goal .awaitingRoom [goal.message] .starting []
  | answered (handler : Handler) (replies : List ServerMessage) (started : handler ≠ .starting)
      (there : replies ≠ [] ∨ handler = .ended) :
      Going connection goal .awaitingRoom [] handler replies
  | sharing (left : List Family) (queue : List ClientMessage) (handler : Handler)
      (replies : List ServerMessage) (started : handler ≠ .starting)
      (held : ∀ family ∈ left, (connection.link family).isSome) :
      Going connection goal (.sharing left) queue handler replies
  | finishing (queue : List ClientMessage) (handler : Handler) (replies : List ServerMessage)
      (started : handler ≠ .starting)
      (last : queue.getLast? = some .doneSending ∨ handler.Last) :
      Going connection goal .awaitingContacts queue handler replies
  | returned (ok : Bool) (queue : List ClientMessage) (handler : Handler)
      (replies : List ServerMessage) : Going connection goal (.returned ok) queue handler replies

theorem Going.started_of_read {queue : List ClientMessage} {handler : Handler}
    {replies : List ServerMessage}
    (going : Going connection goal .awaitingRoom queue handler replies)
    (there : replies ≠ [] ∨ handler = .ended) : handler ≠ .starting := by
  cases going with
  | asked => exact absurd (there.resolve_left fun some_ => some_ rfl) Handler.noConfusion
  | answered _ _ started => exact started

theorem Going.of_sharing {left : List Family} {queue : List ClientMessage} {handler : Handler}
    {replies : List ServerMessage}
    (going : Going connection goal (.sharing left) queue handler replies) :
    handler ≠ .starting ∧ ∀ family ∈ left, (connection.link family).isSome := by
  cases going with
  | sharing _ _ _ _ started held => exact ⟨started, held⟩

/-- A turn of the handler keeps the connection going. -/
theorem Going.turn {phase : Phase} {state : State} {queue rest : List ClientMessage}
    {handler : Handler} {replies : List ServerMessage} {turn : Turn} (quiet : state.Quiet)
    (turned : Turned phase state queue handler rest turn)
    (going : Going connection goal phase queue handler replies) :
    Going connection goal phase rest turn.handler (replies ++ turn.written) := by
  have started := (turned.fair quiet).started
  cases going with
  | opening =>
      cases turned with
      | endOfStream ok over_ => cases over_
      | proceeds _ _ _ _ run => cases run
      | resolves _ _ _ _ run => cases run
  | asked =>
      cases turned with
      | message _ _ _ _ _ _ _ run =>
          exact .answered _ _ started (Handler.start_fair run).2
      | proceeds _ _ _ _ run => cases run
      | resolves _ _ _ _ run => cases run
  | answered _ _ _ there =>
      have more : replies ++ turn.written ≠ [] ∨ turn.handler = .ended := by
        rcases there with some_ | rfl
        · exact .inl (List.append_ne_nil_of_left_ne_nil some_ _)
        · cases turned with
          | endOfStream ok over_ => cases over_
          | proceeds _ _ _ _ run => cases run
          | resolves _ _ _ _ run => cases run
      cases turned with
      | endOfStream ok over_ => cases over_
      | proceeds => exact .answered _ _ started more
      | resolves => exact .answered _ _ started more
  | sharing left _ _ _ _ held => exact .sharing left _ _ _ started held
  | finishing _ _ _ before last =>
      refine .finishing _ _ _ started ?_
      cases turned with
      | message message rest _ peerAddr draws sent _ run =>
          rcases Handler.receive_cases run with ⟨starting, _⟩ | ⟨roomId, isCreator, serving, rfl⟩
          · exact absurd starting before
          · have ends := last.resolve_right (by
              rintro (ended | ⟨_, _, _, waiting⟩)
              · exact Handler.noConfusion (serving.symm.trans ended)
              · exact Handler.noConfusion (serving.symm.trans waiting))
            cases rest with
            | nil =>
                rw [List.getLast?_singleton, Option.some.injEq] at ends
                subst ends
                exact .inr (Handler.handleMessage_last ..)
            | cons next rest => exact .inl (by rwa [List.getLast?_cons_cons] at ends)
      | endOfStream ok over_ => cases over_
      | proceeds _ _ _ _ run =>
          obtain ⟨_, _, _, rfl, _⟩ := Handler.proceed_cases run
          exact .inl (last.resolve_right (by
            rintro (ended | ⟨_, _, _, waiting⟩)
            · exact Handler.noConfusion ended
            · exact Handler.noConfusion waiting))
      | resolves _ _ _ _ run =>
          obtain ⟨_, _, receiver, rfl, ⟨_, _, contacts, _⟩ | ⟨_, rfl⟩⟩ :=
            Handler.resolve_cases run
          · exact absurd contacts (quiet.noContacts receiver _)
          · exact .inr (.inl rfl)
  | returned ok => exact .returned ok _ _ _

/-- What holds in every run, whatever the other connections do. -/
structure Underway (connection : ServerConnection) (goal : Goal) (registration : Registration) :
    Prop where
  quiet : registration.server.state.Quiet
  unshared : ∀ family, ∀ message ∈ registration.toClient family, message.shares = false
  unanswered : ∀ message ∈ registration.answered, message.shares = false
  failed : registration.phase ≠ .returned true
  closed : ∀ family roomId isCreator receiver,
    registration.server.handlers (.inl family) = .waiting roomId isCreator receiver →
      status registration.server.state.channels receiver = some .closed
  going : Going connection goal registration.phase
    (registration.toServer connection.getAnyMessenger)
    (registration.server.handlers (.inl connection.getAnyMessenger))
    (registration.toClient connection.getAnyMessenger)

theorem Underway.initial (connection : ServerConnection) (goal : Goal) :
    Underway connection goal .initial where
  quiet := State.empty_quiet
  unshared _ _ member := absurd member List.not_mem_nil
  unanswered _ member := absurd member List.not_mem_nil
  failed := Phase.noConfusion
  closed _ _ _ _ waiting := Handler.noConfusion waiting
  going := .opening

theorem Underway.turns {family : Family} {rest : List ClientMessage} {turn : Turn}
    (underway : Underway connection goal registration)
    (turns : registration.Turns family next rest turn) : Underway connection goal next := by
  have quiet := underway.quiet
  have fair := turns.turned.fair quiet
  have calls := turns.turned.calls
  constructor
  · rw [turns.server]
    exact calls.quiet quiet
  · intro other message member
    rw [turns.toClient] at member
    by_cases own : other = family
    · subst own
      rw [Function.update_self] at member
      rcases List.mem_append.mp member with before | now
      · exact underway.unshared other message before
      · exact fair.unshared message now
    · rw [Function.update_of_ne own] at member
      exact underway.unshared other message member
  · intro message member
    rw [turns.answered] at member
    rcases List.mem_append.mp member with before | now
    · exact underway.unanswered message before
    · exact fair.unshared message now
  · rw [turns.phase]
    exact underway.failed
  · intro other roomId isCreator receiver waiting
    rw [turns.server] at waiting ⊢
    by_cases own : other = family
    · subst own
      simp only [Function.update_self] at waiting
      exact fair.closed roomId isCreator receiver waiting
    · have apart : (Sum.inl other : Conn) ≠ .inl family := fun same => own (Sum.inl.inj same)
      simp only [Function.update_of_ne apart] at waiting
      exact calls.closed quiet (underway.closed other roomId isCreator receiver waiting)
  · rw [turns.phase, turns.server, turns.toServer, turns.toClient]
    by_cases own : connection.getAnyMessenger = family
    · have going := underway.going
      rw [own] at going ⊢
      simp only [Function.update_self]
      exact going.turn quiet turns.turned
    · have apart : (Sum.inl connection.getAnyMessenger : Conn) ≠ .inl family :=
        fun same => own (Sum.inl.inj same)
      rw [Function.update_of_ne own, Function.update_of_ne own]
      simp only [Function.update_of_ne apart]
      exact underway.going

/-- A step of the client touches neither the server nor what was answered. -/
theorem Underway.moves (underway : Underway connection goal registration)
    (server : next.server = registration.server)
    (answered : next.answered = registration.answered)
    (toClient : ∀ family, ∀ message ∈ next.toClient family,
      message ∈ registration.toClient family) (failed : next.phase ≠ .returned true)
    (going : Going connection goal next.phase (next.toServer connection.getAnyMessenger)
      (registration.server.handlers (.inl connection.getAnyMessenger))
      (next.toClient connection.getAnyMessenger)) : Underway connection goal next where
  quiet := server ▸ underway.quiet
  unshared family message member :=
    underway.unshared family message (toClient family message member)
  unanswered := answered ▸ underway.unanswered
  failed := failed
  closed := server ▸ underway.closed
  going := server ▸ going

theorem Underway.client (underway : Underway connection goal registration)
    (run : registration.clientStep connection goal = some next) :
    Underway connection goal next := by
  have step := clientStep_cases run
  have going := underway.going
  have same : ∀ family, ∀ message ∈ registration.toClient family,
      message ∈ registration.toClient family := fun _ _ => id
  generalize registration.phase = phase at step going
  cases step with
  | opens =>
      refine underway.moves rfl rfl same Phase.noConfusion ?_
      generalize queueIs : registration.toServer connection.getAnyMessenger = queue at going
      generalize registration.server.handlers (.inl connection.getAnyMessenger) = handler at going ⊢
      generalize repliesAre : registration.toClient connection.getAnyMessenger = replies at going
      cases going
      show Going connection goal .awaitingRoom (Function.update registration.toServer _
        (registration.toServer _ ++ [goal.message]) connection.getAnyMessenger) .starting
        (registration.toClient connection.getAnyMessenger)
      rw [Function.update_self, queueIs, repliesAre]
      exact .asked
  | accepted response other read =>
      obtain ⟨server, toServer, answered, _, toClient, _⟩ := read_keeps read
      refine underway.moves server answered toClient Phase.noConfusion ?_
      exact .sharing _ _ _ _ (going.started_of_read (read_there read))
        (getAllMessengers_held connection)
  | refused response other read =>
      obtain ⟨server, toServer, answered, _, toClient, _⟩ := read_keeps read
      exact underway.moves server answered toClient (by simp [Registration.inPhase])
        (.returned false _ _ _)
  | shares family left message =>
      obtain ⟨started, held⟩ := going.of_sharing
      exact underway.moves rfl rfl same Phase.noConfusion (.sharing left _ _ _ started
        fun other member => held other (List.mem_cons_of_mem _ member))
  | finishes =>
      refine underway.moves rfl rfl same Phase.noConfusion
        (.finishing _ _ _ going.of_sharing.1 (.inl ?_))
      show (Function.update registration.toServer _
        (registration.toServer _ ++ [.doneSending]) connection.getAnyMessenger).getLast? = _
      rw [Function.update_self, List.getLast?_append, List.getLast?_singleton]
      rfl
  | contacts client peer other read =>
      obtain ⟨_, _, _, given, _⟩ := read_keeps read
      exact absurd (underway.unshared _ _ (given _ rfl)) Bool.noConfusion
  | failed response other read =>
      obtain ⟨server, toServer, answered, _, toClient, _⟩ := read_keeps read
      exact underway.moves server answered toClient (by simp [Registration.inPhase])
        (.returned false _ _ _)

/-- Connections of others touch neither the client's handlers nor their messages. -/
theorem Underway.others (underway : Underway connection goal registration)
    (event : ServerEvent Nat)
    (run : registration.step connection goal (.other event) = some next) :
    Underway connection goal next := by
  obtain ⟨⟨server, written⟩, responded, same⟩ := Option.bind_eq_some_iff.mp run
  cases Option.some.inj same
  obtain ⟨quiet, handlers, _⟩ := respond_others underway.quiet event responded
  refine ⟨quiet, underway.unshared, underway.unanswered, underway.failed, ?_, ?_⟩
  · intro family roomId isCreator receiver waiting
    have closed := underway.closed family roomId isCreator receiver
      ((handlers family).symm.trans waiting)
    rcases Server.respond_calls _ responded with
      ⟨conn, turn, _, calls, taken⟩ | ⟨place, state, _, timedOut, rfl⟩
    · cases taken
      exact calls.closed underway.quiet closed
    · exact underway.quiet.closed_step (roomTimeout_step timedOut) closed
  · simp only [handlers]
    exact underway.going

theorem Underway.step (underway : Underway connection goal registration)
    (event : RegistrationEvent) (run : registration.step connection goal event = some next) :
    Underway connection goal next := by
  cases event with
  | client => exact underway.client run
  | receive family draws sent =>
      obtain ⟨_, _, turns⟩ := receiveStep_turns run
      exact underway.turns turns
  | proceed family sent =>
      obtain ⟨_, _, turns⟩ := proceed_turns run
      exact underway.turns turns
  | resolve family sent =>
      obtain ⟨_, _, turns⟩ := resolve_turns run
      exact underway.turns turns
  | other event => exact underway.others event run

/-- An event of another connection leaves the client as much to do as before. -/
theorem Underway.falls (underway : Underway connection goal registration)
    (event : RegistrationEvent) (run : registration.step connection goal event = some next) :
    next.weight + event.own.toNat ≤ registration.weight := by
  cases own : event.own with
  | true => exact own_lighter own run
  | false =>
      cases event with
      | other event =>
          obtain ⟨⟨server, written⟩, responded, same⟩ := Option.bind_eq_some_iff.mp run
          cases Option.some.inj same
          obtain ⟨_, handlers, _⟩ := respond_others underway.quiet event responded
          simp only [Registration.weight, Registration.load, handlers]
          exact Nat.le_refl _
      | _ => cases own

/-! ## Somebody can go on -/

/-- An event of the client's own is possible. -/
def Registration.CanMove (connection : ServerConnection) (goal : Goal)
    (registration : Registration) : Prop :=
  ∃ event : RegistrationEvent, event.own = true ∧
    (registration.step connection goal event).isSome = true

/-- The handler reads its next message. -/
def Handler.Reads (handler : Handler) : Prop :=
  handler = .starting ∨ ∃ roomId isCreator, handler = .serving roomId isCreator

/-- A number that no room has. -/
def State.HasRoomLeft (state : State) : Prop :=
  ∃ draw : Fin 1048576, state.rooms (UInt32.ofNat draw.val) = none

theorem Handler.Reads.receives {handler : Handler} (reads : handler.Reads) {state : State}
    (left_ : state.HasRoomLeft) (peerAddr : Option SocketAddr)
    (input : Except SerializationError ClientMessage) (sent : Bool) :
    ∃ draws, (handler.receive state peerAddr input draws sent).isSome = true := by
  rcases reads with rfl | ⟨roomId, isCreator, rfl⟩
  · obtain ⟨draw, free⟩ := left_
    refine ⟨[draw], ?_⟩
    simp only [Handler.receive, Handler.start]
    split
    · rw [State.createRoom_free state draw free]
      rfl
    · split <;> rfl
    · rfl
    · rfl
  · exact ⟨[], rfl⟩

/-- What a handler waits for, where it waits. -/
theorem Underway.handlerMoves (underway : Underway connection goal registration)
    (left_ : registration.server.state.HasRoomLeft) {family : Family}
    (held : (connection.link family).isSome = true)
    (busy : registration.server.handlers (.inl family) ≠ .ended)
    (given : (registration.server.handlers (.inl family)).Reads →
      registration.toServer family ≠ [] ∨ ∃ ok, registration.phase = .returned ok) :
    registration.CanMove connection goal := by
  obtain ⟨link, held⟩ := Option.isSome_iff_exists.mp held
  have reads : (registration.server.handlers (.inl family)).Reads →
      registration.CanMove connection goal := by
    intro reading
    cases queued : registration.toServer family with
    | cons message rest =>
        obtain ⟨draws, received⟩ := reading.receives left_ (some link.peerAddr) (.ok message) true
        refine ⟨.receive family draws true, rfl, ?_⟩
        rw [Registration.step, receiveStep_message registration held queued, Option.isSome_map]
        exact received
    | nil =>
        obtain ⟨ok, over_⟩ := (given reading).resolve_left fun some_ => some_ queued
        obtain ⟨draws, received⟩ := reading.receives left_ (some link.peerAddr) (.error .io) true
        refine ⟨.receive family draws true, rfl, ?_⟩
        simp only [Registration.step, Registration.receiveStep, held, queued, over_,
          Option.bind_eq_bind, Option.bind_some]
        rw [serverStep_turn registration family _ _ rfl, Option.isSome_map]
        exact received
  cases handlerIs : registration.server.handlers (.inl family) with
  | starting => exact reads (.inl handlerIs)
  | serving roomId isCreator => exact reads (.inr ⟨roomId, isCreator, handlerIs⟩)
  | updating roomId isCreator addr =>
      refine ⟨.proceed family true, rfl, ?_⟩
      rw [Registration.step, serverStep_turn registration family _ _ rfl, Option.isSome_map,
        handlerIs, Handler.proceed]
      split <;> rfl
  | waiting roomId isCreator receiver =>
      refine ⟨.resolve family true, rfl, ?_⟩
      rw [Registration.step, serverStep_turn registration family _ _ rfl, Option.isSome_map,
        handlerIs, Handler.resolve, underway.closed family roomId isCreator receiver handlerIs]
      rfl
  | ended => exact absurd handlerIs busy

theorem getAnyMessenger_held (connection : ServerConnection) :
    (connection.link connection.getAnyMessenger).isSome = true :=
  getAllMessengers_held connection _
    (List.mem_of_mem_head? (getAllMessengers_head connection))

/-- The client can read what is there. -/
theorem read_isSome {family : Family}
    (there : registration.toClient family ≠ [] ∨
      registration.server.handlers (.inl family) = .ended) :
    ∃ response other, registration.read family = some (response, other) := by
  cases queued : registration.toClient family with
  | cons message rest => exact ⟨_, _, read_message queued⟩
  | nil => exact ⟨_, _, read_ended queued (there.resolve_left fun some_ => some_ queued)⟩

/-- As long as the client has not returned, it or a handler can go on. -/
theorem Underway.progress (underway : Underway connection goal registration)
    (left_ : registration.server.state.HasRoomLeft)
    (before : ∀ ok, registration.phase ≠ .returned ok) :
    registration.CanMove connection goal := by
  have going := underway.going
  have head := getAllMessengers_head connection
  have handlerMoves := underway.handlerMoves left_ (getAnyMessenger_held connection)
  generalize phaseIs : registration.phase = phase at going before
  generalize queueIs : registration.toServer connection.getAnyMessenger = queue at going
  generalize handlerIs : registration.server.handlers (.inl connection.getAnyMessenger) = handler
    at going
  generalize repliesAre : registration.toClient connection.getAnyMessenger = replies at going
  cases going with
  | opening =>
      refine ⟨.client, rfl, ?_⟩
      simp only [Registration.step, Registration.clientStep, phaseIs]
      rfl
  | asked =>
      apply handlerMoves
      · rw [handlerIs]
        exact Handler.noConfusion
      · intro _
        rw [queueIs]
        exact .inl (List.cons_ne_nil _ _)
  | answered _ _ _ there =>
      obtain ⟨response, other, read⟩ := @read_isSome registration connection.getAnyMessenger
        (by rwa [handlerIs, repliesAre])
      refine ⟨.client, rfl, ?_⟩
      simp only [Registration.step, Registration.clientStep, phaseIs, read, Option.bind_eq_bind,
        Option.bind_some]
      split <;> rfl
  | sharing left _ _ _ _ held =>
      refine ⟨.client, rfl, ?_⟩
      cases left with
      | nil =>
          simp only [Registration.step, Registration.clientStep, phaseIs, head,
            Option.bind_eq_bind, Option.bind_some]
          rfl
      | cons family left =>
          obtain ⟨link, there⟩ := Option.isSome_iff_exists.mp (held family List.mem_cons_self)
          simp only [Registration.step, Registration.clientStep, phaseIs, there,
            Option.bind_eq_bind, Option.bind_some]
          rfl
  | finishing _ _ _ started last =>
      by_cases ended : handler = .ended
      · obtain ⟨response, other, read⟩ := @read_isSome registration connection.getAnyMessenger
          (.inr (handlerIs.trans ended))
        refine ⟨.client, rfl, ?_⟩
        simp only [Registration.step, Registration.clientStep, phaseIs, head, read,
          Option.bind_eq_bind, Option.bind_some]
        split <;> rfl
      · apply handlerMoves
        · rwa [handlerIs]
        · rw [handlerIs, queueIs]
          rintro (starting | ⟨roomId, isCreator, rfl⟩)
          · exact absurd starting started
          · refine .inl fun empty => ?_
            rcases last with done | ended' | ⟨_, _, _, waiting⟩
            · rw [empty] at done
              cases done
            · cases ended'
            · cases waiting
  | returned ok => exact absurd rfl (before ok)

end Steps

/-- Every registration ends: whatever the other connections do, a client and its handlers take
at most 25 steps, none of them shares a contact with the client, and once they can take no more
although a room id is left, the client has failed and its handlers have ended. -/
theorem registration_ends (connection : ServerConnection) (goal : Goal)
    (events : List RegistrationEvent) (final : Registration)
    (run : runInputs (Registration.step connection goal) events .initial = some final) :
    events.countP RegistrationEvent.own ≤ 25 ∧
      (∀ message ∈ final.answered, message.shares = false) ∧
      final.phase ≠ .returned true ∧
      (final.server.state.HasRoomLeft → ¬ final.CanMove connection goal →
        final.phase = .returned false ∧ ∀ family, (connection.link family).isSome →
          final.server.handlers (.inl family) = .ended) := by
  have underway : Underway connection goal final :=
    runInputs_invariant _ (Underway connection goal)
      (fun _ event _ underway stepRun => underway.step event stepRun) events _ final
      (.initial connection goal) run
  have bound := runInputs_ranked _ (Underway connection goal) Registration.weight
    RegistrationEvent.own (fun _ event _ underway stepRun => underway.step event stepRun)
    (fun _ event _ underway stepRun => underway.falls event stepRun) events _ final
    (.initial connection goal) run
  rw [Registration.initial_weight] at bound
  refine ⟨by omega, underway.unanswered, underway.failed, fun left_ stuck => ?_⟩
  have over_ : final.phase = .returned false := by
    by_contra before
    refine stuck (underway.progress left_ fun ok same => ?_)
    cases ok with
    | false => exact before same
    | true => exact underway.failed same
  refine ⟨over_, fun family held => ?_⟩
  by_contra busy
  exact stuck (underway.handlerMoves left_ held busy fun _ => .inr ⟨false, over_⟩)

/-- A client that is connected over both families creates a room. -/
def dualStackRun : List RegistrationEvent :=
  [.client, .receive .v6 [0] true, .client, .client, .client, .client, .receive .v6 [] true,
    .receive .v4 [] true, .proceed .v6 true, .receive .v6 [] true, .resolve .v6 true, .client]

theorem dualStack_ends : ∃ final,
    runInputs (Registration.step dualStack .create) dualStackRun .initial = some final ∧
      final.phase = .returned false ∧ final.answered.length = 2 ∧
        ∀ message ∈ final.answered, message.shares = false := by
  have runs : (runInputs (Registration.step dualStack .create) dualStackRun .initial).isSome =
      true := by decide
  obtain ⟨final, run⟩ := Option.isSome_iff_exists.mp runs
  have seen : (runInputs (Registration.step dualStack .create) dualStackRun .initial).map
      (fun final => (final.phase, final.answered.length)) = some (.returned false, 2) := by decide
  rw [run, Option.map_some, Option.some.injEq, Prod.mk.injEq] at seen
  obtain ⟨_, unshared, _⟩ := registration_ends dualStack .create dualStackRun final run
  exact ⟨final, run, seen.1, seen.2, unshared⟩

end Gday.HolePunch
