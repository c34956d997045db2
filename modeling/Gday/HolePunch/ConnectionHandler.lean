import Gday.HolePunch.GlobalState
import Gday.HolePunch.Messenger

/-! # The handler of a connection

`ConnectionHandler` as a state machine whose steps are the stretches between two awaits,
cut once more between the two updates that `SendPrivateAddr` makes, since other handlers
can take the lock there.  `Server` has one handler for each connection. -/
set_option autoImplicit false
namespace Gday.HolePunch

open Gday.Lib.OneShot

/-- Where a handler is: before the first message, between two messages, before the second
update, at `rx.await`, or back from `start`. -/
inductive Handler where
  | starting
  | serving (roomId : RoomId) (isCreator : Bool)
  | updating (roomId : RoomId) (isCreator : Bool) (privateAddr : SocketAddr)
  | waiting (roomId : RoomId) (isCreator : Bool) (receiver : Nat)
  | ended
  deriving DecidableEq

/-- The room and the role that the handler holds on to. -/
def Handler.bound : Handler → Option (RoomId × Bool)
  | .starting => none
  | .serving roomId isCreator => some (roomId, isCreator)
  | .updating roomId isCreator _ => some (roomId, isCreator)
  | .waiting roomId isCreator _ => some (roomId, isCreator)
  | .ended => none

/-- What a handler leaves behind after a step, and what it has written. -/
structure Turn where
  state : State
  handler : Handler
  written : List ServerMessage

/-- `write_msg(message).await?`, where `sent` says whether the stream took the bytes. -/
def reply (state : State) (next : Handler) (sent : Bool) (message : ServerMessage) : Turn :=
  match Messenger.ofServer.writeMsg serverMessage message with
  | .error _ => ⟨state, .ended, []⟩
  | .ok _ => if sent then ⟨state, next, [message]⟩ else ⟨state, .ended, []⟩

namespace Handler

/-- `start` up to the loop: none while `create_room` finds no free id. -/
def start (state : State) (input : Except SerializationError ClientMessage)
    (draws : List (Fin 1048576)) (sent : Bool) : Option Turn :=
  match input with
  | .ok .createRoom => do
      let (roomId, next) ← state.createRoom draws
      return reply next (.serving roomId true) sent (.roomCreated roomId)
  | .ok (.joinRoom roomId) =>
      if state.roomExists roomId then some (reply state (.serving roomId false) sent .roomJoined)
      else some (reply state .ended sent .errorNoSuchRoomId)
  | .ok _ => some (reply state .ended sent .syntaxError)
  | .error _ => some (reply state .ended sent .syntaxError)

/-- `handle_message` up to its first await. -/
def handleMessage (state : State) (roomId : RoomId) (isCreator : Bool)
    (peerAddr : Option SocketAddr) (input : Except SerializationError ClientMessage)
    (sent : Bool) : Turn :=
  match input with
  | .ok (.sendPrivateAddr privateAddr) =>
      match peerAddr with
      | none => ⟨state, .ended, []⟩
      | some peer =>
          match state.updateClient roomId isCreator peer true with
          | none => reply state .ended sent .errorNoSuchRoomId
          | some next =>
              match privateAddr with
              | none => ⟨next, .serving roomId isCreator, []⟩
              | some addr => ⟨next, .updating roomId isCreator addr, []⟩
  | .ok .doneSending =>
      match state.setClientDone roomId isCreator with
      | none => reply state .ended sent .errorNoSuchRoomId
      | some (receiver, next) => ⟨next, .waiting roomId isCreator receiver, []⟩
  | .ok _ => reply state .ended sent .syntaxError
  | .error _ => reply state .ended sent .syntaxError

/-- The next message, or the error of reading it. -/
def receive (state : State) (handler : Handler) (peerAddr : Option SocketAddr)
    (input : Except SerializationError ClientMessage) (draws : List (Fin 1048576))
    (sent : Bool) : Option Turn :=
  match handler with
  | .starting => start state input draws sent
  | .serving roomId isCreator => some (handleMessage state roomId isCreator peerAddr input sent)
  | .updating _ _ _ => none
  | .waiting _ _ _ => none
  | .ended => none

/-- The second update of `SendPrivateAddr`. -/
def proceed (state : State) (handler : Handler) (sent : Bool) : Option Turn :=
  match handler with
  | .updating roomId isCreator privateAddr =>
      match state.updateClient roomId isCreator privateAddr false with
      | none => some (reply state .ended sent .errorNoSuchRoomId)
      | some next => some ⟨next, .serving roomId isCreator, []⟩
  | _ => none

/-- What follows `rx.await`: none while nothing has come. -/
def resolve (state : State) (handler : Handler) (sent : Bool) : Option Turn :=
  match handler with
  | .waiting roomId isCreator receiver =>
      match status state.channels receiver with
      | some (.sent (clientContact, peerContact)) =>
          some (reply state (.serving roomId isCreator) sent
            (.sharePeerContacts clientContact peerContact))
      | some .closed => some ⟨state, .ended, []⟩
      | _ => none
  | _ => none

end Handler

/-! ## All the connections -/

structure Server (Conn : Type) where
  state : State
  handlers : Conn → Handler

inductive ServerEvent (Conn : Type) where
  | receive (conn : Conn) (peerAddr : Option SocketAddr)
      (input : Except SerializationError ClientMessage) (draws : List (Fin 1048576)) (sent : Bool)
  | proceed (conn : Conn) (sent : Bool)
  | resolve (conn : Conn) (sent : Bool)
  | roomTimeout (place : Nat)

/-- The connection of the handler that makes the step. -/
def ServerEvent.conn {Conn : Type} : ServerEvent Conn → Option Conn
  | .receive conn _ _ _ _ => some conn
  | .proceed conn _ => some conn
  | .resolve conn _ => some conn
  | .roomTimeout _ => none

namespace Server

variable {Conn : Type} [DecidableEq Conn]

/-- The rooms are empty, and every connection that there will be waits for its first
message. -/
def initial : Server Conn := ⟨.empty, fun _ => .starting⟩

def take (server : Server Conn) (conn : Conn) (turn : Turn) : Server Conn × List ServerMessage :=
  (⟨turn.state, Function.update server.handlers conn turn.handler⟩, turn.written)

/-- A step of the server, and what the handler that made it has written. -/
def respond (server : Server Conn) : ServerEvent Conn → Option (Server Conn × List ServerMessage)
  | .receive conn peerAddr input draws sent =>
      ((server.handlers conn).receive server.state peerAddr input draws sent).map
        (server.take conn)
  | .proceed conn sent => ((server.handlers conn).proceed server.state sent).map (server.take conn)
  | .resolve conn sent => ((server.handlers conn).resolve server.state sent).map (server.take conn)
  | .roomTimeout place =>
      (server.state.roomTimeout place).map fun next => ({ server with state := next }, [])

end Server

/-! ## A turn is at most one call -/

theorem reply_state (state : State) (next : Handler) (sent : Bool) (message : ServerMessage) :
    (reply state next sent message).state = state := by
  unfold reply
  split
  · rfl
  · split <;> rfl

/-- A reply leads on or ends the handler, and writes nothing but the message. -/
theorem reply_cases (state : State) (next : Handler) (sent : Bool) (message : ServerMessage) :
    reply state next sent message = ⟨state, next, [message]⟩ ∨
      reply state next sent message = ⟨state, .ended, []⟩ := by
  unfold reply
  split
  · exact Or.inr rfl
  · split
    · exact Or.inl rfl
    · exact Or.inr rfl

theorem reply_fits (state : State) (next : Handler) (message : ServerMessage)
    (fits : message.Fits) : reply state next true message = ⟨state, next, [message]⟩ := by
  have short := (serverMessage_fits_iff message).mpr fits
  rw [reply, Messenger.writeMsg_fits .ofServer serverMessage message short (by decide)]
  rfl

/-- No call, or one that no timer makes. -/
def AtMostOneCall (state next : State) : Prop :=
  next = state ∨ ∃ call, (∀ place, call ≠ .roomTimeout place) ∧ state.step call = some next

namespace Handler

theorem start_calls (state : State) (input : Except SerializationError ClientMessage)
    (draws : List (Fin 1048576)) (sent : Bool) (turn : Turn)
    (run : start state input draws sent = some turn) : AtMostOneCall state turn.state := by
  unfold start at run
  split at run
  · obtain ⟨⟨roomId, next⟩, created, same⟩ := Option.bind_eq_some_iff.mp run
    cases Option.some.inj same
    rw [reply_state]
    exact Or.inr ⟨_, fun _ => Call.noConfusion, createRoom_step created⟩
  · split at run
    · cases Option.some.inj run
      exact Or.inl (reply_state ..)
    · cases Option.some.inj run
      exact Or.inl (reply_state ..)
  · cases Option.some.inj run
    exact Or.inl (reply_state ..)
  · cases Option.some.inj run
    exact Or.inl (reply_state ..)

theorem handleMessage_calls (state : State) (roomId : RoomId) (isCreator : Bool)
    (peerAddr : Option SocketAddr) (input : Except SerializationError ClientMessage)
    (sent : Bool) :
    AtMostOneCall state (handleMessage state roomId isCreator peerAddr input sent).state := by
  unfold handleMessage
  split
  · split
    · exact Or.inl rfl
    · split
      · exact Or.inl (reply_state ..)
      · next next updated =>
          right
          refine ⟨_, fun _ => Call.noConfusion, updateClient_step updated |>.trans ?_⟩
          split <;> rfl
  · split
    · exact Or.inl (reply_state ..)
    · next receiver next done =>
        exact Or.inr ⟨_, fun _ => Call.noConfusion, setClientDone_step done⟩
  · exact Or.inl (reply_state ..)
  · exact Or.inl (reply_state ..)

/-- A message is read by a handler that waits for its first one, or that serves a room. -/
theorem receive_cases {state : State} {handler : Handler} {peerAddr : Option SocketAddr}
    {input : Except SerializationError ClientMessage} {draws : List (Fin 1048576)}
    {sent : Bool} {turn : Turn}
    (run : handler.receive state peerAddr input draws sent = some turn) :
    handler = .starting ∧ start state input draws sent = some turn ∨
      ∃ roomId isCreator, handler = .serving roomId isCreator ∧
        handleMessage state roomId isCreator peerAddr input sent = turn := by
  cases handler with
  | starting => exact Or.inl ⟨rfl, run⟩
  | serving roomId isCreator => exact Or.inr ⟨roomId, isCreator, rfl, Option.some.inj run⟩
  | updating roomId isCreator addr => exact absurd run (Option.some_ne_none turn).symm
  | waiting roomId isCreator receiver => exact absurd run (Option.some_ne_none turn).symm
  | ended => exact absurd run (Option.some_ne_none turn).symm

theorem proceed_cases {state : State} {handler : Handler} {sent : Bool} {turn : Turn}
    (run : handler.proceed state sent = some turn) :
    ∃ roomId isCreator addr, handler = .updating roomId isCreator addr ∧
      (state.updateClient roomId isCreator addr false = none ∧
          turn = reply state .ended sent .errorNoSuchRoomId ∨
        ∃ next, state.updateClient roomId isCreator addr false = some next ∧
          turn = ⟨next, .serving roomId isCreator, []⟩) := by
  unfold proceed at run
  split at run
  · next roomId isCreator addr =>
      refine ⟨roomId, isCreator, addr, rfl, ?_⟩
      split at run
      · next missed => exact Or.inl ⟨missed, (Option.some.inj run).symm⟩
      · next next updated => exact Or.inr ⟨next, updated, (Option.some.inj run).symm⟩
  · exact absurd run (Option.some_ne_none turn).symm

theorem resolve_cases {state : State} {handler : Handler} {sent : Bool} {turn : Turn}
    (run : handler.resolve state sent = some turn) :
    ∃ roomId isCreator receiver, handler = .waiting roomId isCreator receiver ∧
      ((∃ clientContact peerContact,
          status state.channels receiver = some (.sent (clientContact, peerContact)) ∧
            turn = reply state (.serving roomId isCreator) sent
              (.sharePeerContacts clientContact peerContact)) ∨
        status state.channels receiver = some .closed ∧ turn = ⟨state, .ended, []⟩) := by
  unfold resolve at run
  split at run
  · next roomId isCreator receiver =>
      refine ⟨roomId, isCreator, receiver, rfl, ?_⟩
      split at run
      · next clientContact peerContact contacts =>
          exact Or.inl ⟨clientContact, peerContact, contacts, (Option.some.inj run).symm⟩
      · next closed => exact Or.inr ⟨closed, (Option.some.inj run).symm⟩
      · exact absurd run (Option.some_ne_none turn).symm
  · exact absurd run (Option.some_ne_none turn).symm

theorem receive_calls (state : State) (handler : Handler) (peerAddr : Option SocketAddr)
    (input : Except SerializationError ClientMessage) (draws : List (Fin 1048576))
    (sent : Bool) (turn : Turn)
    (run : handler.receive state peerAddr input draws sent = some turn) :
    AtMostOneCall state turn.state := by
  rcases receive_cases run with ⟨_, started⟩ | ⟨roomId, isCreator, _, rfl⟩
  · exact start_calls state input draws sent turn started
  · exact handleMessage_calls state roomId isCreator peerAddr input sent

theorem proceed_calls (state : State) (handler : Handler) (sent : Bool) (turn : Turn)
    (run : handler.proceed state sent = some turn) : AtMostOneCall state turn.state := by
  obtain ⟨roomId, isCreator, addr, _, ⟨_, rfl⟩ | ⟨next, updated, rfl⟩⟩ := proceed_cases run
  · exact Or.inl (reply_state ..)
  · exact Or.inr ⟨_, fun _ => Call.noConfusion, updateClient_step updated⟩

theorem resolve_calls (state : State) (handler : Handler) (sent : Bool) (turn : Turn)
    (run : handler.resolve state sent = some turn) : turn.state = state := by
  obtain ⟨_, _, _, _, ⟨_, _, _, rfl⟩ | ⟨_, rfl⟩⟩ := resolve_cases run
  · exact reply_state ..
  · rfl

end Handler

/-- A step of the server is a turn of one handler, or the end of a room's time. -/
theorem Server.respond_calls {Conn : Type} [DecidableEq Conn] {server next : Server Conn}
    {written : List ServerMessage} (event : ServerEvent Conn)
    (run : server.respond event = some (next, written)) :
    (∃ conn turn, event.conn = some conn ∧ AtMostOneCall server.state turn.state ∧
        server.take conn turn = (next, written)) ∨
      ∃ place state, event = .roomTimeout place ∧ server.state.roomTimeout place = some state ∧
        next = { server with state := state } := by
  cases event with
  | receive conn peerAddr input draws sent =>
      obtain ⟨turn, received, same⟩ := Option.map_eq_some_iff.mp run
      exact Or.inl ⟨conn, turn, rfl, Handler.receive_calls _ _ _ _ _ _ turn received, same⟩
  | proceed conn sent =>
      obtain ⟨turn, proceeded, same⟩ := Option.map_eq_some_iff.mp run
      exact Or.inl ⟨conn, turn, rfl, Handler.proceed_calls _ _ _ turn proceeded, same⟩
  | resolve conn sent =>
      obtain ⟨turn, resolved, same⟩ := Option.map_eq_some_iff.mp run
      exact Or.inl ⟨conn, turn, rfl, Or.inl (Handler.resolve_calls _ _ _ turn resolved), same⟩
  | roomTimeout place =>
      obtain ⟨state, timedOut, same⟩ := Option.map_eq_some_iff.mp run
      cases same
      exact Or.inr ⟨place, state, rfl, timedOut, rfl⟩

end Gday.HolePunch
