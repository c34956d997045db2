import Gday.HolePunch.ConnectionHandler
import Gday.HolePunch.RoomTimers

/-! # Runs of the server

What a step of the server can do, by the connection that makes it and what that
connection's handler holds on to. -/
set_option autoImplicit false
namespace Gday.HolePunch

open Gday.Lib.Machine Gday.Lib.OneShot

theorem AtMostOneCall.quiet {before after : State} (calls : AtMostOneCall before after)
    (quiet : before.Quiet) : after.Quiet := by
  rcases calls with rfl | ⟨call, _, run⟩
  · exact quiet
  · exact quiet.step call run

/-! ## What one turn of a handler can do -/

/-- The room with one more endpoint of a client. -/
def Room.withEndpoint (room : Room) (isCreator : Bool) (endpoint : SocketAddr)
    (public_ : Bool) : Room :=
  room.modifyClient isCreator fun client =>
    { client with contact := client.contact.insert endpoint public_ }

namespace Server

variable {Conn : Type} [DecidableEq Conn]

def step (server : Server Conn) (event : ServerEvent Conn) : Option (Server Conn) :=
  (server.respond event).map Prod.fst

def run (events : List (ServerEvent Conn)) (server : Server Conn) : Option (Server Conn) :=
  runInputs step events server

/-- The handler of a connection goes on, with the rooms as it leaves them. -/
def moved (server : Server Conn) (conn : Conn) (state : State) (handler : Handler) :
    Server Conn :=
  ⟨state, Function.update server.handlers conn handler⟩

theorem moved_self (server : Server Conn) (conn : Conn) (state : State) (handler : Handler) :
    (server.moved conn state handler).handlers conn = handler :=
  Function.update_self ..

theorem moved_other (server : Server Conn) (conn other : Conn) (state : State)
    (handler : Handler) (different : other ≠ conn) :
    (server.moved conn state handler).handlers other = server.handlers other :=
  Function.update_of_ne different ..

/-- The event makes no room, and the room that it asks for is not there. -/
def Misses (server : Server Conn) : ServerEvent Conn → Prop
  | .receive conn _ (.ok .createRoom) _ _ => server.handlers conn ≠ .starting
  | .receive conn (some _) (.ok (.sendPrivateAddr _)) _ _ => ∀ roomId isCreator,
      server.handlers conn = .serving roomId isCreator → server.state.rooms roomId = none
  | .receive conn _ (.ok .doneSending) _ _ => ∀ roomId isCreator,
      server.handlers conn = .serving roomId isCreator → server.state.rooms roomId = none
  | .proceed conn _ => ∀ roomId isCreator addr,
      server.handlers conn = .updating roomId isCreator addr → server.state.rooms roomId = none
  | _ => True

/-- A step in a quiet state. -/
inductive StepCase (server : Server Conn) : ServerEvent Conn → Server Conn → Prop where
  | ended (event : ServerEvent Conn) (conn : Conn) (its : event.conn = some conn)
      (misses : server.Misses event) :
      StepCase server event (server.moved conn server.state .ended)
  | created (conn : Conn) (peerAddr : Option SocketAddr) (draws : List (Fin 1048576))
      (sent : Bool) (roomId : RoomId) (handler : Handler)
      (starting : server.handlers conn = .starting)
      (drawn : drawRoomId server.state.rooms draws = some roomId)
      (goesOn : handler = .serving roomId true ∨ handler = .ended) :
      StepCase server (.receive conn peerAddr (.ok .createRoom) draws sent)
        (server.moved conn (server.state.withRoom roomId) handler)
  | joined (conn : Conn) (peerAddr : Option SocketAddr) (draws : List (Fin 1048576))
      (roomId : RoomId) (starting : server.handlers conn = .starting)
      (there : (server.state.rooms roomId).isSome) :
      StepCase server (.receive conn peerAddr (.ok (.joinRoom roomId)) draws true)
        (server.moved conn server.state (.serving roomId false))
  | updatedPublic (conn : Conn) (peer : SocketAddr) (privateAddr : Option SocketAddr)
      (draws : List (Fin 1048576)) (sent : Bool) (roomId : RoomId) (isCreator : Bool)
      (room : Room) (handler : Handler)
      (serving : server.handlers conn = .serving roomId isCreator)
      (found : server.state.rooms roomId = some room)
      (goesOn : handler = .serving roomId isCreator ∨
        ∃ addr, handler = .updating roomId isCreator addr) :
      StepCase server (.receive conn (some peer) (.ok (.sendPrivateAddr privateAddr)) draws sent)
        (server.moved conn
          (server.state.put roomId (some (room.withEndpoint isCreator peer true))) handler)
  | updatedPrivate (conn : Conn) (sent : Bool) (roomId : RoomId) (isCreator : Bool)
      (addr : SocketAddr) (room : Room)
      (updating : server.handlers conn = .updating roomId isCreator addr)
      (found : server.state.rooms roomId = some room) :
      StepCase server (.proceed conn sent)
        (server.moved conn
          (server.state.put roomId (some (room.withEndpoint isCreator addr false)))
          (.serving roomId isCreator))
  | isDone (conn : Conn) (peerAddr : Option SocketAddr) (draws : List (Fin 1048576))
      (sent : Bool) (roomId : RoomId) (isCreator : Bool) (room : Room)
      (serving : server.handlers conn = .serving roomId isCreator)
      (found : server.state.rooms roomId = some room) :
      StepCase server (.receive conn peerAddr (.ok .doneSending) draws sent)
        (server.moved conn
          { server.state with channels := server.state.channels ++ [.closed] }
          (.waiting roomId isCreator server.state.channels.length))
  | timedOut (place : Nat) (roomId : RoomId)
      (timer : server.state.timers[place]? = some roomId) :
      StepCase server (.roomTimeout place) ⟨{ server.state.put roomId none with
        timers := server.state.timers.eraseIdx place }, server.handlers⟩

theorem StepCase.of_reply {server : Server Conn} {event : ServerEvent Conn} {conn : Conn}
    (its : event.conn = some conn) (misses : server.Misses event) (sent : Bool)
    (message : ServerMessage) :
    server.StepCase event (server.take conn (reply server.state .ended sent message)).1 := by
  rcases reply_cases server.state .ended sent message with same | same
  · rw [same]
    exact .ended event conn its misses
  · rw [same]
    exact .ended event conn its misses

omit [DecidableEq Conn] in
/-- Nothing but `CreateRoom` makes a room for a handler that starts. -/
theorem misses_of_starting {server : Server Conn} {conn : Conn}
    (starting : server.handlers conn = .starting) (peerAddr : Option SocketAddr)
    (message : ClientMessage) (draws : List (Fin 1048576)) (sent : Bool)
    (other : message ≠ .createRoom) :
    server.Misses (.receive conn peerAddr (.ok message) draws sent) := by
  have notServing : ∀ roomId isCreator, server.handlers conn = .serving roomId isCreator →
      server.state.rooms roomId = none := by
    intro roomId isCreator serving
    rw [starting] at serving
    exact absurd serving Handler.noConfusion
  cases message with
  | createRoom => exact absurd rfl other
  | joinRoom roomId => trivial
  | sendPrivateAddr privateAddr =>
      cases peerAddr with
      | none => trivial
      | some peer => exact notServing
  | doneSending => exact notServing

omit [DecidableEq Conn] in
theorem missing_of_serving {server : Server Conn} {conn : Conn} {roomId : RoomId}
    {isCreator : Bool} (serving : server.handlers conn = .serving roomId isCreator)
    (missing : server.state.rooms roomId = none) (other : RoomId) (role : Bool)
    (its : server.handlers conn = .serving other role) : server.state.rooms other = none := by
  rw [serving] at its
  cases its
  exact missing

theorem start_cases (server : Server Conn) (conn : Conn) (peerAddr : Option SocketAddr)
    (input : Except SerializationError ClientMessage) (draws : List (Fin 1048576)) (sent : Bool)
    (turn : Turn) (starting : server.handlers conn = .starting)
    (run : Handler.start server.state input draws sent = some turn) :
    server.StepCase (.receive conn peerAddr input draws sent) (server.take conn turn).1 := by
  unfold Handler.start at run
  split at run
  · obtain ⟨⟨roomId, next⟩, createRun, same⟩ := Option.bind_eq_some_iff.mp run
    cases Option.some.inj same
    obtain ⟨drawn, isDrawn, made⟩ := Option.bind_eq_some_iff.mp createRun
    cases Option.some.inj made
    rcases reply_cases (server.state.withRoom roomId) (.serving roomId true) sent
      (.roomCreated roomId) with same | same
    · rw [same]
      exact .created conn peerAddr draws sent roomId _ starting isDrawn (Or.inl rfl)
    · rw [same]
      exact .created conn peerAddr draws sent roomId _ starting isDrawn (Or.inr rfl)
  · next roomId =>
      split at run
      · next there =>
          cases Option.some.inj run
          cases sent with
          | true =>
              rw [reply_fits server.state (.serving roomId false) .roomJoined trivial]
              exact .joined conn peerAddr draws roomId starting there
          | false =>
              have unsent : reply server.state (.serving roomId false) false .roomJoined =
                  ⟨server.state, .ended, []⟩ := by
                unfold reply
                split <;> rfl
              rw [unsent]
              exact .ended _ conn rfl trivial
      · cases Option.some.inj run
        exact .of_reply rfl (by trivial) sent _
  · next message notCreate _ =>
      cases Option.some.inj run
      exact .of_reply rfl (misses_of_starting starting peerAddr message draws sent notCreate) sent _
  · cases Option.some.inj run
    exact .of_reply rfl (by trivial) sent _

theorem handleMessage_cases (server : Server Conn) (quiet : server.state.Quiet) (conn : Conn)
    (roomId : RoomId) (isCreator : Bool) (peerAddr : Option SocketAddr)
    (input : Except SerializationError ClientMessage) (draws : List (Fin 1048576)) (sent : Bool)
    (serving : server.handlers conn = .serving roomId isCreator) :
    server.StepCase (.receive conn peerAddr input draws sent)
      (server.take conn
        (Handler.handleMessage server.state roomId isCreator peerAddr input sent)).1 := by
  unfold Handler.handleMessage
  split
  · next privateAddr =>
      cases peerAddr with
      | none => exact .ended _ conn rfl trivial
      | some peer =>
          cases found : server.state.rooms roomId with
          | none =>
              have missed : server.state.updateClient roomId isCreator peer true = none := by
                rw [State.updateClient, found]
                rfl
              simp only [missed]
              exact .of_reply rfl (by exact missing_of_serving serving found) sent _
          | some room =>
              simp only [State.updateClient_found found]
              cases privateAddr with
              | none =>
                  exact .updatedPublic conn peer none draws sent roomId isCreator room _ serving
                    found (Or.inl rfl)
              | some addr =>
                  exact .updatedPublic conn peer (some addr) draws sent roomId isCreator room _
                    serving found (Or.inr ⟨addr, rfl⟩)
  · rw [quiet.setClientDone]
    cases found : server.state.rooms roomId with
    | none => exact .of_reply rfl (by exact missing_of_serving serving found) sent _
    | some room => exact .isDone conn peerAddr draws sent roomId isCreator room serving found
  · next message notAddr notDone =>
      apply StepCase.of_reply rfl _ sent _
      cases message with
      | createRoom =>
          show server.handlers conn ≠ .starting
          rw [serving]
          exact Handler.noConfusion
      | joinRoom roomId => trivial
      | sendPrivateAddr privateAddr => exact absurd rfl (notAddr privateAddr)
      | doneSending => exact absurd rfl notDone
  · exact .of_reply rfl (by trivial) sent _

theorem proceed_cases (server : Server Conn) (conn : Conn) (sent : Bool) (turn : Turn)
    (run : (server.handlers conn).proceed server.state sent = some turn) :
    server.StepCase (.proceed conn sent) (server.take conn turn).1 := by
  obtain ⟨roomId, isCreator, addr, handlerIs, outcome⟩ := Handler.proceed_cases run
  cases found : server.state.rooms roomId with
  | none =>
      have missed : server.state.updateClient roomId isCreator addr false = none := by
        rw [State.updateClient, found]
        rfl
      rcases outcome with ⟨_, rfl⟩ | ⟨next, updated, _⟩
      · apply StepCase.of_reply rfl _ sent _
        intro other role itsAddr its
        rw [handlerIs] at its
        cases its
        exact found
      · rw [missed] at updated
        exact absurd updated (Option.some_ne_none next).symm
  | some room =>
      have stored := State.updateClient_found found isCreator addr false
      rcases outcome with ⟨missed, _⟩ | ⟨next, updated, rfl⟩
      · rw [stored] at missed
        exact absurd missed (Option.some_ne_none _)
      · cases Option.some.inj (updated.symm.trans stored)
        exact .updatedPrivate conn sent roomId isCreator addr room handlerIs found

theorem resolve_cases (server : Server Conn) (quiet : server.state.Quiet) (conn : Conn)
    (sent : Bool) (turn : Turn)
    (run : (server.handlers conn).resolve server.state sent = some turn) :
    server.StepCase (.resolve conn sent) (server.take conn turn).1 := by
  obtain ⟨_, _, receiver, _, ⟨_, _, contacts, _⟩ | ⟨_, rfl⟩⟩ := Handler.resolve_cases run
  · exact absurd contacts (quiet.noContacts receiver _)
  · exact .ended _ conn rfl trivial

theorem respond_cases {server next : Server Conn} (quiet : server.state.Quiet)
    (event : ServerEvent Conn) (run : server.step event = some next) :
    server.StepCase event next := by
  obtain ⟨⟨after, written⟩, responded, rfl⟩ := Option.map_eq_some_iff.mp run
  cases event with
  | receive conn peerAddr input draws sent =>
      obtain ⟨turn, received, same⟩ := Option.map_eq_some_iff.mp responded
      cases same
      rcases Handler.receive_cases received with ⟨starting, started⟩ | ⟨_, _, serving, rfl⟩
      · exact server.start_cases conn peerAddr input draws sent turn starting started
      · exact server.handleMessage_cases quiet conn _ _ peerAddr input draws sent serving
  | proceed conn sent =>
      obtain ⟨turn, proceeded, same⟩ := Option.map_eq_some_iff.mp responded
      cases same
      exact server.proceed_cases conn sent turn proceeded
  | resolve conn sent =>
      obtain ⟨turn, resolved, same⟩ := Option.map_eq_some_iff.mp responded
      cases same
      exact server.resolve_cases quiet conn sent turn resolved
  | roomTimeout place =>
      obtain ⟨removed, timeoutRun, same⟩ := Option.map_eq_some_iff.mp responded
      cases same
      obtain ⟨roomId, timer, gone⟩ := Option.bind_eq_some_iff.mp timeoutRun
      cases Option.some.inj gone
      rw [quiet.removeRoom_eq]
      exact .timedOut place roomId timer

/-! ## Quiet servers -/

theorem step_quiet {server next : Server Conn} (quiet : server.state.Quiet)
    (event : ServerEvent Conn) (run : server.step event = some next) : next.state.Quiet := by
  obtain ⟨⟨after, written⟩, responded, rfl⟩ := Option.map_eq_some_iff.mp run
  rcases respond_calls event responded with
    ⟨conn, turn, _, calls, same⟩ | ⟨place, state, _, timedOut, rfl⟩
  · cases same
    exact calls.quiet quiet
  · exact quiet.step _ (roomTimeout_step timedOut)

theorem run_quiet {server final : Server Conn} (quiet : server.state.Quiet)
    (events : List (ServerEvent Conn)) (run : server.run events = some final) :
    final.state.Quiet :=
  runInputs_invariant step (fun server => server.state.Quiet)
    (fun _ event _ quiet => step_quiet quiet event) events server final quiet run

end Server

end Gday.HolePunch
