import Gday.HolePunch.ConnectionHandler
import Gday.HolePunch.Slots

/-! # A client that registers

`ContactSharer::create_room` or `join_room` and then `get_peer_connector`, against one
handler for each of the client's connections.  Whatever the other connections send is up
to them.  Messages on one connection stay in order; nothing orders the connections. -/
set_option autoImplicit false
namespace Gday.HolePunch

/-- A connection to the server: its address at the client's end and the one the server
sees. -/
structure Link where
  localAddr : SocketAddr
  peerAddr : SocketAddr
  deriving DecidableEq

/-- What `ServerConnection::new` accepts: at least one connection, each of the family it
stands for.  It looks at the local address; that the server sees the client at an address of the
same family is an assumption about connections. -/
structure ServerConnection where
  v6 : Option Link
  v4 : Option Link
  provided : v6.isSome ∨ v4.isSome
  familyV6 : ∀ link, v6 = some link → link.localAddr.family = .v6 ∧ link.peerAddr.family = .v6
  familyV4 : ∀ link, v4 = some link → link.localAddr.family = .v4 ∧ link.peerAddr.family = .v4

namespace ServerConnection

def link (connection : ServerConnection) : Family → Option Link
  | .v6 => connection.v6
  | .v4 => connection.v4

def getAnyMessenger (connection : ServerConnection) : Family :=
  if connection.v6.isSome then .v6 else .v4

def getAllMessengers (connection : ServerConnection) : List Family :=
  (if connection.v6.isSome then [.v6] else []) ++ (if connection.v4.isSome then [.v4] else [])

theorem family_of_link (connection : ServerConnection) (family : Family) (link : Link)
    (held : connection.link family = some link) :
    link.localAddr.family = family ∧ link.peerAddr.family = family := by
  cases family with
  | v6 => exact connection.familyV6 link held
  | v4 => exact connection.familyV4 link held

end ServerConnection

/-- `create_room` or `join_room`. -/
inductive Goal where
  | create
  | join (roomId : RoomId)
  deriving DecidableEq

def Goal.message : Goal → ClientMessage
  | .create => .createRoom
  | .join roomId => .joinRoom roomId

/-- Whether the server's reply lets the client go on. -/
def Goal.accepts : Goal → ServerMessage → Bool
  | .create, .roomCreated _ => true
  | .join _, .roomJoined => true
  | _, _ => false

/-- Where the client is: the connections in `left` have not been sent their private address
yet, and `returned` says whether it returned `Ok`. -/
inductive Phase where
  | opening
  | awaitingRoom
  | sharing (left : List Family)
  | awaitingContacts
  | returned (ok : Bool)
  deriving DecidableEq

/-- The client's own connections, and all the others. -/
abbrev Conn := Family ⊕ Nat

/-- The server, the client and what is on the way between them.  `answered` has all that the
handlers of the client's connections wrote, and `doneWith` what was stored for the client
each time the server executed `set_client_done` for it. -/
structure Registration where
  server : Server Conn
  phase : Phase
  toServer : Family → List ClientMessage
  toClient : Family → List ServerMessage
  answered : List ServerMessage
  doneWith : List (Option FullContact)

inductive RegistrationEvent where
  | client
  | receive (family : Family) (draws : List (Fin 1048576)) (sent : Bool)
  | proceed (family : Family) (sent : Bool)
  | resolve (family : Family) (sent : Bool)
  | other (event : ServerEvent Nat)

def ServerEvent.map {Conn Other : Type} (name : Conn → Other) : ServerEvent Conn → ServerEvent Other
  | .receive conn peerAddr input draws sent => .receive (name conn) peerAddr input draws sent
  | .proceed conn sent => .proceed (name conn) sent
  | .resolve conn sent => .resolve (name conn) sent
  | .roomTimeout place => .roomTimeout place

namespace Registration

def initial : Registration :=
  { server := .initial
    phase := .opening
    toServer := fun _ => []
    toClient := fun _ => []
    answered := []
    doneWith := [] }

def write (registration : Registration) (family : Family) (message : ClientMessage) :
    Registration :=
  { registration with
    toServer := Function.update registration.toServer family
      (registration.toServer family ++ [message]) }

/-- The next message from the server, an error where its handler has ended, and none while
there is nothing to read. -/
def read (registration : Registration) (family : Family) :
    Option (Option ServerMessage × Registration) :=
  match registration.toClient family with
  | message :: rest => some (some message,
      { registration with toClient := Function.update registration.toClient family rest })
  | [] =>
      if registration.server.handlers (.inl family) = .ended then some (none, registration)
      else none

/-- The client up to its next await on the network. -/
def clientStep (connection : ServerConnection) (goal : Goal) (registration : Registration) :
    Option Registration :=
  match registration.phase with
  | .opening =>
      some { registration.write connection.getAnyMessenger goal.message with
        phase := .awaitingRoom }
  | .awaitingRoom => do
      let (response, next) ← registration.read connection.getAnyMessenger
      if response.any goal.accepts then
        return { next with phase := .sharing connection.getAllMessengers }
      else return { next with phase := .returned false }
  | .sharing (family :: left) => do
      let link ← connection.link family
      return { registration.write family (.sendPrivateAddr (some link.localAddr)) with
        phase := .sharing left }
  | .sharing [] => do
      let family ← connection.getAllMessengers.head?
      return { registration.write family .doneSending with phase := .awaitingContacts }
  | .awaitingContacts => do
      let family ← connection.getAllMessengers.head?
      let (response, next) ← registration.read family
      match response with
      | some (.sharePeerContacts _ _) => return { next with phase := .returned true }
      | _ => return { next with phase := .returned false }
  | .returned _ => none

/-- A step of the server on one of the client's connections. -/
def serverStep (registration : Registration) (family : Family) (event : ServerEvent Conn) :
    Option Registration := do
  let (server, written) ← registration.server.respond event
  return { registration with
    server := server
    toClient := Function.update registration.toClient family
      (registration.toClient family ++ written)
    answered := registration.answered ++ written }

/-- What a handler that gets `DoneSending` finds stored for its client. -/
def contactAtDone (registration : Registration) (family : Family) (message : ClientMessage) :
    List (Option FullContact) :=
  match registration.server.handlers (.inl family), message with
  | .serving roomId isCreator, .doneSending =>
      [(registration.server.state.rooms roomId).map fun room =>
        (room.getClient isCreator).contact]
  | _, _ => []

/-- The next message reaches the handler; once the client has returned and dropped its
connections, the end of the stream follows the last one. -/
def receiveStep (connection : ServerConnection) (registration : Registration)
    (family : Family) (draws : List (Fin 1048576)) (sent : Bool) : Option Registration := do
  let link ← connection.link family
  match registration.toServer family, registration.phase with
  | message :: rest, _ =>
      let next ← registration.serverStep family
        (.receive (.inl family) (some link.peerAddr) (.ok message) draws sent)
      return { next with
        toServer := Function.update registration.toServer family rest
        doneWith := registration.doneWith ++ registration.contactAtDone family message }
  | [], .returned _ =>
      registration.serverStep family
        (.receive (.inl family) (some link.peerAddr) (.error .io) draws sent)
  | [], _ => none

def step (connection : ServerConnection) (goal : Goal) (registration : Registration) :
    RegistrationEvent → Option Registration
  | .client => clientStep connection goal registration
  | .receive family draws sent => receiveStep connection registration family draws sent
  | .proceed family sent => registration.serverStep family (.proceed (.inl family) sent)
  | .resolve family sent => registration.serverStep family (.resolve (.inl family) sent)
  | .other event => do
      let (server, _) ← registration.server.respond (event.map .inr)
      return { registration with server := server }

/-- The client's room does not time out. -/
def Permitted (registration : Registration) : RegistrationEvent → Prop
  | .other (.roomTimeout place) => ∀ family roomId isCreator,
      (registration.server.handlers (.inl family)).bound = some (roomId, isCreator) →
        registration.server.state.timers[place]? ≠ some roomId
  | _ => True

end Registration

/-- A private and a public address for every family that the client is connected with. -/
def ServerConnection.Covered (connection : ServerConnection) (contact : Option FullContact) :
    Prop :=
  ∃ stored, contact = some stored ∧ ∀ family, (connection.link family).isSome →
    stored.has false family = true ∧ stored.has true family = true

/-- What the client and the server should agree on, in every run. -/
def Agree (connection : ServerConnection) (goal : Goal) : Prop :=
  ∀ events final, Lib.Machine.RunsWithin (Registration.step connection goal)
    Registration.Permitted .initial events final →
      .syntaxError ∉ final.answered ∧
        ∀ contact ∈ final.doneWith, connection.Covered contact

end Gday.HolePunch
