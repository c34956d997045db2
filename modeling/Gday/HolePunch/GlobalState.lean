import Gday.HolePunch.Messages
import Gday.Lib.Machine
import Gday.Lib.OneShot

/-! # The rooms of the server

`State` as a value that every call takes and returns: a call holds the lock on the rooms
from its first look to its last write.  Timers are tasks that hold nothing but the id of
a room. -/
set_option autoImplicit false
namespace Gday.HolePunch

open Gday.Lib.Machine Gday.Lib.OneShot

abbrev RoomId := UInt32

/-- `sender` names the channel that the client's connection waits on. -/
structure Client where
  contact : FullContact
  sender : Option Nat
  deriving DecidableEq

def Client.default : Client := ⟨.default, none⟩

structure Room where
  creator : Client
  joiner : Client
  deriving DecidableEq

namespace Room

def default : Room := ⟨.default, .default⟩

def getClient (room : Room) (isCreator : Bool) : Client :=
  if isCreator then room.creator else room.joiner

/-- A change through `get_client_mut`. -/
def modifyClient (room : Room) (isCreator : Bool) (change : Client → Client) : Room :=
  if isCreator then { room with creator := change room.creator }
  else { room with joiner := change room.joiner }

def setSender (room : Room) (isCreator : Bool) (sender : Option Nat) : Room :=
  room.modifyClient isCreator fun client => { client with sender := sender }

@[simp] theorem getClient_modifyClient_self (room : Room) (isCreator : Bool)
    (change : Client → Client) :
    (room.modifyClient isCreator change).getClient isCreator =
      change (room.getClient isCreator) := by
  cases isCreator <;> rfl

@[simp] theorem getClient_modifyClient_other (room : Room) (isCreator : Bool)
    (change : Client → Client) :
    (room.modifyClient isCreator change).getClient (!isCreator) =
      room.getClient (!isCreator) := by
  cases isCreator <;> rfl

theorem setSender_setSender (room : Room) (isCreator : Bool) (first second : Option Nat) :
    (room.setSender isCreator first).setSender isCreator second =
      room.setSender isCreator second := by
  cases isCreator <;> rfl

theorem setSender_getClient (room : Room) (isCreator : Bool) :
    room.setSender isCreator (room.getClient isCreator).sender = room := by
  cases isCreator <;> rfl

end Room

structure State where
  rooms : RoomId → Option Room
  channels : Channels (FullContact × FullContact)
  timers : List RoomId

/-- One endpoint, in the slot of its kind. -/
def Contact.insert (contact : Contact) : SocketAddr → Contact
  | .v6 addr => { contact with v6 := some addr }
  | .v4 addr => { contact with v4 := some addr }

def FullContact.insert (contact : FullContact) (endpoint : SocketAddr) (public_ : Bool) :
    FullContact :=
  if public_ then { contact with public_ := contact.public_.insert endpoint }
  else { contact with private_ := contact.private_.insert endpoint }

/-- The loop of `create_room`: none where all the draws are taken. -/
def drawRoomId (rooms : RoomId → Option Room) : List (Fin 1048576) → Option RoomId
  | [] => none
  | draw :: rest =>
      let roomId := UInt32.ofNat draw.val
      if (rooms roomId).isSome then drawRoomId rooms rest else some roomId

namespace State

def empty : State := ⟨fun _ => none, [], []⟩

def put (state : State) (roomId : RoomId) (room : Option Room) : State :=
  { state with rooms := Function.update state.rooms roomId room }

@[simp] theorem put_rooms_self (state : State) (roomId : RoomId) (room : Option Room) :
    (state.put roomId room).rooms roomId = room :=
  Function.update_self ..

theorem put_rooms_other (state : State) (roomId other : RoomId) (room : Option Room)
    (different : other ≠ roomId) : (state.put roomId room).rooms other = state.rooms other :=
  Function.update_of_ne different ..

/-- A room that is there now is the one that was put there, or was there before. -/
theorem put_rooms_cases {state : State} {roomId other : RoomId} {changed : Option Room}
    {room : Room} (found : (state.put roomId changed).rooms other = some room) :
    other = roomId ∧ changed = some room ∨ other ≠ roomId ∧ state.rooms other = some room := by
  by_cases same : other = roomId
  · subst same
    exact Or.inl ⟨rfl, (put_rooms_self ..).symm.trans found⟩
  · exact Or.inr ⟨same, (put_rooms_other _ _ _ _ same).symm.trans found⟩

@[simp] theorem put_channels (state : State) (roomId : RoomId) (room : Option Room) :
    (state.put roomId room).channels = state.channels := rfl

theorem put_same (state : State) (roomId : RoomId) :
    state.put roomId (state.rooms roomId) = state := by
  unfold put
  rw [Function.update_eq_self]

/-- A new room and the timer that is started for it. -/
def withRoom (state : State) (roomId : RoomId) : State :=
  { state.put roomId (some .default) with timers := state.timers ++ [roomId] }

def createRoom (state : State) (draws : List (Fin 1048576)) : Option (RoomId × State) := do
  let roomId ← drawRoomId state.rooms draws
  return (roomId, state.withRoom roomId)

theorem createRoom_free (state : State) (draw : Fin 1048576)
    (free : state.rooms (UInt32.ofNat draw.val) = none) :
    state.createRoom [draw] =
      some (UInt32.ofNat draw.val, state.withRoom (UInt32.ofNat draw.val)) := by
  simp [createRoom, drawRoomId, free]

def roomExists (state : State) (roomId : RoomId) : Bool := (state.rooms roomId).isSome

/-- None is `NoSuchRoomId`. -/
def updateClient (state : State) (roomId : RoomId) (isCreator : Bool) (endpoint : SocketAddr)
    (public_ : Bool) : Option State := do
  let room ← state.rooms roomId
  return state.put roomId (some (room.modifyClient isCreator fun client =>
    { client with contact := client.contact.insert endpoint public_ }))

theorem updateClient_found {state : State} {roomId : RoomId} {room : Room}
    (found : state.rooms roomId = some room) (isCreator : Bool) (endpoint : SocketAddr)
    (public_ : Bool) : state.updateClient roomId isCreator endpoint public_ =
      some (state.put roomId (some (room.modifyClient isCreator fun client =>
        { client with contact := client.contact.insert endpoint public_ }))) := by
  rw [updateClient, found]
  rfl

/-- The receiver that is returned, by its name; none is `NoSuchRoomId`. -/
def setClientDone (state : State) (roomId : RoomId) (isCreator : Bool) :
    Option (Nat × State) := do
  let room ← state.rooms roomId
  let (tx, channels) := channel state.channels
  -- the assignment drops the sender that was stored before
  let channels := dropStored channels (room.getClient isCreator).sender
  let room := room.setSender isCreator (some tx)
  let clientInfo := (room.getClient isCreator).contact
  let peerInfo := (room.getClient (!isCreator)).contact
  match (room.getClient isCreator).sender with
  | none => return (tx, { state.put roomId (some room) with channels := channels })
  | some clientSender =>
      let room := room.setSender isCreator none
      match (room.getClient (!isCreator)).sender with
      | none =>
          -- `client_sender` goes out of scope unused
          return (tx, { state.put roomId (some room) with
            channels := dropSender channels clientSender })
      | some peerSender =>
          let channels := send channels clientSender (clientInfo, peerInfo)
          let channels := send channels peerSender (peerInfo, clientInfo)
          return (tx, { state.put roomId none with channels := channels })

/-- `rooms.remove`, which drops what the room stores. -/
def removeRoom (state : State) (roomId : RoomId) : State :=
  match state.rooms roomId with
  | none => state
  | some room =>
      { state.put roomId none with
        channels := dropStored (dropStored state.channels room.creator.sender) room.joiner.sender }

/-- The task of the timer at this place ends. -/
def roomTimeout (state : State) (place : Nat) : Option State := do
  let roomId ← state.timers[place]?
  return { state.removeRoom roomId with timers := state.timers.eraseIdx place }

end State

/-! ## Runs -/

inductive Call where
  | createRoom (draws : List (Fin 1048576))
  | updateClient (roomId : RoomId) (isCreator : Bool) (endpoint : SocketAddr) (public_ : Bool)
  | setClientDone (roomId : RoomId) (isCreator : Bool)
  | roomTimeout (place : Nat)
  deriving DecidableEq

inductive Answer where
  | roomId (roomId : RoomId)
  | done
  | receiver (name : Nat)
  | noSuchRoomId
  deriving DecidableEq

/-- None where the call does not return (`create_room` finds no free id) or does not
happen (there is no such timer). -/
def State.respond (state : State) : Call → Option (Answer × State)
  | .createRoom draws => do
      let (roomId, next) ← state.createRoom draws
      return (.roomId roomId, next)
  | .updateClient roomId isCreator endpoint public_ =>
      match state.updateClient roomId isCreator endpoint public_ with
      | none => some (.noSuchRoomId, state)
      | some next => some (.done, next)
  | .setClientDone roomId isCreator =>
      match state.setClientDone roomId isCreator with
      | none => some (.noSuchRoomId, state)
      | some (name, next) => some (.receiver name, next)
  | .roomTimeout place => do
      let next ← state.roomTimeout place
      return (.done, next)

def State.step (state : State) (call : Call) : Option State :=
  (state.respond call).map Prod.snd

theorem State.step_of_respond {state next : State} {call : Call} {answer : Answer}
    (run : state.respond call = some (answer, next)) : state.step call = some next := by
  rw [State.step, run]
  rfl

theorem updateClient_step {state next : State} {roomId : RoomId} {isCreator public_ : Bool}
    {endpoint : SocketAddr}
    (run : state.updateClient roomId isCreator endpoint public_ = some next) :
    state.step (.updateClient roomId isCreator endpoint public_) = some next := by
  apply State.step_of_respond
  rw [State.respond, run]

theorem setClientDone_step {state next : State} {roomId : RoomId} {isCreator : Bool}
    {receiver : Nat} (run : state.setClientDone roomId isCreator = some (receiver, next)) :
    state.step (.setClientDone roomId isCreator) = some next := by
  apply State.step_of_respond
  rw [State.respond, run]

theorem createRoom_step {state next : State} {draws : List (Fin 1048576)} {roomId : RoomId}
    (run : state.createRoom draws = some (roomId, next)) :
    state.step (.createRoom draws) = some next := by
  apply State.step_of_respond
  rw [State.respond, run]
  rfl

theorem roomTimeout_step {state next : State} {place : Nat}
    (run : state.roomTimeout place = some next) : state.step (.roomTimeout place) = some next := by
  apply State.step_of_respond
  rw [State.respond, run]
  rfl

def State.run (calls : List Call) (state : State) : Option State :=
  runInputs State.step calls state

end Gday.HolePunch
