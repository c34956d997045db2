import Gday.HolePunch.Messenger
import Gday.HolePunch.GlobalState

/-! # Which messages fit

Both sides make a messenger of 68 bytes, which leaves 64 for a message.  Every message
but one is far shorter; the contacts of two clients fit only while their addresses take
55 bytes, and any contacts can come about. -/
set_option autoImplicit false
namespace Gday.HolePunch

open Gday.Lib.Machine Gday.Lib.Postcard

/-- The client's messages always arrive, and the server's where they fit. -/
theorem messages_carried_iff (toServer : ClientMessage) (toClient : ServerMessage) :
    Messenger.ofClient.Carries .ofServer clientMessage toServer toServer.zeroed ∧
      (Messenger.ofServer.Carries .ofClient serverMessage toClient toClient.zeroed ↔
        toClient.Fits) := by
  constructor
  · have carried := Messenger.carries_iff .ofClient .ofServer clientMessage toServer
      (by decide) (by decide)
    have short := clientMessage_length_le toServer
    rw [clientMessage_kept] at carried
    apply carried.mpr
    apply short.trans
    decide
  · have carried := Messenger.carries_iff .ofServer .ofClient serverMessage toClient
      (by decide) (by decide)
    rw [serverMessage_kept] at carried
    exact carried.trans (serverMessage_fits_iff toClient)

/-! ## Every contact can come about -/

/-- The endpoints of a contact, each with whether it is a public one. -/
def FullContact.endpoints (contact : FullContact) : List (SocketAddr × Bool) :=
  let of := fun (side : Contact) (public_ : Bool) =>
    (side.v6.toList.map fun addr => (SocketAddr.v6 addr, public_)) ++
      side.v4.toList.map fun addr => (SocketAddr.v4 addr, public_)
  of contact.private_ false ++ of contact.public_ true

def FullContact.insertAll (contact : FullContact) (endpoints : List (SocketAddr × Bool)) :
    FullContact :=
  endpoints.foldl (fun sum endpoint => sum.insert endpoint.1 endpoint.2) contact

theorem FullContact.insertAll_endpoints (contact : FullContact) :
    FullContact.default.insertAll contact.endpoints = contact := by
  obtain ⟨⟨privateV6, privateV4⟩, ⟨publicV6, publicV4⟩⟩ := contact
  cases privateV6 <;> cases privateV4 <;> cases publicV6 <;> cases publicV4 <;> rfl

def updates (roomId : RoomId) (isCreator : Bool) (endpoints : List (SocketAddr × Bool)) :
    List Call :=
  endpoints.map fun endpoint => .updateClient roomId isCreator endpoint.1 endpoint.2

/-- A run of `update_client` inserts one endpoint after the other. -/
theorem State.run_updates (endpoints : List (SocketAddr × Bool)) (state : State)
    (roomId : RoomId) (isCreator : Bool) (room : Room) (found : state.rooms roomId = some room) :
    ∃ after last, state.run (updates roomId isCreator endpoints) = some after ∧
      after.rooms roomId = some last ∧
      (last.getClient isCreator).contact =
        (room.getClient isCreator).contact.insertAll endpoints ∧
      last.getClient (!isCreator) = room.getClient (!isCreator) := by
  induction endpoints generalizing state room with
  | nil => exact ⟨state, room, rfl, found, rfl, rfl⟩
  | cons endpoint rest ih =>
      obtain ⟨addr, public_⟩ := endpoint
      have updated := State.updateClient_found found isCreator addr public_
      obtain ⟨after, last, run, there, own, other⟩ := ih _ _ (State.put_rooms_self state roomId
        (some (room.modifyClient isCreator fun client =>
          { client with contact := client.contact.insert addr public_ })))
      refine ⟨after, last, ?_, there, ?_, ?_⟩
      · rw [updates, List.map_cons, State.run, runInputs, updateClient_step updated]
        exact run
      · rw [own, Room.getClient_modifyClient_self]
        rfl
      · rw [other, Room.getClient_modifyClient_other]

/-- Any two contacts are those of a room. -/
theorem State.contacts_produced (creator joiner : FullContact) :
    ∃ endpoints state room, State.empty.run (.createRoom [7] :: endpoints) = some state ∧
      (∀ call ∈ endpoints, ∃ isCreator addr public_,
        call = .updateClient 7 isCreator addr public_) ∧
      state.rooms 7 = some room ∧ room.creator.contact = creator ∧
        room.joiner.contact = joiner := by
  have created := State.createRoom_free State.empty 7 rfl
  have fresh : (State.empty.withRoom 7).rooms 7 = some .default :=
    State.put_rooms_self State.empty 7 _
  obtain ⟨middle, half, firstRun, halfThere, halfOwn, halfOther⟩ :=
    State.run_updates creator.endpoints _ 7 true .default fresh
  obtain ⟨state, room, secondRun, there, own, other⟩ :=
    State.run_updates joiner.endpoints middle 7 false half halfThere
  refine ⟨updates 7 true creator.endpoints ++ updates 7 false joiner.endpoints, state, room,
    ?_, ?_, there, ?_, ?_⟩
  · have stepped : State.empty.step (.createRoom [7]) = some (State.empty.withRoom 7) :=
      createRoom_step created
    unfold State.run at firstRun secondRun ⊢
    rw [runInputs, stepped]
    simp only [Option.bind_eq_bind, Option.bind_some]
    rw [runInputs_append, firstRun]
    exact secondRun
  · intro call member
    rcases List.mem_append.mp member with member | member <;>
      obtain ⟨endpoint, _, rfl⟩ := List.mem_map.mp member
    · exact ⟨true, endpoint.1, endpoint.2, rfl⟩
    · exact ⟨false, endpoint.1, endpoint.2, rfl⟩
  · have sameCreator : room.creator = half.creator := other
    have contact : half.creator.contact = FullContact.default.insertAll creator.endpoints :=
      halfOwn
    rw [sameCreator, contact, FullContact.insertAll_endpoints]
  · have sameJoiner : half.joiner = Client.default := halfOther
    have contact : room.joiner.contact = half.joiner.contact.insertAll joiner.endpoints := own
    rw [contact, sameJoiner]
    exact FullContact.insertAll_endpoints joiner

/-- A client that is reached over IPv6 only, on a port above 16383. -/
def addressV6 : SocketAddrV6 := ⟨⟨List.replicate 16 32, rfl⟩, 49152, 0, 0⟩

def contactV6 : FullContact := ⟨⟨some addressV6, none⟩, ⟨some addressV6, none⟩⟩

/-- Two clients on IPv6 cannot be told each other's contacts. -/
theorem contacts_v6_not_carried :
    (∃ endpoints state room, State.empty.run (.createRoom [7] :: endpoints) = some state ∧
      (∀ call ∈ endpoints, ∃ isCreator addr public_,
        call = .updateClient 7 isCreator addr public_) ∧
      state.rooms 7 = some room ∧ room.creator.contact = contactV6 ∧
        room.joiner.contact = contactV6) ∧
    Messenger.ofServer.writeMsg serverMessage (.sharePeerContacts contactV6 contactV6) =
      .error (.postcard .serializeBufferFull) := by
  refine ⟨State.contacts_produced contactV6 contactV6, Messenger.writeMsg_full _ _ _ ?_⟩
  rw [sharePeerContacts_length]
  decide

end Gday.HolePunch
