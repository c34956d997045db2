import Gday.HolePunch.GlobalState

/-! # Exchanging contacts

`set_client_done` stores a sender and takes it out again at once, so that the sender is
dropped before anyone waits: in every state that is reached no room stores a sender, and
every call returns a receiver that is closed already. -/
set_option autoImplicit false
namespace Gday.HolePunch

open Gday.Lib.Machine Gday.Lib.OneShot

/-- No sender is stored, and no receiver has got contacts. -/
structure State.Quiet (state : State) : Prop where
  noSender : ∀ roomId room, state.rooms roomId = some room →
    ∀ isCreator, (room.getClient isCreator).sender = none
  noContacts : ∀ name info, status state.channels name ≠ some (.sent info)

namespace State

theorem empty_quiet : empty.Quiet := by
  constructor
  · intro roomId room found
    exact absurd found (Option.some_ne_none room).symm
  · intro name info sent
    exact absurd sent (Option.some_ne_none _).symm

theorem Quiet.put {state : State} (quiet : state.Quiet) (roomId : RoomId) (room : Option Room)
    (noSender : ∀ inside, room = some inside →
      ∀ isCreator, (inside.getClient isCreator).sender = none) : (state.put roomId room).Quiet := by
  refine ⟨?_, quiet.noContacts⟩
  intro other inside found
  rcases put_rooms_cases found with ⟨_, same⟩ | ⟨_, before⟩
  · exact noSender inside same
  · exact quiet.noSender other inside before

/-- What every call of `set_client_done` does: it leaves a closed channel behind and changes
nothing else. -/
theorem Quiet.setClientDone {state : State} (quiet : state.Quiet) (roomId : RoomId)
    (isCreator : Bool) : state.setClientDone roomId isCreator =
      (state.rooms roomId).map fun _ =>
        (state.channels.length, { state with channels := state.channels ++ [.closed] }) := by
  cases found : state.rooms roomId with
  | none => simp [State.setClientDone, found]
  | some room =>
      have own := quiet.noSender roomId room found isCreator
      have peer := quiet.noSender roomId room found (!isCreator)
      have stored : ((room.setSender isCreator (some state.channels.length)).getClient
          isCreator).sender = some state.channels.length := by
        rw [Room.setSender, Room.getClient_modifyClient_self]
      have back : (room.setSender isCreator (some state.channels.length)).setSender isCreator none =
          room := by
        have restored := room.setSender_getClient isCreator
        rw [own] at restored
        rw [Room.setSender_setSender, restored]
      have unchanged : state.put roomId (some room) = state := by
        rw [← found, put_same]
      have channels := dropSender_new state.channels
      simp only [State.setClientDone, found, Option.bind_eq_bind, Option.bind_some,
        own, dropStored] at channels ⊢
      simp only [channel] at channels ⊢
      simp only [stored, back, peer, channels, unchanged]
      rfl

/-! ## What one call can do -/

theorem drawRoomId_free (rooms : RoomId → Option Room) (draws : List (Fin 1048576))
    (roomId : RoomId) (drawn : drawRoomId rooms draws = some roomId) : rooms roomId = none := by
  induction draws with
  | nil => exact absurd drawn (Option.some_ne_none roomId).symm
  | cons draw rest ih =>
      rw [drawRoomId] at drawn
      by_cases taken : (rooms (UInt32.ofNat draw.val)).isSome = true
      · exact ih (by simpa only [taken, if_true] using drawn)
      · simp only [if_neg taken, Option.some.injEq] at drawn
        rw [← drawn]
        exact Option.not_isSome_iff_eq_none.mp taken

/-- The answer to a call and the state behind it, in a quiet state. -/
inductive StepCase (state : State) : Call → Answer → State → Prop where
  | created (draws : List (Fin 1048576)) (roomId : RoomId)
      (drawn : drawRoomId state.rooms draws = some roomId) (free : state.rooms roomId = none) :
      StepCase state (.createRoom draws) (.roomId roomId) (state.withRoom roomId)
  | updated (roomId : RoomId) (isCreator : Bool) (endpoint : SocketAddr) (public_ : Bool)
      (room : Room) (found : state.rooms roomId = some room) :
      StepCase state (.updateClient roomId isCreator endpoint public_) .done
        (state.put roomId (some (room.modifyClient isCreator fun client =>
          { client with contact := client.contact.insert endpoint public_ })))
  | updateMissed (roomId : RoomId) (isCreator : Bool) (endpoint : SocketAddr) (public_ : Bool)
      (missing : state.rooms roomId = none) :
      StepCase state (.updateClient roomId isCreator endpoint public_) .noSuchRoomId state
  | isDone (roomId : RoomId) (isCreator : Bool) (room : Room)
      (found : state.rooms roomId = some room) :
      StepCase state (.setClientDone roomId isCreator) (.receiver state.channels.length)
        { state with channels := state.channels ++ [.closed] }
  | doneMissed (roomId : RoomId) (isCreator : Bool) (missing : state.rooms roomId = none) :
      StepCase state (.setClientDone roomId isCreator) .noSuchRoomId state
  | timedOut (place : Nat) (roomId : RoomId) (timer : state.timers[place]? = some roomId) :
      StepCase state (.roomTimeout place) .done
        { state.put roomId none with timers := state.timers.eraseIdx place }

theorem Quiet.removeRoom_eq {state : State} (quiet : state.Quiet) (roomId : RoomId) :
    state.removeRoom roomId = state.put roomId none := by
  cases found : state.rooms roomId with
  | none =>
      have same := state.put_same roomId
      rw [found] at same
      rw [State.removeRoom, found, same]
  | some room =>
      have creator : room.creator.sender = none := quiet.noSender roomId room found true
      have joiner : room.joiner.sender = none := quiet.noSender roomId room found false
      simp only [State.removeRoom, found, creator, joiner, dropStored]
      rfl

theorem Quiet.respond_cases {state next : State} {answer : Answer} (quiet : state.Quiet)
    (call : Call) (run : state.respond call = some (answer, next)) :
    state.StepCase call answer next := by
  cases call with
  | createRoom draws =>
      obtain ⟨⟨roomId, created⟩, createRun, same⟩ := Option.bind_eq_some_iff.mp run
      cases Option.some.inj same
      obtain ⟨drawn, isDrawn, made⟩ := Option.bind_eq_some_iff.mp createRun
      cases Option.some.inj made
      exact .created draws roomId isDrawn (drawRoomId_free _ _ _ isDrawn)
  | updateClient roomId isCreator endpoint public_ =>
      rw [respond] at run
      cases found : state.rooms roomId with
      | none =>
          have missed : state.updateClient roomId isCreator endpoint public_ = none := by
            rw [State.updateClient, found]
            rfl
          rw [missed] at run
          cases Option.some.inj run
          exact .updateMissed roomId isCreator endpoint public_ found
      | some room =>
          rw [updateClient_found found] at run
          cases Option.some.inj run
          exact .updated roomId isCreator endpoint public_ room found
  | setClientDone roomId isCreator =>
      rw [respond, quiet.setClientDone roomId isCreator] at run
      cases found : state.rooms roomId with
      | none =>
          rw [found] at run
          cases Option.some.inj run
          exact .doneMissed roomId isCreator found
      | some room =>
          rw [found] at run
          cases Option.some.inj run
          exact .isDone roomId isCreator room found
  | roomTimeout place =>
      obtain ⟨removed, timeoutRun, same⟩ := Option.bind_eq_some_iff.mp run
      cases Option.some.inj same
      obtain ⟨roomId, timer, gone⟩ := Option.bind_eq_some_iff.mp timeoutRun
      cases Option.some.inj gone
      rw [quiet.removeRoom_eq]
      exact .timedOut place roomId timer

/-! ## Quiet runs -/

theorem Quiet.updated {state : State} (quiet : state.Quiet) {roomId : RoomId} {room : Room}
    (found : state.rooms roomId = some room) (isCreator : Bool) (endpoint : SocketAddr)
    (public_ : Bool) : (state.put roomId (some (room.modifyClient isCreator fun client =>
      { client with contact := client.contact.insert endpoint public_ }))).Quiet := by
  refine quiet.put roomId _ ?_
  intro inside same role
  cases Option.some.inj same
  have before := quiet.noSender roomId room found
  by_cases own : role = isCreator
  · subst own
    rw [Room.getClient_modifyClient_self]
    exact before role
  · have other : role = !isCreator := Bool.eq_not_of_ne own
    rw [other, Room.getClient_modifyClient_other]
    exact before _

theorem status_snoc_closed (channels : Channels (FullContact × FullContact)) (name : Nat)
    (info : FullContact × FullContact) (quiet : status channels name ≠ some (.sent info)) :
    status (channels ++ [.closed]) name ≠ some (.sent info) := by
  unfold status at quiet ⊢
  rw [List.getElem?_append]
  split
  · exact quiet
  · intro sent
    have member := List.mem_of_getElem? sent
    rw [List.mem_singleton] at member
    exact absurd member nofun

/-- One step keeps everything quiet. -/
theorem Quiet.step {state next : State} (quiet : state.Quiet) (call : Call)
    (run : state.step call = some next) : next.Quiet := by
  obtain ⟨⟨answer, after⟩, responded, rfl⟩ := Option.map_eq_some_iff.mp run
  cases quiet.respond_cases call responded with
  | created draws roomId drawn free =>
      have placed := quiet.put roomId (some .default) (by
        intro inside same isCreator
        cases Option.some.inj same
        cases isCreator <;> rfl)
      exact ⟨placed.noSender, placed.noContacts⟩
  | updated roomId isCreator endpoint public_ room found =>
      exact quiet.updated found isCreator endpoint public_
  | updateMissed roomId isCreator endpoint public_ missing => exact quiet
  | isDone roomId isCreator room found =>
      exact ⟨quiet.noSender,
        fun name info => status_snoc_closed _ name info (quiet.noContacts name info)⟩
  | doneMissed roomId isCreator missing => exact quiet
  | timedOut place roomId timer =>
      have without := quiet.put roomId none fun inside same =>
        absurd same (Option.some_ne_none inside).symm
      exact ⟨without.noSender, without.noContacts⟩

theorem Quiet.respond {state next : State} {call : Call} {answer : Answer} (quiet : state.Quiet)
    (run : state.respond call = some (answer, next)) : next.Quiet :=
  quiet.step call (step_of_respond run)

theorem Quiet.run {state final : State} (quiet : state.Quiet) (calls : List Call)
    (run : state.run calls = some final) : final.Quiet :=
  runInputs_invariant State.step State.Quiet (fun _ call _ quiet => quiet.step call) calls state
    final quiet run

/-- The receiver of every call is closed when it is returned. -/
theorem Quiet.receiver_closed {state next : State} (quiet : state.Quiet) (roomId : RoomId)
    (isCreator : Bool) (name : Nat)
    (run : state.setClientDone roomId isCreator = some (name, next)) :
    status next.channels name = some .closed := by
  rw [quiet.setClientDone] at run
  obtain ⟨room, _, same⟩ := Option.map_eq_some_iff.mp run
  cases same
  simp [status]

end State

/-! ## What an exchange should be -/

/-- Two calls of `set_client_done` on one room, from both roles, with the room there all
the time and no other such call on it in between. -/
structure TwoDone (calls : List Call) where
  before : List Call
  between : List Call
  after : List Call
  roomId : RoomId
  isCreator : Bool
  split : calls = before ++ .setClientDone roomId isCreator :: between ++
    .setClientDone roomId (!isCreator) :: after
  atFirst : State
  reached : State.empty.run before = some atFirst
  rx1 : Nat
  afterFirst : State
  first : atFirst.setClientDone roomId isCreator = some (rx1, afterFirst)
  atSecond : State
  continued : afterFirst.run between = some atSecond
  stays : ∀ start, start <+: between → ∀ state, afterFirst.run start = some state →
    (state.rooms roomId).isSome
  alone : ∀ role, .setClientDone roomId role ∉ between
  room : Room
  stored : atSecond.rooms roomId = some room
  rx2 : Nat
  afterSecond : State
  second : atSecond.setClientDone roomId (!isCreator) = some (rx2, afterSecond)

/-- The first receiver waits for the second call, which gives both the contacts and removes
the room. -/
structure TwoDone.Completes {calls : List Call} (two : TwoDone calls) : Prop where
  waits : ∀ start, start <+: two.between → ∀ state, two.afterFirst.run start = some state →
    status state.channels two.rx1 = some .pending
  first : status two.afterSecond.channels two.rx1 = some (.sent
    ((two.room.getClient two.isCreator).contact, (two.room.getClient (!two.isCreator)).contact))
  second : status two.afterSecond.channels two.rx2 = some (.sent
    ((two.room.getClient (!two.isCreator)).contact, (two.room.getClient two.isCreator).contact))
  removed : two.afterSecond.rooms two.roomId = none

/-- A receiver with contacts was returned for a room whose roles have both called. -/
def NoEarlyContacts (calls : List Call) : Prop :=
  ∀ start, start <+: calls → ∀ state, State.empty.run start = some state →
    ∀ name info, status state.channels name = some (.sent info) →
      ∃ roomId isCreator before after atCall next,
        start = before ++ .setClientDone roomId isCreator :: after ∧
          State.empty.run before = some atCall ∧
          atCall.setClientDone roomId isCreator = some (name, next) ∧
          .setClientDone roomId (!isCreator) ∈ start

def Exchanges (calls : List Call) : Prop :=
  (∀ two : TwoDone calls, two.Completes) ∧ NoEarlyContacts calls

theorem State.noEarlyContacts (calls : List Call) : NoEarlyContacts calls := by
  intro start _ state reached name info sent
  exact absurd sent ((empty_quiet.run start reached).noContacts name info)

theorem TwoDone.not_completes {calls : List Call} (two : TwoDone calls) : ¬ two.Completes := by
  intro completes
  have pending := completes.waits [] List.nil_prefix two.afterFirst rfl
  have quiet := State.empty_quiet.run two.before two.reached
  rw [quiet.receiver_closed two.roomId two.isCreator two.rx1 two.first] at pending
  exact absurd pending nofun

/-- The exchange works in exactly the runs in which it is never tried. -/
theorem exchanges_iff (calls : List Call) : Exchanges calls ↔ IsEmpty (TwoDone calls) := by
  constructor
  · intro exchanges
    exact ⟨fun two => two.not_completes (exchanges.1 two)⟩
  · intro none
    exact ⟨fun two => none.elim two, State.noEarlyContacts calls⟩

/-- A creator and a joiner that are both done, and nothing else. -/
theorem exchange_fails :
    ¬ Exchanges [.createRoom [7], .setClientDone 7 true, .setClientDone 7 false] := by
  intro exchanges
  have created := State.createRoom_free State.empty 7 rfl
  have reached : State.empty.run [.createRoom [7]] = some (State.empty.withRoom 7) := by
    simp only [State.run, runInputs, createRoom_step created]
    rfl
  have quiet := State.empty_quiet.run _ reached
  have stored : (State.empty.withRoom 7).rooms 7 = some .default :=
    State.put_rooms_self State.empty 7 _
  have first := quiet.setClientDone 7 true
  rw [stored] at first
  generalize State.empty.withRoom 7 = atFirst at reached quiet stored first
  have second := (quiet.step _ (setClientDone_step first)).setClientDone 7 false
  rw [stored] at second
  have two : TwoDone [.createRoom [7], .setClientDone 7 true, .setClientDone 7 false] :=
    { before := [.createRoom [7]]
      between := []
      after := []
      roomId := 7
      isCreator := true
      split := rfl
      atFirst := atFirst
      reached := reached
      rx1 := _
      afterFirst := _
      first := first
      atSecond := _
      continued := rfl
      stays := by
        intro start isStart state same
        rw [List.prefix_nil.mp isStart] at same
        cases Option.some.inj same
        rw [stored]
        rfl
      alone := fun _ member => absurd member List.not_mem_nil
      room := .default
      stored := stored
      rx2 := _
      afterSecond := _
      second := second }
  exact two.not_completes (exchanges.1 two)

end Gday.HolePunch
