import Gday.HolePunch.ServerRuns

/-! # Connections whose room is gone

A handler names its room by nothing but the id.  What it sends after the room was removed
is refused for as long as nobody else is given that id. -/
set_option autoImplicit false
namespace Gday.HolePunch

open Gday.Lib.Machine Gday.Lib.OneShot

/-- The room and the role of a handler that can still call for them: one at `rx.await` never
goes on, see `Server.resolve_cases`. -/
def Handler.serves : Handler → Option (RoomId × Bool)
  | .serving roomId isCreator => some (roomId, isCreator)
  | .updating roomId isCreator _ => some (roomId, isCreator)
  | .starting => none
  | .waiting _ _ _ => none
  | .ended => none

/-- `SendPrivateAddr`, its second update, or `DoneSending` on this connection. -/
inductive ServerEvent.Requests {Conn : Type} (conn : Conn) : ServerEvent Conn → Prop where
  | sendPrivateAddr (peerAddr privateAddr : Option SocketAddr) (draws : List (Fin 1048576))
      (sent : Bool) : Requests conn
        (.receive conn peerAddr (.ok (.sendPrivateAddr privateAddr)) draws sent)
  | doneSending (peerAddr : Option SocketAddr) (draws : List (Fin 1048576)) (sent : Bool) :
      Requests conn (.receive conn peerAddr (.ok .doneSending) draws sent)
  | proceed (sent : Bool) : Requests conn (.proceed conn sent)

/-- The socket works: it still has its address, and takes what is written. -/
def ServerEvent.Works {Conn : Type} : ServerEvent Conn → Prop
  | .receive _ peerAddr _ _ sent => peerAddr.isSome ∧ sent = true
  | .proceed _ sent => sent = true
  | .resolve _ sent => sent = true
  | .roomTimeout _ => True

theorem Handler.serves_cases {handler : Handler} {roomId : RoomId} {isCreator : Bool}
    (serves : handler.serves = some (roomId, isCreator)) :
    handler = .serving roomId isCreator ∨ ∃ addr, handler = .updating roomId isCreator addr := by
  cases handler with
  | serving _ _ =>
      cases Option.some.inj serves
      exact Or.inl rfl
  | updating _ _ addr =>
      cases Option.some.inj serves
      exact Or.inr ⟨addr, rfl⟩
  | starting => exact absurd serves (Option.some_ne_none _).symm
  | waiting _ _ _ => exact absurd serves (Option.some_ne_none _).symm
  | ended => exact absurd serves (Option.some_ne_none _).symm

theorem Handler.bound_of_serves (handler : Handler) (roomId : RoomId) (isCreator : Bool)
    (serves : handler.serves = some (roomId, isCreator)) :
    handler.bound = some (roomId, isCreator) := by
  rcases Handler.serves_cases serves with rfl | ⟨addr, rfl⟩
  · rfl
  · rfl

namespace Server

variable {Conn : Type} [DecidableEq Conn]

/-- Whatever is asked for on the connection next changes nothing and gets
`ErrorNoSuchRoomID`. -/
def Refuses (server : Server Conn) (conn : Conn) : Prop :=
  ∀ event, event.Requests conn → ∀ next written, server.respond event = some (next, written) →
    next.state = server.state ∧ (event.Works → written = [.errorNoSuchRoomId])

/-- Once the room of a connection was removed, everything it asks for is refused. -/
def StaleRefused (events : List (ServerEvent Conn)) : Prop :=
  ∀ before after, before ++ after <+: events → ∀ atRemoval later : Server Conn,
    initial.run before = some atRemoval → atRemoval.run after = some later →
      ∀ conn roomId isCreator,
        (atRemoval.handlers conn).bound = some (roomId, isCreator) →
        atRemoval.state.rooms roomId = none → later.Refuses conn

/-- The step is no `create_room` that draws an id which a handler still serves. -/
def DrawsFresh (server : Server Conn) : ServerEvent Conn → Prop
  | .receive conn _ (.ok .createRoom) draws _ => server.handlers conn = .starting →
      ∀ roomId, drawRoomId server.state.rooms draws = some roomId →
        ∀ other isCreator, (server.handlers other).serves ≠ some (roomId, isCreator)
  | _ => True

/-- Every step of the run draws fresh ids. -/
def AllFresh (events : List (ServerEvent Conn)) : Prop :=
  ∀ before event, before ++ [event] <+: events → ∀ server : Server Conn,
    initial.run before = some server → server.DrawsFresh event

/-! ## Fresh ids are enough -/

/-- The connection had its first message, and the room it serves is not there. -/
structure Stale (conn : Conn) (server : Server Conn) : Prop where
  quiet : server.state.Quiet
  started : server.handlers conn ≠ .starting
  gone : ∀ roomId isCreator, (server.handlers conn).serves = some (roomId, isCreator) →
    server.state.rooms roomId = none

omit [DecidableEq Conn] in
theorem Stale.missed {server : Server Conn} {conn : Conn} (stale : Stale conn server)
    {roomId : RoomId} {isCreator : Bool}
    (serves : (server.handlers conn).serves = some (roomId, isCreator)) (endpoint : SocketAddr)
    (public_ : Bool) : server.state.updateClient roomId isCreator endpoint public_ = none := by
  rw [State.updateClient, stale.gone roomId isCreator serves]
  rfl

/-- A reply of `ErrorNoSuchRoomID` is a refusal. -/
theorem refused {server next : Server Conn} {conn : Conn} {written : List ServerMessage}
    (sent : Bool) (same : server.take conn
      (reply server.state .ended sent .errorNoSuchRoomId) = (next, written)) :
    next.state = server.state ∧ (sent = true → written = [.errorNoSuchRoomId]) := by
  cases same
  constructor
  · exact reply_state ..
  · intro taken
    rw [taken, reply_fits server.state .ended .errorNoSuchRoomId trivial]

theorem Stale.refuses {server : Server Conn} {conn : Conn} (stale : Stale conn server) :
    server.Refuses conn := by
  intro event requests next written run
  cases requests with
  | sendPrivateAddr peerAddr privateAddr draws sent =>
      obtain ⟨turn, received, same⟩ := Option.map_eq_some_iff.mp run
      rcases Handler.receive_cases received with
        ⟨starting, _⟩ | ⟨roomId, isCreator, serving, rfl⟩
      · exact absurd starting stale.started
      · cases peerAddr with
        | none =>
            cases same
            exact ⟨rfl, fun works => absurd works.1 Bool.false_ne_true⟩
        | some peer =>
            have missed := stale.missed (congrArg Handler.serves serving) peer true
            simp only [Handler.handleMessage, missed] at same
            exact ⟨(refused sent same).1, fun works => (refused sent same).2 works.2⟩
  | doneSending peerAddr draws sent =>
      obtain ⟨turn, received, same⟩ := Option.map_eq_some_iff.mp run
      rcases Handler.receive_cases received with
        ⟨starting, _⟩ | ⟨roomId, isCreator, serving, rfl⟩
      · exact absurd starting stale.started
      · have gone := stale.gone roomId isCreator (congrArg Handler.serves serving)
        simp only [Handler.handleMessage, stale.quiet.setClientDone, gone, Option.map_none] at same
        exact ⟨(refused sent same).1, fun works => (refused sent same).2 works.2⟩
  | proceed sent =>
      obtain ⟨turn, proceeded, same⟩ := Option.map_eq_some_iff.mp run
      obtain ⟨roomId, isCreator, addr, updating, ⟨_, rfl⟩ | ⟨after, updated, _⟩⟩ :=
        Handler.proceed_cases proceeded
      · exact refused sent same
      · rw [stale.missed (congrArg Handler.serves updating) addr false] at updated
        exact absurd updated (Option.some_ne_none after).symm

omit [DecidableEq Conn] in
/-- A connection that is bound to a room that is not there is stale. -/
theorem stale_of_bound {server : Server Conn} {conn : Conn} (quiet : server.state.Quiet)
    {roomId : RoomId} {isCreator : Bool}
    (bound : (server.handlers conn).bound = some (roomId, isCreator))
    (gone : server.state.rooms roomId = none) : Stale conn server where
  quiet := quiet
  started starting := by
    rw [starting] at bound
    exact absurd bound (Option.some_ne_none _).symm
  gone other role serves := by
    have same := (Handler.bound_of_serves _ other role serves).symm.trans bound
    cases Option.some.inj same
    exact gone

/-- A handler goes on: that of the connection itself, which serves no room then, or another. -/
theorem Stale.moved {server : Server Conn} {conn : Conn} (stale : Stale conn server)
    (mover : Conn) (state : State) (handler : Handler)
    (own : mover = conn → handler ≠ .starting ∧ handler.serves = none)
    (gone : ∀ roomId isCreator, (server.handlers conn).serves = some (roomId, isCreator) →
      state.rooms roomId = none)
    (quiet : state.Quiet) : Stale conn (server.moved mover state handler) := by
  by_cases same : mover = conn
  · subst same
    refine ⟨quiet, ?_, ?_⟩
    · rw [moved_self]
      exact (own rfl).1
    · intro roomId isCreator serves
      rw [moved_self, (own rfl).2] at serves
      exact absurd serves (Option.some_ne_none _).symm
  · have kept := server.moved_other mover conn state handler (Ne.symm same)
    refine ⟨quiet, ?_, ?_⟩
    · rw [kept]
      exact stale.started
    · intro roomId isCreator serves
      rw [kept] at serves
      exact gone roomId isCreator serves

omit [DecidableEq Conn] in
/-- A room that is there is not served. -/
theorem Stale.notServed {server : Server Conn} {conn : Conn} (stale : Stale conn server)
    {roomId : RoomId} {room : Room} (found : server.state.rooms roomId = some room)
    (isCreator : Bool) : (server.handlers conn).serves ≠ some (roomId, isCreator) := by
  intro serves
  rw [stale.gone roomId isCreator serves] at found
  exact absurd found (Option.some_ne_none room).symm

omit [DecidableEq Conn] in
/-- A change to a room that is not served leaves the served one away. -/
theorem Stale.elsewhere {server : Server Conn} {conn : Conn} (stale : Stale conn server)
    {roomId : RoomId} (unserved : ∀ isCreator,
      (server.handlers conn).serves ≠ some (roomId, isCreator))
    (changed : Option Room) (other : RoomId) (isCreator : Bool)
    (serves : (server.handlers conn).serves = some (other, isCreator)) :
    (server.state.put roomId changed).rooms other = none := by
  have different : other ≠ roomId := by
    intro same
    subst same
    exact unserved isCreator serves
  exact (State.put_rooms_other _ _ _ _ different).trans (stale.gone other isCreator serves)

/-- The step lemma: with fresh ids only, a stale connection stays one. -/
theorem Stale.step {server next : Server Conn} {conn : Conn} (stale : Stale conn server)
    (event : ServerEvent Conn) (fresh : server.DrawsFresh event)
    (run : server.step event = some next) : Stale conn next := by
  have quiet := step_quiet stale.quiet event run
  cases respond_cases stale.quiet event run with
  | ended _ mover its misses =>
      exact stale.moved mover server.state .ended (fun _ => ⟨Handler.noConfusion, rfl⟩)
        stale.gone quiet
  | created mover peerAddr draws sent roomId handler starting drawn goesOn =>
      apply stale.moved mover _ handler _ _ quiet
      · intro same
        subst same
        exact absurd starting stale.started
      · exact stale.elsewhere (fresh starting roomId drawn conn) _
  | joined mover peerAddr draws roomId starting there =>
      apply stale.moved mover server.state (.serving roomId false) _ stale.gone quiet
      intro same
      subst same
      exact absurd starting stale.started
  | updatedPublic mover peer privateAddr draws sent roomId isCreator room handler serving found
      goesOn =>
      apply stale.moved mover _ handler _ (stale.elsewhere (stale.notServed found) _) quiet
      intro same
      subst same
      exact absurd (congrArg Handler.serves serving) (stale.notServed found isCreator)
  | updatedPrivate mover sent roomId isCreator addr room updating found =>
      apply stale.moved mover _ _ _ (stale.elsewhere (stale.notServed found) _) quiet
      intro same
      subst same
      exact absurd (congrArg Handler.serves updating) (stale.notServed found isCreator)
  | isDone mover peerAddr draws sent roomId isCreator room serving found =>
      refine stale.moved mover
        { server.state with channels := server.state.channels ++ [.closed] } _ ?_ stale.gone quiet
      intro same
      subst same
      exact absurd (congrArg Handler.serves serving) (stale.notServed found isCreator)
  | timedOut place roomId timer =>
      refine ⟨quiet, stale.started, ?_⟩
      intro other isCreator serves
      by_cases same : other = roomId
      · rw [same]
        exact State.put_rooms_self ..
      · exact (State.put_rooms_other _ _ _ _ same).trans (stale.gone other isCreator serves)

/-- The run lemma. -/
theorem Stale.run {server final : Server Conn} {conn : Conn} (stale : Stale conn server)
    (events : List (ServerEvent Conn))
    (fresh : ∀ before event, before ++ [event] <+: events → ∀ middle : Server Conn,
      server.run before = some middle → middle.DrawsFresh event)
    (run : server.run events = some final) : Stale conn final := by
  induction events generalizing server with
  | nil =>
      cases Option.some.inj run
      exact stale
  | cons event rest ih =>
      obtain ⟨next, stepped, restRun⟩ := Option.bind_eq_some_iff.mp run
      have firstFresh := fresh [] event (List.prefix_append [event] rest) server rfl
      apply ih (stale.step event firstFresh stepped) _ restRun
      intro before later isPrefix middle reached
      apply fresh (event :: before) later ((List.prefix_cons_inj event).mpr isPrefix) middle
      rw [Server.run, runInputs, stepped]
      exact reached

/-! ## An id that a handler serves is too many -/

/-- A connection that serves a room that is there is not refused. -/
theorem not_refuses {server : Server Conn} {conn : Conn} {roomId : RoomId} {isCreator : Bool}
    {room : Room} (serves : (server.handlers conn).serves = some (roomId, isCreator))
    (found : server.state.rooms roomId = some room) : ¬ server.Refuses conn := by
  intro refuses
  rcases Handler.serves_cases serves with serving | ⟨addr, updating⟩
  · have run : server.respond (.receive conn (some (.v4 ⟨⟨[127, 0, 0, 1], rfl⟩, 50001⟩))
        (.ok (.sendPrivateAddr none)) [] true) = some (server.take conn
          ⟨server.state.put roomId (some (room.withEndpoint isCreator
            (.v4 ⟨⟨[127, 0, 0, 1], rfl⟩, 50001⟩) true)), .serving roomId isCreator, []⟩) := by
      simp only [respond, serving, Handler.receive, Handler.handleMessage,
        State.updateClient_found found, Option.map_some]
      rfl
    have wrote := (refuses _ (.sendPrivateAddr _ _ _ _) _ _ run).2 ⟨rfl, rfl⟩
    exact absurd wrote (List.cons_ne_nil _ _).symm
  · have run : server.respond (.proceed conn true) = some (server.take conn
        ⟨server.state.put roomId (some (room.withEndpoint isCreator addr false)),
          .serving roomId isCreator, []⟩) := by
      simp only [respond, updating, Handler.proceed, State.updateClient_found found,
        Option.map_some]
      rfl
    have wrote := (refuses _ (.proceed _) _ _ run).2 rfl
    exact absurd wrote (List.cons_ne_nil _ _).symm

/-- After such a draw there is a stale connection that is not refused. -/
theorem not_staleRefused {events before : List (ServerEvent Conn)} {server : Server Conn}
    {conn other : Conn} {peerAddr : Option SocketAddr} {draws : List (Fin 1048576)} {sent : Bool}
    {roomId : RoomId} {isCreator : Bool}
    (isPrefix : before ++ [.receive conn peerAddr (.ok .createRoom) draws sent] <+: events)
    (reached : initial.run before = some server)
    (starting : server.handlers conn = .starting)
    (drawn : drawRoomId server.state.rooms draws = some roomId)
    (serves : (server.handlers other).serves = some (roomId, isCreator)) :
    ¬ StaleRefused events := by
  intro refused
  have different : other ≠ conn := by
    intro same
    subst same
    rw [starting] at serves
    exact absurd serves (Option.some_ne_none _).symm
  have free := State.drawRoomId_free _ _ _ drawn
  have created : server.step (.receive conn peerAddr (.ok .createRoom) draws sent) =
      some (server.take conn (reply (server.state.withRoom roomId) (.serving roomId true) sent
        (.roomCreated roomId))).1 := by
    rw [step, respond, starting, Handler.receive, Handler.start, State.createRoom, drawn]
    rfl
  have continued : server.run [.receive conn peerAddr (.ok .createRoom) draws sent] =
      some (server.take conn (reply (server.state.withRoom roomId) (.serving roomId true) sent
        (.roomCreated roomId))).1 := by
    rw [Server.run, runInputs, created]
    rfl
  have there : (server.take conn (reply (server.state.withRoom roomId) (.serving roomId true)
      sent (.roomCreated roomId))).1.state.rooms roomId = some .default := by
    show (reply _ _ _ _).state.rooms roomId = _
    rw [reply_state]
    exact State.put_rooms_self ..
  have still : ((server.take conn (reply (server.state.withRoom roomId) (.serving roomId true)
      sent (.roomCreated roomId))).1.handlers other).serves = some (roomId, isCreator) := by
    rw [← serves]
    exact congrArg Handler.serves (Function.update_of_ne different ..)
  exact not_refuses still there (refused before _ isPrefix server _ reached continued other roomId
    isCreator (Handler.bound_of_serves _ _ _ serves) free)

/-- Stale connections are refused in exactly the runs in which `create_room` draws no id that
a handler still serves. -/
theorem staleRefused_iff (events : List (ServerEvent Conn)) :
    StaleRefused events ↔ AllFresh events := by
  constructor
  · intro refused before event isPrefix server reached
    cases event with
    | receive conn peerAddr input draws sent =>
        cases input with
        | error _ => trivial
        | ok message =>
            cases message with
            | createRoom =>
                intro starting roomId drawn other isCreator serves
                exact not_staleRefused isPrefix reached starting drawn serves refused
            | joinRoom _ => trivial
            | sendPrivateAddr _ => trivial
            | doneSending => trivial
    | proceed conn sent => trivial
    | resolve conn sent => trivial
    | roomTimeout place => trivial
  · intro fresh before after isPrefix atRemoval later reached continued conn roomId isCreator
      bound gone
    have quiet : atRemoval.state.Quiet := run_quiet State.empty_quiet before reached
    have stale := stale_of_bound quiet bound gone
    apply (stale.run after _ continued).refuses
    intro middle event isPrefix' server middleRun
    apply fresh (before ++ middle) event
    · rw [List.append_assoc]
      exact ((List.prefix_append_right_inj before).mpr isPrefix').trans isPrefix
    · rw [Server.run, runInputs_append]
      rw [Server.run] at reached
      rw [reached]
      exact middleRun

/-- The room of the first connection times out, and the second one is given its id.  Then the first
one sends its address, which nobody refuses: it is the creator's in the new room. -/
theorem stale_not_refused :
    ¬ StaleRefused ([
      .receive false none (.ok .createRoom) [7] true,
      .roomTimeout 0,
      .receive true none (.ok .createRoom) [7] true,
      .receive false (some (.v4 ⟨⟨[127, 0, 0, 1], rfl⟩, 50001⟩)) (.ok (.sendPrivateAddr none)) []
        true] : List (ServerEvent Bool)) ∧
      ∃ server next : Server Bool, initial.run [
          .receive false none (.ok .createRoom) [7] true,
          .roomTimeout 0,
          .receive true none (.ok .createRoom) [7] true] = some server ∧
        server.respond (.receive false (some (.v4 ⟨⟨[127, 0, 0, 1], rfl⟩, 50001⟩))
          (.ok (.sendPrivateAddr none)) [] true) = some (next, []) ∧
        (next.state.rooms 7).map (fun room => room.creator.contact.public_.v4) =
          some (some ⟨⟨[127, 0, 0, 1], rfl⟩, 50001⟩) := by
  constructor
  · obtain ⟨server, reached⟩ : ∃ server : Server Bool, initial.run [
        .receive false none (.ok .createRoom) [7] true, .roomTimeout 0] = some server := ⟨_, rfl⟩
    have starting : some .starting = some (server.handlers true) :=
      congrArg (Option.map fun server : Server Bool => server.handlers true) reached
    have serving : some (.serving 7 true) = some (server.handlers false) :=
      congrArg (Option.map fun server : Server Bool => server.handlers false) reached
    have drawn : some (some 7) = some (drawRoomId server.state.rooms [7]) :=
      congrArg (Option.map fun server : Server Bool => drawRoomId server.state.rooms [7]) reached
    apply not_staleRefused (List.prefix_append _ [_]) reached (Option.some.inj starting).symm
      (Option.some.inj drawn).symm
    rw [← Option.some.inj serving]
    rfl
  · exact ⟨_, _, rfl, rfl, rfl⟩

end Server

end Gday.HolePunch
