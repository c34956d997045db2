import Gday.HolePunch.Registration
import Gday.HolePunch.ServerRuns

/-! # When the client and the server agree

A client with one connection goes through the protocol as the handler expects it, and its
contact is complete when it is done.  A client with two sends `SendPrivateAddr` on the
second one, whose handler still waits for a room. -/
set_option autoImplicit false
namespace Gday.HolePunch

open Gday.Lib.Machine Gday.Lib.OneShot

/-! ## The stages of a client with one connection -/

/-- The room is there and has these sides of the client's address. -/
def State.Holds (state : State) (roomId : RoomId) (isCreator : Bool) (family : Family)
    (sides : List Bool) : Prop :=
  ∃ room, state.rooms roomId = some room ∧
    ∀ side ∈ sides, (room.getClient isCreator).contact.has side family = true

theorem State.Holds.keeps {before after : State} {roomId : RoomId} {isCreator : Bool}
    {family : Family} {sides : List Bool} (holds : before.Holds roomId isCreator family sides)
    (kept : before.Keeps roomId after) : after.Holds roomId isCreator family sides := by
  obtain ⟨room, found, filled⟩ := holds
  obtain ⟨last, there, fills⟩ := kept room found
  exact ⟨last, there, fun side member => fills isCreator side family (filled side member)⟩

/-- The client has sent its address, and `DoneSending` or not yet. -/
inductive Shared : Phase → List ClientMessage → Prop where
  | address : Shared (.sharing []) []
  | done : Shared .awaitingContacts [.doneSending]

/-- How far the client's phase, the messages on the way, the handler and the room belong
together. -/
inductive Stage (link : Link) (goal : Goal) (family : Family) (state : State) :
    Phase → List ClientMessage → Handler → List ServerMessage → Prop where
  | opening : Stage link goal family state .opening [] .starting []
  | asked : Stage link goal family state .awaitingRoom [goal.message] .starting []
  | accepted (roomId : RoomId) (isCreator : Bool) (message : ServerMessage)
      (yes : goal.accepts message = true) (holds : state.Holds roomId isCreator family []) :
      Stage link goal family state .awaitingRoom [] (.serving roomId isCreator) [message]
  | refused (replies : List ServerMessage)
      (no : ∀ message ∈ replies, goal.accepts message = false) :
      Stage link goal family state .awaitingRoom [] .ended replies
  | sharing (roomId : RoomId) (isCreator : Bool) (holds : state.Holds roomId isCreator family []) :
      Stage link goal family state (.sharing [family]) [] (.serving roomId isCreator) []
  | sent (phase : Phase) (left : List ClientMessage) (shared : Shared phase left)
      (roomId : RoomId) (isCreator : Bool) (holds : state.Holds roomId isCreator family []) :
      Stage link goal family state phase (.sendPrivateAddr (some link.localAddr) :: left)
        (.serving roomId isCreator) []
  | updating (phase : Phase) (left : List ClientMessage) (shared : Shared phase left)
      (roomId : RoomId) (isCreator : Bool)
      (holds : state.Holds roomId isCreator family [true]) :
      Stage link goal family state phase left (.updating roomId isCreator link.localAddr) []
  | complete (phase : Phase) (left : List ClientMessage) (shared : Shared phase left)
      (roomId : RoomId) (isCreator : Bool)
      (holds : state.Holds roomId isCreator family [false, true]) :
      Stage link goal family state phase left (.serving roomId isCreator) []
  | waiting (roomId : RoomId) (isCreator : Bool) (receiver : Nat) :
      Stage link goal family state .awaitingContacts [] (.waiting roomId isCreator receiver) []
  | finishing : Stage link goal family state .awaitingContacts [] .ended []
  | finished (ok : Bool) (replies : List ServerMessage) :
      Stage link goal family state (.returned ok) [] .ended replies

/-- A stage outlasts what keeps the room of the handler. -/
theorem Stage.keeps {link : Link} {goal : Goal} {family : Family} {before after : State}
    {phase : Phase} {queue : List ClientMessage} {handler : Handler}
    {replies : List ServerMessage}
    (stage : Stage link goal family before phase queue handler replies)
    (kept : ∀ roomId isCreator, handler.bound = some (roomId, isCreator) →
      before.Keeps roomId after) : Stage link goal family after phase queue handler replies := by
  cases stage with
  | opening => exact .opening
  | asked => exact .asked
  | accepted roomId isCreator message yes holds =>
      exact .accepted roomId isCreator message yes (holds.keeps (kept _ _ rfl))
  | refused replies no => exact .refused replies no
  | sharing roomId isCreator holds => exact .sharing roomId isCreator (holds.keeps (kept _ _ rfl))
  | sent _ left shared roomId isCreator holds =>
      exact .sent _ left shared roomId isCreator (holds.keeps (kept _ _ rfl))
  | updating _ _ shared roomId isCreator holds =>
      exact .updating _ _ shared roomId isCreator (holds.keeps (kept _ _ rfl))
  | complete _ _ shared roomId isCreator holds =>
      exact .complete _ _ shared roomId isCreator (holds.keeps (kept _ _ rfl))
  | waiting roomId isCreator receiver => exact .waiting roomId isCreator receiver
  | finishing => exact .finishing
  | finished ok replies => exact .finished ok replies

/-- The only connection of a client. -/
structure Only (connection : ServerConnection) (family : Family) (link : Link) : Prop where
  held : connection.link family = some link
  others : ∀ other, other ≠ family → connection.link other = none
  any : connection.getAnyMessenger = family
  all : connection.getAllMessengers = [family]

theorem ServerConnection.only (connection : ServerConnection)
    (single : ¬ (connection.v6.isSome ∧ connection.v4.isSome)) :
    ∃ family link, Only connection family link := by
  obtain ⟨v6, v4, provided, familyV6, familyV4⟩ := connection
  cases v6 with
  | some link =>
      cases v4 with
      | some other => exact absurd ⟨rfl, rfl⟩ single
      | none =>
          refine ⟨.v6, link, rfl, ?_, rfl, rfl⟩
          intro other different
          cases other with
          | v6 => exact absurd rfl different
          | v4 => rfl
  | none =>
      cases v4 with
      | some link =>
          refine ⟨.v4, link, rfl, ?_, rfl, rfl⟩
          intro other different
          cases other with
          | v4 => exact absurd rfl different
          | v6 => rfl
      | none => simp at provided

/-- The invariant of every run of a client with one connection. -/
structure Orderly (connection : ServerConnection) (goal : Goal) (family : Family) (link : Link)
    (registration : Registration) : Prop where
  quiet : registration.server.state.Quiet
  polite : .syntaxError ∉ registration.answered
  covered : ∀ contact ∈ registration.doneWith, connection.Covered contact
  unused : ∀ other, other ≠ family →
    registration.server.handlers (.inl other) = .starting
  stage : Stage link goal family registration.server.state registration.phase
    (registration.toServer family) (registration.server.handlers (.inl family))
    (registration.toClient family)

theorem AtMostOneCall.keeps {before after : State} (calls : AtMostOneCall before after)
    (quiet : before.Quiet) (roomId : RoomId) : before.Keeps roomId after := by
  rcases calls with rfl | ⟨call, noTimer, run⟩
  · exact .refl roomId _
  · exact State.Keeps.step quiet roomId call (fun place same => absurd same (noTimer place)) run

/-! ## The client's steps -/

section Steps

variable {connection : ServerConnection} {goal : Goal} {family : Family} {link : Link}

theorem Orderly.initial (connection : ServerConnection) (goal : Goal) (family : Family)
    (link : Link) : Orderly connection goal family link .initial where
  quiet := State.empty_quiet
  polite := List.not_mem_nil
  covered := by
    intro contact member
    exact absurd member List.not_mem_nil
  unused _ _ := rfl
  stage := .opening

/-- A step of the client touches neither the server nor the records. -/
theorem Orderly.clientMoves {registration next : Registration}
    (orderly : Orderly connection goal family link registration)
    (server : next.server = registration.server)
    (answered : next.answered = registration.answered)
    (doneWith : next.doneWith = registration.doneWith)
    (stage : Stage link goal family registration.server.state next.phase (next.toServer family)
      (registration.server.handlers (.inl family)) (next.toClient family)) :
    Orderly connection goal family link next where
  quiet := server ▸ orderly.quiet
  polite := answered ▸ orderly.polite
  covered := doneWith ▸ orderly.covered
  unused := server ▸ orderly.unused
  stage := server ▸ stage

/-- What reading gives in each stage in which the client reads. -/
theorem read_message {registration : Registration} {message : ServerMessage}
    {rest : List ServerMessage} (queued : registration.toClient family = message :: rest) :
    registration.read family = some (some message, { registration with
      toClient := Function.update registration.toClient family rest }) := by
  rw [Registration.read, queued]

theorem read_ended {registration : Registration} (empty : registration.toClient family = [])
    (ended : registration.server.handlers (.inl family) = .ended) :
    registration.read family = some (none, registration) := by
  rw [Registration.read, empty]
  exact if_pos ended

theorem read_open {registration : Registration} (empty : registration.toClient family = [])
    (open_ : registration.server.handlers (.inl family) ≠ .ended) :
    registration.read family = none := by
  rw [Registration.read, empty]
  exact if_neg open_

/-- Once its address is shared the client sends `DoneSending` and then waits. -/
theorem Orderly.clientShared {registration next : Registration}
    (only : Only connection family link)
    (orderly : Orderly connection goal family link registration)
    (before : List ClientMessage) {phase : Phase} {left : List ClientMessage}
    (shared : Shared phase left) (phaseIs : registration.phase = phase)
    (queueIs : registration.toServer family = before ++ left)
    (empty : registration.toClient family = [])
    (open_ : registration.server.handlers (.inl family) ≠ .ended)
    (later : Stage link goal family registration.server.state .awaitingContacts
      (before ++ [.doneSending]) (registration.server.handlers (.inl family)) [])
    (run : registration.clientStep connection goal = some next) :
    Orderly connection goal family link next := by
  cases shared with
  | address =>
      simp only [Registration.clientStep, phaseIs, only.all] at run
      cases Option.some.inj run
      refine orderly.clientMoves rfl rfl rfl ?_
      have queued : (registration.write family .doneSending).toServer family =
          before ++ [.doneSending] := by
        rw [List.append_nil] at queueIs
        rw [← queueIs]
        exact Function.update_self ..
      have unread : (registration.write family .doneSending).toClient family = [] := empty
      rw [queued, unread]
      exact later
  | done =>
      have nothing := read_open empty open_
      simp only [Registration.clientStep, phaseIs, only.all] at run
      simp only [List.head?_cons, Option.bind_eq_bind, Option.bind_some, nothing] at run
      exact absurd run (Option.some_ne_none next).symm

theorem Orderly.client {registration next : Registration} (only : Only connection family link)
    (orderly : Orderly connection goal family link registration)
    (run : registration.clientStep connection goal = some next) :
    Orderly connection goal family link next := by
  have stage := orderly.stage
  generalize phaseIs : registration.phase = phase at stage
  generalize queueIs : registration.toServer family = queue at stage
  generalize handlerIs : registration.server.handlers (.inl family) = handler at stage
  generalize repliesAre : registration.toClient family = replies at stage
  have writes : ∀ message, (registration.write family message).toServer family =
      registration.toServer family ++ [message] := fun message => Function.update_self ..
  cases stage with
  | opening =>
      simp only [Registration.clientStep, phaseIs, only.any] at run
      cases Option.some.inj run
      refine orderly.clientMoves rfl rfl rfl ?_
      simp only [writes, queueIs, handlerIs, List.nil_append]
      exact repliesAre ▸ .asked
  | asked =>
      have nothing := read_open repliesAre (by rw [handlerIs]; exact Handler.noConfusion)
      simp only [Registration.clientStep, phaseIs, only.any, nothing] at run
      exact absurd run (Option.some_ne_none next).symm
  | accepted roomId isCreator message yes holds =>
      have reply := read_message repliesAre
      simp only [Registration.clientStep, phaseIs, only.any, only.all, reply] at run
      simp only [Option.bind_eq_bind, Option.bind_some, Option.any_some, yes, if_true] at run
      cases Option.some.inj run
      refine orderly.clientMoves rfl rfl rfl ?_
      simp only [Function.update_self, queueIs, handlerIs]
      exact .sharing roomId isCreator holds
  | refused _ no =>
      have reply : ∃ response other, registration.read family = some (response, other) ∧
          response.any goal.accepts = false ∧ other.server = registration.server ∧
            other.answered = registration.answered ∧ other.doneWith = registration.doneWith ∧
              other.toServer = registration.toServer := by
        cases replies with
        | nil => exact ⟨_, _, read_ended repliesAre handlerIs, rfl, rfl, rfl, rfl, rfl⟩
        | cons message rest =>
            exact ⟨_, _, read_message repliesAre, no message List.mem_cons_self, rfl, rfl, rfl, rfl⟩
      obtain ⟨response, other, read, rejected, server, answered, doneWith, toServer⟩ := reply
      simp only [Registration.clientStep, phaseIs, only.any, read] at run
      simp only [Option.bind_eq_bind, Option.bind_some, rejected] at run
      cases Option.some.inj run
      refine orderly.clientMoves server answered doneWith ?_
      simp only [toServer, queueIs, handlerIs]
      exact .finished false _
  | sharing roomId isCreator holds =>
      simp only [Registration.clientStep, phaseIs, only.held] at run
      cases Option.some.inj run
      refine orderly.clientMoves rfl rfl rfl ?_
      simp only [writes, queueIs, handlerIs, List.nil_append]
      have empty : (registration.write family (.sendPrivateAddr (some link.localAddr))).toClient
          family = [] := repliesAre
      rw [empty]
      exact .sent _ _ .address roomId isCreator holds
  | sent _ left shared roomId isCreator holds =>
      exact orderly.clientShared only [.sendPrivateAddr (some link.localAddr)] shared phaseIs
        queueIs repliesAre (by rw [handlerIs]; exact Handler.noConfusion)
        (handlerIs ▸ .sent _ _ .done roomId isCreator holds) run
  | updating _ left shared roomId isCreator holds =>
      exact orderly.clientShared only [] shared phaseIs queueIs
        repliesAre (by rw [handlerIs]; exact Handler.noConfusion)
        (handlerIs ▸ .updating _ _ .done roomId isCreator holds) run
  | complete _ left shared roomId isCreator holds =>
      exact orderly.clientShared only [] shared phaseIs queueIs
        repliesAre (by rw [handlerIs]; exact Handler.noConfusion)
        (handlerIs ▸ .complete _ _ .done roomId isCreator holds) run
  | waiting roomId isCreator receiver =>
      have nothing := read_open repliesAre (by rw [handlerIs]; exact Handler.noConfusion)
      simp only [Registration.clientStep, phaseIs, only.all] at run
      simp only [List.head?_cons, Option.bind_eq_bind, Option.bind_some, nothing] at run
      exact absurd run (Option.some_ne_none next).symm
  | finishing =>
      have closed := read_ended repliesAre handlerIs
      simp only [Registration.clientStep, phaseIs, only.all] at run
      simp only [List.head?_cons, Option.bind_eq_bind, Option.bind_some, closed] at run
      cases Option.some.inj run
      refine orderly.clientMoves rfl rfl rfl ?_
      simp only [queueIs, handlerIs]
      exact .finished false _
  | finished ok _ =>
      simp only [Registration.clientStep, phaseIs] at run
      exact absurd run (Option.some_ne_none next).symm

/-! ## The server's steps -/

/-- A turn of the client's handler. -/
theorem Orderly.serverMoves {registration : Registration}
    (orderly : Orderly connection goal family link registration) (turn : Turn)
    (calls : AtMostOneCall registration.server.state turn.state)
    (polite : .syntaxError ∉ turn.written) (queue : List ClientMessage)
    (found : List (Option FullContact)) (covered : ∀ contact ∈ found, connection.Covered contact)
    (stage : Stage link goal family turn.state registration.phase queue turn.handler
      (registration.toClient family ++ turn.written)) :
    Orderly connection goal family link
      { registration with
        server := ⟨turn.state,
          Function.update registration.server.handlers (.inl family) turn.handler⟩
        toServer := Function.update registration.toServer family queue
        toClient := Function.update registration.toClient family
          (registration.toClient family ++ turn.written)
        answered := registration.answered ++ turn.written
        doneWith := registration.doneWith ++ found } where
  quiet := calls.quiet orderly.quiet
  polite := by
    intro member
    rcases List.mem_append.mp member with before | now
    · exact orderly.polite before
    · exact polite now
  covered := by
    intro contact member
    rcases List.mem_append.mp member with before | now
    · exact orderly.covered contact before
    · exact covered contact now
  unused := by
    intro other different
    have same := orderly.unused other different
    simpa [Function.update_of_ne, different] using same
  stage := by
    simp only [Function.update_self]
    exact stage

/-- A reply that the client accepts, or the end of the handler. -/
theorem Stage.replied {state : State} (handler : Handler) (sent : Bool) (message : ServerMessage)
    (polite : message ≠ .syntaxError)
    (led : Stage link goal family state .awaitingRoom [] handler [message]) :
    .syntaxError ∉ (reply state handler sent message).written ∧
      Stage link goal family (reply state handler sent message).state .awaitingRoom []
        (reply state handler sent message).handler (reply state handler sent message).written := by
  rcases reply_cases state handler sent message with whole | broken
  · rw [whole]
    exact ⟨fun member => polite (List.mem_singleton.mp member).symm, led⟩
  · rw [broken]
    exact ⟨List.not_mem_nil, .refused [] fun _ member => absurd member List.not_mem_nil⟩

/-- The first message is one that a handler starts with. -/
theorem Stage.started (family : Family) (link : Link) {state : State}
    (draws : List (Fin 1048576)) (sent : Bool) (turn : Turn)
    (run : Handler.start state (.ok goal.message) draws sent = some turn) :
    .syntaxError ∉ turn.written ∧
      Stage link goal family turn.state .awaitingRoom [] turn.handler turn.written := by
  cases goal with
  | create =>
      obtain ⟨⟨roomId, next⟩, created, same⟩ := Option.bind_eq_some_iff.mp run
      cases Option.some.inj same
      obtain ⟨drawn, _, made⟩ := Option.bind_eq_some_iff.mp created
      cases Option.some.inj made
      have there : (state.withRoom roomId).rooms roomId = some .default :=
        State.put_rooms_self state roomId _
      exact Stage.replied (.serving roomId true) sent (.roomCreated roomId)
        ServerMessage.noConfusion
        (.accepted roomId true _ rfl ⟨_, there, fun _ member => absurd member List.not_mem_nil⟩)
  | join roomId =>
      simp only [Handler.start, Goal.message] at run
      by_cases there : state.roomExists roomId = true
      · rw [if_pos there] at run
        cases Option.some.inj run
        obtain ⟨room, found⟩ := Option.isSome_iff_exists.mp there
        exact Stage.replied (.serving roomId false) sent .roomJoined ServerMessage.noConfusion
          (.accepted roomId false _ rfl
            ⟨room, found, fun _ member => absurd member List.not_mem_nil⟩)
      · rw [if_neg there] at run
        cases Option.some.inj run
        refine Stage.replied .ended sent .errorNoSuchRoomId ServerMessage.noConfusion
          (.refused _ ?_)
        intro message member
        rw [List.mem_singleton.mp member]
        rfl

/-- An update fills its slot and keeps the others. -/
theorem State.Holds.updateClient {state : State} {roomId : RoomId} {isCreator : Bool}
    {sides : List Bool} (holds : state.Holds roomId isCreator family sides)
    (endpoint : SocketAddr) (public_ : Bool) (sameFamily : endpoint.family = family) :
    ∃ next, state.updateClient roomId isCreator endpoint public_ = some next ∧
      next.Holds roomId isCreator family (public_ :: sides) := by
  obtain ⟨room, found, filled⟩ := holds
  refine ⟨_, State.updateClient_found found isCreator endpoint public_, _,
    State.put_rooms_self state roomId _, ?_⟩
  intro side member
  rcases List.mem_cons.mp member with rfl | old
  · rw [Room.getClient_modifyClient_self, ← sameFamily]
    exact FullContact.has_insert_self _ endpoint side
  · exact room.fills_insert isCreator endpoint public_ isCreator side family (filled side old)

/-- What a turn of the client's handler on a message leaves. -/
def Registration.afterTurn (registration : Registration) (family : Family)
    (message : ClientMessage) (rest : List ClientMessage) (turn : Turn) : Registration :=
  { registration with
    server := ⟨turn.state,
      Function.update registration.server.handlers (.inl family) turn.handler⟩
    toServer := Function.update registration.toServer family rest
    toClient := Function.update registration.toClient family
      (registration.toClient family ++ turn.written)
    answered := registration.answered ++ turn.written
    doneWith := registration.doneWith ++ registration.contactAtDone family message }

theorem receiveStep_message (registration : Registration) {message : ClientMessage}
    {rest : List ClientMessage} (held : connection.link family = some link)
    (queued : registration.toServer family = message :: rest) (draws : List (Fin 1048576))
    (sent : Bool) : registration.receiveStep connection family draws sent =
      ((registration.server.handlers (.inl family)).receive registration.server.state
        (some link.peerAddr) (.ok message) draws sent).map
          (registration.afterTurn family message rest) := by
  simp only [Registration.receiveStep, held, queued, Registration.serverStep, Server.respond,
    Option.bind_eq_bind, Option.bind_some]
  cases (registration.server.handlers (.inl family)).receive registration.server.state
      (some link.peerAddr) (.ok message) draws sent with
  | none => rfl
  | some turn => rfl

theorem receiveStep_stuck {registration : Registration}
    (held : connection.link family = some link) (empty : registration.toServer family = [])
    (busy : ∀ ok, registration.phase = .returned ok →
      registration.server.handlers (.inl family) = .ended) (draws : List (Fin 1048576))
    (sent : Bool) : registration.receiveStep connection family draws sent = none := by
  simp only [Registration.receiveStep, held, empty, Registration.serverStep, Server.respond,
    Option.bind_eq_bind, Option.bind_some]
  cases phaseIs : registration.phase with
  | returned ok =>
      rw [busy ok phaseIs]
      rfl
  | opening => rfl
  | awaitingRoom => rfl
  | sharing left => rfl
  | awaitingContacts => rfl

/-- What the handler of the client does with the next message. -/
theorem Orderly.receives {registration next : Registration} (only : Only connection family link)
    (orderly : Orderly connection goal family link registration)
    (draws : List (Fin 1048576)) (sent : Bool)
    (run : registration.receiveStep connection family draws sent = some next) :
    Orderly connection goal family link next := by
  have stage := orderly.stage
  have families := connection.family_of_link family link only.held
  generalize phaseIs : registration.phase = phase at stage
  generalize queueIs : registration.toServer family = queue at stage
  generalize handlerIs : registration.server.handlers (.inl family) = handler at stage
  generalize repliesAre : registration.toClient family = replies at stage
  -- with nothing on the way the handler has nothing to receive
  have idle : queue = [] → (∀ ok, phase = .returned ok → handler = .ended) → False := by
    intro empty busy
    rw [receiveStep_stuck only.held (queueIs.trans empty) (fun ok same =>
      handlerIs.trans (busy ok (phaseIs.symm.trans same))) draws sent] at run
    exact Option.some_ne_none next run.symm
  cases stage with
  | asked =>
      rw [receiveStep_message registration only.held queueIs draws sent, handlerIs] at run
      obtain ⟨turn, received, rfl⟩ := Option.map_eq_some_iff.mp run
      obtain ⟨polite, started⟩ :=
        Stage.started family link draws sent turn received
      refine orderly.serverMoves turn (Handler.start_calls _ _ draws sent turn received)
        polite [] _ ?_ ?_
      · simp only [Registration.contactAtDone, handlerIs]
        exact fun _ member => absurd member List.not_mem_nil
      · rw [repliesAre, phaseIs]
        exact started
  | sent _ left shared roomId isCreator holds =>
      obtain ⟨after, updated, stored⟩ := holds.updateClient link.peerAddr true families.2
      have received : (Handler.serving roomId isCreator).receive registration.server.state
          (some link.peerAddr) (.ok (.sendPrivateAddr (some link.localAddr))) draws sent =
            some ⟨after, .updating roomId isCreator link.localAddr, []⟩ := by
        simp only [Handler.receive, Handler.handleMessage, updated]
      rw [receiveStep_message registration only.held queueIs draws sent, handlerIs, received] at run
      cases Option.some.inj run
      refine orderly.serverMoves _ (Handler.receive_calls _ _ _ _ draws sent _ received)
        List.not_mem_nil left _ ?_ ?_
      · simp only [Registration.contactAtDone, handlerIs]
        exact fun _ member => absurd member List.not_mem_nil
      · rw [repliesAre, phaseIs]
        exact .updating _ _ shared roomId isCreator stored
  | complete _ _ shared roomId isCreator holds =>
      cases shared with
      | address => exact (idle rfl fun ok same => Phase.noConfusion same).elim
      | done =>
          obtain ⟨room, found, filled⟩ := holds
          have done := orderly.quiet.setClientDone roomId isCreator
          rw [found, Option.map_some] at done
          generalize { registration.server.state with
            channels := registration.server.state.channels ++ [Channel.closed] } = after at done
          have received : (Handler.serving roomId isCreator).receive registration.server.state
              (some link.peerAddr) (.ok .doneSending) draws sent =
                some ⟨after, .waiting roomId isCreator registration.server.state.channels.length,
                  []⟩ := by
            simp only [Handler.receive, Handler.handleMessage, done]
          rw [receiveStep_message registration only.held queueIs draws sent, handlerIs,
            received] at run
          cases Option.some.inj run
          refine orderly.serverMoves _ (Handler.receive_calls _ _ _ _ draws sent _ received)
            List.not_mem_nil [] _ ?_ ?_
          · simp only [Registration.contactAtDone, handlerIs, found]
            intro stored member
            rw [List.mem_singleton.mp member]
            refine ⟨_, rfl, fun other isHeld => ?_⟩
            by_cases own : other = family
            · subst own
              exact ⟨filled false (by simp), filled true (by simp)⟩
            · rw [only.others other own] at isHeld
              exact absurd isHeld Bool.noConfusion
          · rw [repliesAre, phaseIs]
            exact .waiting roomId isCreator _
  | updating _ _ shared roomId isCreator holds =>
      cases shared with
      | address => exact (idle rfl fun ok same => Phase.noConfusion same).elim
      | done =>
          rw [receiveStep_message registration only.held queueIs draws sent, handlerIs] at run
          exact absurd run (Option.some_ne_none next).symm
  | opening => exact (idle rfl fun ok same => Phase.noConfusion same).elim
  | accepted roomId isCreator message yes holds =>
      exact (idle rfl fun ok same => Phase.noConfusion same).elim
  | refused _ no => exact (idle rfl fun ok same => Phase.noConfusion same).elim
  | sharing roomId isCreator holds => exact (idle rfl fun ok same => Phase.noConfusion same).elim
  | waiting roomId isCreator receiver =>
      exact (idle rfl fun ok same => Phase.noConfusion same).elim
  | finishing => exact (idle rfl fun ok same => Phase.noConfusion same).elim
  | finished ok _ => exact (idle rfl fun ok same => rfl).elim

/-- The step of the server that a turn of the client's handler is. -/
theorem serverStep_turn (registration : Registration) (family : Family) (event : ServerEvent Conn)
    (turn : Option Turn)
    (responds : registration.server.respond event =
      turn.map (registration.server.take (.inl family))) :
    registration.serverStep family event = turn.map fun turn =>
      { registration with
        server := ⟨turn.state,
          Function.update registration.server.handlers (.inl family) turn.handler⟩
        toServer := Function.update registration.toServer family (registration.toServer family)
        toClient := Function.update registration.toClient family
          (registration.toClient family ++ turn.written)
        answered := registration.answered ++ turn.written
        doneWith := registration.doneWith ++ [] } := by
  rw [Registration.serverStep, responds]
  cases turn with
  | none => rfl
  | some turn =>
      rw [Function.update_eq_self, List.append_nil]
      rfl

theorem Orderly.proceeds {registration next : Registration}
    (orderly : Orderly connection goal family link registration) (sent : Bool)
    (sameFamily : link.localAddr.family = family)
    (run : registration.serverStep family (.proceed (.inl family) sent) = some next) :
    Orderly connection goal family link next := by
  have stage := orderly.stage
  generalize phaseIs : registration.phase = phase at stage
  generalize queueIs : registration.toServer family = queue at stage
  generalize handlerIs : registration.server.handlers (.inl family) = handler at stage
  generalize repliesAre : registration.toClient family = replies at stage
  have turns := serverStep_turn registration family
    (.proceed (.inl family) sent) (handler.proceed registration.server.state sent)
    (by rw [Server.respond, handlerIs])
  rw [turns] at run
  obtain ⟨turn, proceeded, rfl⟩ := Option.map_eq_some_iff.mp run
  obtain ⟨roomId, isCreator, addr, rfl, outcome⟩ := Handler.proceed_cases proceeded
  cases stage with
  | updating _ _ shared _ _ holds =>
      obtain ⟨after, updated, stored⟩ := holds.updateClient link.localAddr false sameFamily
      rcases outcome with ⟨missed, _⟩ | ⟨next, updatedTo, rfl⟩
      · rw [updated] at missed
        exact absurd missed (Option.some_ne_none after)
      · cases Option.some.inj (updatedTo.symm.trans updated)
        refine orderly.serverMoves _ (Handler.proceed_calls _ _ sent _ proceeded)
          List.not_mem_nil _ _ (fun _ member => absurd member List.not_mem_nil) ?_
        rw [repliesAre, phaseIs, queueIs]
        exact .complete _ _ shared roomId isCreator stored

theorem Orderly.resolves {registration next : Registration}
    (orderly : Orderly connection goal family link registration) (sent : Bool)
    (run : registration.serverStep family (.resolve (.inl family) sent) = some next) :
    Orderly connection goal family link next := by
  have stage := orderly.stage
  generalize phaseIs : registration.phase = phase at stage
  generalize queueIs : registration.toServer family = queue at stage
  generalize handlerIs : registration.server.handlers (.inl family) = handler at stage
  generalize repliesAre : registration.toClient family = replies at stage
  have turns := serverStep_turn registration family
    (.resolve (.inl family) sent) (handler.resolve registration.server.state sent)
    (by rw [Server.respond, handlerIs])
  rw [turns] at run
  obtain ⟨turn, resolved, rfl⟩ := Option.map_eq_some_iff.mp run
  obtain ⟨roomId, isCreator, receiver, rfl, ⟨_, _, contacts, _⟩ | ⟨_, rfl⟩⟩ :=
    Handler.resolve_cases resolved
  · exact absurd contacts (orderly.quiet.noContacts receiver _)
  · cases stage with
    | waiting _ _ _ =>
        refine orderly.serverMoves ⟨registration.server.state, .ended, []⟩ (Or.inl rfl)
          List.not_mem_nil _ _ (fun _ member => absurd member List.not_mem_nil) ?_
        rw [repliesAre, phaseIs, queueIs]
        exact .finishing

/-- Nothing happens on a connection that the client does not have. -/
theorem Orderly.unusedStuck {registration : Registration} (only : Only connection family link)
    (orderly : Orderly connection goal family link registration) (other : Family)
    (different : other ≠ family) (sent : Bool) :
    (∀ draws, registration.receiveStep connection other draws sent = none) ∧
      registration.serverStep other (.proceed (.inl other) sent) = none ∧
        registration.serverStep other (.resolve (.inl other) sent) = none := by
  have starting := orderly.unused other different
  refine ⟨fun draws => ?_, ?_, ?_⟩
  · rw [Registration.receiveStep, only.others other different]
    rfl
  · rw [Registration.serverStep, Server.respond, starting]
    rfl
  · rw [Registration.serverStep, Server.respond, starting]
    rfl

/-- What the other connections do leaves the client's handlers alone and keeps its room. -/
theorem respond_others {server after : Server Conn} {written : List ServerMessage}
    (quiet : server.state.Quiet) (event : ServerEvent Nat)
    (run : server.respond (event.map .inr) = some (after, written)) :
    after.state.Quiet ∧ (∀ own, after.handlers (.inl own) = server.handlers (.inl own)) ∧
      ∀ roomId, (∀ place, event = .roomTimeout place → server.state.timers[place]? ≠ some roomId) →
        server.state.Keeps roomId after.state := by
  rcases Server.respond_calls _ run with
    ⟨conn, turn, its, calls, same⟩ | ⟨place, state, isTimeout, timedOut, rfl⟩
  · cases same
    refine ⟨calls.quiet quiet, fun own => ?_, fun roomId _ => calls.keeps quiet roomId⟩
    have different : (Sum.inl own : Conn) ≠ conn := by
      intro same
      subst same
      cases event <;> cases its
    exact Function.update_of_ne different turn.handler server.handlers
  · have stepped := roomTimeout_step timedOut
    refine ⟨quiet.step _ stepped, fun _ => rfl, fun roomId notTimer => ?_⟩
    apply State.Keeps.step quiet roomId _ _ stepped
    intro _ same
    cases same
    apply notTimer place
    cases event <;> cases isTimeout
    rfl

/-- One step of the system. -/
theorem Orderly.step {registration next : Registration} (only : Only connection family link)
    (orderly : Orderly connection goal family link registration) (event : RegistrationEvent)
    (permitted : registration.Permitted event)
    (run : registration.step connection goal event = some next) :
    Orderly connection goal family link next := by
  cases event with
  | client => exact orderly.client only run
  | receive which draws sent =>
      by_cases own : which = family
      · subst own
        exact orderly.receives only draws sent run
      · exact absurd (((orderly.unusedStuck only which own sent).1 draws).symm.trans run)
          (Option.some_ne_none next).symm
  | proceed which sent =>
      by_cases own : which = family
      · subst own
        exact orderly.proceeds sent (connection.family_of_link which link only.held).1 run
      · exact absurd ((orderly.unusedStuck only which own sent).2.1.symm.trans run)
          (Option.some_ne_none next).symm
  | resolve which sent =>
      by_cases own : which = family
      · subst own
        exact orderly.resolves sent run
      · exact absurd ((orderly.unusedStuck only which own sent).2.2.symm.trans run)
          (Option.some_ne_none next).symm
  | other event =>
      obtain ⟨⟨server, written⟩, responded, same⟩ := Option.bind_eq_some_iff.mp run
      cases Option.some.inj same
      obtain ⟨quiet, handlers, kept⟩ := respond_others orderly.quiet event responded
      refine ⟨quiet, orderly.polite, orderly.covered, ?_, ?_⟩
      · intro other different
        exact (handlers other).trans (orderly.unused other different)
      · simp only [handlers]
        apply orderly.stage.keeps
        intro roomId isCreator bound
        apply kept roomId
        rintro place rfl
        exact permitted family roomId isCreator bound

end Steps

/-- In every run of a client with one connection. -/
theorem Only.agree {connection : ServerConnection} {family : Family} {link : Link}
    (only : Only connection family link) (goal : Goal) : Agree connection goal := by
  intro events final run
  have orderly : Orderly connection goal family link final :=
    run.invariant (Orderly connection goal family link)
      (fun _ event _ permitted orderly stepRun => orderly.step only event permitted stepRun)
      (.initial connection goal family link)
  exact ⟨orderly.polite, orderly.covered⟩

/-! ## A client with two connections -/

section Both

variable {connection : ServerConnection} {goal : Goal} {first second : Link}

/-- The handler of the second connection gets its first message, or the end of the stream. -/
theorem second_answers (registration : Registration) (four : connection.v4 = some second)
    (starting : registration.server.handlers (.inl .v4) = .starting)
    (unfit : registration.toServer .v4 = [.sendPrivateAddr (some second.localAddr)] ∨
      registration.toServer .v4 = [] ∧ registration.phase = .returned false) :
    ∃ final, registration.receiveStep connection .v4 [] true = some final ∧
      .syntaxError ∈ final.answered := by
  have refused := reply_fits registration.server.state .ended .syntaxError trivial
  have held : connection.link .v4 = some second := four
  rcases unfit with queued | ⟨empty, returned⟩
  · simp [Registration.receiveStep, held, queued, Registration.serverStep, Server.respond,
      starting, Handler.receive, Handler.start, refused, Server.take]
  · simp [Registration.receiveStep, held, empty, returned, Registration.serverStep,
      Server.respond, starting, Handler.receive, Handler.start, refused, Server.take]

/-- Once the first connection is in the room, the client turns to the second. -/
theorem accepted_answers {registration : Registration} {message : ServerMessage}
    (six : connection.v6 = some first) (four : connection.v4 = some second)
    (awaiting : registration.phase = .awaitingRoom)
    (reply : registration.toClient .v6 = [message]) (yes : goal.accepts message = true)
    (starting : registration.server.handlers (.inl .v4) = .starting)
    (unused : registration.toServer .v4 = []) :
    ∃ final, runInputs (Registration.step connection goal)
        [.client, .client, .client, .receive .v4 [] true] registration = some final ∧
      .syntaxError ∈ final.answered := by
  have any : connection.getAnyMessenger = .v6 := by
    rw [ServerConnection.getAnyMessenger, six]
    rfl
  have all : connection.getAllMessengers = [.v6, .v4] := by
    rw [ServerConnection.getAllMessengers, six, four]
    rfl
  have heldSix : connection.link .v6 = some first := six
  have heldFour : connection.link .v4 = some second := four
  have read := read_message reply
  simp only [runInputs, Registration.step, Registration.clientStep, awaiting, any, all, read,
    Option.bind_eq_bind, Option.bind_some, Option.any_some, yes, if_true, heldSix, heldFour,
    Option.pure_def]
  obtain ⟨final, answered, impolite⟩ := second_answers
    { (({ registration with
      toClient := Function.update registration.toClient .v6 [] }).write .v6
        (.sendPrivateAddr (some first.localAddr))).write .v4
          (.sendPrivateAddr (some second.localAddr)) with phase := .sharing [] }
    four starting (Or.inl (by simp [Registration.write, unused]))
  refine ⟨final, ?_, impolite⟩
  simp only [Registration.write] at answered ⊢
  rw [answered]
  rfl

/-- A client that is not let into the room drops both connections. -/
theorem refused_answers {registration : Registration} {message : ServerMessage}
    (six : connection.v6 = some first) (four : connection.v4 = some second)
    (awaiting : registration.phase = .awaitingRoom)
    (reply : registration.toClient .v6 = [message]) (no : goal.accepts message = false)
    (starting : registration.server.handlers (.inl .v4) = .starting)
    (unused : registration.toServer .v4 = []) :
    ∃ final, runInputs (Registration.step connection goal)
        [.client, .receive .v4 [] true] registration = some final ∧
      .syntaxError ∈ final.answered := by
  have any : connection.getAnyMessenger = .v6 := by
    rw [ServerConnection.getAnyMessenger, six]
    rfl
  have read := read_message reply
  simp only [runInputs, Registration.step, Registration.clientStep, awaiting, any, read,
    Option.bind_eq_bind, Option.bind_some, Option.any_some, no, Option.pure_def]
  obtain ⟨final, answered, impolite⟩ := second_answers
    { registration with
      toClient := Function.update registration.toClient .v6 []
      phase := .returned false }
    four starting (Or.inr ⟨unused, rfl⟩)
  refine ⟨final, ?_, impolite⟩
  simp only [Bool.false_eq_true, if_false, Option.bind_some]
  rw [answered]
  rfl

/-- The first connection asks for its room, on a server in this state. -/
theorem first_asks {state : State} {draws : List (Fin 1048576)} {turn : Turn}
    {message : ServerMessage} (registration : Registration)
    (six : connection.v6 = some first) (fresh : registration = { Registration.initial with
      server := ⟨state, registration.server.handlers⟩ })
    (starting : ∀ family, registration.server.handlers (.inl family) = .starting)
    (started : Handler.start state (.ok goal.message) draws true = some turn)
    (written : turn.written = [message]) :
    ∃ next, runInputs (Registration.step connection goal) [.client, .receive .v6 draws true]
        registration = some next ∧
      next.phase = .awaitingRoom ∧ next.toClient .v6 = [message] ∧
        next.server.handlers (.inl .v4) = .starting ∧ next.toServer .v4 = [] := by
  have any : connection.getAnyMessenger = .v6 := by
    rw [ServerConnection.getAnyMessenger, six]
    rfl
  have held : connection.link .v6 = some first := six
  have handler := starting .v6
  have other := starting .v4
  generalize handlersAre : registration.server.handlers = handlers at fresh handler other
  subst fresh
  have queued : (({ Registration.initial with server := ⟨state, handlers⟩ } : Registration).write
      .v6 goal.message).toServer .v6 = [goal.message] := rfl
  have asked := receiveStep_message
    { (({ Registration.initial with server := ⟨state, handlers⟩ } : Registration).write .v6
      goal.message) with phase := .awaitingRoom }
    held queued draws true
  simp only [runInputs, Registration.step, Registration.clientStep, Registration.initial, any,
    Option.bind_eq_bind, Option.bind_some] at asked ⊢
  rw [asked]
  simp [Registration.write, handler, Handler.receive, started, Registration.afterTurn, written,
    other]

/-- Whatever the client wants, the second connection can be answered with an error. -/
theorem Goal.disagrees (goal : Goal) (six : connection.v6 = some first)
    (four : connection.v4 = some second) : ¬ Agree connection goal := by
  intro agree
  have impolite : ∀ (before events : List RegistrationEvent) (middle : Registration),
      (∀ event ∈ before ++ events, ∀ registration : Registration, registration.Permitted event) →
      runInputs (Registration.step connection goal) before .initial = some middle →
        ¬ ∃ final, runInputs (Registration.step connection goal) events middle = some final ∧
          .syntaxError ∈ final.answered := by
    rintro before events middle permitted firstRun ⟨final, secondRun, member⟩
    have run : runInputs (Registration.step connection goal) (before ++ events) .initial =
        some final := by
      rw [runInputs_append, firstRun]
      exact secondRun
    exact (agree _ final (.of_run permitted run)).1 member
  cases goal with
  | create =>
      have created : State.empty.createRoom [0] = some (0, State.empty.withRoom 0) :=
        State.createRoom_free State.empty 0 rfl
      have accepted := reply_fits (State.empty.withRoom 0) (.serving 0 true) (.roomCreated 0)
        trivial
      have started : Handler.start State.empty (.ok Goal.create.message) [0] true =
          some ⟨State.empty.withRoom 0, .serving 0 true, [.roomCreated 0]⟩ := by
        simp [Handler.start, Goal.message, created, accepted]
      obtain ⟨next, run, awaiting, reply, starting, unused⟩ :=
        first_asks .initial six rfl (fun _ => rfl) started rfl
      refine impolite _ _ next ?_ run
        (accepted_answers six four awaiting reply rfl starting unused)
      simp [Registration.Permitted]
  | join roomId =>
      by_cases possible : roomId.toNat < 1048576
      · -- another client has made the room
        have same : UInt32.ofNat (⟨roomId.toNat, possible⟩ : Fin 1048576).val = roomId :=
          UInt32.ofNat_toNat
        have created := State.createRoom_free State.empty ⟨roomId.toNat, possible⟩ rfl
        rw [same] at created
        have there : (State.empty.withRoom roomId).roomExists roomId = true := by
          rw [State.roomExists, State.withRoom]
          simp
        have accepted := reply_fits (State.empty.withRoom roomId) (.serving roomId false)
          .roomJoined trivial
        have host := reply_fits (State.empty.withRoom roomId) (.serving roomId true)
          (.roomCreated roomId) trivial
        have started : Handler.start (State.empty.withRoom roomId)
            (.ok (Goal.join roomId).message) [] true =
              some ⟨State.empty.withRoom roomId, .serving roomId false, [.roomJoined]⟩ := by
          simp [Handler.start, Goal.message, there, accepted]
        let hosted : Registration := { Registration.initial with
          server := ⟨State.empty.withRoom roomId,
            Function.update (fun _ => .starting) (.inr 0) (.serving roomId true)⟩ }
        have hosting : Registration.step connection (.join roomId) .initial
            (.other (.receive 0 none (.ok .createRoom) [⟨roomId.toNat, possible⟩] true)) =
              some hosted := by
          simp [Registration.step, ServerEvent.map, Server.respond, Registration.initial,
            Server.initial, Handler.receive, Handler.start, created, host, Server.take, hosted]
        obtain ⟨next, run, awaiting, reply, starting, unused⟩ :=
          first_asks hosted six rfl (fun _ => rfl) started rfl
        refine impolite (.other (.receive 0 none (.ok .createRoom)
            [⟨roomId.toNat, possible⟩] true) :: [.client, .receive .v6 [] true]) _ next ?_ ?_
          (accepted_answers six four awaiting reply rfl starting unused)
        · simp [Registration.Permitted]
        · rw [runInputs, hosting]
          exact run
      · -- no room can have this id
        have missing := reply_fits State.empty .ended .errorNoSuchRoomId trivial
        have nowhere : State.empty.roomExists roomId = false := rfl
        have started : Handler.start State.empty (.ok (Goal.join roomId).message) [] true =
            some ⟨State.empty, .ended, [.errorNoSuchRoomId]⟩ := by
          simp [Handler.start, Goal.message, nowhere, missing]
        obtain ⟨next, run, awaiting, reply, starting, unused⟩ :=
          first_asks .initial six rfl (fun _ => rfl) started rfl
        refine impolite _ _ next ?_ run
          (refused_answers six four awaiting reply rfl starting unused)
        simp [Registration.Permitted]

end Both

/-- The client and the server agree exactly where the client has one connection. -/
theorem agree_iff (connection : ServerConnection) (goal : Goal) :
    Agree connection goal ↔ ¬ (connection.v6.isSome ∧ connection.v4.isSome) := by
  constructor
  · rintro agree ⟨six, four⟩
    obtain ⟨first, six⟩ := Option.isSome_iff_exists.mp six
    obtain ⟨second, four⟩ := Option.isSome_iff_exists.mp four
    exact goal.disagrees six four agree
  · intro single
    obtain ⟨family, link, only⟩ := connection.only single
    exact only.agree goal

theorem dualStack_octets : (List.replicate 16 (32 : UInt8)).length = 16 := rfl

/-- A client that is connected over both families. -/
def dualStack : ServerConnection where
  v6 := some ⟨.v6 ⟨⟨List.replicate 16 32, dualStack_octets⟩, 50000, 0, 0⟩,
    .v6 ⟨⟨List.replicate 16 33, rfl⟩, 50000, 0, 0⟩⟩
  v4 := some ⟨.v4 ⟨⟨[192, 168, 0, 2], rfl⟩, 50001⟩, .v4 ⟨⟨[203, 0, 113, 7], rfl⟩, 50001⟩⟩
  provided := Or.inl rfl
  familyV6 := by
    intro _ same
    cases same
    exact ⟨rfl, rfl⟩
  familyV4 := by
    intro _ same
    cases same
    exact ⟨rfl, rfl⟩

theorem dualStack_disagrees : ¬ Agree dualStack .create := Goal.disagrees .create rfl rfl

end Gday.HolePunch
