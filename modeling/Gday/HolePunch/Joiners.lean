import Gday.HolePunch.ServerRuns

/-! # Who joins a room

`JoinRoom` asks only whether the room is there, so a room has as many joiners as ask for it.
As long as each of them comes to a room that nobody has joined, the joiner's contact is that
of one connection. -/
set_option autoImplicit false
namespace Gday.HolePunch

open Gday.Lib.Machine Gday.Lib.OneShot

/-- The server, and whose connection submitted what is in each slot of a joiner. -/
structure Joined (Conn : Type) where
  server : Server Conn
  submitter : RoomId → Bool → Family → Option Conn

namespace Joined

variable {Conn : Type} [DecidableEq Conn]

def initial : Joined Conn := ⟨.initial, fun _ _ _ => none⟩

/-- The joiner's slot of this kind is now this connection's. -/
def submit (joined : Joined Conn) (conn : Conn) (roomId : RoomId) (isCreator public_ : Bool)
    (endpoint : SocketAddr) : RoomId → Bool → Family → Option Conn :=
  if (joined.server.state.rooms roomId).isSome ∧ isCreator = false then
    fun id side family =>
      if id = roomId ∧ side = public_ ∧ family = endpoint.family then some conn
      else joined.submitter id side family
  else joined.submitter

/-- Whose the slots are after a step: a new room has none that are filled. -/
def record (joined : Joined Conn) : ServerEvent Conn → RoomId → Bool → Family → Option Conn
  | .receive conn peerAddr (.ok message) draws _ =>
      match joined.server.handlers conn, message, peerAddr with
      | .starting, .createRoom, _ =>
          match drawRoomId joined.server.state.rooms draws with
          | some roomId => Function.update joined.submitter roomId fun _ _ => none
          | none => joined.submitter
      | .serving roomId isCreator, .sendPrivateAddr _, some peer =>
          joined.submit conn roomId isCreator true peer
      | _, _, _ => joined.submitter
  | .proceed conn _ =>
      match joined.server.handlers conn with
      | .updating roomId isCreator addr => joined.submit conn roomId isCreator false addr
      | _ => joined.submitter
  | _ => joined.submitter

def step (joined : Joined Conn) (event : ServerEvent Conn) : Option (Joined Conn) :=
  (joined.server.step event).map fun next => ⟨next, joined.record event⟩

/-- A live connection holds on to the joiner's role in the room. -/
def Joins (joined : Joined Conn) (conn : Conn) (roomId : RoomId) : Prop :=
  (joined.server.handlers conn).bound = some (roomId, false)

/-- The step is no `JoinRoom` that is accepted in a room which a live connection has joined
or which has an address of a joiner. -/
def JoinsUnjoined (joined : Joined Conn) : ServerEvent Conn → Prop
  | .receive conn _ (.ok (.joinRoom roomId)) _ sent =>
      joined.server.handlers conn = .starting → sent = true →
        ∀ room, joined.server.state.rooms roomId = some room →
          (∀ other, ¬ joined.Joins other roomId) ∧
            ∀ public_ family, room.joiner.contact.has public_ family = false
  | _ => True

/-! ## What a room of two clients has -/

/-- At most one live connection has joined each room. -/
def OneJoiner (joined : Joined Conn) : Prop :=
  ∀ roomId first second, joined.Joins first roomId → joined.Joins second roomId → first = second

/-- The filled slots of a joiner's contact are of one connection. -/
def OneSubmitter (joined : Joined Conn) : Prop :=
  ∀ roomId room, joined.server.state.rooms roomId = some room → ∀ public_ family side other,
    room.joiner.contact.has public_ family = true → room.joiner.contact.has side other = true →
      ∃ conn, joined.submitter roomId public_ family = some conn ∧
        joined.submitter roomId side other = some conn

/-- No step touches what another connection waits for. -/
def NoneDisplaced (joined : Joined Conn) : Prop :=
  ∀ event next, joined.server.step event = some next → ∀ conn roomId isCreator receiver,
    joined.server.handlers conn = .waiting roomId isCreator receiver →
      status next.state.channels receiver = status joined.server.state.channels receiver

structure TwoClients (joined : Joined Conn) : Prop where
  oneJoiner : joined.OneJoiner
  oneSubmitter : joined.OneSubmitter
  noneDisplaced : joined.NoneDisplaced

/-! ## What each step records -/

omit [DecidableEq Conn] in
/-- Nothing is recorded of a step that asks for a room in vain. -/
theorem record_missed (joined : Joined Conn) (event : ServerEvent Conn)
    (misses : joined.server.Misses event) : joined.record event = joined.submitter := by
  have notThere : ∀ conn roomId isCreator public_ endpoint,
      joined.server.state.rooms roomId = none →
        joined.submit conn roomId isCreator public_ endpoint = joined.submitter := by
    intro conn roomId isCreator public_ endpoint missing
    rw [submit, missing]
    exact if_neg fun there => absurd there.1 Bool.false_ne_true
  cases event with
  | receive conn peerAddr input draws sent =>
      cases input with
      | error _ => rfl
      | ok message =>
          cases handlerIs : joined.server.handlers conn with
          | starting =>
              cases message with
              | createRoom => exact absurd handlerIs misses
              | joinRoom roomId => simp only [record, handlerIs]
              | sendPrivateAddr privateAddr => simp only [record, handlerIs]
              | doneSending => simp only [record, handlerIs]
          | serving roomId isCreator =>
              cases message with
              | createRoom => simp only [record, handlerIs]
              | joinRoom roomId => simp only [record, handlerIs]
              | sendPrivateAddr privateAddr =>
                  cases peerAddr with
                  | none => simp only [record, handlerIs]
                  | some peer =>
                      simp only [record, handlerIs]
                      exact notThere _ _ _ _ _ (misses roomId isCreator handlerIs)
              | doneSending => simp only [record, handlerIs]
          | updating roomId isCreator addr => simp only [record, handlerIs]
          | waiting roomId isCreator receiver => simp only [record, handlerIs]
          | ended => simp only [record, handlerIs]
  | proceed conn sent =>
      cases handlerIs : joined.server.handlers conn with
      | updating roomId isCreator addr =>
          simp only [record, handlerIs]
          exact notThere _ _ _ _ _ (misses roomId isCreator addr handlerIs)
      | starting => simp only [record, handlerIs]
      | serving roomId isCreator => simp only [record, handlerIs]
      | waiting roomId isCreator receiver => simp only [record, handlerIs]
      | ended => simp only [record, handlerIs]
  | resolve conn sent => rfl
  | roomTimeout place => rfl

omit [DecidableEq Conn] in
theorem submit_joiner (joined : Joined Conn) {roomId : RoomId} {room : Room}
    (found : joined.server.state.rooms roomId = some room) (conn : Conn) (public_ : Bool)
    (endpoint : SocketAddr) (id : RoomId) (side : Bool) (family : Family) :
    joined.submit conn roomId false public_ endpoint id side family =
      if id = roomId ∧ side = public_ ∧ family = endpoint.family then some conn
      else joined.submitter id side family := by
  rw [submit, found]
  rfl

omit [DecidableEq Conn] in
theorem submit_creator (joined : Joined Conn) (conn : Conn) (roomId : RoomId) (public_ : Bool)
    (endpoint : SocketAddr) :
    joined.submit conn roomId true public_ endpoint = joined.submitter :=
  if_neg fun own => absurd own.2 Bool.noConfusion

/-! ## The invariant -/

/-- The slots of a joiner are of one connection, which is the one that has joined, if any. -/
structure Alone (joined : Joined Conn) : Prop where
  quiet : joined.server.state.Quiet
  inside : ∀ conn roomId isCreator receiver,
    joined.server.handlers conn = .waiting roomId isCreator receiver →
      receiver < joined.server.state.channels.length
  oneJoiner : joined.OneJoiner
  oneSubmitter : joined.OneSubmitter
  own : ∀ roomId room, joined.server.state.rooms roomId = some room → ∀ conn,
    joined.Joins conn roomId → ∀ public_ family, room.joiner.contact.has public_ family = true →
      joined.submitter roomId public_ family = some conn

omit [DecidableEq Conn] in
theorem initial_alone : Alone (initial : Joined Conn) where
  quiet := State.empty_quiet
  inside _ _ _ _ waiting := absurd waiting Handler.noConfusion
  oneJoiner _ _ _ joins _ := absurd joins (Option.some_ne_none _).symm
  oneSubmitter _ room found := absurd found (Option.some_ne_none room).symm
  own _ room found := absurd found (Option.some_ne_none room).symm

omit [DecidableEq Conn] in
/-- No connection joins, and no slot of a joiner is filled anew. -/
theorem Alone.kept {joined next : Joined Conn} (alone : joined.Alone)
    (quiet : next.server.state.Quiet)
    (inside : ∀ conn roomId isCreator receiver,
      next.server.handlers conn = .waiting roomId isCreator receiver →
        receiver < next.server.state.channels.length)
    (noMore : ∀ conn roomId, next.Joins conn roomId → joined.Joins conn roomId)
    (filled : ∀ roomId room, next.server.state.rooms roomId = some room →
      ∀ public_ family, room.joiner.contact.has public_ family = true →
        ∃ old, joined.server.state.rooms roomId = some old ∧
          old.joiner.contact.has public_ family = true ∧
          next.submitter roomId public_ family = joined.submitter roomId public_ family) :
    next.Alone where
  quiet := quiet
  inside := inside
  oneJoiner roomId first second joins also :=
    alone.oneJoiner roomId first second (noMore first roomId joins) (noMore second roomId also)
  oneSubmitter := by
    intro roomId room found public_ family side other here there
    obtain ⟨old, wasFound, wasHere, same⟩ := filled roomId room found public_ family here
    obtain ⟨again, alsoFound, wasThere, alsoSame⟩ := filled roomId room found side other there
    rw [wasFound] at alsoFound
    cases Option.some.inj alsoFound
    rw [same, alsoSame]
    exact alone.oneSubmitter roomId old wasFound public_ family side other wasHere wasThere
  own := by
    intro roomId room found conn joins public_ family here
    obtain ⟨old, wasFound, wasHere, same⟩ := filled roomId room found public_ family here
    rw [same]
    exact alone.own roomId old wasFound conn (noMore conn roomId joins) public_ family wasHere

theorem Alone.inside_moved {joined : Joined Conn} (alone : joined.Alone) (conn : Conn)
    (state : State) (handler : Handler)
    (channels : joined.server.state.channels.length ≤ state.channels.length)
    (waits : ∀ roomId isCreator receiver, handler = .waiting roomId isCreator receiver →
      receiver < state.channels.length) :
    ∀ other roomId isCreator receiver,
      (joined.server.moved conn state handler).handlers other =
        .waiting roomId isCreator receiver → receiver < state.channels.length := by
  intro other roomId isCreator receiver waiting
  by_cases same : other = conn
  · rw [same, Server.moved_self] at waiting
    exact waits roomId isCreator receiver waiting
  · rw [Server.moved_other _ _ _ _ _ same] at waiting
    exact (alone.inside other roomId isCreator receiver waiting).trans_le channels

theorem noMore_moved (joined : Joined Conn) (conn : Conn) (state : State) (handler : Handler)
    (submitter : RoomId → Bool → Family → Option Conn)
    (bound : ∀ roomId, handler.bound = some (roomId, false) → joined.Joins conn roomId) :
    ∀ other roomId, Joins ⟨joined.server.moved conn state handler, submitter⟩ other roomId →
      joined.Joins other roomId := by
  intro other roomId joins
  rw [Joins] at joins
  by_cases same : other = conn
  · rw [same, Server.moved_self] at joins
    rw [same]
    exact bound roomId joins
  · rw [Server.moved_other _ _ _ _ _ same] at joins
    exact joins

omit [DecidableEq Conn] in
theorem filled_same (joined : Joined Conn) (roomId : RoomId) (room : Room)
    (found : joined.server.state.rooms roomId = some room) (public_ : Bool) (family : Family)
    (there : room.joiner.contact.has public_ family = true) :
    ∃ old, joined.server.state.rooms roomId = some old ∧
      old.joiner.contact.has public_ family = true ∧
      joined.submitter roomId public_ family = joined.submitter roomId public_ family :=
  ⟨room, found, there, rfl⟩

/-- A connection joins a room that nobody has joined. -/
theorem Alone.joins {joined : Joined Conn} (alone : joined.Alone) (conn : Conn)
    (roomId : RoomId) (room : Room) (found : joined.server.state.rooms roomId = some room)
    (nobody : ∀ other, ¬ joined.Joins other roomId)
    (empty : ∀ public_ family, room.joiner.contact.has public_ family = false) :
    Alone ⟨joined.server.moved conn joined.server.state (.serving roomId false),
      joined.submitter⟩ := by
  have joins : ∀ other id, Joins ⟨joined.server.moved conn joined.server.state
      (.serving roomId false), joined.submitter⟩ other id →
      (other = conn ∧ id = roomId) ∨ (id ≠ roomId ∧ joined.Joins other id) := by
    intro other id joins
    rw [Joins] at joins
    by_cases same : other = conn
    · rw [same, Server.moved_self] at joins
      cases Option.some.inj joins
      exact Or.inl ⟨same, rfl⟩
    · rw [Server.moved_other _ _ _ _ _ same] at joins
      right
      refine ⟨?_, joins⟩
      intro same
      subst same
      exact nobody other joins
  constructor
  · exact alone.quiet
  · exact alone.inside_moved conn _ _ le_rfl fun _ _ _ same => absurd same Handler.noConfusion
  · intro id first second firstJoins secondJoins
    rcases joins first id firstJoins with ⟨isFirst, same⟩ | ⟨different, before⟩
    · rcases joins second id secondJoins with ⟨isSecond, _⟩ | ⟨different, _⟩
      · rw [isFirst, isSecond]
      · exact absurd same different
    · rcases joins second id secondJoins with ⟨_, same⟩ | ⟨_, also⟩
      · exact absurd same different
      · exact alone.oneJoiner id first second before also
  · exact alone.oneSubmitter
  · intro id inside isInside other otherJoins public_ family there
    rcases joins other id otherJoins with ⟨_, same⟩ | ⟨_, before⟩
    · rw [same] at isInside
      cases Option.some.inj (isInside.symm.trans found)
      rw [empty] at there
      exact absurd there Bool.false_ne_true
    · exact alone.own id inside isInside other before public_ family there

theorem has_of_insert (contact : FullContact) (endpoint : SocketAddr) (inserted public_ : Bool)
    (family : Family) (there : (contact.insert endpoint inserted).has public_ family = true) :
    (public_ = inserted ∧ family = endpoint.family) ∨ contact.has public_ family = true := by
  cases public_ <;> cases inserted <;> cases endpoint <;> cases family <;>
    first | exact Or.inl ⟨rfl, rfl⟩ | exact Or.inr there

/-- The connection that has joined submits an endpoint. -/
theorem Alone.submits {joined : Joined Conn} (alone : joined.Alone) (conn : Conn)
    (roomId : RoomId) (room : Room) (endpoint : SocketAddr) (public_ : Bool) (handler : Handler)
    (found : joined.server.state.rooms roomId = some room) (joins : joined.Joins conn roomId)
    (bound : handler.bound = some (roomId, false))
    (quiet : (joined.server.state.put roomId
      (some (room.withEndpoint false endpoint public_))).Quiet)
    (notWaiting : ∀ id isCreator receiver, handler ≠ .waiting id isCreator receiver) :
    Alone ⟨joined.server.moved conn
      (joined.server.state.put roomId (some (room.withEndpoint false endpoint public_))) handler,
        joined.submit conn roomId false public_ endpoint⟩ := by
  have noMore := joined.noMore_moved conn
    (joined.server.state.put roomId (some (room.withEndpoint false endpoint public_))) handler
    (joined.submit conn roomId false public_ endpoint) (by
      intro id itsBound
      rw [bound] at itsBound
      cases Option.some.inj itsBound
      exact joins)
  -- the slots of this room are all this connection's
  have mine : ∀ side family,
      (room.joiner.contact.insert endpoint public_).has side family = true →
        joined.submit conn roomId false public_ endpoint roomId side family = some conn := by
    intro side family there
    rw [joined.submit_joiner found]
    by_cases new : side = public_ ∧ family = endpoint.family
    · exact if_pos ⟨rfl, new⟩
    · rw [if_neg fun all => new all.2]
      rcases has_of_insert _ _ _ _ _ there with isNew | old
      · exact absurd isNew new
      · exact alone.own roomId room found conn joins side family old
  have others : ∀ id, id ≠ roomId → ∀ side family,
      joined.submit conn roomId false public_ endpoint id side family =
        joined.submitter id side family := by
    intro id different side family
    rw [joined.submit_joiner found]
    exact if_neg fun all => different all.1
  constructor
  · exact quiet
  · exact alone.inside_moved conn _ _ le_rfl fun _ _ _ same => absurd same (notWaiting _ _ _)
  · intro id first second firstJoins secondJoins
    exact alone.oneJoiner id first second (noMore first id firstJoins)
      (noMore second id secondJoins)
  · intro id inside isInside side family other also here there
    rcases State.put_rooms_cases isInside with ⟨rfl, put⟩ | ⟨different, before⟩
    · cases Option.some.inj put
      exact ⟨conn, mine side family here, mine other also there⟩
    · simp only [others id different]
      exact alone.oneSubmitter id inside before side family other also here there
  · intro id inside isInside other otherJoins side family there
    have was := noMore other id otherJoins
    rcases State.put_rooms_cases isInside with ⟨rfl, put⟩ | ⟨different, before⟩
    · cases Option.some.inj put
      rw [alone.oneJoiner id other conn was joins]
      exact mine side family there
    · simp only [others id different]
      exact alone.own id inside before other was side family there

/-- An endpoint of a creator leaves the joiners as they are. -/
theorem Alone.creatorSubmits {joined : Joined Conn} (alone : joined.Alone) (conn : Conn)
    (roomId : RoomId) (room : Room) (endpoint : SocketAddr) (public_ : Bool) (handler : Handler)
    (found : joined.server.state.rooms roomId = some room)
    (bound : handler.bound = some (roomId, true))
    (quiet : (joined.server.state.put roomId
      (some (room.withEndpoint true endpoint public_))).Quiet)
    (notWaiting : ∀ id isCreator receiver, handler ≠ .waiting id isCreator receiver) :
    Alone ⟨joined.server.moved conn
      (joined.server.state.put roomId (some (room.withEndpoint true endpoint public_))) handler,
        joined.submitter⟩ := by
  apply alone.kept quiet
  · exact alone.inside_moved conn _ _ le_rfl fun _ _ _ same => absurd same (notWaiting _ _ _)
  · apply joined.noMore_moved conn
    intro id itsBound
    rw [bound] at itsBound
    exact absurd (congrArg Prod.snd (Option.some.inj itsBound)) Bool.noConfusion
  · intro id inside isInside side family there
    rcases State.put_rooms_cases isInside with ⟨rfl, put⟩ | ⟨_, before⟩
    · cases Option.some.inj put
      exact ⟨room, found, there, rfl⟩
    · exact ⟨inside, before, there, rfl⟩

/-- A connection submits an endpoint to the room it is bound to. -/
theorem Alone.updates {joined : Joined Conn} (alone : joined.Alone) {conn : Conn}
    {roomId : RoomId} {isCreator : Bool} {room : Room} (endpoint : SocketAddr) (public_ : Bool)
    {handler : Handler} (found : joined.server.state.rooms roomId = some room)
    (was : (joined.server.handlers conn).bound = some (roomId, isCreator))
    (bound : handler.bound = some (roomId, isCreator))
    (quiet : (joined.server.state.put roomId
      (some (room.withEndpoint isCreator endpoint public_))).Quiet)
    (notWaiting : ∀ id role receiver, handler ≠ .waiting id role receiver) :
    Alone ⟨joined.server.moved conn
      (joined.server.state.put roomId (some (room.withEndpoint isCreator endpoint public_)))
        handler, joined.submit conn roomId isCreator public_ endpoint⟩ := by
  cases isCreator with
  | true =>
      rw [submit_creator]
      exact alone.creatorSubmits conn roomId room endpoint public_ handler found bound quiet
        notWaiting
  | false =>
      exact alone.submits conn roomId room endpoint public_ handler found was bound quiet notWaiting

/-- A room that is made has no joiner. -/
theorem Alone.creates {joined : Joined Conn} (alone : joined.Alone) (conn : Conn)
    (roomId : RoomId) {handler : Handler}
    (goesOn : handler = .serving roomId true ∨ handler = .ended)
    (quiet : (joined.server.state.withRoom roomId).Quiet) :
    Alone ⟨joined.server.moved conn (joined.server.state.withRoom roomId) handler,
      Function.update joined.submitter roomId fun _ _ => none⟩ := by
  refine alone.kept quiet ?_ ?_ ?_
  · apply alone.inside_moved conn _ _ le_rfl
    intro id isCreator receiver same
    rcases goesOn with rfl | rfl
    · exact absurd same Handler.noConfusion
    · exact absurd same Handler.noConfusion
  · apply joined.noMore_moved conn
    intro id bound
    rcases goesOn with rfl | rfl
    · exact absurd (congrArg Prod.snd (Option.some.inj bound)) Bool.noConfusion
    · exact absurd bound (Option.some_ne_none _).symm
  · intro id room found side family there
    rcases State.put_rooms_cases found with ⟨rfl, put⟩ | ⟨different, before⟩
    · cases Option.some.inj put
      have nothing : (Room.default.joiner.contact).has side family = false := by
        cases side <;> cases family <;> rfl
      rw [nothing] at there
      exact absurd there Bool.false_ne_true
    · exact ⟨room, before, there, congrFun (congrFun (Function.update_of_ne different ..) _) _⟩

/-- The step lemma. -/
theorem Alone.step {joined next : Joined Conn} (alone : joined.Alone)
    (event : ServerEvent Conn) (unjoined : joined.JoinsUnjoined event)
    (run : joined.step event = some next) : next.Alone := by
  obtain ⟨server, stepped, rfl⟩ := Option.map_eq_some_iff.mp run
  have quiet := Server.step_quiet alone.quiet event stepped
  cases Server.respond_cases alone.quiet event stepped with
  | ended _ conn its misses =>
      rw [joined.record_missed event misses]
      refine alone.kept quiet ?_ ?_ ?_
      · exact alone.inside_moved conn _ _ le_rfl fun _ _ _ same => absurd same Handler.noConfusion
      · exact joined.noMore_moved conn _ _ _ fun _ bound =>
          absurd bound (Option.some_ne_none _).symm
      · exact joined.filled_same
  | created conn peerAddr draws sent roomId handler starting drawn goesOn =>
      have recorded : joined.record (.receive conn peerAddr (.ok .createRoom) draws sent) =
          Function.update joined.submitter roomId fun _ _ => none := by
        simp only [record, starting, drawn]
      rw [recorded]
      exact alone.creates conn roomId goesOn quiet
  | joined conn peerAddr draws roomId starting there =>
      have recorded : joined.record (.receive conn peerAddr (.ok (.joinRoom roomId)) draws true) =
          joined.submitter := by
        simp only [record, starting]
      rw [recorded]
      obtain ⟨room, found⟩ := Option.isSome_iff_exists.mp there
      obtain ⟨nobody, empty⟩ := unjoined starting rfl room found
      exact alone.joins conn roomId room found nobody empty
  | updatedPublic conn peer privateAddr draws sent roomId isCreator room handler serving found
      goesOn =>
      have recorded : joined.record
          (.receive conn (some peer) (.ok (.sendPrivateAddr privateAddr)) draws sent) =
            joined.submit conn roomId isCreator true peer := by
        simp only [record, serving]
      have was := congrArg Handler.bound serving
      rw [recorded]
      rcases goesOn with rfl | ⟨addr, rfl⟩
      · exact alone.updates peer true found was rfl quiet fun _ _ _ => Handler.noConfusion
      · exact alone.updates peer true found was rfl quiet fun _ _ _ => Handler.noConfusion
  | updatedPrivate conn sent roomId isCreator addr room updating found =>
      have recorded : joined.record (.proceed conn sent) =
          joined.submit conn roomId isCreator false addr := by
        simp only [record, updating]
      rw [recorded]
      exact alone.updates addr false found (congrArg Handler.bound updating) rfl quiet
        fun _ _ _ => Handler.noConfusion
  | isDone conn peerAddr draws sent roomId isCreator room serving found =>
      have recorded : joined.record (.receive conn peerAddr (.ok .doneSending) draws sent) =
          joined.submitter := by
        simp only [record, serving]
      rw [recorded]
      refine alone.kept quiet ?_ ?_ ?_
      · apply alone.inside_moved conn
        · simp
        · intro id role receiver same
          cases same
          simp
      · apply joined.noMore_moved conn
        intro id bound
        exact (congrArg Handler.bound serving).trans bound
      · exact joined.filled_same
  | timedOut place roomId timer =>
      refine alone.kept quiet alone.inside (fun _ _ joins => joins) ?_
      intro id room found side family there
      rcases State.put_rooms_cases found with ⟨_, put⟩ | ⟨_, before⟩
      · exact absurd put (Option.some_ne_none room).symm
      · exact ⟨room, before, there, rfl⟩

omit [DecidableEq Conn] in
theorem Alone.receivers {joined : Joined Conn} (alone : joined.Alone) {conn : Conn}
    {roomId : RoomId} {isCreator : Bool} {receiver : Nat} {next : State}
    (waiting : joined.server.handlers conn = .waiting roomId isCreator receiver)
    (grows : joined.server.state.channels <+: next.channels) :
    status next.channels receiver = status joined.server.state.channels receiver := by
  obtain ⟨more, same⟩ := grows
  rw [← same]
  exact List.getElem?_append_left (alone.inside conn roomId isCreator receiver waiting)

theorem Alone.noneDisplaced {joined : Joined Conn} (alone : joined.Alone) :
    joined.NoneDisplaced := by
  intro event next stepped conn roomId isCreator receiver waiting
  apply alone.receivers waiting
  cases Server.respond_cases alone.quiet event stepped with
  | isDone mover peerAddr draws sent id role room serving found => exact List.prefix_append _ _
  | ended _ mover its misses => exact List.prefix_refl _
  | created mover peerAddr draws sent id handler starting drawn goesOn => exact List.prefix_refl _
  | joined mover peerAddr draws id starting there => exact List.prefix_refl _
  | updatedPublic mover peer privateAddr draws sent id role room handler serving found goesOn =>
      exact List.prefix_refl _
  | updatedPrivate mover sent id role addr room updating found => exact List.prefix_refl _
  | timedOut place id timer => exact List.prefix_refl _

/-- A room holds two clients in every state of every run in which nobody joins a room that
somebody else has joined. -/
theorem two_clients (events : List (ServerEvent Conn)) (final : Joined Conn)
    (run : RunsWithin step JoinsUnjoined initial events final) : final.TwoClients := by
  have alone : final.Alone :=
    run.invariant Alone (fun _ event _ unjoined alone => alone.step event unjoined) initial_alone
  exact ⟨alone.oneJoiner, alone.oneSubmitter, alone.noneDisplaced⟩

/-- A creator and one joiner, who sends its address and is done. -/
theorem one_joiner :
    ∃ final : Joined Bool, RunsWithin step JoinsUnjoined initial [
      .receive false none (.ok .createRoom) [7] true,
      .receive true none (.ok (.joinRoom 7)) [] true,
      .receive true (some (.v4 ⟨⟨[127, 0, 0, 1], rfl⟩, 50001⟩))
        (.ok (.sendPrivateAddr (some (.v4 ⟨⟨[10, 0, 0, 1], rfl⟩, 50001⟩)))) [] true,
      .proceed true true,
      .receive true (some (.v4 ⟨⟨[127, 0, 0, 1], rfl⟩, 50001⟩)) (.ok .doneSending) [] true]
        final ∧ final.TwoClients := by
  obtain ⟨final, ran⟩ : ∃ final : Joined Bool, runInputs step [
      .receive false none (.ok .createRoom) [7] true,
      .receive true none (.ok (.joinRoom 7)) [] true,
      .receive true (some (.v4 ⟨⟨[127, 0, 0, 1], rfl⟩, 50001⟩))
        (.ok (.sendPrivateAddr (some (.v4 ⟨⟨[10, 0, 0, 1], rfl⟩, 50001⟩)))) [] true,
      .proceed true true,
      .receive true (some (.v4 ⟨⟨[127, 0, 0, 1], rfl⟩, 50001⟩)) (.ok .doneSending) [] true]
        initial = some final := ⟨_, rfl⟩
  obtain ⟨created, first, joins⟩ := (runInputs_cons ..).mp ran
  obtain ⟨joined, second, others⟩ := (runInputs_cons ..).mp joins
  have creator : some (.serving 7 true) = some (created.server.handlers false) :=
    congrArg (Option.map fun joined : Joined Bool => joined.server.handlers false) first
  have starts : some .starting = some (created.server.handlers true) :=
    congrArg (Option.map fun joined : Joined Bool => joined.server.handlers true) first
  have stored : some (some .default) = some (created.server.state.rooms 7) :=
    congrArg (Option.map fun joined : Joined Bool => joined.server.state.rooms 7) first
  have permitted : created.JoinsUnjoined (.receive true none (.ok (.joinRoom 7)) [] true) := by
    intro _ _ room found
    rw [← Option.some.inj stored] at found
    cases Option.some.inj found
    constructor
    · intro other joins
      rw [Joins] at joins
      cases other with
      | false =>
          rw [← Option.some.inj creator] at joins
          exact absurd (congrArg Prod.snd (Option.some.inj joins)) Bool.noConfusion
      | true =>
          rw [← Option.some.inj starts] at joins
          exact absurd joins (Option.some_ne_none _).symm
    · intro public_ family
      cases public_ <;> cases family <;> rfl
  have later := @RunsWithin.of_run _ _ step JoinsUnjoined _ joined final (fun event member state => by
    simp only [List.mem_cons, List.not_mem_nil, or_false] at member
    rcases member with rfl | rfl | rfl <;> trivial) others
  have run := RunsWithin.cons _ _ _ _ _ trivial first (.cons _ _ _ _ _ permitted second later)
  exact ⟨final, run, two_clients _ final run⟩

/-- A second client joins the room, and either sends an address. -/
theorem two_joiners :
    ∃ final : Joined Nat, runInputs step [
        .receive 0 none (.ok .createRoom) [7] true,
        .receive 1 none (.ok (.joinRoom 7)) [] true,
        .receive 2 none (.ok (.joinRoom 7)) [] true,
        .receive 1 (some (.v4 ⟨⟨[127, 0, 0, 1], rfl⟩, 50001⟩))
          (.ok (.sendPrivateAddr none)) [] true,
        .receive 2 (some (.v6 ⟨⟨List.replicate 16 0, rfl⟩, 50002, 0, 0⟩))
          (.ok (.sendPrivateAddr none)) [] true] initial = some final ∧
      ¬ final.OneJoiner ∧ ¬ final.OneSubmitter := by
  obtain ⟨final, run⟩ : ∃ final : Joined Nat, runInputs step [
      .receive 0 none (.ok .createRoom) [7] true,
      .receive 1 none (.ok (.joinRoom 7)) [] true,
      .receive 2 none (.ok (.joinRoom 7)) [] true,
      .receive 1 (some (.v4 ⟨⟨[127, 0, 0, 1], rfl⟩, 50001⟩))
        (.ok (.sendPrivateAddr none)) [] true,
      .receive 2 (some (.v6 ⟨⟨List.replicate 16 0, rfl⟩, 50002, 0, 0⟩))
        (.ok (.sendPrivateAddr none)) [] true] initial = some final := ⟨_, rfl⟩
  have bindings : some (some (7, false), some (7, false)) =
      some ((final.server.handlers 1).bound, (final.server.handlers 2).bound) :=
    congrArg (Option.map fun joined : Joined Nat =>
      ((joined.server.handlers 1).bound, (joined.server.handlers 2).bound)) run
  have filled : some (some (true, true)) = some ((final.server.state.rooms 7).map fun room =>
      (room.joiner.contact.has true .v4, room.joiner.contact.has true .v6)) :=
    congrArg (Option.map fun joined : Joined Nat =>
      (joined.server.state.rooms 7).map fun room : Room =>
        (room.joiner.contact.has true .v4, room.joiner.contact.has true .v6)) run
  have submitters : some (some 1, some 2) =
      some (final.submitter 7 true .v4, final.submitter 7 true .v6) :=
    congrArg (Option.map fun joined : Joined Nat =>
      (joined.submitter 7 true .v4, joined.submitter 7 true .v6)) run
  refine ⟨final, run, ?_, ?_⟩
  · intro oneJoiner
    have first : final.Joins 1 7 := (congrArg Prod.fst (Option.some.inj bindings)).symm
    have second : final.Joins 2 7 := (congrArg Prod.snd (Option.some.inj bindings)).symm
    exact absurd (oneJoiner 7 1 2 first second) (by decide)
  · intro oneSubmitter
    obtain ⟨room, found, both⟩ := Option.map_eq_some_iff.mp (Option.some.inj filled).symm
    obtain ⟨conn, here, there⟩ := oneSubmitter 7 room found true .v4 true .v6
      (congrArg Prod.fst both) (congrArg Prod.snd both)
    have isFirst := (congrArg Prod.fst (Option.some.inj submitters)).trans here
    have isSecond := (congrArg Prod.snd (Option.some.inj submitters)).trans there
    rw [← Option.some.inj isFirst] at isSecond
    exact absurd (Option.some.inj isSecond) (by decide)

end Joined

end Gday.HolePunch
