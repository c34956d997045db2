import Gday.HolePunch.RoomTimers

/-! # Rooms do not interfere

The run that makes only the calls for one room has the same room and gives the same
results, and the slots of a room hold what was last submitted to them. -/
set_option autoImplicit false
namespace Gday.HolePunch

open Gday.Lib.Machine Gday.Lib.OneShot

/-! ## The run for one room -/

/-- The call as the run for one room makes it; none if it is for another room.  Of the draws
of `create_room` those of this id are left, and a timer is counted among those of this id. -/
def addressed (roomId : RoomId) (state : State) : Call → Option Call
  | .createRoom draws =>
      if drawRoomId state.rooms draws = some roomId then
        some (.createRoom (draws.filter fun draw => UInt32.ofNat draw.val == roomId))
      else none
  | .updateClient id isCreator endpoint public_ =>
      if id = roomId then some (.updateClient id isCreator endpoint public_) else none
  | .setClientDone id isCreator => if id = roomId then some (.setClientDone id isCreator) else none
  | .roomTimeout place =>
      if state.timers[place]? = some roomId then
        some (.roomTimeout (((state.timers.take place).filter (· == roomId)).length))
      else none

/-- The calls for the room, in the run that starts in this state. -/
def restrict (roomId : RoomId) : State → List Call → List Call
  | _, [] => []
  | state, call :: rest =>
      match state.step call with
      | none => []
      | some next => (addressed roomId state call).toList ++ restrict roomId next rest

/-- The answers to the calls that are counted. -/
def answers (counted : State → Call → Bool) : State → List Call → List Answer
  | _, [] => []
  | state, call :: rest =>
      match state.respond call with
      | none => []
      | some (answer, next) =>
          (if counted state call then [answer] else []) ++ answers counted next rest

theorem restrict_cons {roomId : RoomId} {state next : State} {call : Call} (rest : List Call)
    (stepped : state.step call = some next) :
    restrict roomId state (call :: rest) =
      (addressed roomId state call).toList ++ restrict roomId next rest := by
  rw [restrict, stepped]

theorem answers_cons (counted : State → Call → Bool) {state next : State} {call : Call}
    {answer : Answer} (rest : List Call) (responded : state.respond call = some (answer, next)) :
    answers counted state (call :: rest) =
      (if counted state call then [answer] else []) ++ answers counted next rest := by
  rw [answers, responded]

/-- What a caller sees: of a receiver, what has come of its channel. -/
inductive Result where
  | roomId (roomId : RoomId)
  | done
  | contacts (channel : Option (Channel (FullContact × FullContact)))
  | noSuchRoomId
  deriving DecidableEq

def Answer.result (channels : Channels (FullContact × FullContact)) : Answer → Result
  | .roomId id => .roomId id
  | .done => .done
  | .receiver name => .contacts (status channels name)
  | .noSuchRoomId => .noSuchRoomId

/-! ## The simulation -/

/-- The run for one room keeps up with the whole one. -/
structure State.Isolated (roomId : RoomId) (state alone : State) : Prop where
  quiet : state.Quiet
  quietAlone : alone.Quiet
  room : alone.rooms roomId = state.rooms roomId
  timers : alone.timers = state.timers.filter (· == roomId)

/-- One answer, or two receivers whose channels are closed. -/
def SameAnswer (state alone : State) (answer answerAlone : Answer) : Prop :=
  (answer = answerAlone ∧ ∀ name, answer ≠ .receiver name) ∨ ∃ name nameAlone,
    answer = .receiver name ∧ answerAlone = .receiver nameAlone ∧
      status state.channels name = some .closed ∧ status alone.channels nameAlone = some .closed

theorem State.empty_isolated (roomId : RoomId) : State.Isolated roomId .empty .empty :=
  ⟨empty_quiet, empty_quiet, rfl, rfl⟩

theorem State.Isolated.other {roomId : RoomId} {state alone next : State}
    (isolated : state.Isolated roomId alone) (quiet : next.Quiet)
    (room : next.rooms roomId = state.rooms roomId)
    (timers : next.timers.filter (· == roomId) = state.timers.filter (· == roomId)) :
    next.Isolated roomId alone :=
  ⟨quiet, isolated.quietAlone, isolated.room.trans room.symm, isolated.timers.trans timers.symm⟩

theorem drawRoomId_filter (roomId : RoomId) (state alone : State) (draws : List (Fin 1048576))
    (drawn : drawRoomId state.rooms draws = some roomId) (free : alone.rooms roomId = none) :
    drawRoomId alone.rooms (draws.filter fun draw => UInt32.ofNat draw.val == roomId) =
      some roomId := by
  induction draws with
  | nil => exact absurd drawn (Option.some_ne_none roomId).symm
  | cons draw rest ih =>
      by_cases own : UInt32.ofNat draw.val = roomId
      · rw [List.filter_cons_of_pos (by simpa using own), drawRoomId, own, free]
        rfl
      · rw [List.filter_cons_of_neg (by simpa using own)]
        apply ih
        rw [drawRoomId] at drawn
        by_cases taken : (state.rooms (UInt32.ofNat draw.val)).isSome = true
        · simpa only [taken, if_true] using drawn
        · simp only [if_neg taken, Option.some.injEq] at drawn
          exact absurd drawn own

/-- The timer of this id is found in its place among those of this id. -/
theorem filter_timers (roomId : RoomId) (timers : List RoomId) (place : Nat)
    (timer : timers[place]? = some roomId) :
    let inside := ((timers.take place).filter (· == roomId)).length
    (timers.filter (· == roomId))[inside]? = some roomId ∧
      (timers.filter (· == roomId)).eraseIdx inside =
        (timers.eraseIdx place).filter (· == roomId) := by
  induction timers generalizing place with
  | nil => exact absurd timer (Option.some_ne_none roomId).symm
  | cons first timers ih =>
      cases place with
      | zero =>
          cases Option.some.inj timer
          simp
      | succ place =>
          have rest := ih place timer
          cases own : first == roomId with
          | true =>
              simp only [List.take_succ_cons, List.filter_cons, own, if_true, List.length_cons,
                List.getElem?_cons_succ, List.eraseIdx_cons_succ]
              exact ⟨rest.1, congrArg (first :: ·) rest.2⟩
          | false =>
              simp only [List.take_succ_cons, List.filter_cons, own, Bool.false_eq_true, if_false,
                List.eraseIdx_cons_succ]
              exact rest

theorem filter_eraseIdx_other (roomId other : RoomId) (timers : List RoomId) (place : Nat)
    (timer : timers[place]? = some other) (different : other ≠ roomId) :
    (timers.eraseIdx place).filter (· == roomId) = timers.filter (· == roomId) := by
  induction timers generalizing place with
  | nil => rfl
  | cons first timers ih =>
      cases place with
      | zero =>
          cases Option.some.inj timer
          have notOwn : (other == roomId) = false := by simpa using different
          simp only [List.eraseIdx_cons_zero, List.filter_cons, notOwn, Bool.false_eq_true,
            if_false]
      | succ place => simp only [List.eraseIdx_cons_succ, List.filter_cons, ih place timer]

/-- A call for another room leaves this one as it is. -/
theorem State.Isolated.skip {roomId : RoomId} {state alone next : State} {call : Call}
    {answer : Answer} (isolated : state.Isolated roomId alone)
    (run : state.respond call = some (answer, next))
    (elsewhere : addressed roomId state call = none) : next.Isolated roomId alone := by
  have quiet := isolated.quiet.respond run
  cases isolated.quiet.respond_cases call run with
  | created draws id drawn free =>
      have different : id ≠ roomId := by
        intro same
        subst same
        rw [addressed, if_pos drawn] at elsewhere
        exact absurd elsewhere (Option.some_ne_none _)
      apply isolated.other quiet (State.put_rooms_other state id roomId _ different.symm)
      have notOwn : (id == roomId) = false := by simpa using different
      exact (List.filter_append ..).trans (by simp [notOwn])
  | updated id isCreator endpoint public_ room found =>
      have different : id ≠ roomId := by
        intro same
        rw [addressed, if_pos same] at elsewhere
        exact absurd elsewhere (Option.some_ne_none _)
      exact isolated.other quiet (State.put_rooms_other state id roomId _ different.symm) rfl
  | updateMissed id isCreator endpoint public_ missing => exact isolated
  | isDone id isCreator room found => exact isolated.other quiet rfl rfl
  | doneMissed id isCreator missing => exact isolated
  | timedOut place id timer =>
      have different : id ≠ roomId := by
        intro same
        subst same
        rw [addressed, if_pos timer] at elsewhere
        exact absurd elsewhere (Option.some_ne_none _)
      exact isolated.other quiet (State.put_rooms_other state id roomId _ different.symm)
        (filter_eraseIdx_other roomId id state.timers place timer different)

/-- A call for this room has the same effect and the same answer in the run for one room. -/
theorem State.Isolated.keepUp {roomId : RoomId} {state alone next : State} {call own : Call}
    {answer : Answer} (isolated : state.Isolated roomId alone)
    (run : state.respond call = some (answer, next))
    (here : addressed roomId state call = some own) :
    ∃ answerAlone nextAlone, alone.respond own = some (answerAlone, nextAlone) ∧
      next.Isolated roomId nextAlone ∧ SameAnswer next nextAlone answer answerAlone := by
  have quiet := isolated.quiet.respond run
  cases isolated.quiet.respond_cases call run with
  | created draws id drawn free =>
      by_cases same : id = roomId
      · subst same
        rw [addressed, if_pos drawn] at here
        cases Option.some.inj here
        have ran : alone.respond (.createRoom (draws.filter fun draw =>
            UInt32.ofNat draw.val == id)) = some (.roomId id, alone.withRoom id) := by
          rw [State.respond, State.createRoom,
            drawRoomId_filter id state alone draws drawn (isolated.room.trans free)]
          rfl
        refine ⟨_, _, ran, ⟨quiet, isolated.quietAlone.respond ran, ?_, ?_⟩, Or.inl ⟨rfl, by simp⟩⟩
        · exact (State.put_rooms_self ..).trans (State.put_rooms_self ..).symm
        · refine (congrArg (· ++ [id]) isolated.timers).trans ?_
          exact ((List.filter_append ..).trans (by simp)).symm
      · rw [addressed, if_neg (by rw [drawn]; simpa using same)] at here
        exact absurd here (Option.some_ne_none _).symm
  | updated id isCreator endpoint public_ room found =>
      obtain ⟨same, made⟩ := Option.ite_none_right_eq_some.mp here
      subst same
      cases Option.some.inj made
      have ran : alone.respond (.updateClient id isCreator endpoint public_) =
          some (.done, alone.put id (some (room.modifyClient isCreator fun client =>
            { client with contact := client.contact.insert endpoint public_ }))) := by
        rw [State.respond, State.updateClient_found (isolated.room.trans found)]
      refine ⟨_, _, ran, ⟨quiet, isolated.quietAlone.respond ran, ?_, isolated.timers⟩,
        Or.inl ⟨rfl, by simp⟩⟩
      exact (State.put_rooms_self ..).trans (State.put_rooms_self ..).symm
  | updateMissed id isCreator endpoint public_ missing =>
      obtain ⟨same, made⟩ := Option.ite_none_right_eq_some.mp here
      subst same
      cases Option.some.inj made
      have ran : alone.respond (.updateClient id isCreator endpoint public_) =
          some (.noSuchRoomId, alone) := by
        rw [State.respond, State.updateClient, isolated.room, missing]
        rfl
      exact ⟨_, _, ran, isolated, Or.inl ⟨rfl, by simp⟩⟩
  | isDone id isCreator room found =>
      obtain ⟨same, made⟩ := Option.ite_none_right_eq_some.mp here
      subst same
      cases Option.some.inj made
      have ran : alone.respond (.setClientDone id isCreator) =
          some (.receiver alone.channels.length,
            { alone with channels := alone.channels ++ [.closed] }) := by
        rw [State.respond, isolated.quietAlone.setClientDone, isolated.room, found]
        rfl
      refine ⟨_, _, ran, ⟨quiet, isolated.quietAlone.respond ran, isolated.room,
        isolated.timers⟩, ?_⟩
      exact Or.inr ⟨_, _, rfl, rfl, by simp [status], by simp [status]⟩
  | doneMissed id isCreator missing =>
      obtain ⟨same, made⟩ := Option.ite_none_right_eq_some.mp here
      subst same
      cases Option.some.inj made
      have ran : alone.respond (.setClientDone id isCreator) = some (.noSuchRoomId, alone) := by
        rw [State.respond, isolated.quietAlone.setClientDone, isolated.room, missing]
        rfl
      exact ⟨_, _, ran, isolated, Or.inl ⟨rfl, by simp⟩⟩
  | timedOut place id timer =>
      obtain ⟨same, made⟩ := Option.ite_none_right_eq_some.mp here
      rw [timer] at same
      cases Option.some.inj same
      cases Option.some.inj made
      obtain ⟨found, left_⟩ := filter_timers roomId state.timers place timer
      have ran : alone.respond (.roomTimeout
          ((state.timers.take place).filter (· == roomId)).length) =
            some (.done, { alone.put roomId none with
              timers := alone.timers.eraseIdx
                ((state.timers.take place).filter (· == roomId)).length }) := by
        rw [State.respond, State.roomTimeout, isolated.timers, found]
        simp only [Option.bind_eq_bind, Option.bind_some, isolated.quietAlone.removeRoom_eq]
        rfl
      refine ⟨_, _, ran, ⟨quiet, isolated.quietAlone.respond ran, ?_, ?_⟩, Or.inl ⟨rfl, by simp⟩⟩
      · exact (State.put_rooms_self ..).trans (State.put_rooms_self ..).symm
      · have erased := congrArg (fun timers : List RoomId =>
          timers.eraseIdx ((state.timers.take place).filter (· == roomId)).length) isolated.timers
        exact erased.trans left_

/-! ## Whole runs -/

/-- Channels are added, and never change. -/
theorem State.Quiet.channels_grow {state final : State} (quiet : state.Quiet) (calls : List Call)
    (run : state.run calls = some final) : state.channels <+: final.channels := by
  induction calls generalizing state with
  | nil =>
      cases Option.some.inj run
      exact List.prefix_refl _
  | cons call rest ih =>
      obtain ⟨next, stepped, restRun⟩ := Option.bind_eq_some_iff.mp run
      refine List.IsPrefix.trans ?_ (ih (quiet.step call stepped) restRun)
      obtain ⟨⟨answer, after⟩, responded, rfl⟩ := Option.map_eq_some_iff.mp stepped
      cases quiet.respond_cases call responded with
      | isDone roomId isCreator room found => exact List.prefix_append _ _
      | created draws roomId drawn free => exact List.prefix_refl _
      | updated roomId isCreator endpoint public_ room found => exact List.prefix_refl _
      | updateMissed roomId isCreator endpoint public_ missing => exact List.prefix_refl _
      | doneMissed roomId isCreator missing => exact List.prefix_refl _
      | timedOut place roomId timer => exact List.prefix_refl _

theorem status_grows {channels later : Channels (FullContact × FullContact)}
    (grows : channels <+: later) (name : Nat) (channel : Channel (FullContact × FullContact))
    (now : status channels name = some channel) : status later name = some channel := by
  obtain ⟨more, rfl⟩ := grows
  have inside : name < channels.length := (List.getElem?_eq_some_iff.mp now).1
  exact (List.getElem?_append_left inside).trans now

theorem SameAnswer.result {state alone : State} {answer answerAlone : Answer}
    (same : SameAnswer state alone answer answerAlone)
    {later laterAlone : Channels (FullContact × FullContact)}
    (grows : state.channels <+: later) (growsAlone : alone.channels <+: laterAlone) :
    answer.result later = answerAlone.result laterAlone := by
  rcases same with ⟨rfl, notReceiver⟩ | ⟨name, nameAlone, rfl, rfl, closed, closedAlone⟩
  · cases answer with
    | receiver name => exact absurd rfl (notReceiver name)
    | roomId id => rfl
    | done => rfl
    | noSuchRoomId => rfl
  · have here := status_grows grows name _ closed
    have there := status_grows growsAlone nameAlone _ closedAlone
    exact congrArg Result.contacts (here.trans there.symm)

/-- The two runs go on side by side. -/
theorem State.Isolated.run {roomId : RoomId} {state alone final : State}
    (isolated : state.Isolated roomId alone) (calls : List Call)
    (run : state.run calls = some final) :
    ∃ finalAlone, alone.run (restrict roomId state calls) = some finalAlone ∧
      final.Isolated roomId finalAlone ∧
      (answers (fun state call => (addressed roomId state call).isSome) state calls).map
          (Answer.result final.channels) =
        (answers (fun _ _ => true) alone (restrict roomId state calls)).map
          (Answer.result finalAlone.channels) := by
  induction calls generalizing state alone with
  | nil =>
      cases Option.some.inj run
      exact ⟨alone, rfl, isolated, rfl⟩
  | cons call rest ih =>
      obtain ⟨next, stepped, restRun⟩ := Option.bind_eq_some_iff.mp run
      obtain ⟨⟨answer, after⟩, responded, rfl⟩ := Option.map_eq_some_iff.mp stepped
      rw [restrict_cons rest stepped, answers_cons _ rest responded]
      cases here : addressed roomId state call with
      | none => exact ih (isolated.skip responded here) restRun
      | some own =>
          obtain ⟨answerAlone, nextAlone, ran, keeps, same⟩ := isolated.keepUp responded here
          obtain ⟨finalAlone, runAlone, ends, results⟩ := ih keeps restRun
          have steppedAlone := State.step_of_respond ran
          have firstResult := same.result (keeps.quiet.channels_grow rest restRun)
            (keeps.quietAlone.channels_grow _ runAlone)
          refine ⟨finalAlone, ?_, ends, ?_⟩
          · unfold State.run
            rw [Option.toList_some, List.singleton_append, runInputs, steppedAlone]
            exact runAlone
          · rw [Option.toList_some, List.singleton_append, answers_cons _ _ ran]
            exact congrArg₂ List.cons firstResult results

/-! ## What the slots hold -/

def Contact.slot (contact : Contact) : Family → Option SocketAddr
  | .v6 => contact.v6.map .v6
  | .v4 => contact.v4.map .v4

def FullContact.slot (contact : FullContact) (public_ : Bool) (family : Family) :
    Option SocketAddr :=
  if public_ then contact.public_.slot family else contact.private_.slot family

theorem FullContact.slot_insert (contact : FullContact) (endpoint : SocketAddr)
    (inserted public_ : Bool) (family : Family) :
    (contact.insert endpoint inserted).slot public_ family =
      if inserted = public_ ∧ endpoint.family = family then some endpoint
      else contact.slot public_ family := by
  cases inserted <;> cases public_ <;> cases endpoint <;> cases family <;> rfl

/-- The endpoint that a call submits for this slot. -/
def submitted (roomId : RoomId) (isCreator public_ : Bool) (family : Family) :
    Call → Option SocketAddr
  | .updateClient id role endpoint side =>
      if id = roomId ∧ role = isCreator ∧ side = public_ ∧ endpoint.family = family then
        some endpoint
      else none
  | _ => none

/-- The calls of a run since its room was created, and that the slots are theirs. -/
structure SinceCreated (calls : List Call) (final : State) (roomId : RoomId) (room : Room) where
  before : List Call
  draws : List (Fin 1048576)
  after : List Call
  split : calls = before ++ .createRoom draws :: after
  atStart : State
  reached : State.empty.run before = some atStart
  created : State
  creates : atStart.createRoom draws = some (roomId, created)
  continued : created.run after = some final
  stays : ∀ start, start <+: after → ∀ state, created.run start = some state →
    (state.rooms roomId).isSome
  slots : ∀ isCreator public_ family,
    (room.getClient isCreator).contact.slot public_ family =
      (after.filterMap (submitted roomId isCreator public_ family)).getLast?

theorem State.run_snoc {state middle : State} {calls : List Call} (call : Call)
    (run : state.run calls = some middle) : state.run (calls ++ [call]) = middle.step call := by
  unfold State.run at run ⊢
  rw [runInputs_append, run, Option.bind_some, runInputs]
  cases middle.step call <;> rfl

/-- A call that leaves the room there: the slots change by what it submits. -/
theorem SinceCreated.snoc {calls : List Call} {state next : State} {roomId : RoomId}
    {room last : Room} (since : SinceCreated calls state roomId room) (call : Call)
    (stepped : state.step call = some next) (there : next.rooms roomId = some last)
    (slots : ∀ isCreator public_ family,
      (last.getClient isCreator).contact.slot public_ family =
        (submitted roomId isCreator public_ family call).or
          ((room.getClient isCreator).contact.slot public_ family)) :
    Nonempty (SinceCreated (calls ++ [call]) next roomId last) := by
  have continued : since.created.run (since.after ++ [call]) = some next :=
    (State.run_snoc call since.continued).trans stepped
  refine ⟨{ since with
    after := since.after ++ [call]
    split := (congrArg (· ++ [call]) since.split).trans (by simp)
    continued := continued
    stays := ?_
    slots := ?_ }⟩
  · intro start isStart middle ran
    rcases List.prefix_concat_iff.mp isStart with rfl | earlier
    · rw [continued] at ran
      cases Option.some.inj ran
      rw [there]
      rfl
    · exact since.stays start earlier middle ran
  · intro isCreator public_ family
    rw [slots, since.slots, List.filterMap_append, List.getLast?_append]
    cases found : submitted roomId isCreator public_ family call <;> simp [found]

theorem slots_untouched {roomId : RoomId} {room : Room} (call : Call)
    (notUpdate : ∀ role endpoint side, call ≠ .updateClient roomId role endpoint side)
    (isCreator public_ : Bool) (family : Family) :
    (room.getClient isCreator).contact.slot public_ family =
      (submitted roomId isCreator public_ family call).or
        ((room.getClient isCreator).contact.slot public_ family) := by
  have nothing : submitted roomId isCreator public_ family call = none := by
    cases call with
    | updateClient id role endpoint side =>
        apply if_neg
        rintro ⟨rfl, -⟩
        exact notUpdate role endpoint side rfl
    | createRoom draws => rfl
    | setClientDone id role => rfl
    | roomTimeout place => rfl
  rw [nothing]
  rfl

theorem slots_updated (roomId : RoomId) (room : Room) (role side : Bool) (endpoint : SocketAddr)
    (isCreator public_ : Bool) (family : Family) :
    ((room.modifyClient role fun client =>
        { client with contact := client.contact.insert endpoint side }).getClient
          isCreator).contact.slot public_ family =
      (submitted roomId isCreator public_ family (.updateClient roomId role endpoint side)).or
        ((room.getClient isCreator).contact.slot public_ family) := by
  rw [submitted]
  by_cases own : role = isCreator
  · subst own
    rw [Room.getClient_modifyClient_self, FullContact.slot_insert]
    by_cases here : side = public_ ∧ endpoint.family = family
    · rw [if_pos here, if_pos ⟨rfl, rfl, here⟩]
      rfl
    · rw [if_neg here, if_neg fun all => here all.2.2]
      rfl
  · have other : isCreator = !role := Bool.eq_not_of_ne (Ne.symm own)
    rw [other, Room.getClient_modifyClient_other, if_neg fun all => own (all.2.1.trans other.symm)]
    rfl

theorem default_slots (isCreator public_ : Bool) (family : Family) :
    ((Room.default.getClient isCreator).contact.slot public_ family : Option SocketAddr) =
      none := by
  cases isCreator <;> cases public_ <;> cases family <;> rfl

/-- Every room that is there was created, and its slots hold what was last submitted. -/
theorem State.since_created (calls : List Call) (final : State) (roomId : RoomId) (room : Room)
    (run : State.empty.run calls = some final) (there : final.rooms roomId = some room) :
    Nonempty (SinceCreated calls final roomId room) := by
  induction calls using List.reverseRecOn generalizing final room with
  | nil =>
      cases Option.some.inj run
      exact absurd there (Option.some_ne_none room).symm
  | append_singleton calls call ih =>
      have whole := run
      unfold State.run at whole
      rw [runInputs_append] at whole
      obtain ⟨state, before, lastRun⟩ := Option.bind_eq_some_iff.mp whole
      have quiet := State.empty_quiet.run calls before
      have stepped : state.step call = some final :=
        (State.run_snoc call before).symm.trans run
      obtain ⟨⟨answer, after⟩, responded, rfl⟩ := Option.map_eq_some_iff.mp stepped
      cases quiet.respond_cases call responded with
      | created draws id drawn free =>
          rcases State.put_rooms_cases there with ⟨rfl, put⟩ | ⟨_, kept⟩
          · cases Option.some.inj put
            exact ⟨{
              before := calls
              draws := draws
              after := []
              split := rfl
              atStart := state
              reached := before
              created := state.withRoom roomId
              creates := by rw [State.createRoom, drawn]; rfl
              continued := rfl
              stays := by
                intro start isStart middle ran
                cases List.prefix_nil.mp isStart
                cases Option.some.inj ran
                exact Option.isSome_iff_exists.mpr ⟨_, there⟩
              slots := default_slots }⟩
          · obtain ⟨since⟩ := ih state room before kept
            exact since.snoc _ stepped there (slots_untouched _ fun _ _ _ => by simp)
      | updated id role endpoint side old found =>
          rcases State.put_rooms_cases there with ⟨rfl, put⟩ | ⟨different, kept⟩
          · obtain ⟨since⟩ := ih state old before found
            cases Option.some.inj put
            exact since.snoc _ stepped there (slots_updated roomId old role side endpoint)
          · obtain ⟨since⟩ := ih state room before kept
            apply since.snoc _ stepped there (slots_untouched _ _)
            intro _ _ _ sameCall
            cases sameCall
            exact different rfl
      | updateMissed id role endpoint side missing =>
          obtain ⟨since⟩ := ih state room before there
          apply since.snoc _ stepped there (slots_untouched _ _)
          intro _ _ _ sameCall
          cases sameCall
          exact absurd (missing.symm.trans there) (Option.some_ne_none room).symm
      | isDone id role old found =>
          obtain ⟨since⟩ := ih state room before there
          exact since.snoc _ stepped there (slots_untouched _ fun _ _ _ => by simp)
      | doneMissed id role missing =>
          obtain ⟨since⟩ := ih state room before there
          exact since.snoc _ stepped there (slots_untouched _ fun _ _ _ => by simp)
      | timedOut place id timer =>
          rcases State.put_rooms_cases there with ⟨_, put⟩ | ⟨_, kept⟩
          · exact absurd put (Option.some_ne_none room).symm
          · obtain ⟨since⟩ := ih state room before kept
            exact since.snoc _ stepped there (slots_untouched _ fun _ _ _ => by simp)

/-- Each run shows for every id what the run for this id alone shows, no id is given twice at
a time, and a room holds the last endpoint of each kind since its own `create_room`. -/
theorem rooms_isolated (calls : List Call) (final : State)
    (run : State.empty.run calls = some final) (roomId : RoomId) :
    (∃ alone, State.empty.run (restrict roomId .empty calls) = some alone ∧
      alone.rooms roomId = final.rooms roomId ∧
      (answers (fun state call => (addressed roomId state call).isSome) .empty calls).map
          (Answer.result final.channels) =
        (answers (fun _ _ => true) .empty (restrict roomId .empty calls)).map
          (Answer.result alone.channels)) ∧
    (∀ draws next, final.createRoom draws = some (roomId, next) → final.rooms roomId = none) ∧
    ∀ room, final.rooms roomId = some room →
      Nonempty (SinceCreated calls final roomId room) := by
  refine ⟨?_, ?_, fun room there => State.since_created calls final roomId room run there⟩
  · obtain ⟨alone, runAlone, ends, results⟩ :=
      (State.empty_isolated roomId).run calls run
    exact ⟨alone, runAlone, ends.room, results⟩
  · intro draws next creates
    obtain ⟨drawn, isDrawn, made⟩ := Option.bind_eq_some_iff.mp creates
    cases Option.some.inj made
    exact State.drawRoomId_free _ _ _ isDrawn

/-- Two rooms in turns: the second `create_room` draws the taken id first. -/
theorem two_rooms_isolated :
    ∃ twoRooms final, twoRooms = [.createRoom [7], .createRoom [7, 8],
        .updateClient 7 true (.v4 ⟨⟨[127, 0, 0, 1], rfl⟩, 50001⟩) false,
        .setClientDone 8 false, .roomTimeout 1] ∧
      State.empty.run twoRooms = some final ∧ (final.rooms 7).isSome ∧
      (restrict 7 .empty twoRooms).length = 2 ∧
      ∀ room, final.rooms 7 = some room → Nonempty (SinceCreated twoRooms final 7 room) := by
  obtain ⟨final, run⟩ : ∃ final, State.empty.run [.createRoom [7], .createRoom [7, 8],
      .updateClient 7 true (.v4 ⟨⟨[127, 0, 0, 1], rfl⟩, 50001⟩) false,
      .setClientDone 8 false, .roomTimeout 1] = some final := ⟨_, rfl⟩
  have there : some true = some (final.rooms 7).isSome :=
    congrArg (Option.map fun state : State => (state.rooms 7).isSome) run
  exact ⟨_, final, rfl, run, (Option.some.inj there).symm, rfl,
    (rooms_isolated _ final run 7).2.2⟩

end Gday.HolePunch
