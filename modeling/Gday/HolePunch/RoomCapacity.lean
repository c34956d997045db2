import Gday.HolePunch.RoomTimers

/-! # How many rooms there are

A room is made by `create_room`, and its timer ends it: there are as many rooms as calls have
made and timers have not ended.  `create_room` draws until it finds a free id, and it holds the
lock meanwhile.  With 1 048 576 rooms there is none, and no timer gets the lock to free one. -/
set_option autoImplicit false
namespace Gday.HolePunch

open Gday.Lib.Machine Gday.Lib.OneShot

def roomIdLimit : Nat := 1048576

/-- The ids that `create_room` may draw. -/
def drawnIds : Finset RoomId :=
  Finset.univ.image fun draw : Fin roomIdLimit => UInt32.ofNat draw.val

theorem drawnIds_card : drawnIds.card = roomIdLimit := by
  have distinct : Function.Injective fun draw : Fin roomIdLimit => UInt32.ofNat draw.val := by
    intro first second same
    have numbers : (UInt32.ofNat first.val).toNat = (UInt32.ofNat second.val).toNat :=
      congrArg UInt32.toNat same
    have firstSmall : first.val < 2 ^ 32 := first.isLt.trans (by decide)
    have secondSmall : second.val < 2 ^ 32 := second.isLt.trans (by decide)
    rw [UInt32.toNat_ofNat', UInt32.toNat_ofNat', Nat.mod_eq_of_lt firstSmall,
      Nat.mod_eq_of_lt secondSmall] at numbers
    exact Fin.ext numbers
  rw [drawnIds, Finset.card_image_of_injective _ distinct, Finset.card_univ, Fintype.card_fin]

theorem drawRoomId_drawn (rooms : RoomId → Option Room) (draws : List (Fin 1048576))
    (roomId : RoomId) (drawn : drawRoomId rooms draws = some roomId) : roomId ∈ drawnIds := by
  induction draws with
  | nil => cases drawn
  | cons draw rest ih =>
      simp only [drawRoomId] at drawn
      by_cases taken : (rooms (UInt32.ofNat draw.val)).isSome
      · rw [if_pos taken] at drawn
        exact ih drawn
      · rw [if_neg taken] at drawn
        cases Option.some.inj drawn
        exact Finset.mem_image_of_mem (fun draw : Fin roomIdLimit => UInt32.ofNat draw.val)
          (Finset.mem_univ _)

/-! ## What is in the table -/

def Call.isCreateRoom : Call → Bool
  | .createRoom _ => true
  | _ => false

def Call.isRoomTimeout : Call → Bool
  | .roomTimeout _ => true
  | _ => false

namespace State

/-- Every timer that runs is one for an id that can be drawn. -/
structure Drawn (state : State) : Prop where
  quiet : state.Quiet
  drawn : ∀ roomId ∈ state.timers, roomId ∈ drawnIds

theorem Drawn.step {state next : State} (drawn : state.Drawn) (call : Call)
    (run : state.step call = some next) :
    next.Drawn ∧ next.timers.length + call.isRoomTimeout.toNat =
      state.timers.length + call.isCreateRoom.toNat := by
  have quiet := drawn.quiet.step call run
  obtain ⟨⟨answer, after⟩, responded, rfl⟩ := Option.map_eq_some_iff.mp run
  cases drawn.quiet.respond_cases call responded with
  | created draws roomId isDrawn free =>
      refine ⟨⟨quiet, ?_⟩, ?_⟩
      · intro other member
        rcases List.mem_append.mp member with old | new
        · exact drawn.drawn other old
        · rw [List.mem_singleton.mp new]
          exact drawRoomId_drawn state.rooms draws roomId isDrawn
      · show (state.timers ++ [roomId]).length + 0 = state.timers.length + 1
        rw [List.length_append]
        rfl
  | updated roomId isCreator endpoint public_ room found => exact ⟨⟨quiet, drawn.drawn⟩, rfl⟩
  | updateMissed roomId isCreator endpoint public_ missing =>
      exact ⟨⟨quiet, drawn.drawn⟩, rfl⟩
  | isDone roomId isCreator room found => exact ⟨⟨quiet, drawn.drawn⟩, rfl⟩
  | doneMissed roomId isCreator missing => exact ⟨⟨quiet, drawn.drawn⟩, rfl⟩
  | timedOut place roomId timer =>
      have inside := (List.getElem?_eq_some_iff.mp timer).1
      refine ⟨⟨quiet, fun other member => drawn.drawn other (List.mem_of_mem_eraseIdx member)⟩, ?_⟩
      show (state.timers.eraseIdx place).length + 1 = state.timers.length + 0
      rw [List.length_eraseIdx_of_lt inside]
      omega

theorem empty_drawn : empty.Drawn := ⟨empty_quiet, by simp [empty]⟩

/-- As many timers run as calls have started and have not ended. -/
theorem run_counted {state final : State} (drawn : state.Drawn) (calls : List Call)
    (run : state.run calls = some final) :
    final.Drawn ∧ final.timers.length + calls.countP Call.isRoomTimeout =
      state.timers.length + calls.countP Call.isCreateRoom :=
  ⟨runInputs_invariant step Drawn (fun _ call _ drawn run => (drawn.step call run).1) calls state
      final drawn run,
    runInputs_balanced step Drawn (fun state => state.timers.length) Call.isCreateRoom
      Call.isRoomTimeout (fun _ call _ drawn run => (drawn.step call run).1)
      (fun _ call _ drawn run => (drawn.step call run).2) calls state final drawn run⟩

/-- What is counted beside the calls stops none of them. -/
theorem exists_timed (timed : Timed) {final : State} (calls : List Call)
    (run : timed.state.run calls = some final) :
    ∃ after, runInputs Timed.step calls timed = some after ∧ after.state = final := by
  induction calls generalizing timed with
  | nil => exact ⟨timed, rfl, Option.some.inj run⟩
  | cons call rest ih =>
      obtain ⟨next, stepped, later⟩ := Option.bind_eq_some_iff.mp run
      obtain ⟨⟨answer, reached⟩, responded, rfl⟩ := Option.map_eq_some_iff.mp stepped
      have recorded : (timed.record reached call answer).state = reached := by
        cases call <;> cases answer <;> rfl
      have goesOn : timed.step call = some (timed.record reached call answer) := by
        rw [Timed.step, responded]
        rfl
      obtain ⟨after, lastRun, same⟩ := ih _ (by rw [recorded]; exact later)
      refine ⟨after, ?_, same⟩
      rw [runInputs, goesOn]
      exact lastRun

/-- A room for every timer, and none besides. -/
theorem run_timers {final : State} (calls : List Call) (run : empty.run calls = some final) :
    final.timers.Nodup ∧ ∀ roomId, (final.rooms roomId).isSome ↔ roomId ∈ final.timers := by
  obtain ⟨timed, timedRun, rfl⟩ := exists_timed .initial calls run
  have paired := Timed.run_paired calls timedRun
  refine ⟨paired.distinct, fun roomId => ⟨fun there => ?_, fun member => ?_⟩⟩
  · rw [← paired.timers]
    exact List.mem_map_of_mem (paired.running roomId there)
  · rw [← paired.timers] at member
    obtain ⟨⟨its, call⟩, found, rfl⟩ := List.mem_map.mp member
    exact (paired.own its call found).1

/-- Which ids are left: `create_room` returns if and only if there is one. -/
theorem creates_iff (state : State) :
    (∃ draws roomId next, state.createRoom draws = some (roomId, next)) ↔
      ∃ roomId ∈ drawnIds, state.rooms roomId = none := by
  constructor
  · rintro ⟨draws, roomId, next, created⟩
    obtain ⟨drawn, isDrawn, made⟩ := Option.bind_eq_some_iff.mp created
    cases Option.some.inj made
    exact ⟨roomId, drawRoomId_drawn _ _ _ isDrawn, drawRoomId_free _ _ _ isDrawn⟩
  · rintro ⟨roomId, member, free⟩
    obtain ⟨draw, _, rfl⟩ := Finset.mem_image.mp member
    exact ⟨[draw], _, _, state.createRoom_free draw free⟩

end State

/-- In every run there are just the rooms of the timers that run, which are as many as were made
and have not ended; `create_room` returns exactly where they are not all the ids that there are;
and they are gone once as many timers more have ended and no room was made. -/
theorem rooms_counted (calls : List Call) (state : State)
    (run : State.empty.run calls = some state) :
    (∀ roomId, (state.rooms roomId).isSome ↔ roomId ∈ state.timers) ∧
      state.timers.Nodup ∧ state.timers.length ≤ roomIdLimit ∧
      state.timers.length + calls.countP Call.isRoomTimeout = calls.countP Call.isCreateRoom ∧
      ((∃ draws roomId next, state.createRoom draws = some (roomId, next)) ↔
        state.timers.length < roomIdLimit) ∧
      ∀ more final, state.run more = some final → more.countP Call.isCreateRoom = 0 →
        more.countP Call.isRoomTimeout = state.timers.length →
          ∀ roomId, final.rooms roomId = none := by
  obtain ⟨distinct, rooms⟩ := State.run_timers calls run
  obtain ⟨drawn, counted⟩ := State.run_counted State.empty_drawn calls run
  have within : state.timers.toFinset ⊆ drawnIds := fun roomId member =>
    drawn.drawn roomId (List.mem_toFinset.mp member)
  have size : state.timers.toFinset.card = state.timers.length :=
    List.toFinset_card_of_nodup distinct
  have most := Finset.card_le_card within
  rw [size, drawnIds_card] at most
  refine ⟨rooms, distinct, most, by simpa [State.empty] using counted, ?_, ?_⟩
  · rw [state.creates_iff]
    constructor
    · rintro ⟨roomId, member, free⟩
      have fresh : roomId ∉ state.timers.toFinset := by
        intro taken
        have there := (rooms roomId).mpr (List.mem_toFinset.mp taken)
        rw [free] at there
        exact absurd there Bool.false_ne_true
      have fewer := Finset.card_lt_card
        (Finset.ssubset_iff_subset_ne.mpr ⟨within, fun same => fresh (same ▸ member)⟩)
      rwa [size, drawnIds_card] at fewer
    · intro fewer
      obtain ⟨roomId, member, fresh⟩ := Finset.exists_mem_notMem_of_card_lt_card
        (s := state.timers.toFinset) (t := drawnIds) (by rw [size, drawnIds_card]; exact fewer)
      refine ⟨roomId, member, ?_⟩
      cases found : state.rooms roomId with
      | none => rfl
      | some room =>
          exact absurd (List.mem_toFinset.mpr ((rooms roomId).mp (by rw [found]; rfl))) fresh
  · intro more final continued noneMade ended roomId
    have whole : State.empty.run (calls ++ more) = some final := by
      rw [State.run, runInputs_append]
      exact Option.bind_eq_some_iff.mpr ⟨state, run, continued⟩
    obtain ⟨_, later⟩ := State.run_counted drawn more continued
    have gone : final.timers = [] := List.length_eq_zero_iff.mp (by omega)
    cases found : final.rooms roomId with
    | none => rfl
    | some room =>
        have member := ((State.run_timers _ whole).2 roomId).mp (by rw [found]; rfl)
        rw [gone] at member
        cases member

/-- Two rooms, of which the first is gone. -/
theorem two_rooms_counted :
    ∃ state, State.empty.run [.createRoom [7], .createRoom [7, 9], .roomTimeout 0] = some state ∧
      state.timers = [9] ∧ ∃ draws roomId next, state.createRoom draws = some (roomId, next) := by
  have ran : (State.empty.run [.createRoom [7], .createRoom [7, 9], .roomTimeout 0]).map
      State.timers = some [9] := rfl
  obtain ⟨state, run, timers⟩ := Option.map_eq_some_iff.mp ran
  refine ⟨state, run, timers, ?_⟩
  rw [(rooms_counted _ state run).2.2.2.2.1, timers]
  decide

end Gday.HolePunch
