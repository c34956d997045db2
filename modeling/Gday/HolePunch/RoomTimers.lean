import Gday.HolePunch.Slots

/-! # Whose timer removes a room

Since no exchange is ever completed, a room is removed by nothing but a timer with its id,
and there is only one of these while the room is there: its own. -/
set_option autoImplicit false
namespace Gday.HolePunch

open Gday.Lib.Machine Gday.Lib.OneShot

/-! ## Counting the calls of `create_room` -/

/-- A state with the number of calls of `create_room` so far, the call that made the room
of each id, and the id and the call of each timer that runs. -/
structure Timed where
  state : State
  creations : Nat
  madeBy : RoomId → Nat
  spawned : List (RoomId × Nat)

namespace Timed

def initial : Timed := ⟨.empty, 0, fun _ => 0, []⟩

/-- What is counted changes with the answer to the call. -/
def record (timed : Timed) (next : State) : Call → Answer → Timed
  | .createRoom _, .roomId roomId =>
      ⟨next, timed.creations + 1, Function.update timed.madeBy roomId timed.creations,
        timed.spawned ++ [(roomId, timed.creations)]⟩
  | .roomTimeout place, _ => { timed with
      state := next
      spawned := timed.spawned.eraseIdx place }
  | _, _ => { timed with state := next }

def step (timed : Timed) (call : Call) : Option Timed :=
  (timed.state.respond call).map fun (answer, next) => timed.record next call answer

/-- The rooms and the timers belong together, one to one. -/
structure Paired (timed : Timed) : Prop where
  quiet : timed.state.Quiet
  timers : timed.spawned.map Prod.fst = timed.state.timers
  distinct : timed.state.timers.Nodup
  own : ∀ roomId call, (roomId, call) ∈ timed.spawned →
    (timed.state.rooms roomId).isSome ∧ timed.madeBy roomId = call
  running : ∀ roomId, (timed.state.rooms roomId).isSome →
    (roomId, timed.madeBy roomId) ∈ timed.spawned

theorem initial_paired : Paired initial where
  quiet := State.empty_quiet
  timers := rfl
  distinct := List.nodup_nil
  own _ _ member := absurd member List.not_mem_nil
  running _ there := absurd there Bool.false_ne_true

theorem Paired.created {timed next : Timed} (paired : timed.Paired) (roomId : RoomId)
    (free : timed.state.rooms roomId = none) (quiet : next.state.Quiet)
    (rooms : next.state.rooms = Function.update timed.state.rooms roomId (some .default))
    (timers : next.state.timers = timed.state.timers ++ [roomId])
    (madeBy : next.madeBy = Function.update timed.madeBy roomId timed.creations)
    (spawned : next.spawned = timed.spawned ++ [(roomId, timed.creations)]) : next.Paired := by
  have fresh : ∀ call, (roomId, call) ∉ timed.spawned := by
    intro call member
    have there := (paired.own roomId call member).1
    rw [free] at there
    exact absurd there Bool.false_ne_true
  constructor
  · exact quiet
  · rw [spawned, timers, List.map_append, paired.timers]
    rfl
  · rw [timers]
    apply List.nodup_append.mpr
    refine ⟨paired.distinct, List.nodup_singleton roomId, ?_⟩
    intro old isOld new isNew same
    rw [List.mem_singleton.mp isNew] at same
    rw [← paired.timers, same] at isOld
    obtain ⟨timer, member, isTimer⟩ := List.mem_map.mp isOld
    exact fresh timer.2 (isTimer ▸ member)
  · intro other call member
    rw [rooms, madeBy]
    rw [spawned] at member
    rcases List.mem_append.mp member with old | new
    · have different : other ≠ roomId := fun same => fresh call (same ▸ old)
      rw [Function.update_of_ne different, Function.update_of_ne different]
      exact paired.own other call old
    · cases List.mem_singleton.mp new
      rw [Function.update_self, Function.update_self]
      exact ⟨rfl, rfl⟩
  · intro other there
    rw [rooms] at there
    rw [spawned, madeBy]
    by_cases same : other = roomId
    · rw [same, Function.update_self]
      exact List.mem_append_right _ (List.mem_singleton_self _)
    · rw [Function.update_of_ne same] at there
      rw [Function.update_of_ne same]
      exact List.mem_append_left _ (paired.running other there)

theorem Paired.timedOut {timed next : Timed} (paired : timed.Paired) (place : Nat)
    (roomId : RoomId) (timer : timed.state.timers[place]? = some roomId)
    (quiet : next.state.Quiet)
    (rooms : next.state.rooms = Function.update timed.state.rooms roomId none)
    (timers : next.state.timers = timed.state.timers.eraseIdx place)
    (madeBy : next.madeBy = timed.madeBy)
    (spawned : next.spawned = timed.spawned.eraseIdx place) : next.Paired := by
  have inside : place < timed.state.timers.length := (List.getElem?_eq_some_iff.mp timer).1
  have ids : ∀ i : Nat, (timed.spawned[i]?).map Prod.fst = timed.state.timers[i]? := by
    intro i
    rw [← paired.timers, List.getElem?_map]
  constructor
  · exact quiet
  · rw [spawned, timers, ← paired.timers, List.eraseIdx_map]
  · rw [timers]
    exact paired.distinct.eraseIdx place
  · intro other call member
    rw [spawned] at member
    obtain ⟨i, different, found⟩ := List.mem_eraseIdx_iff_getElem?.mp member
    have its := ids i
    rw [found] at its
    have another : other ≠ roomId := by
      intro same
      subst same
      exact different ((List.getElem?_inj inside paired.distinct).mp (timer.trans its)).symm
    rw [rooms, madeBy, Function.update_of_ne another]
    exact paired.own other call (List.mem_of_getElem? found)
  · intro other there
    have another : other ≠ roomId := by
      intro same
      subst same
      rw [rooms, Function.update_self] at there
      exact absurd there Bool.false_ne_true
    rw [rooms, Function.update_of_ne another] at there
    obtain ⟨i, found⟩ := List.mem_iff_getElem?.mp (paired.running other there)
    rw [spawned, madeBy]
    refine List.mem_eraseIdx_iff_getElem?.mpr ⟨i, ?_, found⟩
    intro same
    subst same
    have its := ids i
    rw [found, timer] at its
    exact another (Option.some.inj its)

theorem Paired.kept {timed : Timed} (paired : timed.Paired) (next : State) (quiet : next.Quiet)
    (timers : next.timers = timed.state.timers)
    (rooms : ∀ roomId, (next.rooms roomId).isSome = (timed.state.rooms roomId).isSome) :
    Paired { timed with state := next } where
  quiet := quiet
  timers := paired.timers.trans timers.symm
  distinct := timers.symm ▸ paired.distinct
  own roomId call member := by
    rw [rooms]
    exact paired.own roomId call member
  running roomId there := by
    rw [rooms] at there
    exact paired.running roomId there

theorem Paired.step {timed next : Timed} (paired : timed.Paired) (call : Call)
    (run : timed.step call = some next) : next.Paired := by
  obtain ⟨⟨answer, after⟩, responded, rfl⟩ := Option.map_eq_some_iff.mp run
  have quiet := paired.quiet.respond responded
  cases paired.quiet.respond_cases call responded with
  | created draws roomId drawn free =>
      exact paired.created roomId free quiet rfl rfl rfl rfl
  | updated roomId isCreator endpoint public_ room found =>
      apply paired.kept _ quiet rfl
      intro other
      by_cases same : other = roomId
      · rw [same, State.put_rooms_self, found]
        rfl
      · rw [State.put_rooms_other _ _ _ _ same]
  | updateMissed roomId isCreator endpoint public_ missing =>
      exact paired.kept _ quiet rfl fun _ => rfl
  | isDone roomId isCreator room found => exact paired.kept _ quiet rfl fun _ => rfl
  | doneMissed roomId isCreator missing => exact paired.kept _ quiet rfl fun _ => rfl
  | timedOut place roomId timer =>
      exact paired.timedOut place roomId timer quiet rfl rfl rfl rfl

theorem run_paired {timed : Timed} (calls : List Call)
    (run : runInputs step calls initial = some timed) : timed.Paired :=
  runInputs_invariant step Paired (fun _ call _ paired => paired.step call) calls initial timed
    initial_paired run

end Timed

/-- A timer that ends removes no room but the one that its own call made; and as long as the
timer of a room runs, the room is there, whatever is called. -/
theorem timed_out_by_own_timer (calls : List Call) (timed : Timed)
    (run : runInputs Timed.step calls .initial = some timed) :
    (∀ place next, timed.step (.roomTimeout place) = some next →
      ∀ roomId, (timed.state.rooms roomId).isSome → next.state.rooms roomId = none →
        timed.spawned[place]? = some (roomId, timed.madeBy roomId)) ∧
    ∀ roomId, (timed.state.rooms roomId).isSome → ∀ more later,
      runInputs Timed.step more timed = some later →
        (roomId, timed.madeBy roomId) ∈ later.spawned →
          (later.state.rooms roomId).isSome ∧ later.madeBy roomId = timed.madeBy roomId := by
  have paired := Timed.run_paired calls run
  constructor
  · intro place next stepped roomId there gone
    obtain ⟨⟨answer, after⟩, responded, rfl⟩ := Option.map_eq_some_iff.mp stepped
    cases paired.quiet.respond_cases _ responded with
    | timedOut _ timedId timer =>
        have same : roomId = timedId := by
          by_contra different
          have kept := State.put_rooms_other timed.state timedId roomId none different
          rw [show timed.state.rooms roomId = none from kept.symm.trans gone] at there
          exact absurd there Bool.false_ne_true
        subst same
        rw [← paired.timers, List.getElem?_map] at timer
        obtain ⟨⟨its, call⟩, found, rfl⟩ := Option.map_eq_some_iff.mp timer
        rw [found, (paired.own its call (List.mem_of_getElem? found)).2]
  · intro roomId _ more later continued member
    have whole : runInputs Timed.step (calls ++ more) .initial = some later := by
      rw [runInputs_append, run]
      exact continued
    exact (Timed.run_paired _ whole).own roomId _ member

/-- An id that is drawn again after its timer: the new room has the new timer. -/
theorem redrawn_room_kept :
    ∃ timed, runInputs Timed.step [.createRoom [7], .roomTimeout 0, .createRoom [7]] .initial =
        some timed ∧ timed.madeBy 7 = 1 ∧
      ∀ more later, runInputs Timed.step more timed = some later →
        (7, 1) ∈ later.spawned → (later.state.rooms 7).isSome := by
  obtain ⟨timed, run⟩ : ∃ timed, runInputs Timed.step
      [.createRoom [7], .roomTimeout 0, .createRoom [7]] .initial = some timed := ⟨_, rfl⟩
  have number : some 1 = some (timed.madeBy 7) :=
    congrArg (Option.map fun timed : Timed => timed.madeBy 7) run
  have there : some true = some (timed.state.rooms 7).isSome :=
    congrArg (Option.map fun timed : Timed => (timed.state.rooms 7).isSome) run
  have own := (timed_out_by_own_timer _ timed run).2 7 (Option.some.inj there).symm
  rw [← Option.some.inj number] at own
  exact ⟨timed, run, (Option.some.inj number).symm, fun more later continued member =>
    (own more later continued member).1⟩

end Gday.HolePunch
