import Gday.HolePunch.ContactExchange

/-! # Which addresses a room has

A slot that is filled stays filled for as long as the room is there, whatever else
happens to the rooms. -/
set_option autoImplicit false
namespace Gday.HolePunch

open Gday.Lib.OneShot

inductive Family where
  | v6
  | v4
  deriving DecidableEq, Repr

def SocketAddr.family : SocketAddr → Family
  | .v6 _ => .v6
  | .v4 _ => .v4

def Contact.has (contact : Contact) : Family → Bool
  | .v6 => contact.v6.isSome
  | .v4 => contact.v4.isSome

def FullContact.has (contact : FullContact) (public_ : Bool) (family : Family) : Bool :=
  if public_ then contact.public_.has family else contact.private_.has family

theorem FullContact.has_insert_self (contact : FullContact) (endpoint : SocketAddr)
    (public_ : Bool) : (contact.insert endpoint public_).has public_ endpoint.family = true := by
  cases public_ <;> cases endpoint <;> rfl

theorem FullContact.has_insert (contact : FullContact) (endpoint : SocketAddr)
    (inserted public_ : Bool) (family : Family) (there : contact.has public_ family = true) :
    (contact.insert endpoint inserted).has public_ family = true := by
  cases public_ <;> cases inserted <;> cases endpoint <;> cases family <;>
    first | exact there | rfl

/-- Every slot of the first room is filled in the second. -/
def Room.Fills (before after : Room) : Prop :=
  ∀ isCreator public_ family, (before.getClient isCreator).contact.has public_ family = true →
    (after.getClient isCreator).contact.has public_ family = true

theorem Room.Fills.refl (room : Room) : room.Fills room := fun _ _ _ there => there

theorem Room.fills_insert (room : Room) (isCreator : Bool) (endpoint : SocketAddr)
    (public_ : Bool) :
    room.Fills (room.modifyClient isCreator fun client =>
      { client with contact := client.contact.insert endpoint public_ }) := by
  intro role side family there
  by_cases own : role = isCreator
  · subst own
    rw [getClient_modifyClient_self]
    exact FullContact.has_insert _ _ _ _ _ there
  · have other : role = !isCreator := by
      cases role <;> cases isCreator <;> simp_all
    subst other
    rw [getClient_modifyClient_other]
    exact there

namespace State

/-- The room is still there, with every slot that it had. -/
def Keeps (roomId : RoomId) (before after : State) : Prop :=
  ∀ room, before.rooms roomId = some room →
    ∃ last, after.rooms roomId = some last ∧ room.Fills last

theorem Keeps.refl (roomId : RoomId) (state : State) : state.Keeps roomId state :=
  fun room found => ⟨room, found, .refl room⟩

theorem keeps_of_rooms {roomId : RoomId} {before after : State}
    (same : after.rooms roomId = before.rooms roomId) : before.Keeps roomId after :=
  fun room found => ⟨room, same.trans found, .refl room⟩

/-- Only the timer of a room takes anything from it. -/
theorem Keeps.step {state next : State} (quiet : state.Quiet) (roomId : RoomId) (call : Call)
    (notTimer : ∀ place, call = .roomTimeout place → state.timers[place]? ≠ some roomId)
    (run : state.step call = some next) : state.Keeps roomId next := by
  obtain ⟨⟨answer, after⟩, responded, rfl⟩ := Option.map_eq_some_iff.mp run
  cases quiet.respond_cases call responded with
  | created draws created drawn free =>
      intro room found
      have different : roomId ≠ created := by
        intro same
        subst same
        rw [free] at found
        exact absurd found (Option.some_ne_none room).symm
      exact keeps_of_rooms (put_rooms_other state created roomId _ different) room found
  | updated other isCreator endpoint public_ room found =>
      by_cases own : roomId = other
      · subst own
        intro before isBefore
        rw [found] at isBefore
        cases Option.some.inj isBefore
        exact ⟨_, put_rooms_self .., Room.fills_insert room isCreator endpoint public_⟩
      · exact keeps_of_rooms (put_rooms_other state other roomId _ own)
  | updateMissed other isCreator endpoint public_ missing => exact .refl roomId state
  | isDone other isCreator room found => exact keeps_of_rooms rfl
  | doneMissed other isCreator missing => exact .refl roomId state
  | timedOut place timed timer =>
      have different : roomId ≠ timed := by
        intro same
        subst same
        exact notTimer place rfl timer
      exact keeps_of_rooms (put_rooms_other state timed roomId none different)

end State

end Gday.HolePunch
