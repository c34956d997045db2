import Gday.HolePunch.VerifyPeer

/-! # Verification is mutual

Whatever the adversary delivers, an accepted run has a partner; over a faithful channel
two runs accept each other exactly when they have one secret and opposite roles. -/
set_option autoImplicit false
namespace Gday.HolePunch

open Gday.Lib.Machine

section Verification

variable {Run Secret Message Key Code : Type}
variable {primitives : Primitives Run Message Key Code} {secret : Run → Secret}
variable {role : Run → Bool}

def Verify.ok : Verify Message Key → Option Key
  | .accepted _ key => some key
  | _ => none

def Verify.Finished : Verify Message Key → Prop
  | .accepted _ _ => True
  | .failed _ => True
  | _ => False

theorem Network.Faithful.symm {first second : Run} {network : Network Run Message Key Code}
    {event : NetworkEvent Run Message Code}
    (faithful : network.Faithful primitives role first second event) :
    network.Faithful primitives role second first event := by
  cases event with
  | start run => trivial
  | message run message => exact ⟨faithful.2, faithful.1⟩
  | code run code => exact ⟨faithful.2, faithful.1⟩
  | fail run => exact ⟨faithful.2, faithful.1⟩

theorem Network.run_sound [DecidableEq Run] [DecidableEq Code]
    {events : List (NetworkEvent Run Message Code)}
    {final : Network Run Message Key Code}
    (run : RunsWithin (Network.step primitives role) (Network.Possible primitives) .initial
      events final) : final.Sound primitives role :=
  run.invariant (Network.Sound primitives role)
    (fun _ event _ possible sound stepped => sound.step event possible stepped)
    Network.initial_sound

theorem Network.run_faces [DecidableEq Run] [DecidableEq Code]
    (ideal : primitives.Ideal secret) {first second : Run} (different : first ≠ second)
    {events : List (NetworkEvent Run Message Code)}
    {final : Network Run Message Key Code}
    (run : RunsWithin (Network.step primitives role)
      (Network.Faithful primitives role first second) .initial events final) :
    final.Faces primitives role first second ∧ final.Faces primitives role second first := by
  apply run.invariant fun network : Network Run Message Key Code =>
    network.Faces primitives role first second ∧ network.Faces primitives role second first
  · rintro network event next faithful ⟨own, other⟩ stepped
    exact ⟨own.step ideal different other event faithful stepped,
      other.step ideal different.symm own event faithful.symm stepped⟩
  · exact ⟨Network.initial_faces first second, Network.initial_faces second first⟩

/-- A finished end has accepted exactly where the two match, and then with their key. -/
theorem Network.Faces.ok_iff {network : Network Run Message Key Code} {run peer : Run}
    (faces : network.Faces primitives role run peer) (finished : (network.ends run).Finished)
    (key : Key) : (network.ends run).ok = some key ↔
      Matches primitives role run peer ∧
        primitives.finish run (primitives.outbound peer) = some key := by
  cases now : network.ends run with
  | idle =>
      rw [now] at finished
      exact finished.elim
  | greeted =>
      rw [now] at finished
      exact finished.elim
  | keyed inbound key' =>
      rw [now] at finished
      exact finished.elim
  | accepted inbound key' =>
      obtain ⟨rfl, derived⟩ := faces.derives inbound key' (by rw [now]; rfl)
      rw [derived]
      exact ⟨fun same => ⟨faces.accepts _ _ now, same⟩, fun both => both.2⟩
  | failed derived =>
      constructor
      · intro same
        exact absurd same (Option.some_ne_none key).symm
      · intro both
        exact absurd both.1 (faces.fails derived now)

theorem Network.Faces.isSome_iff {network : Network Run Message Key Code} {run peer : Run}
    (faces : network.Faces primitives role run peer) (finished : (network.ends run).Finished) :
    (network.ends run).ok.isSome ↔ Matches primitives role run peer := by
  constructor
  · intro isOk
    obtain ⟨key, accepted⟩ := Option.isSome_iff_exists.mp isOk
    exact ((faces.ok_iff finished key).mp accepted).1
  · intro matched
    obtain ⟨key, derived, _⟩ := id matched
    exact Option.isSome_iff_exists.mpr ⟨key, (faces.ok_iff finished key).mpr ⟨matched, derived⟩⟩

/-- A handshake over a faithful channel, from its start to its end. -/
theorem Network.faithful_finishes [DecidableEq Run] [DecidableEq Code]
    (ideal : primitives.Ideal secret) (role : Run → Bool) (first second : Run)
    (different : first ≠ second) :
    ∃ events final, RunsWithin (Network.step primitives role)
        (Network.Faithful primitives role first second)
        (.initial : Network Run Message Key Code) events final ∧
      (final.ends first).Finished ∧ (final.ends second).Finished := by
  obtain ⟨key, finished⟩ := Option.isSome_iff_exists.mp (ideal.answers first second different)
  obtain ⟨key', finished'⟩ :=
    Option.isSome_iff_exists.mp (ideal.answers second first different.symm)
  have ends : ∀ received expected : Code, ∀ inbound : Message, ∀ derived : Key,
      (if received = expected then Verify.accepted inbound derived
        else .failed (some (inbound, derived))).Finished := by
    intro received expected inbound derived
    split <;> trivial
  let greeted := ((Network.initial : Network Run Message Key Code).put first .greeted none).put
    second .greeted none
  let half := greeted.put first (.keyed (primitives.outbound second) key)
    (some (getVerificationCode primitives key (role first)))
  let keyed := half.put second (.keyed (primitives.outbound first) key')
    (some (getVerificationCode primitives key' (role second)))
  let decided := keyed.put first (receiveCode primitives (role first)
    (primitives.outbound second) key (getVerificationCode primitives key' (role second))) none
  let final := decided.put second (receiveCode primitives (role second)
    (primitives.outbound first) key' (getVerificationCode primitives key (role first))) none
  refine ⟨[.start first, .start second, .message first (primitives.outbound second),
    .message second (primitives.outbound first),
    .code first (getVerificationCode primitives key' (role second)),
    .code second (getVerificationCode primitives key (role first))], final, ?_, ?_, ?_⟩
  · refine .cons _ _ _ _ _ trivial (by simp [Network.step, Network.initial]; rfl) ?_
    refine .cons _ greeted _ _ _ trivial
      (by simp [Network.step, Network.put, Network.initial, different.symm, greeted]) ?_
    refine .cons _ half _ _ _ ⟨fun _ => rfl, fun same => absurd same different⟩
      (by simp [Network.step, Network.put, receiveMessage, finished, different, greeted, half]) ?_
    refine .cons _ keyed _ _ _ ⟨fun same => absurd same different.symm, fun _ => rfl⟩
      (by simp [Network.step, Network.put, receiveMessage, finished', different.symm, half,
        greeted, keyed]) ?_
    refine .cons _ decided _ _ _
      ⟨fun _ =>
        ⟨primitives.outbound first, key', by simp [keyed, Network.put, Verify.derived], rfl⟩,
        fun same => absurd same different⟩
      (by simp [Network.step, Network.put, different, half, keyed, decided]) ?_
    refine .cons _ final _ _ _
      ⟨fun same => absurd same different.symm, fun _ => ⟨primitives.outbound second, key, ?_, rfl⟩⟩
      (by simp [Network.step, Network.put, different.symm, keyed, decided, final]) (.nil _)
    simp only [decided, Network.put, Function.update_self, receiveCode]
    split <;> rfl
  · simp only [final, decided, Network.put, Function.update_of_ne different, Function.update_self]
    exact ends ..
  · simp only [final, Network.put, Function.update_self]
    exact ends ..

/-- An accepted run has a partner in the opposite role, with the same secret and key, so a
run whose message came from its own role (itself included) is never accepted; and over a
faithful channel, which always can be run to its end, secrets and roles decide. -/
theorem verification [DecidableEq Run] [DecidableEq Code] (role : Run → Bool)
    (ideal : primitives.Ideal secret) :
    (∀ events final, RunsWithin (Network.step primitives role) (Network.Possible primitives)
        (.initial : Network Run Message Key Code) events final →
      ∀ run inbound key, final.ends run = .accepted inbound key →
        (∃ partner, final.Partner primitives secret role run partner inbound key) ∧
          ∀ other, role other = role run → inbound ≠ primitives.outbound other) ∧
    ∀ first second, first ≠ second →
      (∃ events final, RunsWithin (Network.step primitives role)
          (Network.Faithful primitives role first second)
          (.initial : Network Run Message Key Code) events final ∧
        (final.ends first).Finished ∧ (final.ends second).Finished) ∧
      ∀ events final, RunsWithin (Network.step primitives role)
          (Network.Faithful primitives role first second)
          (.initial : Network Run Message Key Code) events final →
        (final.ends first).Finished → (final.ends second).Finished →
          ((∃ key, (final.ends first).ok = some key ∧ (final.ends second).ok = some key) ↔
            secret first = secret second ∧ role first ≠ role second) ∧
          ((final.ends first).ok.isSome ↔
            secret first = secret second ∧ role first ≠ role second) ∧
          ((final.ends second).ok.isSome ↔
            secret first = secret second ∧ role first ≠ role second) := by
  constructor
  · intro events final run who inbound key accepted
    obtain ⟨partner, isPartner⟩ := (Network.run_sound run).partner ideal who inbound key accepted
    refine ⟨⟨partner, isPartner⟩, fun other sameRole same => ?_⟩
    have one := ideal.fresh partner other (isPartner.received.symm.trans same)
    have opposite := isPartner.opposite
    rw [one, sameRole] at opposite
    exact absurd opposite (by cases role who <;> decide)
  · intro first second different
    refine ⟨Network.faithful_finishes ideal role first second different, ?_⟩
    intro events final run firstDone secondDone
    obtain ⟨own, other⟩ := Network.run_faces ideal different run
    rw [← ideal.matches_iff first second different]
    have symmetric : Matches primitives role second first ↔ Matches primitives role first second :=
      ⟨Matches.symm, Matches.symm⟩
    refine ⟨⟨?_, ?_⟩, own.isSome_iff firstDone, (other.isSome_iff secondDone).trans symmetric⟩
    · rintro ⟨key, accepted, _⟩
      exact ((own.ok_iff firstDone key).mp accepted).1
    · intro matched
      obtain ⟨key, finished, finished', _⟩ := id matched
      exact ⟨key, (own.ok_iff firstDone key).mpr ⟨matched, finished⟩,
        (other.ok_iff secondDone key).mpr ⟨matched.symm, finished'⟩⟩

end Verification

/-! ## Symbolic primitives -/

/-- Messages are the runs' own and the adversary's, a key is the pair of messages with the
password, and the hash is the pair of its inputs. -/
def symbolic {Run : Type} (secret : Run → Nat) :
    Primitives Run (Run ⊕ Nat) (Sym2 (Run ⊕ Nat) × Nat) ((Sym2 (Run ⊕ Nat) × Nat) × UInt8) where
  outbound run := .inl run
  finish run message := some (s(.inl run, message), secret run)
  sha256 key byte := (key, byte)

theorem symbolic_ideal {Run : Type} (secret : Run → Nat) : (symbolic secret).Ideal secret where
  fresh run other same := Sum.inl.inj same
  answers run other _ := rfl
  sameKey run other key key' own theirs := by
    cases Option.some.inj own
    cases Option.some.inj theirs
    rw [Prod.mk.injEq, Sym2.eq_swap]
    exact ⟨fun both => both.2, fun same => ⟨rfl, same⟩⟩
  separate run other message message' key own theirs := by
    cases Option.some.inj own
    have same := (Prod.mk.inj (Option.some.inj theirs)).1
    rcases Sym2.eq_iff.mp same with ⟨runs, _⟩ | ⟨runs, messages⟩
    · exact Or.inl (Sum.inl.inj runs).symm
    · exact Or.inr ⟨runs.symm, messages⟩
  injective key byte key' byte' same := Prod.mk.inj same

/-- Of three runs, the first two can accept each other. -/
theorem verification_three :
    ∃ events final, RunsWithin (Network.step (symbolic ![7, 7, 8]) ![true, false, false])
        (Network.Faithful (symbolic ![7, 7, 8]) ![true, false, false] 0 1) .initial events final ∧
      ∃ key, (final.ends 0).ok = some key ∧ (final.ends 1).ok = some key := by
  obtain ⟨⟨events, final, run, firstDone, secondDone⟩, decided⟩ :=
    (verification ![true, false, false] (symbolic_ideal ![7, 7, 8])).2 0 1 (by decide)
  exact ⟨events, final, run, (decided events final run firstDone secondDone).1.mpr (by decide)⟩

end Gday.HolePunch
