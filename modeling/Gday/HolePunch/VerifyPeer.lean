import Gday.Lib.Machine

/-! # Peer verification

`verify_peer` as a state machine, and any number of its runs on a network that belongs to
an adversary.  SPAKE2 and SHA-256 are parameters; `Ideal` says what is relied on.  The
handshake is the same on both sides but for one byte in a hash, so the theorem is about
which run can have written an accepted code. -/
set_option autoImplicit false
namespace Gday.HolePunch

open Gday.Lib.Machine

section Definitions

variable {Run Secret Message Key Code : Type}

/-- What a run computes with: its own outbound message, the key for an inbound one (none is
an error), and the hash of a key and one byte. -/
structure Primitives (Run Message Key Code : Type) where
  outbound : Run → Message
  finish : Run → Message → Option Key
  sha256 : Key → UInt8 → Code

/-- Symmetric SPAKE2 with the passwords `secret`, and a hash without collisions. -/
structure Primitives.Ideal (primitives : Primitives Run Message Key Code)
    (secret : Run → Secret) : Prop where
  fresh : ∀ run other, primitives.outbound run = primitives.outbound other → run = other
  answers : ∀ run other, run ≠ other →
    (primitives.finish run (primitives.outbound other)).isSome
  sameKey : ∀ run other key key', primitives.finish run (primitives.outbound other) = some key →
    primitives.finish other (primitives.outbound run) = some key' →
      (key = key' ↔ secret run = secret other)
  separate : ∀ run other message message' key, primitives.finish run message = some key →
    primitives.finish other message' = some key →
      run = other ∨ message = primitives.outbound other ∧ message' = primitives.outbound run
  injective : ∀ key byte key' byte', primitives.sha256 key byte = primitives.sha256 key' byte' →
    key = key' ∧ byte = byte'

def getVerificationCode (primitives : Primitives Run Message Key Code) (key : Key)
    (isCreator : Bool) : Code :=
  primitives.sha256 key (if isCreator then 1 else 0)

theorem Primitives.Ideal.code_injective {primitives : Primitives Run Message Key Code}
    {secret : Run → Secret} (ideal : primitives.Ideal secret) {key key' : Key} {role role' : Bool}
    (same : getVerificationCode primitives key role = getVerificationCode primitives key' role') :
    key = key' ∧ role = role' := by
  obtain ⟨sameKey, sameByte⟩ := ideal.injective _ _ _ _ same
  refine ⟨sameKey, ?_⟩
  cases role <;> cases role' <;> first | rfl | exact absurd sameByte (by decide)

/-- Where a run is: not begun, waiting for the peer's message, waiting for its code, or
returned.  What was received and derived is kept. -/
inductive Verify (Message Key : Type) where
  | idle
  | greeted
  | keyed (inbound : Message) (key : Key)
  | accepted (inbound : Message) (key : Key)
  | failed (derived : Option (Message × Key))
  deriving DecidableEq

def Verify.derived : Verify Message Key → Option (Message × Key)
  | .idle => none
  | .greeted => none
  | .keyed inbound key => some (inbound, key)
  | .accepted inbound key => some (inbound, key)
  | .failed derived => derived

/-- The peer's 33 bytes, and the code that is written on them. -/
def receiveMessage (primitives : Primitives Run Message Key Code) (run : Run) (isCreator : Bool)
    (message : Message) : Verify Message Key × Option Code :=
  match primitives.finish run message with
  | none => (.failed none, none)
  | some key => (.keyed message key, some (getVerificationCode primitives key isCreator))

/-- The peer's 32 bytes. -/
def receiveCode [DecidableEq Code] (primitives : Primitives Run Message Key Code)
    (isCreator : Bool) (inbound : Message) (key : Key) (received : Code) : Verify Message Key :=
  if received = getVerificationCode primitives key (!isCreator) then .accepted inbound key
  else .failed (some (inbound, key))

/-! ## Many runs on one network -/

structure Network (Run Message Key Code : Type) where
  ends : Run → Verify Message Key
  codes : List Code

inductive NetworkEvent (Run Message Code : Type) where
  | start (run : Run)
  | message (run : Run) (message : Message)
  | code (run : Run) (code : Code)
  | fail (run : Run)

variable [DecidableEq Run] [DecidableEq Code]

def Network.initial : Network Run Message Key Code := ⟨fun _ => .idle, []⟩

def Network.put (network : Network Run Message Key Code) (run : Run)
    (verify : Verify Message Key) (written : Option Code) : Network Run Message Key Code :=
  ⟨Function.update network.ends run verify, network.codes ++ written.toList⟩

def Network.step (primitives : Primitives Run Message Key Code) (role : Run → Bool)
    (network : Network Run Message Key Code) :
    NetworkEvent Run Message Code → Option (Network Run Message Key Code)
  | .start run =>
      match network.ends run with
      | .idle => some (network.put run .greeted none)
      | _ => none
  | .message run message =>
      match network.ends run with
      | .greeted =>
          let (verify, written) := receiveMessage primitives run (role run) message
          some (network.put run verify written)
      | _ => none
  | .code run code =>
      match network.ends run with
      | .keyed inbound key =>
          some (network.put run (receiveCode primitives (role run) inbound key code) none)
      | _ => none
  | .fail run =>
      match network.ends run with
      | .greeted => some (network.put run (.failed none) none)
      | .keyed inbound key => some (network.put run (.failed (some (inbound, key))) none)
      | _ => none

/-- The adversary can deliver any message, but of the codes for a key that a run has derived
only those that were written. -/
def Network.Possible (primitives : Primitives Run Message Key Code)
    (network : Network Run Message Key Code) : NetworkEvent Run Message Code → Prop
  | .code _ code => code ∈ network.codes ∨
      ∀ run inbound key, (network.ends run).derived = some (inbound, key) →
        ∀ isCreator, code ≠ getVerificationCode primitives key isCreator
  | _ => True

end Definitions

/-! ## Who wrote an accepted code -/

section Authentication

variable {Run Secret Message Key Code : Type}
variable {primitives : Primitives Run Message Key Code} {secret : Run → Secret}
variable {role : Run → Bool}

/-- What a step does to the run that makes it. -/
inductive Network.StepCase [DecidableEq Run] (primitives : Primitives Run Message Key Code)
    (role : Run → Bool) (network : Network Run Message Key Code) :
    NetworkEvent Run Message Code → Network Run Message Key Code → Prop where
  | started (run : Run) (idle : network.ends run = .idle) :
      StepCase primitives role network (.start run) (network.put run .greeted none)
  | refused (run : Run) (message : Message) (greeted : network.ends run = .greeted)
      (none_ : primitives.finish run message = none) :
      StepCase primitives role network (.message run message)
        (network.put run (.failed none) none)
  | keyed (run : Run) (message : Message) (key : Key) (greeted : network.ends run = .greeted)
      (finished : primitives.finish run message = some key) :
      StepCase primitives role network (.message run message)
        (network.put run (.keyed message key)
          (some (getVerificationCode primitives key (role run))))
  | accepted (run : Run) (inbound : Message) (key : Key)
      (keyed : network.ends run = .keyed inbound key) :
      StepCase primitives role network
        (.code run (getVerificationCode primitives key (!role run)))
        (network.put run (.accepted inbound key) none)
  | rejected (run : Run) (inbound : Message) (key : Key) (code : Code)
      (keyed : network.ends run = .keyed inbound key)
      (wrong : code ≠ getVerificationCode primitives key (!role run)) :
      StepCase primitives role network (.code run code)
        (network.put run (.failed (some (inbound, key))) none)
  | broken (run : Run) (waiting : network.ends run = .greeted ∨
      ∃ inbound key, network.ends run = .keyed inbound key) :
      StepCase primitives role network (.fail run)
        (network.put run (.failed (network.ends run).derived) none)

theorem Network.step_cases [DecidableEq Run] [DecidableEq Code]
    {network next : Network Run Message Key Code} (event : NetworkEvent Run Message Code)
    (run : network.step primitives role event = some next) :
    network.StepCase primitives role event next := by
  cases event with
  | start who =>
      cases before : network.ends who with
      | idle =>
          simp only [Network.step, before, Option.some.injEq] at run
          subst run
          exact .started who before
      | _ => simp [Network.step, before] at run
  | message who message =>
      cases before : network.ends who with
      | greeted =>
          simp only [Network.step, before, Option.some.injEq] at run
          subst run
          unfold receiveMessage
          cases finished : primitives.finish who message with
          | none => exact .refused who message before finished
          | some key => exact .keyed who message key before finished
      | _ => simp [Network.step, before] at run
  | code who code =>
      cases before : network.ends who with
      | keyed inbound key =>
          simp only [Network.step, before, Option.some.injEq] at run
          subst run
          unfold receiveCode
          by_cases right : code = getVerificationCode primitives key (!role who)
          · rw [if_pos right, right]
            exact .accepted who inbound key before
          · rw [if_neg right]
            exact .rejected who inbound key code before right
      | _ => simp [Network.step, before] at run
  | fail who =>
      cases before : network.ends who with
      | greeted =>
          simp only [Network.step, before, Option.some.injEq] at run
          subst run
          have broken : network.StepCase primitives role (.fail who)
              (network.put who (.failed (network.ends who).derived) none) :=
            .broken who (Or.inl before)
          rw [before] at broken
          exact broken
      | keyed inbound key =>
          simp only [Network.step, before, Option.some.injEq] at run
          subst run
          have broken : network.StepCase primitives role (.fail who)
              (network.put who (.failed (network.ends who).derived) none) :=
            .broken who (Or.inr ⟨inbound, key, before⟩)
          rw [before] at broken
          exact broken
      | _ => simp [Network.step, before] at run

/-- Every key comes from the message that was received, every code from a run that has
derived its key, and every accepted code was written. -/
structure Network.Sound (primitives : Primitives Run Message Key Code) (role : Run → Bool)
    (network : Network Run Message Key Code) : Prop where
  derives : ∀ run inbound key, (network.ends run).derived = some (inbound, key) →
    primitives.finish run inbound = some key
  writers : ∀ code ∈ network.codes, ∃ run inbound key,
    (network.ends run).derived = some (inbound, key) ∧
      code = getVerificationCode primitives key (role run)
  accepts : ∀ run inbound key, network.ends run = .accepted inbound key →
    getVerificationCode primitives key (!role run) ∈ network.codes

theorem Network.initial_sound :
    (Network.initial : Network Run Message Key Code).Sound primitives role where
  derives run inbound key derived := absurd derived (Option.some_ne_none _).symm
  writers code member := absurd member List.not_mem_nil
  accepts run inbound key accepted := absurd accepted (by simp [initial])

/-- A step of one run that forgets nothing it has derived keeps the network sound. -/
theorem Network.Sound.put [DecidableEq Run] {network : Network Run Message Key Code}
    (sound : network.Sound primitives role) (run : Run) (verify : Verify Message Key)
    (written : Option Code)
    (remembers : ∀ found, (network.ends run).derived = some found → verify.derived = some found)
    (derives : ∀ inbound key, verify.derived = some (inbound, key) →
      primitives.finish run inbound = some key)
    (writes : ∀ code, written = some code → ∃ inbound key,
      verify.derived = some (inbound, key) ∧ code = getVerificationCode primitives key (role run))
    (accepts : ∀ inbound key, verify = .accepted inbound key →
      getVerificationCode primitives key (!role run) ∈ network.codes) :
    (network.put run verify written).Sound primitives role := by
  have own : (network.put run verify written).ends run = verify := Function.update_self ..
  have others : ∀ other, other ≠ run →
      (network.put run verify written).ends other = network.ends other :=
    fun other different => Function.update_of_ne different ..
  have grows : ∀ other found, (network.ends other).derived = some found →
      ((network.put run verify written).ends other).derived = some found := by
    intro other found derived
    by_cases same : other = run
    · subst same
      rw [own]
      exact remembers found derived
    · rw [others other same]
      exact derived
  constructor
  · intro other inbound key derived
    by_cases same : other = run
    · subst same
      rw [own] at derived
      exact derives inbound key derived
    · rw [others other same] at derived
      exact sound.derives other inbound key derived
  · intro code member
    rcases List.mem_append.mp member with before | now
    · obtain ⟨writer, inbound, key, derived, same⟩ := sound.writers code before
      exact ⟨writer, inbound, key, grows writer _ derived, same⟩
    · obtain ⟨inbound, key, derived, same⟩ := writes code (Option.mem_toList.mp now)
      exact ⟨run, inbound, key, own.symm ▸ derived, same⟩
  · intro other inbound key accepted
    apply List.mem_append_left
    by_cases same : other = run
    · subst same
      rw [own] at accepted
      exact accepts inbound key accepted
    · rw [others other same] at accepted
      exact sound.accepts other inbound key accepted

theorem Network.Sound.step [DecidableEq Run] [DecidableEq Code]
    {network next : Network Run Message Key Code} (sound : network.Sound primitives role)
    (event : NetworkEvent Run Message Code) (possible : network.Possible primitives event)
    (run : network.step primitives role event = some next) : next.Sound primitives role := by
  cases step_cases event run with
  | started who idle =>
      refine sound.put who _ _ ?_ ?_ ?_ ?_ <;>
        simp [idle, Verify.derived]
  | refused who message greeted none_ =>
      refine sound.put who _ _ ?_ ?_ ?_ ?_ <;>
        simp [greeted, Verify.derived]
  | keyed who message key greeted finished =>
      refine sound.put who _ _ ?_ ?_ ?_ ?_
      · simp [greeted, Verify.derived]
      · intro _ _ same
        cases same
        exact finished
      · intro _ same
        cases same
        exact ⟨message, key, rfl, rfl⟩
      · simp
  | accepted who inbound key keyed =>
      have derived : (network.ends who).derived = some (inbound, key) := by rw [keyed]; rfl
      refine sound.put who _ _ ?_ ?_ ?_ ?_
      · intro found same
        rw [derived] at same
        exact same
      · intro _ _ same
        cases same
        exact sound.derives who inbound key derived
      · simp
      · intro _ _ same
        cases same
        rcases possible with written | unknown
        · exact written
        · exact absurd rfl (unknown who inbound key derived _)
  | rejected who inbound key code keyed wrong =>
      have derived : (network.ends who).derived = some (inbound, key) := by rw [keyed]; rfl
      refine sound.put who _ _ ?_ ?_ ?_ ?_
      · intro found same
        rw [derived] at same
        exact same
      · intro _ _ same
        cases same
        exact sound.derives who inbound key derived
      · simp
      · simp
  | broken who waiting =>
      refine sound.put who _ _ ?_ ?_ ?_ ?_
      · exact fun _ same => same
      · exact sound.derives who
      · simp
      · simp

/-- The partner of an accepted run: the opposite role, the same secret and key, and each
has received the other's message. -/
structure Network.Partner (primitives : Primitives Run Message Key Code) (secret : Run → Secret)
    (role : Run → Bool) (network : Network Run Message Key Code) (run partner : Run)
    (inbound : Message) (key : Key) : Prop where
  sameSecret : secret partner = secret run
  opposite : role partner = !role run
  received : inbound = primitives.outbound partner
  derived : (network.ends partner).derived = some (primitives.outbound run, key)

theorem Network.Sound.partner {network : Network Run Message Key Code}
    (sound : network.Sound primitives role) (ideal : primitives.Ideal secret) (run : Run)
    (inbound : Message) (key : Key) (accepted : network.ends run = .accepted inbound key) :
    ∃ partner, network.Partner primitives secret role run partner inbound key := by
  have finished := sound.derives run inbound key (by rw [accepted]; rfl)
  obtain ⟨partner, inbound', key', derived, same⟩ :=
    sound.writers _ (sound.accepts run inbound key accepted)
  obtain ⟨rfl, opposite⟩ := ideal.code_injective same
  have finished' := sound.derives partner inbound' key derived
  rcases ideal.separate run partner inbound inbound' key finished finished' with rfl | crossed
  · exact absurd opposite (by cases role run <;> decide)
  · obtain ⟨rfl, rfl⟩ := crossed
    have secrets := (ideal.sameKey run partner key key finished finished').mp rfl
    exact ⟨partner, secrets.symm, opposite.symm, rfl, derived⟩

/-! ## A faithful channel -/

/-- Between the two runs every message arrives as it was written, and nothing fails. -/
def Network.Faithful (primitives : Primitives Run Message Key Code) (role : Run → Bool)
    (first second : Run) (network : Network Run Message Key Code) :
    NetworkEvent Run Message Code → Prop
  | .start _ => True
  | .message run message => (run = first → message = primitives.outbound second) ∧
      (run = second → message = primitives.outbound first)
  | .code run code =>
      (run = first → ∃ inbound key, (network.ends second).derived = some (inbound, key) ∧
        code = getVerificationCode primitives key (role second)) ∧
      (run = second → ∃ inbound key, (network.ends first).derived = some (inbound, key) ∧
        code = getVerificationCode primitives key (role first))
  | .fail run => run ≠ first ∧ run ≠ second

/-- The two runs derive one key from each other's messages, in opposite roles. -/
def Matches (primitives : Primitives Run Message Key Code) (role : Run → Bool)
    (run peer : Run) : Prop :=
  ∃ key, primitives.finish run (primitives.outbound peer) = some key ∧
    primitives.finish peer (primitives.outbound run) = some key ∧ role peer = !role run

theorem Matches.symm {run peer : Run} (matched : Matches primitives role run peer) :
    Matches primitives role peer run := by
  obtain ⟨key, own, other, opposite⟩ := matched
  exact ⟨key, other, own, by rw [opposite, Bool.not_not]⟩

theorem Primitives.Ideal.matches_iff (ideal : primitives.Ideal secret) (run peer : Run)
    (different : run ≠ peer) :
    Matches primitives role run peer ↔ secret run = secret peer ∧ role run ≠ role peer := by
  obtain ⟨key, own⟩ := Option.isSome_iff_exists.mp (ideal.answers run peer different)
  obtain ⟨key', other⟩ := Option.isSome_iff_exists.mp (ideal.answers peer run different.symm)
  have same := ideal.sameKey run peer key key' own other
  have roles : role peer = (!role run) ↔ role run ≠ role peer := by
    cases role run <;> cases role peer <;> decide
  constructor
  · rintro ⟨shared, own', other', opposite⟩
    rw [own] at own'
    rw [other] at other'
    cases Option.some.inj own'
    cases Option.some.inj other'
    exact ⟨same.mp rfl, roles.mp opposite⟩
  · rintro ⟨secrets, differ⟩
    cases same.mpr secrets
    exact ⟨key, own, other, roles.mpr differ⟩

/-- What one end has derived and decided when it faces the other. -/
structure Network.Faces (primitives : Primitives Run Message Key Code) (role : Run → Bool)
    (network : Network Run Message Key Code) (run peer : Run) : Prop where
  derives : ∀ inbound key, (network.ends run).derived = some (inbound, key) →
    inbound = primitives.outbound peer ∧ primitives.finish run inbound = some key
  accepts : ∀ inbound key, network.ends run = .accepted inbound key →
    Matches primitives role run peer
  fails : ∀ derived, network.ends run = .failed derived → ¬ Matches primitives role run peer

theorem Network.initial_faces (run peer : Run) :
    (Network.initial : Network Run Message Key Code).Faces primitives role run peer where
  derives inbound key derived := absurd derived (Option.some_ne_none _).symm
  accepts inbound key accepted := absurd accepted (by simp [initial])
  fails derived failed := absurd failed (by simp [initial])

/-- The comparison of the codes decides whether the two runs match. -/
theorem Network.Faces.decides (ideal : primitives.Ideal secret)
    {network : Network Run Message Key Code} {run peer : Run} {inbound inbound' : Message}
    {key key' : Key} (own : network.Faces primitives role run peer)
    (other : network.Faces primitives role peer run)
    (derived : (network.ends run).derived = some (inbound, key))
    (derived' : (network.ends peer).derived = some (inbound', key')) :
    getVerificationCode primitives key' (role peer) =
      getVerificationCode primitives key (!role run) ↔ Matches primitives role run peer := by
  obtain ⟨rfl, finished⟩ := own.derives inbound key derived
  obtain ⟨rfl, finished'⟩ := other.derives inbound' key' derived'
  constructor
  · intro same
    obtain ⟨rfl, opposite⟩ := ideal.code_injective same
    exact ⟨key', finished, finished', opposite⟩
  · rintro ⟨shared, finished₁, finished₂, opposite⟩
    rw [finished] at finished₁
    rw [finished'] at finished₂
    cases Option.some.inj finished₁
    cases Option.some.inj finished₂
    rw [opposite]

/-- A step keeps what each end knows of the other. -/
theorem Network.Faces.step [DecidableEq Run] [DecidableEq Code] (ideal : primitives.Ideal secret)
    {network next : Network Run Message Key Code} {run peer : Run} (different : run ≠ peer)
    (own : network.Faces primitives role run peer)
    (other : network.Faces primitives role peer run) (event : NetworkEvent Run Message Code)
    (faithful : network.Faithful primitives role run peer event)
    (stepped : network.step primitives role event = some next) :
    next.Faces primitives role run peer := by
  have elsewhere : ∀ who verify written, who ≠ run →
      (network.put who verify written).Faces primitives role run peer := by
    intro who verify written another
    have same : (network.put who verify written).ends run = network.ends run :=
      Function.update_of_ne another.symm ..
    exact ⟨same ▸ own.derives, same ▸ own.accepts, same ▸ own.fails⟩
  have here : ∀ verify written,
      (∀ inbound key, verify.derived = some (inbound, key) →
        inbound = primitives.outbound peer ∧ primitives.finish run inbound = some key) →
      (∀ inbound key, verify = .accepted inbound key → Matches primitives role run peer) →
      (∀ derived, verify = .failed derived → ¬ Matches primitives role run peer) →
        (network.put run verify written).Faces primitives role run peer := by
    intro verify written derives accepts fails
    have now : (network.put run verify written).ends run = verify := Function.update_self ..
    exact ⟨now.symm ▸ derives, now.symm ▸ accepts, now.symm ▸ fails⟩
  cases step_cases event stepped with
  | started who idle =>
      by_cases same : who = run
      · subst same
        apply here <;> simp [Verify.derived]
      · exact elsewhere _ _ _ same
  | refused who message greeted none_ =>
      by_cases same : who = run
      · subst same
        have answers := ideal.answers who peer different
        rw [← faithful.1 rfl, none_] at answers
        exact absurd answers Bool.false_ne_true
      · exact elsewhere _ _ _ same
  | keyed who message key greeted finished =>
      by_cases same : who = run
      · subst same
        apply here
        · intro _ _ same
          cases same
          exact ⟨faithful.1 rfl, finished⟩
        · simp
        · simp
      · exact elsewhere _ _ _ same
  | accepted who inbound key keyed =>
      by_cases same : who = run
      · subst same
        obtain ⟨inbound', key', derived', right⟩ := faithful.1 rfl
        have derived : (network.ends who).derived = some (inbound, key) := by rw [keyed]; rfl
        apply here
        · intro _ _ same
          cases same
          exact own.derives inbound key derived
        · intro _ _ _
          exact (own.decides ideal other derived derived').mp right.symm
        · simp
      · exact elsewhere _ _ _ same
  | rejected who inbound key code keyed wrong =>
      by_cases same : who = run
      · subst same
        obtain ⟨inbound', key', derived', right⟩ := faithful.1 rfl
        have derived : (network.ends who).derived = some (inbound, key) := by rw [keyed]; rfl
        apply here
        · intro _ _ same
          cases same
          exact own.derives inbound key derived
        · simp
        · intro _ _ matched
          apply wrong
          rw [right]
          exact (own.decides ideal other derived derived').mpr matched
      · exact elsewhere _ _ _ same
  | broken who waiting => exact elsewhere _ _ _ faithful.1

end Authentication

end Gday.HolePunch
