import Gday.HolePunch.PeerConnector
import Gday.HolePunch.PeerAuthentication

/-! # When the peers agree on a stream

Each peer returns the first stream that it has verified, whatever the other one does with
it.  They agree in every run exactly where only one stream is the first of its attempt at
both ends; two such streams can be verified side by side, and each peer can pick its
own. -/
set_option autoImplicit false
namespace Gday.HolePunch

open Gday.Lib.Machine

section Agreement

variable {Message Key Code Secret : Type} [DecidableEq Code]
variable {primitives : Primitives (Bool × Nat) Message Key Code} {session : Session}
variable {secret : Secret}

/-- What both peers return is one stream and one key. -/
def PeersAgree (primitives : Primitives (Bool × Nat) Message Key Code) (session : Session) :
    Prop :=
  ∀ events final, runInputs (Peers.step primitives session) events Peers.initial = some final →
    ∀ creator joiner, final.returned true = some creator → final.returned false = some joiner →
      creator = joiner

/-! ## Only a front stream is returned -/

structure Peers.Honest (primitives : Primitives (Bool × Nat) Message Key Code)
    (session : Session) (peers : Peers Message Key Code) : Prop where
  begun : ∀ role stream, (peers.ends role stream).verify ≠ .idle →
    stream < session.streams.length ∧
      (session.Head role stream ∨ (peers.returned !role).isSome)
  failed : ∀ role stream, (peers.ends role stream).verify.isFailed = true →
    (peers.returned !role).isSome
  derives : ∀ role stream inbound key,
    (peers.ends role stream).verify.derived = some (inbound, key) →
      inbound = primitives.outbound (!role, stream) ∧
        primitives.finish (role, stream) inbound = some key ∧
          stream < session.streams.length ∧ session.Head (!role) stream
  messages : ∀ role stream message, .message message ∈ (peers.ends role stream).inbox →
    message = primitives.outbound (!role, stream) ∧
      (peers.ends (!role) stream).verify ≠ .idle
  codes : ∀ role stream code, .code code ∈ (peers.ends role stream).inbox → ∃ inbound key,
    (peers.ends (!role) stream).verify.derived = some (inbound, key) ∧
      code = getVerificationCode primitives key (!role)
  returns : ∀ role stream key, peers.returned role = some (stream, key) →
    session.Front stream ∧
      primitives.finish (role, stream) (primitives.outbound (!role, stream)) = some key

omit [DecidableEq Code] in
theorem Peers.initial_honest :
    (Peers.initial : Peers Message Key Code).Honest primitives session where
  begun _ _ active := absurd rfl active
  failed _ _ failed := absurd failed Bool.false_ne_true
  derives _ _ _ _ derived := absurd derived (Option.some_ne_none _).symm
  messages _ _ _ member := absurd member List.not_mem_nil
  codes _ _ _ member := absurd member List.not_mem_nil
  returns _ _ _ returned := absurd returned (Option.some_ne_none _).symm

omit [DecidableEq Code] in
theorem Peers.move_own (peers : Peers Message Key Code) (role : Bool) (stream : Nat)
    (end_ : StreamEnd Message Key Code) (written : Option (Packet Message Code)) :
    (peers.move role stream end_ written).ends role stream = end_ := by
  simp [move]

omit [DecidableEq Code] in
theorem Peers.move_peer (peers : Peers Message Key Code) (role : Bool) (stream : Nat)
    (end_ : StreamEnd Message Key Code) (written : Option (Packet Message Code)) :
    (peers.move role stream end_ written).ends (!role) stream =
      { peers.ends (!role) stream with
        inbox := (peers.ends (!role) stream).inbox ++ written.toList } := by
  simp [move]

omit [DecidableEq Code] in
theorem Peers.move_other (peers : Peers Message Key Code) (role who : Bool)
    (stream other : Nat) (end_ : StreamEnd Message Key Code)
    (written : Option (Packet Message Code)) (different : other ≠ stream) :
    (peers.move role stream end_ written).ends who other = peers.ends who other := by
  simp [move, different]

/-- The end that moves, the one at the other side of the stream, and all the others. -/
theorem end_cases (role : Bool) (stream : Nat) (who : Bool) (other : Nat) :
    (who = role ∧ other = stream) ∨ (who = !role) ∧ other = stream ∨ other ≠ stream := by
  by_cases same : other = stream
  · by_cases mine : who = role
    · exact .inl ⟨mine, same⟩
    · exact .inr (.inl ⟨Bool.eq_not_of_ne mine, same⟩)
  · exact .inr (.inr same)

omit [DecidableEq Code] in
/-- A move of a peer that has not returned: what it has to know about the end and about
what it writes. -/
theorem Peers.Honest.move {peers : Peers Message Key Code}
    (honest : peers.Honest primitives session) (role : Bool) (stream : Nat)
    (end_ : StreamEnd Message Key Code) (written : Option (Packet Message Code))
    (active : end_.verify ≠ .idle)
    (begun : stream < session.streams.length ∧
      (session.Head role stream ∨ (peers.returned !role).isSome))
    (failed : end_.verify.isFailed = true → (peers.returned !role).isSome)
    (remembers : ∀ found, (peers.ends role stream).verify.derived = some found →
      end_.verify.derived = some found)
    (derives : ∀ inbound key, end_.verify.derived = some (inbound, key) →
      inbound = primitives.outbound (!role, stream) ∧
        primitives.finish (role, stream) inbound = some key ∧
          stream < session.streams.length ∧ session.Head (!role) stream)
    (inbox : ∀ packet ∈ end_.inbox, packet ∈ (peers.ends role stream).inbox)
    (messages : ∀ message, written = some (.message message) →
      message = primitives.outbound (role, stream))
    (codes : ∀ code, written = some (.code code) → ∃ inbound key,
      end_.verify.derived = some (inbound, key) ∧
        code = getVerificationCode primitives key role) :
    (peers.move role stream end_ written).Honest primitives session := by
  have own := peers.move_own role stream end_ written
  have peer := peers.move_peer role stream end_ written
  have others := fun who other different =>
    peers.move_other role who stream other end_ written different
  constructor
  · intro who other now
    rcases end_cases role stream who other with ⟨rfl, rfl⟩ | ⟨rfl, rfl⟩ | different
    · exact begun
    · rw [peer] at now
      exact honest.begun _ _ now
    · rw [others who other different] at now
      exact honest.begun who other now
  · intro who other now
    rcases end_cases role stream who other with ⟨rfl, rfl⟩ | ⟨rfl, rfl⟩ | different
    · rw [own] at now
      exact failed now
    · rw [peer] at now
      exact honest.failed _ _ now
    · rw [others who other different] at now
      exact honest.failed who other now
  · intro who other inbound key now
    rcases end_cases role stream who other with ⟨rfl, rfl⟩ | ⟨rfl, rfl⟩ | different
    · rw [own] at now
      exact derives inbound key now
    · rw [peer] at now
      exact honest.derives _ _ inbound key now
    · rw [others who other different] at now
      exact honest.derives who other inbound key now
  · intro who other message now
    rcases end_cases role stream who other with ⟨rfl, rfl⟩ | ⟨rfl, rfl⟩ | different
    · rw [own] at now
      rw [peer]
      exact honest.messages _ _ message (inbox _ now)
    · rw [peer] at now
      rw [Bool.not_not, own]
      refine ⟨?_, active⟩
      rcases List.mem_append.mp now with before | fresh
      · have known := (honest.messages _ _ message before).1
        rwa [Bool.not_not] at known
      · exact messages message (Option.mem_toList.mp fresh)
    · rw [others who other different] at now
      rw [others (!who) other different]
      exact honest.messages who other message now
  · intro who other code now
    rcases end_cases role stream who other with ⟨rfl, rfl⟩ | ⟨rfl, rfl⟩ | different
    · rw [own] at now
      rw [peer]
      exact honest.codes _ _ code (inbox _ now)
    · rw [peer] at now
      rw [Bool.not_not, own]
      rcases List.mem_append.mp now with before | fresh
      · obtain ⟨inbound, key, derived, same⟩ := honest.codes _ _ code before
        rw [Bool.not_not] at derived same
        exact ⟨inbound, key, remembers _ derived, same⟩
      · exact codes code (Option.mem_toList.mp fresh)
    · rw [others who other different] at now
      rw [others (!who) other different]
      exact honest.codes who other code now
  · intro who other key returned
    exact honest.returns who other key returned

omit [DecidableEq Code] in
/-- A peer returns a front stream with its key. -/
theorem Peers.Honest.answer {peers : Peers Message Key Code}
    (honest : peers.Honest primitives session) (role : Bool) (stream : Nat) (key : Key)
    (front : session.Front stream)
    (finished : primitives.finish (role, stream) (primitives.outbound (!role, stream)) = some key) :
    Peers.Honest primitives session { peers with
      returned := Function.update peers.returned role (some (stream, key)) } := by
  have grows : ∀ who, (peers.returned who).isSome →
      (Function.update peers.returned role (some (stream, key)) who).isSome := by
    intro who before
    by_cases same : who = role
    · subst same
      simp
    · rwa [Function.update_of_ne same]
  constructor
  · intro who other active
    obtain ⟨inside, known⟩ := honest.begun who other active
    exact ⟨inside, known.imp_right (grows _)⟩
  · intro who other failed
    exact grows _ (honest.failed who other failed)
  · exact honest.derives
  · exact honest.messages
  · exact honest.codes
  · intro who other key' returned
    by_cases same : who = role
    · subst same
      obtain ⟨rfl, rfl⟩ : stream = other ∧ key = key' := by simpa using returned
      exact ⟨front, finished⟩
    · have before : peers.returned who = some (other, key') := by
        rw [← returned]
        exact (Function.update_of_ne same ..).symm
      exact honest.returns who other key' before

omit [DecidableEq Code] in
/-- An end that is taken up is the head of its attempt, unless the other peer is done. -/
theorem Peers.Honest.head_of_free {peers : Peers Message Key Code}
    (honest : peers.Honest primitives session) (role : Bool) (stream : Nat)
    (free : peers.free session role stream = true) :
    session.Head role stream ∨ (peers.returned !role).isSome := by
  by_cases done : (peers.returned !role).isSome
  · exact .inr done
  · left
    intro earlier before same
    have allFree := List.all_eq_true.mp free earlier (List.mem_range.mpr before)
    rw [same] at allFree
    exact done (honest.failed role earlier (by simpa using allFree))

omit [DecidableEq Code] in
/-- An end begins and writes its message. -/
theorem Peers.Honest.begin {peers : Peers Message Key Code}
    (honest : peers.Honest primitives session) (role : Bool) (stream : Nat)
    (idle : (peers.ends role stream).verify = .idle) (inside : stream < session.streams.length)
    (free : peers.free session role stream = true) :
    (peers.move role stream ⟨.greeted, (peers.ends role stream).inbox⟩
      (some (.message (primitives.outbound (role, stream))))).Honest primitives session := by
  apply honest.move
  · simp
  · exact ⟨inside, honest.head_of_free role stream free⟩
  · intro failed
    exact absurd failed Bool.false_ne_true
  · intro found derived
    rw [idle] at derived
    exact absurd derived (Option.some_ne_none _).symm
  · intro _ _ same
    cases same
  · intro packet member
    exact member
  · intro _ same
    cases same
    rfl
  · intro _ same
    cases same

omit [DecidableEq Code] in
theorem Peers.Honest.returned_of_closed {peers : Peers Message Key Code}
    (honest : peers.Honest primitives session) (role : Bool) (stream : Nat)
    (running : peers.returned role = none) (closed : peers.closed (!role) stream = true) :
    (peers.returned !role).isSome := by
  rcases Bool.or_eq_true_iff.mp closed with failed | another
  · have done := honest.failed _ _ failed
    rw [Bool.not_not, running] at done
    exact absurd done Bool.false_ne_true
  · obtain ⟨returned, -⟩ := (Option.any_eq_true_iff_get ..).mp another
    exact returned

omit [DecidableEq Code] in
/-- What the first message of the peer leads to. -/
theorem Peers.Honest.readMessage (ideal : primitives.Ideal fun _ => secret)
    {peers : Peers Message Key Code} (honest : peers.Honest primitives session) (role : Bool)
    (stream : Nat) (message : Message) (rest : List (Packet Message Code))
    (running : peers.returned role = none)
    (before : peers.ends role stream = ⟨.greeted, .message message :: rest⟩) :
    let (verify, code) := receiveMessage primitives (role, stream) role message
    (peers.move role stream ⟨verify, rest⟩ (code.map .code)).Honest primitives session := by
  have member : .message message ∈ (peers.ends role stream).inbox := by
    rw [before]
    exact List.mem_cons_self
  obtain ⟨rfl, active⟩ := honest.messages role stream message member
  obtain ⟨inside, head⟩ := honest.begun (!role) stream active
  have head : session.Head (!role) stream := by
    rw [Bool.not_not, running] at head
    exact head.resolve_right Bool.false_ne_true
  have different : (role, stream) ≠ (!role, stream) := by
    intro same
    exact (Bool.eq_not_self role).mp (Prod.ext_iff.mp same).1
  obtain ⟨key, finished⟩ := Option.isSome_iff_exists.mp (ideal.answers _ _ different)
  unfold receiveMessage
  rw [finished]
  apply honest.move
  · simp
  · apply honest.begun
    rw [before]
    simp
  · intro failed
    exact absurd failed Bool.false_ne_true
  · intro found derived
    rw [before] at derived
    exact absurd derived (Option.some_ne_none _).symm
  · intro _ _ same
    cases same
    exact ⟨rfl, finished, inside, head⟩
  · intro packet known
    rw [before]
    exact List.mem_cons_of_mem _ known
  · intro _ same
    cases same
  · intro _ same
    cases same
    exact ⟨_, key, rfl, rfl⟩

/-- The secret is one, so the code of the peer is always the right one. -/
theorem Peers.Honest.readCode (ideal : primitives.Ideal fun _ => secret)
    {peers : Peers Message Key Code} (honest : peers.Honest primitives session) (role : Bool)
    (stream : Nat) (inbound : Message) (key : Key) (code : Code)
    (rest : List (Packet Message Code))
    (before : peers.ends role stream = ⟨.keyed inbound key, .code code :: rest⟩) :
    receiveCode primitives role inbound key code = .accepted inbound key ∧
      session.Front stream ∧
        (peers.move role stream ⟨.accepted inbound key, rest⟩ none).Honest primitives session := by
  have member : .code code ∈ (peers.ends role stream).inbox := by
    rw [before]
    exact List.mem_cons_self
  have derived : (peers.ends role stream).verify.derived = some (inbound, key) := by
    rw [before]
    rfl
  obtain ⟨rfl, finished, inside, head⟩ := honest.derives role stream inbound key derived
  obtain ⟨inbound', key', derived', rfl⟩ := honest.codes role stream code member
  obtain ⟨rfl, finished', -, head'⟩ := honest.derives (!role) stream inbound' key' derived'
  rw [Bool.not_not] at finished' head'
  have sameKey : key = key' := (ideal.sameKey _ _ key key' finished finished').mpr rfl
  have front : session.Front stream := by
    refine ⟨inside, fun who => ?_⟩
    by_cases same : who = role
    · exact same ▸ head'
    · exact Bool.eq_not_of_ne same ▸ head
  refine ⟨?_, front, ?_⟩
  · unfold receiveCode
    rw [sameKey, if_pos rfl]
  · apply honest.move
    · simp
    · apply honest.begun
      rw [before]
      simp
    · intro failed
      exact absurd failed Bool.false_ne_true
    · intro found known
      rw [derived] at known
      exact known
    · intro _ _ same
      cases same
      exact ⟨rfl, finished, inside, head⟩
    · intro packet known
      rw [before]
      exact List.mem_cons_of_mem _ known
    · intro _ same
      cases same
    · intro _ same
      cases same

omit [DecidableEq Code] in
/-- An end can fail only once the other peer has returned. -/
theorem Peers.Honest.fail {peers : Peers Message Key Code}
    (honest : peers.Honest primitives session) (role : Bool) (stream : Nat)
    (active : (peers.ends role stream).verify ≠ .idle) (done : (peers.returned !role).isSome) :
    (peers.move role stream ⟨.failed (peers.ends role stream).verify.derived,
      (peers.ends role stream).inbox⟩ none).Honest primitives session := by
  apply honest.move
  · simp
  · exact honest.begun role stream active
  · intro _
    exact done
  · intro found known
    exact known
  · intro inbound key known
    exact honest.derives role stream inbound key known
  · intro packet known
    exact known
  · intro _ same
    cases same
  · intro _ same
    cases same

theorem Peers.Honest.step (ideal : primitives.Ideal fun _ => secret)
    {peers next : Peers Message Key Code} (honest : peers.Honest primitives session)
    (event : PeersEvent) (stepped : peers.step primitives session event = some next) :
    next.Honest primitives session := by
  cases event with
  | begin role stream =>
      cases running : peers.returned role with
      | some result => simp [Peers.step, running] at stepped
      | none =>
          cases before : (peers.ends role stream).verify with
          | idle =>
              simp only [Peers.step, running, before, Option.ite_none_right_eq_some,
                Bool.and_eq_true, decide_eq_true_eq, Option.some.injEq] at stepped
              obtain ⟨⟨inside, free⟩, rfl⟩ := stepped
              exact honest.begin role stream before inside free
          | _ => simp [Peers.step, running, before] at stepped
  | read role stream =>
      cases running : peers.returned role with
      | some result => simp [Peers.step, running] at stepped
      | none =>
          cases before : peers.ends role stream with
          | mk verify inbox =>
              cases verify with
              | greeted =>
                  rcases inbox with _ | ⟨message | code, rest⟩
                  · simp [Peers.step, running, before] at stepped
                  · have read := honest.readMessage ideal role stream message rest running before
                    simp only [Peers.step, running, before, Option.some.injEq] at stepped
                    subst stepped
                    exact read
                  · simp [Peers.step, running, before] at stepped
              | keyed inbound key =>
                  rcases inbox with _ | ⟨message | code, rest⟩
                  · simp [Peers.step, running, before] at stepped
                  · simp [Peers.step, running, before] at stepped
                  · obtain ⟨accepts, front, kept⟩ :=
                      honest.readCode ideal role stream inbound key code rest before
                    have derived :
                        (peers.ends role stream).verify.derived = some (inbound, key) := by
                      rw [before]
                      rfl
                    obtain ⟨rfl, finished, -⟩ := honest.derives role stream inbound key derived
                    simp only [Peers.step, running, before, accepts, Option.some.injEq] at stepped
                    subst stepped
                    exact kept.answer role stream key front finished
              | _ => simp [Peers.step, running, before] at stepped
  | lose role stream =>
      unfold Peers.step at stepped
      obtain ⟨closed, stepped⟩ := Option.ite_none_right_eq_some.mp stepped
      cases running : peers.returned role with
      | some result => simp [running] at stepped
      | none =>
          have done := honest.returned_of_closed role stream running closed
          have fail := honest.fail role stream
          cases before : peers.ends role stream with
          | mk verify inbox =>
              rw [before] at fail
              cases verify with
              | greeted =>
                  simp only [running, before, Option.some.injEq] at stepped
                  subst stepped
                  exact fail (by simp) done
              | keyed inbound key =>
                  simp only [running, before, Option.some.injEq] at stepped
                  subst stepped
                  exact fail (by simp) done
              | _ => simp [running, before] at stepped

theorem Peers.run_honest (ideal : primitives.Ideal fun _ => secret) (events : List PeersEvent)
    (final : Peers Message Key Code)
    (run : runInputs (Peers.step primitives session) events Peers.initial = some final) :
    final.Honest primitives session :=
  runInputs_invariant (Peers.step primitives session)
    (fun peers : Peers Message Key Code => peers.Honest primitives session)
    (fun _ event _ honest stepped => honest.step ideal event stepped) events _ final
    Peers.initial_honest run

/-! ## Every front stream can be verified at both ends -/

theorem Peers.begin_front (peers : Peers Message Key Code) (role : Bool) (stream : Nat)
    (front : session.Front stream) (running : peers.returned role = none)
    (idle : (peers.ends role stream).verify = .idle) :
    peers.step primitives session (.begin role stream) =
      some (peers.move role stream ⟨.greeted, (peers.ends role stream).inbox⟩
        (some (.message (primitives.outbound (role, stream))))) := by
  have free : peers.free session role stream = true := by
    apply List.all_eq_true.mpr
    intro earlier member
    have other := front.2 role earlier (List.mem_range.mp member)
    simp [other]
  simp [step, running, idle, front.1, free]

theorem Peers.read_message (peers : Peers Message Key Code) (role : Bool) (stream : Nat)
    (message : Message) (key : Key) (rest : List (Packet Message Code))
    (running : peers.returned role = none)
    (ends : peers.ends role stream = ⟨.greeted, .message message :: rest⟩)
    (finished : primitives.finish (role, stream) message = some key) :
    peers.step primitives session (.read role stream) =
      some (peers.move role stream ⟨.keyed message key, rest⟩
        (some (.code (getVerificationCode primitives key role)))) := by
  simp [step, running, ends, receiveMessage, finished]

/-- Both ends wait for the code that is on the way. -/
def Peers.Keyed (primitives : Primitives (Bool × Nat) Message Key Code)
    (peers : Peers Message Key Code) (stream : Nat) (key : Key) : Prop :=
  ∀ role, peers.ends role stream =
    ⟨.keyed (primitives.outbound (!role, stream)) key,
      [.code (getVerificationCode primitives key !role)]⟩

/-- Both ends begin, and each reads the message of the other. -/
def exchange (stream : Nat) : List PeersEvent :=
  [.begin true stream, .begin false stream, .read true stream, .read false stream]

theorem Peers.handshake (ideal : primitives.Ideal fun _ => secret)
    (peers : Peers Message Key Code) (stream : Nat) (front : session.Front stream)
    (running : ∀ role, peers.returned role = none)
    (fresh : ∀ role, peers.ends role stream = ⟨.idle, []⟩) :
    ∃ next key, runInputs (step primitives session) (exchange stream) peers = some next ∧
      next.returned = peers.returned ∧ next.Keyed primitives stream key ∧
        ∀ role other, other ≠ stream → next.ends role other = peers.ends role other := by
  have different : ((true, stream) : Bool × Nat) ≠ (false, stream) := by simp
  obtain ⟨key, finished⟩ := Option.isSome_iff_exists.mp (ideal.answers _ _ different)
  obtain ⟨key', finished'⟩ := Option.isSome_iff_exists.mp (ideal.answers _ _ different.symm)
  obtain rfl : key = key' := (ideal.sameKey _ _ key key' finished finished').mpr rfl
  let first := peers.move true stream ⟨.greeted, []⟩
    (some (.message (primitives.outbound (true, stream))))
  let second := first.move false stream ⟨.greeted, [.message (primitives.outbound (true, stream))]⟩
    (some (.message (primitives.outbound (false, stream))))
  let third := second.move true stream ⟨.keyed (primitives.outbound (false, stream)) key, []⟩
    (some (.code (getVerificationCode primitives key true)))
  let fourth := third.move false stream
    ⟨.keyed (primitives.outbound (true, stream)) key,
      [.code (getVerificationCode primitives key true)]⟩
    (some (.code (getVerificationCode primitives key false)))
  have begun : peers.step primitives session (.begin true stream) = some first := by
    rw [peers.begin_front true stream front (running true) (by rw [fresh]), fresh]
  have begun' : first.step primitives session (.begin false stream) = some second := by
    have inbox : first.ends false stream =
        ⟨.idle, [.message (primitives.outbound (true, stream))]⟩ := by
      simp [first, move, fresh]
    rw [first.begin_front false stream front (running false) (by rw [inbox]), inbox]
  have read : second.step primitives session (.read true stream) = some third := by
    apply second.read_message true stream _ key [] (running true) _ finished
    simp [first, second, move]
  have read' : third.step primitives session (.read false stream) = some fourth := by
    apply third.read_message false stream _ key _ (running false) _ finished'
    simp [first, second, third, move]
  refine ⟨fourth, key, ?_, rfl, ?_, ?_⟩
  · simp only [exchange, runInputs, begun, begun', read, read', Option.bind_eq_bind,
      Option.bind_some]
  · intro role
    cases role <;> simp [fourth, third, move]
  · intro role other another
    simp [first, second, third, fourth, move, another]

theorem Peers.Keyed.accepts (session : Session) {peers : Peers Message Key Code} {stream : Nat}
    {key : Key} (keyed : peers.Keyed primitives stream key) (role : Bool)
    (running : peers.returned role = none) :
    ∃ next, peers.step primitives session (.read role stream) = some next ∧
      next.returned = Function.update peers.returned role (some (stream, key)) ∧
        ∀ who other, other ≠ stream → next.ends who other = peers.ends who other := by
  refine ⟨{ peers.move role stream ⟨.accepted (primitives.outbound (!role, stream)) key, []⟩ none
    with returned := Function.update peers.returned role (some (stream, key)) }, ?_, rfl, ?_⟩
  · simp [step, running, keyed role, receiveCode]
  · intro who other another
    exact peers.move_other role who stream other _ none another

/-- Both peers verify both streams up to the codes; then each reads the code of another one. -/
theorem Peers.disagree (ideal : primitives.Ideal fun _ => secret) (stream other : Nat)
    (front : session.Front stream) (front' : session.Front other) (different : stream ≠ other) :
    ¬ PeersAgree primitives session := by
  intro agree
  obtain ⟨one, key, run, running, keyed, others⟩ :=
    Peers.handshake ideal Peers.initial stream front (fun _ => rfl) (fun _ => rfl)
  obtain ⟨two, key', run', running', keyed', others'⟩ :=
    one.handshake ideal other front' (fun role => by rw [running]; rfl)
      (fun role => others role other different.symm)
  have still : two.Keyed primitives stream key := fun role => by
    rw [others' role stream different, keyed role]
  obtain ⟨three, read, returned, others''⟩ :=
    still.accepts session true (by rw [running', running]; rfl)
  have still' : three.Keyed primitives other key' := fun role => by
    rw [others'' role other different.symm, keyed' role]
  obtain ⟨four, read', returned', -⟩ :=
    still'.accepts session false (by rw [returned, running', running]; rfl)
  have whole : runInputs (Peers.step primitives session)
      (exchange stream ++ (exchange other ++ [.read true stream, .read false other]))
        Peers.initial = some four := by
    rw [runInputs_append, run, Option.bind_some, runInputs_append, run', Option.bind_some]
    simp only [runInputs, read, read', Option.bind_eq_bind, Option.bind_some]
  have both := agree _ four whole (stream, key) (other, key') (by rw [returned', returned]; rfl)
    (by rw [returned']; rfl)
  exact different (Prod.ext_iff.mp both).1

/-- The peers agree in every run exactly where only one stream is the first of its attempt
at both ends. -/
theorem peersAgree_iff (ideal : primitives.Ideal fun _ => secret) :
    PeersAgree primitives session ↔
      ∀ stream other, session.Front stream → session.Front other → stream = other := by
  constructor
  · intro agree stream other front front'
    by_contra different
    exact Peers.disagree ideal stream other front front' different agree
  · intro only events final run creator joiner created joined
    have honest := Peers.run_honest ideal events final run
    obtain ⟨front, finished⟩ := honest.returns true creator.1 creator.2 created
    obtain ⟨front', finished'⟩ := honest.returns false joiner.1 joiner.2 joined
    have same := only creator.1 joiner.1 front front'
    rw [← same] at finished'
    have sameKey := (ideal.sameKey _ _ creator.2 joiner.2 finished finished').mpr rfl
    exact Prod.ext same sameKey

end Agreement

/-! ## Two streams, two peers -/

def loopback (port : UInt16) : FullContact :=
  ⟨⟨some ⟨⟨List.replicate 16 0, rfl⟩, port, 0, 0⟩, some ⟨⟨[127, 0, 0, 1], rfl⟩, port⟩⟩, .default⟩

/-- Over each family the creator accepts what the joiner connects. -/
def twoStreams : Session :=
  ⟨fun isCreator => loopback (if isCreator then 1 else 2),
    [fun isCreator => if isCreator then 0 else 1, fun isCreator => if isCreator then 2 else 3]⟩

/-- Over one family, the joiner connects twice. -/
def retriedStream : Session :=
  { twoStreams with streams := List.replicate 2 fun isCreator => if isCreator then 0 else 1 }

theorem twoStreams_front (stream : Nat) (inside : stream < 2) : twoStreams.Front stream := by
  refine ⟨inside, fun role earlier before => ?_⟩
  obtain rfl : stream = 1 := by omega
  obtain rfl : earlier = 0 := by omega
  cases role <;> decide

theorem peers_disagree :
    twoStreams.Valid ∧ ¬ PeersAgree (symbolic fun _ : Bool × Nat => 7) twoStreams := by
  constructor
  · intro attempt member
    rcases List.mem_pair.mp member with rfl | rfl
    · exact ⟨_, _, rfl, rfl, rfl⟩
    · exact ⟨_, _, rfl, rfl, rfl⟩
  · exact Peers.disagree (symbolic_ideal _) 0 1 (twoStreams_front 0 (by omega))
      (twoStreams_front 1 (by omega)) (by omega)

/-- The second stream is the first one of no attempt. -/
theorem peersAgree_retried :
    PeersAgree (symbolic fun _ : Bool × Nat => 7) retriedStream := by
  apply (peersAgree_iff (symbolic_ideal _)).mpr
  have first : ∀ stream, retriedStream.Front stream → stream = 0 := by
    intro stream front
    have inside : stream < 2 := front.1
    by_contra later
    obtain rfl : stream = 1 := by omega
    exact front.2 true 0 (by omega) rfl
  intro stream other front front'
  rw [first stream front, first other front']

end Gday.HolePunch
