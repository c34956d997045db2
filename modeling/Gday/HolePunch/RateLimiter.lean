import Gday.Lib.Machine

/-! # One connection in five seconds

`run` and `serve_client`: the accept loop and the timers share the map `blocked`, and each
look-up, insertion and removal is a step of its own.  Between two of them a stream is in the
hands of the loop (`accepted`) or of a timer's task (`resumed`). -/
set_option autoImplicit false
namespace Gday.HolePunch

open Gday.Lib.Machine

structure Limiter (Ip Stream : Type) where
  blocked : Ip → Option (Option Stream)
  accepted : Option Stream
  timers : List Ip
  resumed : List Stream
  served : List Stream

/-- The loop accepts a stream and looks its address up; the loop's `serve_client`; a timer
ends; its task's `serve_client`.  `peerAddr` says whether `peer_addr` works. -/
inductive LimiterEvent (Stream : Type) where
  | accept (stream : Stream)
  | serve (peerAddr : Bool)
  | timeout (place : Nat)
  | resume (place : Nat) (peerAddr : Bool)
  deriving DecidableEq

namespace Limiter

variable {Ip Stream : Type} [DecidableEq Ip]

def initial : Limiter Ip Stream := ⟨fun _ => none, none, [], [], []⟩

/-- The insertion, and the two tasks that are spawned after it. -/
def serveClient (ip : Stream → Ip) (limiter : Limiter Ip Stream) (tcpStream : Stream)
    (peerAddr : Bool) : Limiter Ip Stream :=
  if peerAddr then
    { limiter with
      blocked := Function.update limiter.blocked (ip tcpStream) (some none)
      timers := limiter.timers ++ [ip tcpStream]
      served := limiter.served ++ [tcpStream] }
  else limiter

def step (ip : Stream → Ip) (limiter : Limiter Ip Stream) :
    LimiterEvent Stream → Option (Limiter Ip Stream)
  | .accept stream =>
      match limiter.accepted, limiter.blocked (ip stream) with
      | some _, _ => none
      | none, some _ =>
          -- a stream that was parked before is dropped
          some { limiter with
            blocked := Function.update limiter.blocked (ip stream) (some (some stream)) }
      | none, none => some { limiter with accepted := some stream }
  | .serve peerAddr => do
      let stream ← limiter.accepted
      return serveClient ip { limiter with accepted := none } stream peerAddr
  | .timeout place => do
      let addr ← limiter.timers[place]?
      let next := { limiter with
        blocked := Function.update limiter.blocked addr none
        timers := limiter.timers.eraseIdx place }
      match limiter.blocked addr with
      | some (some tcpStream) => return { next with resumed := limiter.resumed ++ [tcpStream] }
      | _ => return next
  | .resume place peerAddr => do
      let tcpStream ← limiter.resumed[place]?
      return serveClient ip { limiter with resumed := limiter.resumed.eraseIdx place } tcpStream
        peerAddr

/-- The loop looks no address up while a timer's task has a stream from there in its hands,
and such a stream still has its peer. -/
def InTime (ip : Stream → Ip) (limiter : Limiter Ip Stream) : LimiterEvent Stream → Prop
  | .accept stream => ∀ other ∈ limiter.resumed, ip other ≠ ip stream
  | .resume _ peerAddr => peerAddr = true
  | _ => True

/-! ## What is promised -/

/-- One timer for each address in the map. -/
structure Windows (limiter : Limiter Ip Stream) : Prop where
  oneTimer : limiter.timers.Nodup
  held : ∀ addr, (limiter.blocked addr).isSome ↔ addr ∈ limiter.timers

/-- A step starts connections outside of windows only, and loses no stream that is parked but
for a newer one from its address. -/
structure Fair (ip : Stream → Ip) (limiter : Limiter Ip Stream) (event : LimiterEvent Stream)
    (next : Limiter Ip Stream) : Prop where
  outside : ∀ stream, next.served = limiter.served ++ [stream] → ip stream ∉ limiter.timers
  parked : ∀ addr stream, limiter.blocked addr = some (some stream) →
    next.blocked addr = some (some stream) ∨
      (∃ newer, event = .accept newer ∧ ip newer = addr ∧
        next.blocked addr = some (some newer)) ∨
      ∃ place, event = .timeout place ∧ limiter.timers[place]? = some addr ∧
        stream ∈ next.resumed
  resumed : ∀ stream ∈ limiter.resumed, stream ∈ next.resumed ∨ stream ∈ next.served

/-- Nothing keeps a timer from ending, nor its task from serving the stream that it has. -/
structure Live (ip : Stream → Ip) (limiter : Limiter Ip Stream) : Prop where
  ends : ∀ place addr, limiter.timers[place]? = some addr →
    ∃ next, limiter.step ip (.timeout place) = some next
  serves : ∀ place stream, limiter.resumed[place]? = some stream →
    ∃ next, limiter.step ip (.resume place true) = some next ∧
      next.served = limiter.served ++ [stream]

/-! ## The invariant -/

/-- The addresses whose window is open or about to be. -/
def opened (ip : Stream → Ip) (limiter : Limiter Ip Stream) : List Ip :=
  limiter.timers ++ (limiter.accepted.toList ++ limiter.resumed).map ip

structure Orderly (ip : Stream → Ip) (limiter : Limiter Ip Stream) : Prop where
  distinct : (limiter.opened ip).Nodup
  held : ∀ addr, (limiter.blocked addr).isSome ↔ addr ∈ limiter.timers
  own : ∀ addr stream, limiter.blocked addr = some (some stream) → ip stream = addr

variable {ip : Stream → Ip} {limiter next : Limiter Ip Stream}

omit [DecidableEq Ip] in
theorem initial_orderly : Orderly ip (initial : Limiter Ip Stream) where
  distinct := List.nodup_nil
  held _ :=
    ⟨fun held => absurd held Bool.false_ne_true, fun member => absurd member List.not_mem_nil⟩
  own _ _ parked := absurd parked (Option.some_ne_none _).symm

omit [DecidableEq Ip] in
theorem Orderly.free_of_resumed (orderly : limiter.Orderly ip) (stream : Stream)
    (member : stream ∈ limiter.resumed) : ip stream ∉ limiter.timers := by
  intro timed
  have apart := (List.nodup_append.mp orderly.distinct).2.2
  exact apart _ timed _ (List.mem_map_of_mem (List.mem_append_right _ member)) rfl

omit [DecidableEq Ip] in
theorem Orderly.free_of_accepted (orderly : limiter.Orderly ip) (stream : Stream)
    (isAccepted : limiter.accepted = some stream) : ip stream ∉ limiter.timers := by
  intro timed
  have apart := (List.nodup_append.mp orderly.distinct).2.2
  apply apart _ timed _ _ rfl
  apply List.mem_map_of_mem
  rw [isAccepted]
  exact List.mem_append_left _ (List.mem_singleton_self stream)

/-- A stream that was in somebody's hands opens the window of its address. -/
theorem Orderly.serveClient (orderly : limiter.Orderly ip) (stream : Stream) (peerAddr : Bool)
    (fresh : ip stream ∉ limiter.opened ip) :
    Orderly ip (limiter.serveClient ip stream peerAddr) := by
  cases peerAddr with
  | false => exact orderly
  | true =>
      constructor
      · have moved : (limiter.serveClient ip stream true).opened ip =
            limiter.timers ++ ip stream :: (limiter.accepted.toList ++ limiter.resumed).map ip :=
          List.append_assoc ..
        rw [moved]
        exact List.perm_middle.nodup_iff.mpr (List.nodup_cons.mpr ⟨fresh, orderly.distinct⟩)
      · intro addr
        show (Function.update limiter.blocked (ip stream) (some none) addr).isSome ↔
          addr ∈ limiter.timers ++ [ip stream]
        by_cases same : addr = ip stream
        · rw [same, Function.update_self]
          exact ⟨fun _ => List.mem_append_right _ (List.mem_singleton_self _), fun _ => rfl⟩
        · rw [Function.update_of_ne same, orderly.held]
          simp [same]
      · intro addr parkedStream parked
        have entry : Function.update limiter.blocked (ip stream) (some none) addr =
            some (some parkedStream) := parked
        by_cases same : addr = ip stream
        · rw [same, Function.update_self] at entry
          exact absurd (Option.some.inj entry) (Option.some_ne_none _).symm
        · rw [Function.update_of_ne same] at entry
          exact orderly.own addr parkedStream entry

/-- The removal of an entry, together with its timer. -/
theorem Orderly.remove (orderly : limiter.Orderly ip) (place : Nat) (addr : Ip)
    (timer : limiter.timers[place]? = some addr) :
    Orderly ip { limiter with
      blocked := Function.update limiter.blocked addr none
      timers := limiter.timers.eraseIdx place } ∧
    addr ∉ opened ip { limiter with
      blocked := Function.update limiter.blocked addr none
      timers := limiter.timers.eraseIdx place } := by
  obtain ⟨inside, found⟩ := List.getElem?_eq_some_iff.mp timer
  have taken : limiter.timers.Perm (addr :: limiter.timers.eraseIdx place) := by
    rw [← found]
    exact (List.getElem_cons_eraseIdx_perm inside).symm
  have apart := List.nodup_cons.mp ((taken.append_right _).nodup_iff.mp orderly.distinct)
  have once := List.nodup_cons.mp (taken.nodup_iff.mp (List.nodup_append.mp orderly.distinct).1)
  refine ⟨⟨apart.2, ?_, ?_⟩, apart.1⟩
  · intro other
    show (Function.update limiter.blocked addr none other).isSome ↔
      other ∈ limiter.timers.eraseIdx place
    by_cases same : other = addr
    · rw [same, Function.update_self]
      exact ⟨fun held => absurd held Bool.false_ne_true, fun member => absurd member once.1⟩
    · rw [Function.update_of_ne same, orderly.held, taken.mem_iff]
      exact ⟨fun member => (List.mem_cons.mp member).resolve_left same, List.mem_cons_of_mem _⟩
  · intro other stream parked
    have entry : Function.update limiter.blocked addr none other = some (some stream) := parked
    by_cases same : other = addr
    · rw [same, Function.update_self] at entry
      exact absurd entry (Option.some_ne_none _).symm
    · rw [Function.update_of_ne same] at entry
      exact orderly.own other stream entry

omit [DecidableEq Ip] in
/-- Only `opened` depends on the streams that are in somebody's hands. -/
theorem Orderly.hands (orderly : limiter.Orderly ip) (accepted : Option Stream)
    (resumed : List Stream)
    (distinct : (opened ip { limiter with accepted := accepted, resumed := resumed }).Nodup) :
    Orderly ip { limiter with accepted := accepted, resumed := resumed } :=
  ⟨distinct, orderly.held, orderly.own⟩

omit [DecidableEq Ip] in
theorem Orderly.handOverAccepted (orderly : limiter.Orderly ip) (stream : Stream)
    (isAccepted : limiter.accepted = some stream) :
    Orderly ip { limiter with accepted := none } ∧
      ip stream ∉ opened ip { limiter with accepted := none } := by
  have split : limiter.opened ip =
      limiter.timers ++ ip stream :: limiter.resumed.map ip := by
    rw [opened, isAccepted]
    rfl
  have apart := orderly.distinct
  rw [split] at apart
  have taken := List.nodup_cons.mp (List.perm_middle.nodup_iff.mp apart)
  exact ⟨orderly.hands none limiter.resumed taken.2, taken.1⟩

omit [DecidableEq Ip] in
theorem Orderly.handOverResumed (orderly : limiter.Orderly ip) (place : Nat) (stream : Stream)
    (isResumed : limiter.resumed[place]? = some stream) :
    Orderly ip { limiter with resumed := limiter.resumed.eraseIdx place } ∧
      ip stream ∉ opened ip { limiter with resumed := limiter.resumed.eraseIdx place } := by
  obtain ⟨inside, found⟩ := List.getElem?_eq_some_iff.mp isResumed
  have taken : (limiter.resumed.map ip).Perm
      (ip stream :: (limiter.resumed.eraseIdx place).map ip) := by
    rw [← found]
    exact ((List.getElem_cons_eraseIdx_perm inside).map ip).symm
  have moved : (limiter.opened ip).Perm (ip stream ::
      opened ip { limiter with resumed := limiter.resumed.eraseIdx place }) := by
    simp only [opened, List.map_append]
    refine (List.Perm.append_left _ (List.Perm.append_left _ taken)).trans ?_
    exact (List.Perm.append_left _ List.perm_middle).trans List.perm_middle
  have apart := List.nodup_cons.mp (moved.nodup_iff.mp orderly.distinct)
  exact ⟨orderly.hands limiter.accepted _ apart.2, apart.1⟩

omit [DecidableEq Ip] in
theorem Orderly.takeUpResumed (orderly : limiter.Orderly ip) (stream : Stream)
    (fresh : ip stream ∉ limiter.opened ip) :
    Orderly ip { limiter with resumed := limiter.resumed ++ [stream] } := by
  apply orderly.hands limiter.accepted
  have atEnd : opened ip { limiter with resumed := limiter.resumed ++ [stream] } =
      limiter.opened ip ++ [ip stream] := by
    simp only [opened, List.map_append, List.append_assoc, List.map_cons, List.map_nil]
  rw [show opened ip { limiter with accepted := limiter.accepted, resumed := _ } = _ from atEnd]
  exact (List.perm_append_singleton _ _).nodup_iff.mpr
    (List.nodup_cons.mpr ⟨fresh, orderly.distinct⟩)

omit [DecidableEq Ip] in
theorem Orderly.takeUpAccepted (orderly : limiter.Orderly ip) (stream : Stream)
    (idle : limiter.accepted = none) (fresh : ip stream ∉ limiter.opened ip) :
    Orderly ip { limiter with accepted := some stream } := by
  apply orderly.hands (some stream) limiter.resumed
  have distinct := orderly.distinct
  rw [opened, idle] at distinct fresh
  exact List.perm_middle.nodup_iff.mpr (List.nodup_cons.mpr ⟨fresh, distinct⟩)

/-! ## Steps -/

/-- What a step does. -/
inductive StepCase (ip : Stream → Ip) (limiter : Limiter Ip Stream) :
    LimiterEvent Stream → Limiter Ip Stream → Prop where
  | parked (stream : Stream) (held : (limiter.blocked (ip stream)).isSome) :
      StepCase ip limiter (.accept stream) { limiter with
        blocked := Function.update limiter.blocked (ip stream) (some (some stream)) }
  | accepted (stream : Stream) (idle : limiter.accepted = none)
      (unheld : limiter.blocked (ip stream) = none) :
      StepCase ip limiter (.accept stream) { limiter with accepted := some stream }
  | served (stream : Stream) (peerAddr : Bool) (isAccepted : limiter.accepted = some stream) :
      StepCase ip limiter (.serve peerAddr)
        (serveClient ip { limiter with accepted := none } stream peerAddr)
  | ended (place : Nat) (addr : Ip) (timer : limiter.timers[place]? = some addr)
      (empty : ∀ stream, limiter.blocked addr ≠ some (some stream)) :
      StepCase ip limiter (.timeout place) { limiter with
        blocked := Function.update limiter.blocked addr none
        timers := limiter.timers.eraseIdx place }
  | endedParked (place : Nat) (addr : Ip) (stream : Stream)
      (timer : limiter.timers[place]? = some addr)
      (parked : limiter.blocked addr = some (some stream)) :
      StepCase ip limiter (.timeout place) { limiter with
        blocked := Function.update limiter.blocked addr none
        timers := limiter.timers.eraseIdx place
        resumed := limiter.resumed ++ [stream] }
  | resumed (place : Nat) (stream : Stream) (peerAddr : Bool)
      (isResumed : limiter.resumed[place]? = some stream) :
      StepCase ip limiter (.resume place peerAddr)
        (serveClient ip { limiter with resumed := limiter.resumed.eraseIdx place } stream
          peerAddr)

theorem step_cases (event : LimiterEvent Stream) (run : limiter.step ip event = some next) :
    limiter.StepCase ip event next := by
  cases event with
  | accept stream =>
      rw [step] at run
      cases accepted : limiter.accepted with
      | some other =>
          simp only [accepted] at run
          exact absurd run (Option.some_ne_none next).symm
      | none =>
          cases entry : limiter.blocked (ip stream) with
          | some old =>
              simp only [accepted, entry] at run
              cases Option.some.inj run
              have case : limiter.StepCase ip (.accept stream) { limiter with
                  blocked := Function.update limiter.blocked (ip stream) (some (some stream)) } :=
                .parked stream (by rw [entry]; rfl)
              rw [accepted] at case
              exact case
          | none =>
              simp only [accepted, entry] at run
              cases Option.some.inj run
              exact .accepted stream accepted entry
  | serve peerAddr =>
      obtain ⟨stream, isAccepted, served⟩ := Option.bind_eq_some_iff.mp run
      cases Option.some.inj served
      exact .served stream peerAddr isAccepted
  | timeout place =>
      obtain ⟨addr, timer, ended⟩ := Option.bind_eq_some_iff.mp run
      cases entry : limiter.blocked addr with
      | none =>
          simp only [entry] at ended
          cases Option.some.inj ended
          exact .ended place addr timer fun stream => by simp [entry]
      | some parked =>
          cases parked with
          | none =>
              simp only [entry] at ended
              cases Option.some.inj ended
              exact .ended place addr timer fun stream => by simp [entry]
          | some stream =>
              simp only [entry] at ended
              cases Option.some.inj ended
              exact .endedParked place addr stream timer entry
  | resume place peerAddr =>
      obtain ⟨stream, isResumed, served⟩ := Option.bind_eq_some_iff.mp run
      cases Option.some.inj served
      exact .resumed place stream peerAddr isResumed

/-- A newer stream takes the place of the one that is parked. -/
theorem Orderly.park (orderly : limiter.Orderly ip) (stream : Stream)
    (held : (limiter.blocked (ip stream)).isSome) : Orderly ip { limiter with
      blocked := Function.update limiter.blocked (ip stream) (some (some stream)) } := by
  refine ⟨orderly.distinct, ?_, ?_⟩
  · intro addr
    show (Function.update limiter.blocked (ip stream) (some (some stream)) addr).isSome ↔ _
    by_cases same : addr = ip stream
    · rw [same, Function.update_self, ← orderly.held]
      exact ⟨fun _ => held, fun _ => rfl⟩
    · rw [Function.update_of_ne same]
      exact orderly.held addr
  · intro addr other parked
    have entry : Function.update limiter.blocked (ip stream) (some (some stream)) addr =
        some (some other) := parked
    by_cases same : addr = ip stream
    · rw [same, Function.update_self] at entry
      cases entry
      exact same.symm
    · rw [Function.update_of_ne same] at entry
      exact orderly.own addr other entry

/-- The step lemma. -/
theorem Orderly.step (orderly : limiter.Orderly ip) (event : LimiterEvent Stream)
    (inTime : limiter.InTime ip event) (run : limiter.step ip event = some next) :
    next.Orderly ip := by
  cases step_cases event run with
  | parked stream held => exact orderly.park stream held
  | accepted stream idle unheld =>
      apply orderly.takeUpAccepted stream idle
      rw [opened, idle]
      intro member
      rcases List.mem_append.mp member with timed | inHand
      · have held := (orderly.held (ip stream)).mpr timed
        rw [unheld] at held
        exact absurd held Bool.false_ne_true
      · obtain ⟨other, isResumed, same⟩ := List.mem_map.mp inHand
        exact inTime other isResumed same
  | served stream peerAddr isAccepted =>
      obtain ⟨without, fresh⟩ := orderly.handOverAccepted stream isAccepted
      exact without.serveClient stream peerAddr fresh
  | ended place addr timer empty => exact (orderly.remove place addr timer).1
  | endedParked place addr stream timer parked =>
      obtain ⟨removed, fresh⟩ := orderly.remove place addr timer
      rw [← orderly.own addr stream parked] at removed fresh
      have taken := removed.takeUpResumed stream fresh
      rw [orderly.own addr stream parked] at taken
      exact taken
  | resumed place stream peerAddr isResumed =>
      obtain ⟨without, fresh⟩ := orderly.handOverResumed place stream isResumed
      exact without.serveClient stream peerAddr fresh

/-! ## What follows -/

omit [DecidableEq Ip] in
theorem not_served (same : limiter.served = next.served) (stream : Stream) :
    next.served ≠ limiter.served ++ [stream] := by
  intro grown
  have lengths := congrArg List.length (same.trans grown)
  simp at lengths

theorem serveClient_served (limiter : Limiter Ip Stream) (tcpStream : Stream) (peerAddr : Bool)
    (stream : Stream)
    (grown : (limiter.serveClient ip tcpStream peerAddr).served = limiter.served ++ [stream]) :
    stream = tcpStream := by
  cases peerAddr with
  | false => exact absurd grown (not_served rfl stream)
  | true => exact (List.singleton_inj.mp (List.append_cancel_left grown)).symm

/-- An insertion for an address that is not in the map leaves what is parked. -/
theorem serveClient_parked (limiter : Limiter Ip Stream) (tcpStream : Stream) (peerAddr : Bool)
    (addr : Ip) (different : addr ≠ ip tcpStream) :
    (limiter.serveClient ip tcpStream peerAddr).blocked addr = limiter.blocked addr := by
  cases peerAddr with
  | false => rfl
  | true => exact Function.update_of_ne different ..

theorem Orderly.outside (orderly : limiter.Orderly ip) (event : LimiterEvent Stream)
    (run : limiter.step ip event = some next) (stream : Stream)
    (grown : next.served = limiter.served ++ [stream]) : ip stream ∉ limiter.timers := by
  cases step_cases event run with
  | parked other held => exact absurd grown (not_served rfl stream)
  | accepted other idle unheld => exact absurd grown (not_served rfl stream)
  | served other peerAddr isAccepted =>
      rw [serveClient_served { limiter with accepted := none } other peerAddr stream grown]
      exact orderly.free_of_accepted other isAccepted
  | ended place addr timer empty => exact absurd grown (not_served rfl stream)
  | endedParked place addr other timer parked => exact absurd grown (not_served rfl stream)
  | resumed place other peerAddr isResumed =>
      rw [serveClient_served { limiter with resumed := limiter.resumed.eraseIdx place } other
        peerAddr stream grown]
      exact orderly.free_of_resumed other (List.mem_of_getElem? isResumed)

theorem Orderly.parked (orderly : limiter.Orderly ip) (event : LimiterEvent Stream)
    (run : limiter.step ip event = some next) (addr : Ip) (stream : Stream)
    (isParked : limiter.blocked addr = some (some stream)) :
    next.blocked addr = some (some stream) ∨
      (∃ newer, event = .accept newer ∧ ip newer = addr ∧
        next.blocked addr = some (some newer)) ∨
      ∃ place, event = .timeout place ∧ limiter.timers[place]? = some addr ∧
        stream ∈ next.resumed := by
  have timed : addr ∈ limiter.timers := by
    rw [← orderly.held, isParked]
    rfl
  cases step_cases event run with
  | parked newer held =>
      by_cases same : addr = ip newer
      · right
        left
        subst same
        exact ⟨newer, rfl, rfl, Function.update_self ..⟩
      · exact Or.inl ((Function.update_of_ne same ..).trans isParked)
  | accepted other idle unheld => exact Or.inl isParked
  | served other peerAddr isAccepted =>
      left
      have different : addr ≠ ip other := by
        intro same
        subst same
        exact orderly.free_of_accepted other isAccepted timed
      exact (serveClient_parked _ other peerAddr addr different).trans isParked
  | ended place other timer empty =>
      left
      have different : addr ≠ other := by
        intro same
        subst same
        exact empty stream isParked
      exact (Function.update_of_ne different ..).trans isParked
  | endedParked place other oldest timer wasParked =>
      by_cases same : addr = other
      · right
        right
        subst same
        rw [wasParked] at isParked
        cases isParked
        exact ⟨place, rfl, timer, List.mem_append_right _ (List.mem_singleton_self stream)⟩
      · exact Or.inl ((Function.update_of_ne same ..).trans isParked)
  | resumed place other peerAddr isResumed =>
      left
      have different : addr ≠ ip other := by
        intro same
        subst same
        exact orderly.free_of_resumed other (List.mem_of_getElem? isResumed) timed
      exact (serveClient_parked _ other peerAddr addr different).trans isParked

theorem kept_or_served (event : LimiterEvent Stream) (inTime : limiter.InTime ip event)
    (run : limiter.step ip event = some next) (stream : Stream)
    (member : stream ∈ limiter.resumed) : stream ∈ next.resumed ∨ stream ∈ next.served := by
  cases step_cases event run with
  | parked newer held => exact Or.inl member
  | accepted other idle unheld => exact Or.inl member
  | served other peerAddr isAccepted =>
      left
      cases peerAddr with
      | false => exact member
      | true => exact member
  | ended place other timer empty => exact Or.inl member
  | endedParked place other oldest timer wasParked =>
      exact Or.inl (List.mem_append_left _ member)
  | resumed place other peerAddr isResumed =>
      cases (inTime : peerAddr = true)
      obtain ⟨inside, found⟩ := List.getElem?_eq_some_iff.mp isResumed
      rw [← (List.getElem_cons_eraseIdx_perm inside).mem_iff, found] at member
      rcases List.mem_cons.mp member with same | left_
      · right
        rw [same]
        exact List.mem_append_right _ (List.mem_singleton_self other)
      · exact Or.inl left_

theorem live (limiter : Limiter Ip Stream) : limiter.Live ip where
  ends place addr timer := by
    cases entry : limiter.blocked addr with
    | none =>
        exact ⟨_, by simp only [step, timer, Option.bind_eq_bind, Option.bind_some, entry]; rfl⟩
    | some parked =>
        cases parked with
        | none =>
            exact ⟨_, by simp only [step, timer, Option.bind_eq_bind, Option.bind_some, entry]; rfl⟩
        | some stream =>
            exact ⟨_, by simp only [step, timer, Option.bind_eq_bind, Option.bind_some, entry]; rfl⟩
  serves place stream isResumed := by
    refine ⟨_, by simp only [step, isResumed, Option.bind_eq_bind, Option.bind_some]; rfl, rfl⟩

/-- The limits hold in every run in which no address is looked up while a timer's task has a
stream from there in its hands, and no such stream has lost its peer. -/
theorem limited (events : List (LimiterEvent Stream)) (limiter : Limiter Ip Stream)
    (run : RunsWithin (step ip) (InTime ip) initial events limiter) :
    limiter.Windows ∧ limiter.Live ip ∧
      ∀ event next, limiter.InTime ip event → limiter.step ip event = some next →
        limiter.Fair ip event next := by
  have orderly : limiter.Orderly ip := run.invariant (Orderly ip)
    (fun _ event _ inTime orderly => orderly.step event inTime) initial_orderly
  refine ⟨⟨(List.nodup_append.mp orderly.distinct).1, orderly.held⟩, live limiter, ?_⟩
  intro event next inTime stepped
  exact ⟨orderly.outside event stepped, orderly.parked event stepped,
    kept_or_served event inTime stepped⟩

/-- A second connection is parked and served when the window ends. -/
theorem parked_then_served :
    ∃ limiter : Limiter Nat (Nat × Nat), RunsWithin (step Prod.fst) (InTime Prod.fst) initial
        [.accept (9, 0), .serve true, .accept (9, 1), .timeout 0, .resume 0 true] limiter ∧
      limiter.served = [(9, 0), (9, 1)] ∧ limiter.Windows := by
  have idle : ∀ stream other : Nat × Nat, other ∈ ([] : List (Nat × Nat)) →
      other.1 ≠ stream.1 := fun _ _ member => absurd member List.not_mem_nil
  have run : RunsWithin (step Prod.fst) (InTime Prod.fst) (initial : Limiter Nat (Nat × Nat))
      [.accept (9, 0), .serve true, .accept (9, 1), .timeout 0, .resume 0 true] _ :=
    .cons _ _ _ _ _ (idle (9, 0)) rfl <| .cons _ _ _ _ _ trivial rfl <|
      .cons _ _ _ _ _ (idle (9, 1)) rfl <| .cons _ _ _ _ _ trivial rfl <|
        .cons _ _ _ _ _ rfl rfl <| .nil _
  exact ⟨_, run, rfl, (limited _ _ run).1⟩

/-- A third connection is looked up between the removal of the entry and the insertion for
the second one: two timers run, and the two start in one window. -/
theorem two_timers :
    ∃ limiter : Limiter Nat (Nat × Nat), runInputs (step Prod.fst)
        [.accept (9, 0), .serve true, .accept (9, 1), .timeout 0, .accept (9, 2), .resume 0 true,
          .serve true] initial = some limiter ∧
      limiter.served = [(9, 0), (9, 1), (9, 2)] ∧ ¬ limiter.Windows := by
  refine ⟨_, rfl, rfl, ?_⟩
  intro windows
  have distinct : ([9, 9] : List Nat).Nodup := windows.oneTimer
  exact absurd distinct (by decide)

end Limiter

end Gday.HolePunch
