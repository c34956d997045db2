import Gday.HolePunch.RateLimiter

/-! # No connection is served twice

A stream that was accepted is in one place at a time: with the accept loop, parked, with a
timer's task, or served.  It may get lost on the way, but nothing makes a second one of it, in
whatever order the accept loop and the timers get hold of the map. -/
set_option autoImplicit false
namespace Gday.HolePunch

open Gday.Lib.Machine

namespace Limiter

variable {Ip Stream : Type} [DecidableEq Ip] [DecidableEq Stream]

/-- How often the stream is there, wherever it is. -/
def copies (ip : Stream → Ip) (limiter : Limiter Ip Stream) (stream : Stream) : Nat :=
  limiter.accepted.toList.count stream + limiter.resumed.count stream +
    limiter.served.count stream +
    if limiter.blocked (ip stream) = some (some stream) then 1 else 0

/-- A stream is parked under its own address. -/
def ParkedOwn (ip : Stream → Ip) (limiter : Limiter Ip Stream) : Prop :=
  ∀ addr stream, limiter.blocked addr = some (some stream) → ip stream = addr

variable {ip : Stream → Ip} {limiter next : Limiter Ip Stream}

omit [DecidableEq Stream] in
theorem ParkedOwn.update (own : limiter.ParkedOwn ip) (blocked : Ip → Option (Option Stream))
    (addr : Ip) (entry : Option (Option Stream))
    (same : blocked = Function.update limiter.blocked addr entry)
    (fits : ∀ stream, entry = some (some stream) → ip stream = addr) (other : Ip)
    (stream : Stream) (parked : blocked other = some (some stream)) : ip stream = other := by
  rw [same] at parked
  by_cases its : other = addr
  · subst its
    rw [Function.update_self] at parked
    exact fits stream parked
  · rw [Function.update_of_ne its] at parked
    exact own other stream parked

omit [DecidableEq Stream] in
theorem ParkedOwn.serveClient (own : limiter.ParkedOwn ip) (stream : Stream) (peerAddr : Bool) :
    (limiter.serveClient ip stream peerAddr).ParkedOwn ip := by
  cases peerAddr with
  | true => exact own.update _ (ip stream) (some none) rfl (by simp)
  | false => exact own

omit [DecidableEq Stream] in
theorem ParkedOwn.step (own : limiter.ParkedOwn ip) (event : LimiterEvent Stream)
    (run : limiter.step ip event = some next) : next.ParkedOwn ip := by
  cases step_cases event run with
  | parked stream held =>
      refine own.update _ (ip stream) (some (some stream)) rfl ?_
      rintro other ⟨rfl⟩
      rfl
  | accepted stream idle unheld => exact own
  | served stream peerAddr isAccepted => exact ParkedOwn.serveClient (by exact own) stream peerAddr
  | ended place addr timer empty => exact own.update _ addr none rfl (by simp)
  | endedParked place addr stream timer parked => exact own.update _ addr none rfl (by simp)
  | resumed place stream peerAddr isResumed =>
      exact ParkedOwn.serveClient (by exact own) stream peerAddr

/-- Parking one stream under an address takes away the one that was there. -/
theorem parked_le (ip : Stream → Ip) (limiter : Limiter Ip Stream)
    (entry : Option (Option Stream)) (addr : Ip) (stream : Stream)
    (other : entry ≠ some (some stream)) :
    (if Function.update limiter.blocked addr entry (ip stream) = some (some stream) then 1 else 0) ≤
      if limiter.blocked (ip stream) = some (some stream) then 1 else 0 := by
  by_cases same : ip stream = addr
  · rw [same, Function.update_self, if_neg other]
    exact Nat.zero_le _
  · rw [Function.update_of_ne same]

/-- The stream that `serve_client` gets is served, or lost. -/
theorem serveClient_copies (ip : Stream → Ip) (limiter : Limiter Ip Stream)
    (served stream : Stream) (peerAddr : Bool) :
    (limiter.serveClient ip served peerAddr).copies ip stream ≤
      limiter.copies ip stream + [served].count stream := by
  cases peerAddr with
  | true =>
      have parked := parked_le ip limiter (some none) (ip served) stream
        (by simp)
      simp only [serveClient, if_true, copies, List.count_append]
      omega
  | false => exact Nat.le_add_right _ _

theorem count_eraseIdx (streams : List Stream) (place : Nat) (stream : Stream)
    (there : streams[place]? = some stream) (other : Stream) :
    (streams.eraseIdx place).count other + [stream].count other = streams.count other := by
  obtain ⟨inside, found⟩ := List.getElem?_eq_some_iff.mp there
  have taken := (List.getElem_cons_eraseIdx_perm inside).count_eq other
  rw [found, List.count_cons] at taken
  rw [List.count_singleton]
  exact taken

/-- A step makes no copy but of the stream that it accepts. -/
theorem copies_step (own : limiter.ParkedOwn ip) (event : LimiterEvent Stream)
    (run : limiter.step ip event = some next) (stream : Stream) :
    next.copies ip stream ≤ limiter.copies ip stream + [event].count (.accept stream) := by
  cases step_cases event run with
  | parked newer held =>
      by_cases same : newer = stream
      · subst same
        simp only [copies, List.count_singleton_self]
        split <;> omega
      · have parked := parked_le ip limiter (some (some newer)) (ip newer)
          stream (by simpa using same)
        simp only [copies]
        omega
  | accepted newer idle unheld =>
      have counted : [newer].count stream =
          [LimiterEvent.accept newer].count (.accept stream) := by
        by_cases same : newer = stream
        · rw [same, List.count_singleton_self, List.count_singleton_self]
        · rw [List.count_eq_zero_of_not_mem (by simpa using Ne.symm same),
            List.count_eq_zero_of_not_mem (by simpa using Ne.symm same)]
      simp only [copies, idle, Option.toList_none, Option.toList_some, List.count_nil, counted]
      omega
  | served newer peerAddr isAccepted =>
      have served := serveClient_copies ip { limiter with accepted := none } newer stream peerAddr
      simp only [copies, isAccepted, Option.toList_none, Option.toList_some,
        List.count_nil] at served ⊢
      omega
  | ended place addr timer empty =>
      have parked := parked_le ip limiter none addr stream (by simp)
      simp only [copies]
      omega
  | endedParked place addr parkedOne timer parked =>
      have its := own addr parkedOne parked
      simp only [copies, List.count_append]
      by_cases same : parkedOne = stream
      · subst same
        have gone : ¬ Function.update limiter.blocked addr none (ip parkedOne) =
            some (some parkedOne) := by
          rw [its, Function.update_self]
          simp
        have there : limiter.blocked (ip parkedOne) = some (some parkedOne) := by
          rw [its]
          exact parked
        rw [if_neg gone, if_pos there, List.count_singleton_self]
        omega
      · have less := parked_le ip limiter none addr stream (by simp)
        have another : [parkedOne].count stream = 0 :=
          List.count_eq_zero_of_not_mem (by simpa using Ne.symm same)
        omega
  | resumed place newer peerAddr isResumed =>
      have served := serveClient_copies ip
        { limiter with resumed := limiter.resumed.eraseIdx place } newer stream peerAddr
      have taken := count_eraseIdx limiter.resumed place newer isResumed stream
      simp only [copies] at served ⊢
      omega

theorem run_copies (events : List (LimiterEvent Stream)) (start final : Limiter Ip Stream)
    (own : start.ParkedOwn ip) (run : runInputs (step ip) events start = some final)
    (stream : Stream) :
    final.copies ip stream ≤ start.copies ip stream + events.count (.accept stream) := by
  induction events generalizing start with
  | nil =>
      cases Option.some.inj run
      exact Nat.le_add_right _ _
  | cons event rest ih =>
      obtain ⟨next, stepped, later⟩ := Option.bind_eq_some_iff.mp run
      have more := ih next (own.step event stepped) later
      have now := copies_step own event stepped stream
      rw [show event :: rest = [event] ++ rest from rfl, List.count_append]
      omega

/-- In every order of the accept loop and the timers, the race for the map included: a stream is
there, parked, in somebody's hands or served, at most as often as it was accepted.  Streams that
are accepted once are served at most once, and then nobody has them any more. -/
theorem served_once (events : List (LimiterEvent Stream)) (limiter : Limiter Ip Stream)
    (run : runInputs (step ip) events initial = some limiter) :
    (∀ stream, limiter.copies ip stream ≤ events.count (.accept stream)) ∧
      ((∀ stream, events.count (.accept stream) ≤ 1) → limiter.served.Nodup ∧
        ∀ stream ∈ limiter.served, .accept stream ∈ events ∧ limiter.accepted ≠ some stream ∧
          stream ∉ limiter.resumed ∧ limiter.blocked (ip stream) ≠ some (some stream)) := by
  have atFirst : ∀ stream, (initial : Limiter Ip Stream).copies ip stream = 0 := fun _ => rfl
  have own : (initial : Limiter Ip Stream).ParkedOwn ip := by
    intro addr stream parked
    cases parked
  have copied : ∀ stream, limiter.copies ip stream ≤ events.count (.accept stream) := by
    intro stream
    have counted := run_copies events initial limiter own run stream
    rwa [atFirst, Nat.zero_add] at counted
  refine ⟨copied, fun once => ⟨?_, ?_⟩⟩
  · apply List.nodup_iff_count_le_one.mpr
    intro stream
    have most := (copied stream).trans (once stream)
    rw [copies] at most
    omega
  · intro stream member
    have there := List.count_pos_iff.mpr member
    have most := copied stream
    have one := once stream
    rw [copies] at most
    refine ⟨List.count_pos_iff.mp (by omega), ?_, ?_, ?_⟩
    · intro held
      rw [held, Option.toList_some, List.count_singleton_self] at most
      omega
    · intro resumed
      have again := List.count_pos_iff.mpr resumed
      omega
    · intro parked
      rw [if_pos parked] at most
      omega

/-- The run with two timers for one address: each of the three streams is served once. -/
theorem three_served_once :
    ∃ limiter : Limiter Nat (Nat × Nat), runInputs (step Prod.fst)
        [.accept (9, 0), .serve true, .accept (9, 1), .timeout 0, .accept (9, 2), .resume 0 true,
          .serve true] initial = some limiter ∧
      limiter.served = [(9, 0), (9, 1), (9, 2)] ∧ limiter.served.Nodup ∧
      ∀ stream, limiter.copies Prod.fst stream ≤ 1 := by
  have run : runInputs (step Prod.fst) [.accept (9, 0), .serve true, .accept (9, 1), .timeout 0,
      .accept (9, 2), .resume 0 true, .serve true]
      (initial : Limiter Nat (Nat × Nat)) = some _ := rfl
  have once : ∀ stream : Nat × Nat, ([.accept (9, 0), .serve true, .accept (9, 1), .timeout 0,
      .accept (9, 2), .resume 0 true, .serve true] : List (LimiterEvent (Nat × Nat))).count
        (.accept stream) ≤ 1 := by
    intro stream
    have distinct : ([(9, 0), (9, 1), (9, 2)] : List (Nat × Nat)).Nodup := by decide
    have each := List.nodup_iff_count_le_one.mp distinct stream
    simpa [List.count_cons] using each
  exact ⟨_, run, rfl, ((served_once _ _ run).2 once).1,
    fun stream => ((served_once _ _ run).1 stream).trans (once stream)⟩

end Limiter

end Gday.HolePunch
