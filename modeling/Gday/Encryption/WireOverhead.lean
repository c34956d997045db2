import Gday.Encryption.WriterInvariant

/-! # What encryption costs on the wire

A frame costs twenty bytes.  Only a flush makes one that is not full, and a poll of it makes
one at most, so the writes alone cost twenty bytes for every full chunk. -/
set_option autoImplicit false
namespace Gday.Encryption

open Gday.Lib.AsyncStream Gday.Lib.Framing Gday.Lib.Machine

/-- The chunk could have held more. -/
def NotFull (chunk : List UInt8 × List UInt8) : Bool := decide (chunk.1.length < maxPlain)

def WriterCall.isFlush : WriterCall → Bool
  | .pollWrite _ _ => false
  | .pollFlush _ => true
  | .pollShutdown _ => true

namespace EncryptedWriter

/-! ## What a poll seals -/

/-- All that the poll sealed is full. -/
def SealsFull {α : Type} (poll : WritePoll α) : Prop :=
  ∀ chunk ∈ poll.sealed, NotFull chunk = false

theorem takeBytes_full (aead : StreamAead) (debug : Bool) (buf : List UInt8)
    (writer : EncryptedWriter) (collecting : writer.Collecting) (events : List WriteEvent) :
    SealsFull (takeBytes aead debug buf writer events) := by
  have small := collecting.bytes_eq.2
  have fits : writer.buffered.length +
      (buf.take (min buf.length (maxPlain - writer.buffered.length))).length ≤ maxPlain := by
    rw [List.length_take]
    omega
  rw [takeBytes, collecting.subUsize_spare debug]
  simp only [slice_take _ _ (Nat.min_le_left buf.length _)]
  generalize min buf.length (maxPlain - writer.buffered.length) = count at fits ⊢
  obtain ⟨contents, capacity, spare⟩ := append_taken writer collecting (buf.take count) fits
  split
  · next full =>
      have length : (writer.buffered ++ buf.take count).length = maxPlain := by
        rw [List.length_append]
        omega
      rcases startFlushing_spec aead
          { writer with bytes := writer.bytes.append (buf.take count) } _ collecting.cursor contents
          (Nat.le_of_eq length) capacity with
        ⟨_, next, run, _⟩ | ⟨next, message, run, _⟩
      · rw [flushThen, run]
        intro chunk member
        cases member
      · rw [flushThen, run]
        intro chunk member
        rw [List.mem_singleton.mp member]
        exact decide_eq_false (by rw [length]; exact Nat.lt_irrefl _)
  · intro chunk member
    cases member

theorem pollWrite_full (aead : StreamAead) (debug : Bool) (buf : List UInt8)
    (writer : EncryptedWriter) (shaped : writer.Shaped) (events : List WriteEvent) :
    SealsFull (writer.pollWrite aead debug buf events) := by
  rcases shaped with collecting | flushing
  · rw [collecting.pollWrite_eq]
    exact takeBytes_full aead debug buf writer collecting events
  · rw [flushing.pollWrite_eq]
    have nothing := (pollFlushLocal_leaves debug writer flushing events).1
    rcases (writer.pollFlushLocal debug events).andThen_cases (takeBytes aead debug buf) with
      ⟨_, ready, same⟩ | ⟨_, _, _, same⟩
    · have collected := (pollFlushLocal_case aead debug writer flushing events).2 ready
      rw [same, SealsFull]
      simp only [nothing, List.nil_append]
      exact takeBytes_full aead debug buf _ collected.1 _
    · rw [same, SealsFull]
      simp only [nothing]
      exact fun chunk member => absurd member List.not_mem_nil

theorem Leaves.sealed_le {α : Type} {writer : EncryptedWriter} {poll : WritePoll α}
    (leaves : Leaves writer poll) : poll.sealed.length ≤ 1 := by
  cases leaves with
  | same sealed rest => rw [sealed]; exact Nat.zero_le _
  | made chunk sealed rest => rw [sealed]; exact Nat.le_refl _

end EncryptedWriter

/-! ## Whole runs -/

namespace Sending

open EncryptedWriter

/-- A call seals at most one chunk that is not full, and only where it flushes. -/
theorem call_seals (aead : StreamAead) (debug : Bool) (state : Sending) (input : WriterCall)
    (shaped : state.writer.Shaped) :
    (state.call aead debug input).2.sealed.countP NotFull ≤
      state.sealed.countP NotFull + input.isFlush.toNat := by
  have atMostOne : ∀ {α : Type} {poll : WritePoll α}, Leaves state.writer poll →
      (state.sealed ++ poll.sealed).countP NotFull ≤ state.sealed.countP NotFull + 1 := by
    intro α poll leaves
    have one := leaves.sealed_le
    have counted := List.countP_le_length (p := NotFull) (l := poll.sealed)
    rw [List.countP_append]
    omega
  cases input with
  | pollWrite buf events =>
      have full := pollWrite_full aead debug buf state.writer shaped events
      have allFull : (state.writer.pollWrite aead debug buf events).sealed.countP NotFull = 0 :=
        List.countP_eq_zero.mpr fun chunk member => by
          rw [full chunk member]
          exact Bool.false_ne_true
      show (state.sealed ++ _).countP NotFull ≤ _
      rw [List.countP_append, allFull]
      rfl
  | pollFlush events =>
      exact atMostOne (pollFlush_leaves aead debug state.writer shaped events)
  | pollShutdown events =>
      exact atMostOne (pollShutdown_leaves aead debug state.writer shaped events)

/-- By induction on the run, which stays healthy. -/
theorem within_seals (aead : StreamAead) (debug : Bool) (first : StreamLE31)
    (calls : List WriterCall) (state final : Sending) (healthy : Healthy aead first state)
    (oneFrame : state.OneFrame)
    (run : RunsWithin (Sending.step aead debug) (Encrypts aead debug) state calls final) :
    final.sealed.countP NotFull ≤
      state.sealed.countP NotFull + calls.countP WriterCall.isFlush := by
  induction run with
  | nil state => exact Nat.le_refl _
  | cons state next final input rest permitted step later ih =>
      obtain ⟨nextHealthy, nextOne⟩ := within_healthy aead debug first [input] state next healthy
        oneFrame (.cons _ _ _ _ _ permitted step (.nil next))
      obtain ⟨_, _, rfl⟩ := (step_eq_some aead debug state next input).mp step
      have more := ih nextHealthy nextOne
      have now := state.call_seals aead debug input healthy.shaped
      rw [countP_cons_toNat]
      omega

end Sending

/-- Chunks that are full hold what they can. -/
theorem full_chunks_length (sealed : List (List UInt8 × List UInt8)) :
    sealed.length * maxPlain ≤
      (sealed.map Prod.fst).flatten.length + sealed.countP NotFull * maxPlain := by
  induction sealed with
  | nil => exact Nat.le_of_eq (Nat.zero_mul _)
  | cons chunk rest ih =>
      rw [List.map_cons, List.flatten_cons, List.length_append, List.length_cons,
        countP_cons_toNat, Nat.add_mul, Nat.add_mul, Nat.one_mul]
      cases full : NotFull chunk with
      | false =>
          have length : maxPlain ≤ chunk.1.length := Nat.le_of_not_lt (of_decide_eq_false full)
          rw [Bool.toNat_false, Nat.zero_mul]
          omega
      | true =>
          rw [Bool.toNat_true, Nat.one_mul]
          omega

theorem StreamAead.sealChunks_total (aead : StreamAead) (stream final : StreamLE31)
    (chunks sealed : List (List UInt8))
    (run : aead.sealChunks stream chunks = some (sealed, final)) :
    sealed.length = chunks.length ∧
      sealed.flatten.length = chunks.flatten.length + ciphertextOverhead * chunks.length := by
  induction chunks generalizing stream sealed with
  | nil =>
      obtain ⟨rfl, _⟩ := (aead.sealChunks_nil stream final sealed).mp run
      exact ⟨rfl, rfl⟩
  | cons chunk rest ih =>
      obtain ⟨message, next, others, headRun, tailRun, rfl⟩ :=
        aead.sealChunks_cons stream final chunk rest sealed run
      obtain ⟨count, total⟩ := ih next others tailRun
      obtain ⟨_, rfl, _⟩ := (aead.encryptNextInPlace_eq_some stream next chunk message).mp headRun
      rw [List.length_cons, List.length_cons, List.flatten_cons, List.flatten_cons,
        List.length_append, List.length_append, count, total, aead.sealAt_length, Nat.mul_add,
        Nat.mul_one]
      omega

/-- Behind the nonce the writer puts what it took on the wire, and twenty bytes for every
frame; it makes no more frames than there are full chunks in what it took and calls that
flush.  A frame that is not full is made by a call that flushes, one at most by each. -/
theorem wire_overhead (aead : StreamAead) (debug : Bool) (sharedKey : Key) (nonce : Nonce)
    (calls : List WriterCall) (state : Sending)
    (run : RunsWithin (Sending.step aead debug) (Sending.Encrypts aead debug)
      (Sending.start sharedKey nonce) calls state) :
    state.sent.length + state.writer.pendingOut.length + state.writer.buffered.length =
        state.accepted.length + (4 + ciphertextOverhead) * state.sealed.length ∧
      state.sealed.length ≤
        state.accepted.length / maxPlain + calls.countP WriterCall.isFlush ∧
      state.sealed.countP NotFull ≤ calls.countP WriterCall.isFlush ∧
      ∀ input, ∃ sealed, (state.call aead debug input).2.sealed = state.sealed ++ sealed ∧
        sealed.countP NotFull ≤ input.isFlush.toNat := by
  obtain ⟨healthy, _⟩ := Sending.within_healthy aead debug _ calls _ state
    (Sending.start_healthy aead sharedKey nonce) (Or.inl rfl) run
  have counted := Sending.within_seals aead debug _ calls _ state
    (Sending.start_healthy aead sharedKey nonce) (Or.inl rfl) run
  rw [show (Sending.start sharedKey nonce).sealed.countP NotFull = 0 from rfl, Nat.zero_add]
    at counted
  obtain ⟨count, total⟩ := aead.sealChunks_total _ _ _ _ healthy.encryptor
  rw [List.length_map] at total
  have wire := congrArg List.length healthy.wire
  have plain := congrArg List.length healthy.plain
  rw [List.length_append, frames_length, List.length_map] at wire
  rw [List.length_append] at plain
  refine ⟨by rw [ciphertextOverhead] at total ⊢; omega, ?_, counted, fun input => ?_⟩
  · have full := full_chunks_length state.sealed
    have fullOnes : (state.sealed.length - state.sealed.countP NotFull) * maxPlain ≤
        state.accepted.length := by
      rw [Nat.sub_mul]
      omega
    have most := (Nat.le_div_iff_mul_le (by decide)).mpr fullOnes
    omega
  · obtain ⟨⟨sealed, grown⟩, _⟩ := state.call_grows aead debug input
    have seals := state.call_seals aead debug input healthy.shaped
    rw [grown, List.countP_append] at seals
    exact ⟨sealed, grown, by omega⟩

/-- One byte, of whose frame three bytes are out. -/
theorem partlySent_overhead :
    Sending.partlySent.sent.length = 3 ∧
      Sending.partlySent.sent.length + Sending.partlySent.writer.pendingOut.length +
          Sending.partlySent.writer.buffered.length =
        Sending.partlySent.accepted.length +
          (4 + ciphertextOverhead) * Sending.partlySent.sealed.length := by
  have written : Sending.step paddingAead true (Sending.start [] []) (.pollWrite [97] []) =
      some (EncryptedWriter.collected [97]) := rfl
  have flushed : Sending.step paddingAead true (EncryptedWriter.collected [97])
      (.pollFlush [.ready 3, .pending]) = some Sending.partlySent := rfl
  have first : Sending.Encrypts paddingAead true (Sending.start [] []) (.pollWrite [97] []) := by
    rw [Sending.Encrypts]
    decide
  have second : Sending.Encrypts paddingAead true (EncryptedWriter.collected [97])
      (.pollFlush [.ready 3, .pending]) := by
    rw [Sending.Encrypts]
    decide
  exact ⟨rfl, (wire_overhead paddingAead true [] [] _ Sending.partlySent
    (.cons _ _ _ _ _ first written (.cons _ _ _ _ _ second flushed (.nil _)))).1⟩

end Gday.Encryption
