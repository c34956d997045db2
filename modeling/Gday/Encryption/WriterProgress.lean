import Gday.Encryption.WriterSpec

/-! # Polls of the writer that succeed

Where the inner writer takes all that it is given, a write takes some bytes and a flush is
done; only an encryptor that is used up stands in the way. -/
set_option autoImplicit false
namespace Gday.Encryption

open Gday.Lib.AsyncStream

namespace EncryptedWriter

/-- Answers of an inner writer that takes the whole frame. -/
def takesAll (writer : EncryptedWriter) : List WriteEvent :=
  [.ready writer.bytes.unread.length, .ready 0]

theorem flushLoop_all {writer : EncryptedWriter} (flushing : writer.Flushing) :
    (flushLoop writer.takesAll writer).outcome = .ready () ∧
      ∃ limit more, (flushLoop writer.takesAll writer).events = .ready limit :: more := by
  rw [takesAll, flushLoop, flushing.wellFormed.data_eq]
  cases unread : writer.bytes.unread with
  | nil => exact ⟨rfl, _, _, rfl⟩
  | cons byte rest =>
      simp only [List.isEmpty_cons, Bool.false_eq_true, if_false, Nat.min_self]
      have within : (byte :: rest).length ≤ writer.bytes.unread.length := by rw [unread]
      obtain ⟨bytes, advanced, wf, unreadEq, _⟩ :=
        writer.bytes.advanceCursor_spec flushing.wellFormed _ within
      rw [unread, List.drop_length] at unreadEq
      simp only [advanced]
      rw [flushLoop, wf.data_eq, unreadEq]
      exact ⟨rfl, _, _, rfl⟩

theorem pollFlushLocal_all (debug : Bool) {writer : EncryptedWriter}
    (flushing : writer.Flushing) :
    (writer.pollFlushLocal debug writer.takesAll).outcome = .ready () ∧
      ∃ limit more, (writer.pollFlushLocal debug writer.takesAll).events =
        .ready limit :: more := by
  rw [pollFlushLocal, flushing.flushing, debugAssert_true]
  exact flushLoop_all flushing

theorem flushOut_all (debug : Bool) {writer : EncryptedWriter} (flushing : writer.Flushing) :
    (flushOut debug writer writer.takesAll).outcome = .ready () := by
  obtain ⟨ready, limit, more, left_⟩ := pollFlushLocal_all debug flushing
  rw [flushOut, flushing.flushing, if_pos rfl, WritePoll.andThen, ready, left_]
  rfl

/-- A flush is done where the inner writer takes everything. -/
theorem pollFlush_goes (aead : StreamAead) (debug : Bool) {writer : EncryptedWriter}
    (shaped : writer.Shaped) (going : writer.encryptor.position ≠ aead.counterMax) :
    ∃ events, (writer.pollFlush aead debug events).outcome = .ready () := by
  rcases shaped with collecting | flushing
  · rcases collecting.startFlushing_cases aead with
      ⟨spent, _⟩ | ⟨next, message, run, _, flushing, _⟩
    · exact absurd spent going
    · refine ⟨next.takesAll, ?_⟩
      rw [collecting.pollFlush_eq, flushThen, run]
      exact flushOut_all debug flushing
  · refine ⟨writer.takesAll, ?_⟩
    rw [flushing.pollFlush_eq]
    exact flushOut_all debug flushing

theorem takeBytes_goes (aead : StreamAead) (debug : Bool) {buf : List UInt8} (some_ : buf ≠ [])
    {writer : EncryptedWriter} (collecting : writer.Collecting)
    (going : writer.encryptor.position ≠ aead.counterMax) (events : List WriteEvent) :
    ∃ count, 0 < count ∧ (takeBytes aead debug buf writer events).outcome = .ready count := by
  have small := collecting.bytes_eq.2
  have long := List.length_pos_iff.mpr some_
  have within : min buf.length (maxPlain - writer.buffered.length) ≤ buf.length :=
    Nat.min_le_left ..
  have positive : 0 < min buf.length (maxPlain - writer.buffered.length) := by omega
  have fits : writer.buffered.length +
      (buf.take (min buf.length (maxPlain - writer.buffered.length))).length ≤ maxPlain := by
    rw [List.length_take]
    omega
  refine ⟨_, positive, ?_⟩
  rw [takeBytes, collecting.subUsize_spare debug]
  simp only [slice_take _ _ within]
  generalize min buf.length (maxPlain - writer.buffered.length) = count at fits ⊢
  obtain ⟨contents, capacity, _⟩ := append_taken writer collecting (buf.take count) fits
  split
  · rcases startFlushing_spec aead { writer with bytes := writer.bytes.append (buf.take count) }
        (writer.buffered ++ buf.take count) collecting.cursor contents
        (by rw [List.length_append]; exact fits) capacity with
      ⟨spent, _⟩ | ⟨next, message, run, _⟩
    · exact absurd spent going
    · rw [flushThen, run]
      rfl
  · rfl

/-- A write takes something where the inner writer takes everything. -/
theorem pollWrite_goes (aead : StreamAead) (debug : Bool) {buf : List UInt8} (some_ : buf ≠ [])
    {writer : EncryptedWriter} (shaped : writer.Shaped)
    (going : writer.encryptor.position ≠ aead.counterMax) :
    ∃ events count, 0 < count ∧
      (writer.pollWrite aead debug buf events).outcome = .ready count := by
  rcases shaped with collecting | flushing
  · obtain ⟨count, positive, ready⟩ := takeBytes_goes aead debug some_ collecting going []
    refine ⟨[], count, positive, ?_⟩
    rw [collecting.pollWrite_eq]
    exact ready
  · obtain ⟨ready, _⟩ := pollFlushLocal_all debug flushing
    cases pollFlushLocal_cases debug writer.takesAll writer flushing with
    | held outcome =>
        rw [ready] at outcome
        rcases outcome with isPending | isFailed | isWaiting
        · cases isPending
        · cases isFailed
        · cases isWaiting
    | done outcome encryptor collecting =>
        obtain ⟨count, positive, taken⟩ := takeBytes_goes aead debug some_ collecting
          (encryptor ▸ going) (writer.pollFlushLocal debug writer.takesAll).events
        refine ⟨writer.takesAll, count, positive, ?_⟩
        rw [flushing.pollWrite_eq, WritePoll.andThen, ready]
        exact taken

end EncryptedWriter
end Gday.Encryption
