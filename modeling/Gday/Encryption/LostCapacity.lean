import Gday.Encryption.Moves

/-! # What a failed decryption costs

The `?` of `decrypt_all_full_chunks` leaves between `split_off` and `unsplit`.  The bytes of
the cleartext buffer and its cursor are as before, its spare capacity is gone, and no later
call gives it back. -/
set_option autoImplicit false
namespace Gday.Encryption

open Gday.Lib.AsyncStream Gday.Lib.Framing Gday.Lib.Machine

namespace EncryptedReader

/-! ## The cleartext buffer over a run -/

/-- The plaintext of a chunk is shorter than the room that the chunk needed; no capacity is
ever added. -/
structure Bounded (capacity : Nat) (reader : EncryptedReader) : Prop where
  sound : reader.Sound
  len : reader.cleartext.buf.len + ciphertextOverhead ≤ maxChunkSize
  capacity : reader.cleartext.buf.capacity ≤ capacity

/-- Cleared once all of it was taken, and otherwise left as it is. -/
theorem advanceCursor_buf (helper next : HelperBuf) (numBytes : Nat)
    (advanced : helper.advanceCursor numBytes = .ok next) :
    next.buf = helper.buf ∨ next.buf = helper.buf.clear := by
  unfold HelperBuf.advanceCursor at advanced
  split at advanced
  · split at advanced
    · cases advanced
      exact .inr rfl
    · cases advanced
      exact .inl rfl
  · cases advanced

theorem advanceCursor_bounds (helper next : HelperBuf) (numBytes : Nat)
    (advanced : helper.advanceCursor numBytes = .ok next) :
    next.buf.len ≤ helper.buf.len ∧ next.buf.capacity = helper.buf.capacity := by
  rcases advanceCursor_buf helper next numBytes advanced with kept | reset
  · rw [kept]
    exact ⟨Nat.le_refl _, rfl⟩
  · rw [reset]
    exact ⟨Nat.zero_le _, rfl⟩

theorem Move.bounded {aead : StreamAead} {capacity : Nat}
    {before after : EncryptedReader × ByteStream} (move : Move aead before after)
    (bounded : Bounded capacity before.1) : Bounded capacity after.1 := by
  have sound := move.sound bounded.sound
  obtain ⟨beforeSound, len, limit⟩ := bounded
  cases move with
  | receive reader inner rest bytes taken closed fits => exact ⟨sound, len, limit⟩
  | decrypt reader inner msg plain stream ciphertext shown room decrypted advanced =>
      have overhead := aead.decryptNextInPlace_length _ _ _ _ decrypted
      have kept := reader.cleartext.append_capacity plain (by omega)
      refine ⟨sound, ?_, kept.trans_le limit⟩
      have longer := reader.cleartext.append_len plain
      have spare := reader.cleartext.spare_add_len
      have most : reader.cleartext.buf.capacity ≤ maxChunkSize := beforeSound.cleartextCapacity
      show (reader.cleartext.append plain).buf.len + ciphertextOverhead ≤ maxChunkSize
      omega
  | wrap reader inner ciphertext wrapped => exact ⟨sound, len, limit⟩
  | take reader inner count cleartext advanced =>
      obtain ⟨shorter, same⟩ := advanceCursor_bounds _ cleartext count advanced
      exact ⟨sound, (Nat.add_le_add_right shorter _).trans len, same.trans_le limit⟩

theorem Moves.bounded {aead : StreamAead} {capacity : Nat}
    {before after : EncryptedReader × ByteStream} (moves : Moves aead before after)
    (bounded : Bounded capacity before.1) : Bounded capacity after.1 := by
  induction moves with
  | refl => exact bounded
  | tail moves move ih => exact move.bounded ih

theorem Refusal.bounded {aead : StreamAead} {capacity : Nat} {bad : List UInt8}
    {before after : EncryptedReader} (refusal : Refusal aead bad before after)
    (bounded : Bounded capacity before) : Bounded capacity after := by
  have sound := refusal.sound bounded.sound
  cases refusal with
  | refuse ciphertext shown room failed advanced =>
      exact ⟨sound, bounded.len, before.cleartext.buf.fits.trans bounded.capacity⟩

theorem Leads.bounded {aead : StreamAead} {capacity : Nat} {invalid : Bool}
    {before after : EncryptedReader × ByteStream} (leads : Leads aead before invalid after)
    (bounded : Bounded capacity before.1) : Bounded capacity after.1 := by
  cases leads with
  | moved _ moves => exact moves.bounded bounded
  | refused middle final inner bad moves refusal => exact refusal.bounded (moves.bounded bounded)

theorem withNonce_bounded (sharedKey : Key) (nonce : Nonce) :
    Bounded maxChunkSize (withNonce sharedKey nonce) where
  sound := withNonce_sound sharedKey nonce
  len := by
    show 0 + ciphertextOverhead ≤ maxChunkSize
    decide
  capacity := Nat.le_refl _

/-! ## Where chunks are decrypted -/

/-- The rounds of the loop of `decrypt_all_full_chunks` that decrypted their chunk. -/
inductive Rounds (aead : StreamAead) : EncryptedReader → EncryptedReader → Prop where
  | none (reader : EncryptedReader) : Rounds aead reader reader
  | round (reader middle final : EncryptedReader) (msg : List UInt8)
      (shown : peekCipherChunk reader.ciphertext = .ok (some msg))
      (decrypted : decryptChunk aead reader msg = .ok (middle, Option.none))
      (later : Rounds aead middle final) : Rounds aead reader final

/-- The readers on which `decrypt_all_full_chunks` is called in a run: at the start of a
poll, and within one when the inner reader has put something in. -/
inductive Decrypting (aead : StreamAead) (debug : Bool) (start : Reading) :
    EncryptedReader → Prop where
  | poll (calls : List ReaderCall) (state : Reading)
      (run : runInputs (Reading.step aead debug) calls start = some state) :
      Decrypting aead debug start state.reader
  | within (calls : List ReaderCall) (state waiting : Reading) (input : ReaderCall)
      (run : runInputs (Reading.step aead debug) calls start = some state)
      (waits : state.call aead debug input = (.waiting, waiting))
      (event : ReadEvent) (bytes : List UInt8) (next : EncryptedReader) (rest : ByteStream)
      (read : waiting.reader.innerRead waiting.inner event = (.filled bytes, next, rest)) :
      Decrypting aead debug start next

theorem Decrypting.bounded {aead : StreamAead} {debug : Bool} {start : Reading}
    {reader : EncryptedReader} {capacity : Nat} (decrypting : Decrypting aead debug start reader)
    (bounded : Bounded capacity start.reader) : Bounded capacity reader := by
  have runs : ∀ calls state, runInputs (Reading.step aead debug) calls start = some state →
      Bounded capacity state.reader := by
    intro calls state run
    refine runInputs_invariant (Reading.step aead debug)
      (fun state => Bounded capacity state.reader) ?_ calls start state bounded run
    intro before input next holds stepRun
    obtain ⟨_, _, same⟩ := (Reading.step_eq_some aead debug before next input).mp stepRun
    subst same
    exact (before.call_leads aead debug input holds.sound).bounded holds
  cases decrypting with
  | poll calls state run => exact runs calls state run
  | within calls state waiting input run waits event bytes _ rest read =>
      have before := runs calls state run
      have leads := state.call_leads aead debug input before.sound
      rw [waits] at leads
      exact (innerRead_move aead _ reader _ rest event bytes read).bounded (leads.bounded before)

theorem decryptChunk_bounded (aead : StreamAead) (reader next : EncryptedReader)
    (msg : List UInt8) (capacity : Nat) (bounded : Bounded capacity reader)
    (shown : peekCipherChunk reader.ciphertext = .ok (some msg))
    (decrypted : decryptChunk aead reader msg = .ok (next, none)) :
    msg.length ≤ capacity ∧ Bounded capacity next := by
  rw [peekCipherChunk_eq _ bounded.sound.ciphertext, Except.ok.injEq] at shown
  rcases decryptChunk_moves aead reader bounded.sound msg shown with
    stops | ⟨other, stops, _⟩ | ⟨other, opens, move⟩
  · cases stops.symm.trans decrypted
  · cases stops.symm.trans decrypted
  · cases opens.symm.trans decrypted
    have after := (move ⟨[], false⟩).bounded bounded
    refine ⟨?_, after⟩
    have most := bounded.capacity
    by_contra long
    have tight : reader.cleartext.spareCapacityLen < msg.length := by
      have spare := reader.cleartext.spare_add_len
      omega
    rw [decryptChunk, if_pos tight] at decrypted
    cases decrypted

theorem Rounds.bounded {aead : StreamAead} {before after : EncryptedReader} {capacity : Nat}
    (rounds : Rounds aead before after) (bounded : Bounded capacity before) :
    Bounded capacity after := by
  induction rounds with
  | none reader => exact bounded
  | round reader middle final msg shown decrypted later ih =>
      exact ih (decryptChunk_bounded aead reader middle msg capacity bounded shown decrypted).2

/-! ## The round that fails -/

/-- The chunk that failed, and the reader as it was before it. -/
theorem decryptChunks_fails (aead : StreamAead) (rounds : Nat) (reader final : EncryptedReader)
    (sound : reader.Sound)
    (run : decryptChunks aead rounds reader = .ok (final, .invalid)) :
    ∃ before bad, Rounds aead reader before ∧
      peekCipherChunk before.ciphertext = .ok (some bad) ∧
      decryptChunk aead before bad = .ok (final, some .invalid) ∧
      Refusal aead bad before final := by
  induction rounds generalizing reader with
  | zero => cases run
  | succ rounds ih =>
      have peeked := peekCipherChunk_eq _ sound.ciphertext
      rw [decryptChunks, peeked] at run
      cases shown : peekFrame reader.ciphertext.unread with
      | none =>
          rw [shown] at run
          cases run
      | some msg =>
          rw [shown] at peeked
          simp only [shown] at run
          rcases decryptChunk_moves aead reader sound msg shown with
            stops | ⟨refused, stops, refusal⟩ | ⟨middle, opens, move⟩
          · rw [stops] at run
            cases run
          · rw [stops] at run
            cases run
            exact ⟨reader, msg, .none reader, peeked, stops, refusal⟩
          · rw [opens] at run
            obtain ⟨before, bad, rounds, facts⟩ :=
              ih middle ((move ⟨[], false⟩).sound sound) run
            exact ⟨before, bad, .round reader middle before msg peeked opens rounds, facts⟩

theorem decryptAllFullChunks_fails (aead : StreamAead) (reader final : EncryptedReader)
    (kind : ErrorKind) (sound : reader.Sound)
    (run : decryptAllFullChunks aead reader = .ok (final, .error kind)) :
    kind = .invalidData ∧ ∃ before bad, Rounds aead reader before ∧
      peekCipherChunk before.ciphertext = .ok (some bad) ∧
      decryptChunk aead before bad = .ok (final, some .invalid) ∧
      Refusal aead bad before final := by
  obtain ⟨middle, chunkEnd, chunks, ended⟩ := decryptAllFullChunks_ok run
  rcases ended with ⟨rfl, rfl, failed⟩ | ⟨_, done, _⟩
  · cases failed
    exact ⟨rfl, decryptChunks_fails aead _ reader final sound chunks⟩
  · cases done

/-- The cleartext buffer is as it was, with its whole capacity. -/
structure Undisturbed (before after : EncryptedReader) : Prop where
  bytes : after.cleartext.buf.bytes = before.cleartext.buf.bytes
  cursor : after.cleartext.cursor = before.cleartext.cursor
  capacity : after.cleartext.buf.capacity = before.cleartext.buf.capacity
  whole : after.cleartext.buf.capacity = maxChunkSize

/-- Wherever a decryption fails, the bytes and the cursor stay, the capacity does not, and
from then on no chunk is decrypted that needs more room than is left. -/
theorem failure_disturbs (aead : StreamAead) (debug : Bool) (sharedKey : Key) (nonce : Nonce)
    (inner : ByteStream) (reader final : EncryptedReader) (kind : ErrorKind)
    (decrypting : Decrypting aead debug ⟨withNonce sharedKey nonce, inner, []⟩ reader)
    (failed : decryptAllFullChunks aead reader = .ok (final, .error kind)) :
    kind = .invalidData ∧ ∃ before bad, Rounds aead reader before ∧
      peekCipherChunk before.ciphertext = .ok (some bad) ∧
      decryptChunk aead before bad = .ok (final, some .invalid) ∧
      final.cleartext.buf.bytes = before.cleartext.buf.bytes ∧
      final.cleartext.cursor = before.cleartext.cursor ∧
      ¬ Undisturbed before final ∧
      final.cleartext.buf.capacity + ciphertextOverhead ≤ maxChunkSize ∧
      ∀ stream handed later middle next msg,
        Decrypting aead debug ⟨final, stream, handed⟩ later → Rounds aead later middle →
        peekCipherChunk middle.ciphertext = .ok (some msg) →
        decryptChunk aead middle msg = .ok (next, none) →
          msg.length ≤ final.cleartext.buf.capacity := by
  have bounded := decrypting.bounded (withNonce_bounded sharedKey nonce)
  obtain ⟨isInvalid, before, bad, rounds, shown, fails, refusal⟩ :=
    decryptAllFullChunks_fails aead reader final kind bounded.sound failed
  have finalBounded := refusal.bounded (rounds.bounded bounded)
  have lost : final.cleartext.buf.capacity + ciphertextOverhead ≤ maxChunkSize := by
    have len := (rounds.bounded bounded).len
    cases refusal with
    | refuse ciphertext isShown room refused advanced => exact len
  refine ⟨isInvalid, before, bad, rounds, shown, fails, ?_, ?_, ?_, lost, ?_⟩
  · cases refusal with
    | refuse ciphertext isShown room refused advanced => rfl
  · cases refusal with
    | refuse ciphertext isShown room refused advanced => rfl
  · intro undisturbed
    have whole := undisturbed.whole
    rw [ciphertextOverhead] at lost
    omega
  · intro stream handed later middle next msg reached laterRounds peeked opens
    have kept : Bounded final.cleartext.buf.capacity final :=
      ⟨finalBounded.sound, finalBounded.len, Nat.le_refl _⟩
    exact (decryptChunk_bounded aead middle next msg _
      (laterRounds.bounded (reached.bounded kept)) peeked opens).1

/-- The reader that was sent one byte as the first chunk, and what the failure leaves. -/
def sentOneByte : EncryptedReader :=
  { withNonce [] [] with ciphertext := (withNonce [] []).ciphertext.append [0, 0, 0, 1, 97] }

def withoutCapacity : EncryptedReader :=
  ⟨.new [] [], HelperBuf.withCapacity 0, HelperBuf.withCapacity (maxChunkSize * 2)⟩

theorem sentOneByte_decrypting (debug : Bool) :
    Decrypting paddingAead debug ⟨withNonce [] [], ⟨[0, 0, 0, 1, 97], false⟩, []⟩ sentOneByte := by
  apply Decrypting.within [] _ ⟨withNonce [] [], ⟨[0, 0, 0, 1, 97], false⟩, []⟩ (.pollFillBuf [])
    rfl ?_ (.ready 4) [0, 0, 0, 1, 97] sentOneByte ⟨[], false⟩ ?_
  · cases debug <;> rfl
  · rfl

theorem sentOneByte_fails :
    decryptAllFullChunks paddingAead sentOneByte = .ok (withoutCapacity, .error .invalidData) := by
  rfl

/-- The failure of its first chunk takes all capacity from the cleartext buffer. -/
theorem sentOneByte_disturbed : ∃ before, Rounds paddingAead sentOneByte before ∧
    ¬ Undisturbed before withoutCapacity := by
  obtain ⟨_, before, _, rounds, _, _, _, _, disturbed, _⟩ := failure_disturbs paddingAead true [] []
    ⟨[0, 0, 0, 1, 97], false⟩ sentOneByte withoutCapacity .invalidData
    (sentOneByte_decrypting true) sentOneByte_fails
  exact ⟨before, rounds, disturbed⟩

theorem capacity_lost : ¬ ∀ debug inner reader before final bad,
    Decrypting paddingAead debug ⟨withNonce [] [], inner, []⟩ reader →
    Rounds paddingAead reader before → peekCipherChunk before.ciphertext = .ok (some bad) →
    decryptChunk paddingAead before bad = .ok (final, some .invalid) →
      Undisturbed before final := by
  intro all
  have undisturbed := all true _ sentOneByte sentOneByte withoutCapacity [97]
    (sentOneByte_decrypting true) (.none _) rfl rfl
  exact absurd undisturbed.whole (by decide)

/-- In a build with debug assertions every later poll panics. -/
theorem disturbed_panics (aead : StreamAead) (wanted : Option Nat) (events : List ReadEvent)
    (reader : EncryptedReader) (inner : ByteStream)
    (lost : reader.cleartext.buf.capacity + ciphertextOverhead ≤ maxChunkSize) :
    (readIfNecessary aead true wanted events reader inner).1 = .panicked .debugAssertion := by
  have smaller : ¬ reader.cleartext.buf.capacity = maxChunkSize := by
    rw [ciphertextOverhead] at lost
    omega
  rw [readIfNecessary, decide_eq_false smaller]
  rfl

end EncryptedReader
end Gday.Encryption
