import Gday.Encryption.FrameByFrame

/-! # Ends that are none

A caller that takes the frames one by one comes to the first fault of a stream with empty
buffers, and there the reader ends falsely. -/
set_option autoImplicit false
namespace Gday.Encryption

open Gday.Lib.AsyncStream Gday.Lib.BigEndian Gday.Lib.Framing Gday.Lib.Machine

namespace Reading

open EncryptedReader

variable {aead : StreamAead}

/-! ## The first fault -/

/-- A header that announces too much is waited on. -/
theorem not_endsTruly_tooLong {start : StreamLE31} {bytes : List UInt8} (state : Reading)
    (fresh : state.reader.Fresh) (header : 4 ≤ state.inner.bytes.length)
    (beyond : maxChunkSize < ofBe (state.inner.bytes.take 4)) :
    ¬ state.EndsTruly aead start bytes := by
  intro truly
  have length : (state.inner.bytes.take 4).length = 3 + 1 := by
    rw [List.length_take]
    omega
  have fits : (state.inner.bytes.take 4).length ≤ 2 * maxChunkSize := by
    rw [length, maxChunkSize]
    omega
  have hidden : peekFrame (state.inner.bytes.take 4) = none := by
    rw [peekFrame, if_pos (by omega), List.take_take, Nat.min_self, if_neg (by omega)]
  have wanting := fresh.wanting _ hidden (by rw [length]; decide)
  have inner : state.inner = ⟨state.inner.bytes.take 4 ++ state.inner.bytes.drop 4,
      state.inner.closed⟩ := by
    rw [List.take_append_drop]
  have ran : EncryptedReader.readIfNecessary aead false none [.ready 3, .pending] state.reader
      state.inner = (.pending, state.reader.receive (state.inner.bytes.take 4),
        ⟨state.inner.bytes.drop 4, state.inner.closed⟩) := by
    have reads := fresh.holding.reads false (state.inner.bytes.take 4) (state.inner.bytes.drop 4)
      state.inner.closed 3 length fits
      (wanting.settled.decryptAllFullChunks aead wanting.sound) [.pending]
    rw [← inner] at reads
    rw [fresh.holding.readIfNecessary, reads,
      readLoop_pending false wanting.sound _ wanting.wantsMore]
    exact congrArg (fun outcome => (outcome, _, _)) (if_pos fresh.clear)
  have called : state.call aead false (pollOf none [.ready 3, .pending]) =
      (.pending, ⟨state.reader.receive (state.inner.bytes.take 4),
        ⟨state.inner.bytes.drop 4, state.inner.closed⟩, state.handed⟩) := by
    simp only [pollOf, call, pollFillBuf_eq aead false _ _ _ fresh.sound, ran]
    rfl
  have ahead : state.ahead = state.inner.bytes := by
    rw [Reading.ahead, fresh.sealed]
    rfl
  obtain ⟨kind, same⟩ := truly.tooLong fresh.clear (by rw [ahead]; exact header)
    (by rw [ahead]; exact beyond) none _ _ _ (Option.some_ne_none 0).symm called (by
      show 4 ≤ (state.reader.receive (state.inner.bytes.take 4)).ciphertext.unread.length
      rw [fresh.holding.receive_unread, length]) (by simp)
  cases same

/-- After a frame that does not decrypt the buffer has no room, and everything is empty. -/
theorem not_endsTruly_invalid (start : StreamLE31) (bytes : List UInt8) (state : Reading)
    (fresh : state.reader.Fresh) (bad : List UInt8)
    (shown : peekFrame state.inner.bytes = some bad) (small : bad.length ≤ maxChunkSize)
    (failed : aead.decryptNextInPlace state.reader.decryptor bad = none) :
    ∃ calls final, runInputs (Reading.step aead false) calls state = some final ∧
      ¬ final.EndsTruly aead start bytes := by
  obtain ⟨short, tail, split⟩ := (peekFrame_eq_some _ bad).mp shown
  have holding := fresh.holding
  have room : bad.length ≤ state.reader.cleartext.spareCapacityLen := by
    rw [fresh.sound.cleartext.spare_of_unread_nil fresh.clear]
    exact small.trans fresh.intact.ge
  have inner : state.inner = ⟨frame bad ++ tail, state.inner.closed⟩ := by
    rw [← split]
  obtain ⟨ciphertext, wf, gone, size, loops⟩ := holding.refuses false bad tail
    state.inner.closed room failed []
  have ran : EncryptedReader.readIfNecessary aead false none [.ready (bad.length + 3)]
      state.reader state.inner =
      (.failed .invalidData, state.reader.refused ciphertext, ⟨tail, state.inner.closed⟩) := by
    rw [holding.readIfNecessary, inner]
    exact loops
  have polled : state.step aead false (.pollFillBuf [.ready (bad.length + 3)]) =
      some ⟨state.reader.refused ciphertext, ⟨tail, state.inner.closed⟩, state.handed⟩ := by
    simp only [step, call, pollFillBuf_eq aead false _ _ _ fresh.sound, ran]
    rfl
  have empty := fresh.sound.cleartext.unread_eq_nil.mp fresh.clear
  have capacity : (state.reader.refused ciphertext).cleartext.buf.capacity = 0 :=
    congrArg List.length empty
  have sound : (state.reader.refused ciphertext).Sound :=
    ⟨fresh.sound.cleartext, wf, size, capacity.trans_le (Nat.zero_le _)⟩
  have clear : (state.reader.refused ciphertext).cleartext.unread = [] := fresh.clear
  have sealed : (state.reader.refused ciphertext).ciphertext.unread = [] := gone
  generalize state.reader.refused ciphertext = final at polled capacity sound clear sealed
  refine ⟨[.pollFillBuf [.ready (bad.length + 3)]], _, by rw [runInputs, polled]; rfl, ?_⟩
  intro truly
  have settled : final.Settled := by
    left
    rw [sealed, sound.ciphertext.spare_of_unread_nil sealed, sound.ciphertextCapacity]
    exact ⟨rfl, by decide⟩
  have ended : EncryptedReader.readIfNecessary aead false none [] final
      ⟨tail, state.inner.closed⟩ = (.ready false, final, ⟨tail, state.inner.closed⟩) := by
    have enough : final.wantsMore 0 = .ok false := by
      rw [wantsMore_eq final sound]
      simp
    rw [EncryptedReader.readIfNecessary]
    simp only [debugAssert, Bool.false_and, Bool.false_eq_true, if_false,
      settled.decryptAllFullChunks aead sound, bytesAmount, capacity]
    rw [readLoop_enough aead false 0 [] final _ enough, finishRead_eq false final sound]
    simp
  have called : Reading.call aead false ⟨final, ⟨tail, state.inner.closed⟩, state.handed⟩
      (pollOf none []) = (.ready [], ⟨final, ⟨tail, state.inner.closed⟩, state.handed⟩) := by
    simp only [pollOf, call, pollFillBuf_eq aead false _ _ _ sound, ended, Outcome.map, clear]
    rfl
  obtain ⟨before, extra, after, _, none, _⟩ :=
    (truly.empty none [] _ (Option.some_ne_none 0).symm called).1
  exact absurd none (by simp)

/-- The end inside a frame is waited on for ever. -/
theorem not_endsTruly_cut {start : StreamLE31} {bytes : List UInt8} (state : Reading)
    (fresh : state.reader.Fresh) (closed : state.inner.closed = true)
    (some_ : state.inner.bytes ≠ []) (hidden : peekFrame state.inner.bytes = none)
    (small : state.inner.bytes.length < maxChunkSize + 4) :
    ¬ state.EndsTruly aead start bytes := by
  intro truly
  have fits : state.inner.bytes.length < 2 * maxChunkSize := by
    rw [maxChunkSize] at small ⊢
    omega
  have length : state.inner.bytes.length = state.inner.bytes.length - 1 + 1 := by
    have := List.length_pos_iff.mpr some_
    omega
  have wanting := fresh.wanting _ hidden fits
  have ran : EncryptedReader.readIfNecessary aead false none
      (firstReads (fun _ => state.inner.bytes.length - 1) 1) state.reader state.inner =
        (.waiting, state.reader.receive state.inner.bytes, ⟨[], true⟩) := by
    have reads := fresh.holding.reads false state.inner.bytes [] true
      (state.inner.bytes.length - 1) length
      (Nat.le_of_lt fits) (wanting.settled.decryptAllFullChunks aead wanting.sound) []
    have inner : state.inner = ⟨state.inner.bytes ++ [], true⟩ := by
      rw [List.append_nil, ← closed]
    rw [← inner] at reads
    rw [firstReads, firstReads, fresh.holding.readIfNecessary, reads, readLoop, wanting.wantsMore]
  have waits := (call_waiting aead false state ⟨_, _, state.handed⟩ none _ fresh.sound).mpr
    ⟨ran, rfl⟩
  have holds : (state.reader.receive state.inner.bytes).Holds := by
    right
    rw [fresh.holding.receive_unread]
    exact some_
  have ahead : state.ahead = state.inner.bytes := by
    rw [Reading.ahead, fresh.sealed]
    rfl
  obtain ⟨count, kind, failed⟩ := truly.cut fresh.clear closed (by rw [ahead]; exact some_)
    (by rw [ahead]; exact hidden) none (fun _ => state.inner.bytes.length - 1)
    (Option.some_ne_none 0).symm
  have stuck := poll_stuck aead false state _ none (fun _ => state.inner.bytes.length - 1) 1
    fresh.sound closed waits rfl holds count
  rw [stuck] at failed
  cases failed

/-- The ends that are reported are the true ones on exactly the faultless streams. -/
theorem trueEnds_iff (aead : StreamAead) (sharedKey : Key) (nonce : Nonce)
    (inner : ByteStream) :
    TrueEnds aead sharedKey nonce inner ↔
      Faultless aead (.new sharedKey nonce) inner.bytes inner.closed := by
  constructor
  · intro truly
    rcases faultless_or_fault aead (.new sharedKey nonce) inner.bytes inner.closed with
      faultless | ⟨msgs, tail, split, opens, small, fault⟩
    · exact faultless
    · exfalso
      obtain ⟨calls, state, taken, fresh, innerIs, decryptor⟩ := takes_frames false msgs tail
        ⟨withNonce sharedKey nonce, inner, []⟩ (withNonce_fresh sharedKey nonce) split small opens
      have run := unfailed_run taken
      have bytesAre : state.inner.bytes = tail := by rw [innerIs]
      have closedIs : state.inner.closed = inner.closed := by rw [innerIs]
      cases fault with
      | tooLong header beyond =>
          rw [← bytesAre] at header beyond
          exact not_endsTruly_tooLong state fresh header beyond (truly calls state run)
      | invalid bad shown badSmall failed =>
          rw [← bytesAre] at shown
          obtain ⟨more, final, later, falsely⟩ :=
            not_endsTruly_invalid (.new sharedKey nonce) inner.bytes state fresh bad shown badSmall
              (by rw [decryptor]; exact failed)
          apply falsely
          apply truly (calls ++ more) final
          rw [runInputs_append, run]
          exact later
      | cut isClosed some_ hidden tailSmall =>
          rw [← bytesAre] at some_ hidden tailSmall
          exact not_endsTruly_cut state fresh (closedIs.trans isClosed) some_ hidden tailSmall
            (truly calls state run)
  · exact trueEnds_of_faultless

/-- A frame that does not decrypt, a length beyond the buffer, and half a frame. -/
theorem false_ends :
    ¬ TrueEnds paddingAead [] [] ⟨frame [97] ++ frame (List.replicate 17 0), false⟩ ∧
      ¬ TrueEnds paddingAead [] [] ⟨[0, 0, 32, 1], false⟩ ∧
      ¬ TrueEnds paddingAead [] [] ⟨[0, 0, 0, 19, 97], true⟩ := by
  refine ⟨?_, ?_, ?_⟩
  · intro truly
    have failed : paddingAead.decryptNextInPlace (.new [] []) [97] = none := rfl
    obtain ⟨calls, final, run, falsely⟩ := not_endsTruly_invalid (.new [] [])
      (frame [97] ++ frame (List.replicate 17 0))
      ⟨withNonce [] [], ⟨frame [97] ++ frame (List.replicate 17 0), false⟩, []⟩
      (withNonce_fresh [] []) [97] (peekFrame_frame [97] _ (by decide)) (by decide) failed
    exact falsely (truly calls final run)
  · intro truly
    exact not_endsTruly_tooLong _ (withNonce_fresh [] []) (by decide) (by decide)
      (truly [] ⟨withNonce [] [], ⟨[0, 0, 32, 1], false⟩, []⟩ rfl)
  · intro truly
    exact not_endsTruly_cut _ (withNonce_fresh [] []) rfl (by decide) (by decide) (by decide)
      (truly [] ⟨withNonce [] [], ⟨[0, 0, 0, 19, 97], true⟩, []⟩ rfl)

end Reading

end Gday.Encryption
