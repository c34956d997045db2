import Gday.Encryption.Reading

/-! # What a call does to the buffers

Every call is a sequence of moves: bytes are received, a chunk is decrypted behind the
cleartext, the ciphertext is wrapped, cleartext is taken.  Only a call that fails with
`InvalidData` ends differently, with a chunk that is refused.  What each move keeps is kept
by every run. -/
set_option autoImplicit false
namespace Gday.Encryption

open Gday.Lib.AsyncStream Gday.Lib.Framing Gday.Lib.Machine

namespace EncryptedReader

/-- One change of the reader's buffers and of the stream it reads. -/
inductive Move (aead : StreamAead) :
    EncryptedReader × ByteStream → EncryptedReader × ByteStream → Prop where
  | receive (reader : EncryptedReader) (inner rest : ByteStream) (bytes : List UInt8)
      (taken : inner.bytes = bytes ++ rest.bytes) (closed : rest.closed = inner.closed)
      (fits : bytes.length ≤ reader.ciphertext.spareCapacityLen) :
      Move aead (reader, inner)
        ({ reader with ciphertext := reader.ciphertext.append bytes }, rest)
  | decrypt (reader : EncryptedReader) (inner : ByteStream) (msg plain : List UInt8)
      (stream : StreamLE31) (ciphertext : HelperBuf)
      (shown : peekFrame reader.ciphertext.unread = some msg)
      (room : msg.length ≤ reader.cleartext.spareCapacityLen)
      (decrypted : aead.decryptNextInPlace reader.decryptor msg = some (plain, stream))
      (advanced : reader.ciphertext.advanceCursor (msg.length + 4) = .ok ciphertext) :
      Move aead (reader, inner) (reader.opened plain stream ciphertext, inner)
  | wrap (reader : EncryptedReader) (inner : ByteStream) (ciphertext : HelperBuf)
      (wrapped : reader.ciphertext.wrap = .ok ciphertext) :
      Move aead (reader, inner) ({ reader with ciphertext := ciphertext }, inner)
  | take (reader : EncryptedReader) (inner : ByteStream) (count : Nat) (cleartext : HelperBuf)
      (advanced : reader.cleartext.advanceCursor count = .ok cleartext) :
      Move aead (reader, inner) ({ reader with cleartext := cleartext }, inner)

abbrev Moves (aead : StreamAead) :
    EncryptedReader × ByteStream → EncryptedReader × ByteStream → Prop :=
  Relation.ReflTransGen (Move aead)

/-- A chunk is taken off the ciphertext and does not decrypt. -/
inductive Refusal (aead : StreamAead) (bad : List UInt8) :
    EncryptedReader → EncryptedReader → Prop where
  | refuse (reader : EncryptedReader) (ciphertext : HelperBuf)
      (shown : peekFrame reader.ciphertext.unread = some bad)
      (room : bad.length ≤ reader.cleartext.spareCapacityLen)
      (failed : aead.decryptNextInPlace reader.decryptor bad = none)
      (advanced : reader.ciphertext.advanceCursor (bad.length + 4) = .ok ciphertext) :
      Refusal aead bad reader (reader.refused ciphertext)

/-- Moves, and where the flag is set a refused chunk after them. -/
inductive Leads (aead : StreamAead) (before : EncryptedReader × ByteStream) :
    Bool → EncryptedReader × ByteStream → Prop where
  | moved (after : EncryptedReader × ByteStream) (moves : Moves aead before after) :
      Leads aead before false after
  | refused (middle final : EncryptedReader) (inner : ByteStream) (bad : List UInt8)
      (moves : Moves aead before (middle, inner)) (refusal : Refusal aead bad middle final) :
      Leads aead before true (final, inner)

theorem Leads.after {aead : StreamAead} {first second third : EncryptedReader × ByteStream}
    {invalid : Bool} (moves : Moves aead first second) (leads : Leads aead second invalid third) :
    Leads aead first invalid third := by
  cases leads with
  | moved _ later => exact .moved third (moves.trans later)
  | refused middle final inner bad later refusal =>
      exact .refused middle final inner bad (moves.trans later) refusal

theorem Leads.moves {aead : StreamAead} {before after : EncryptedReader × ByteStream}
    (leads : Leads aead before false after) : Moves aead before after := by
  cases leads with
  | moved _ moves => exact moves

theorem Leads.refusal {aead : StreamAead} {before after : EncryptedReader × ByteStream}
    (leads : Leads aead before true after) :
    ∃ middle bad, Moves aead before (middle, after.2) ∧ Refusal aead bad middle after.1 := by
  cases leads with
  | refused middle final inner bad moves refusal => exact ⟨middle, bad, moves, refusal⟩

/-! ## Soundness -/

theorem advanceCursor_wellFormed (helper next : HelperBuf) (wf : helper.WellFormed)
    (numBytes : Nat) (advanced : helper.advanceCursor numBytes = .ok next) :
    numBytes ≤ helper.unread.length ∧ next.WellFormed ∧
      next.unread = helper.unread.drop numBytes ∧ next.buf.capacity = helper.buf.capacity := by
  by_cases within : numBytes ≤ helper.unread.length
  · obtain ⟨other, run, facts⟩ := helper.advanceCursor_spec wf numBytes within
    cases run.symm.trans advanced
    exact ⟨within, facts⟩
  · cases (helper.advanceCursor_error wf numBytes (by omega)).symm.trans advanced

theorem wrap_wellFormed (helper next : HelperBuf) (wf : helper.WellFormed)
    (wrapped : helper.wrap = .ok next) :
    next.WellFormed ∧ next.unread = helper.unread ∧
      next.buf.capacity = helper.buf.capacity := by
  by_cases room : helper.unread.length ≤ helper.cursor
  · obtain ⟨other, run, nextWf, unread, capacity, _⟩ := helper.wrap_spec wf room
    cases run.symm.trans wrapped
    exact ⟨nextWf, unread, capacity⟩
  · cases (helper.wrap_error wf (by omega)).symm.trans wrapped

theorem Move.sound {aead : StreamAead} {before after : EncryptedReader × ByteStream}
    (move : Move aead before after) (sound : before.1.Sound) : after.1.Sound := by
  cases move with
  | receive reader inner rest bytes taken closed fits =>
      exact append_sound reader sound bytes fits
  | decrypt reader inner msg plain stream ciphertext shown room decrypted advanced =>
      have overhead := aead.decryptNextInPlace_length _ _ _ _ decrypted
      obtain ⟨_, wf, _, capacity⟩ :=
        advanceCursor_wellFormed _ ciphertext sound.ciphertext _ advanced
      exact ⟨reader.cleartext.append_wellFormed sound.cleartext plain, wf,
        capacity.trans sound.ciphertextCapacity,
        (reader.cleartext.append_capacity plain (by omega)).trans_le sound.cleartextCapacity⟩
  | wrap reader inner ciphertext wrapped =>
      obtain ⟨wf, _, capacity⟩ := wrap_wellFormed _ ciphertext sound.ciphertext wrapped
      exact ⟨sound.cleartext, wf, capacity.trans sound.ciphertextCapacity,
        sound.cleartextCapacity⟩
  | take reader inner count cleartext advanced =>
      obtain ⟨_, wf, _, capacity⟩ :=
        advanceCursor_wellFormed _ cleartext sound.cleartext _ advanced
      exact ⟨wf, sound.ciphertext, sound.ciphertextCapacity,
        capacity.trans_le sound.cleartextCapacity⟩

theorem Moves.sound {aead : StreamAead} {before after : EncryptedReader × ByteStream}
    (moves : Moves aead before after) (sound : before.1.Sound) : after.1.Sound := by
  induction moves with
  | refl => exact sound
  | tail moves move ih => exact move.sound ih

theorem Refusal.sound {aead : StreamAead} {bad : List UInt8} {before after : EncryptedReader}
    (refusal : Refusal aead bad before after) (sound : before.Sound) : after.Sound := by
  cases refusal with
  | refuse ciphertext shown room failed advanced =>
      obtain ⟨_, wf, _, capacity⟩ :=
        advanceCursor_wellFormed _ ciphertext sound.ciphertext _ advanced
      exact ⟨sound.cleartext, wf, capacity.trans sound.ciphertextCapacity,
        before.cleartext.buf.fits.trans sound.cleartextCapacity⟩

/-! ## The functions of the reader -/

/-- One round of the loop over the chunks. -/
theorem decryptChunk_moves (aead : StreamAead) (reader : EncryptedReader) (sound : reader.Sound)
    (msg : List UInt8) (shown : peekFrame reader.ciphertext.unread = some msg) :
    decryptChunk aead reader msg = .ok (reader, some .noRoom) ∨
      (∃ next, decryptChunk aead reader msg = .ok (next, some .invalid) ∧
        Refusal aead msg reader next) ∨
      ∃ next, decryptChunk aead reader msg = .ok (next, none) ∧
        ∀ inner, Move aead (reader, inner) (next, inner) := by
  by_cases tight : reader.cleartext.spareCapacityLen < msg.length
  · exact .inl (by rw [decryptChunk, if_pos tight])
  have room := Nat.le_of_not_lt tight
  obtain ⟨ciphertext, advanced, _⟩ :=
    advance_shown reader.ciphertext sound.ciphertext msg shown
  rw [decryptChunk_eq aead reader msg room ciphertext advanced]
  cases decrypted : aead.decryptNextInPlace reader.decryptor msg with
  | none => exact .inr (.inl ⟨_, rfl, .refuse reader ciphertext shown room decrypted advanced⟩)
  | some pair =>
      obtain ⟨plain, stream⟩ := pair
      exact .inr (.inr ⟨_, rfl, fun inner =>
        .decrypt reader inner msg plain stream ciphertext shown room decrypted advanced⟩)

theorem decryptChunks_leads (aead : StreamAead) (rounds : Nat) (reader next : EncryptedReader)
    (chunkEnd : ChunkEnd) (sound : reader.Sound)
    (run : decryptChunks aead rounds reader = .ok (next, chunkEnd)) (inner : ByteStream) :
    Leads aead (reader, inner) (decide (chunkEnd = .invalid)) (next, inner) := by
  induction rounds generalizing reader with
  | zero =>
      cases run
      exact .moved _ .refl
  | succ rounds ih =>
      rw [decryptChunks, peekCipherChunk_eq _ sound.ciphertext] at run
      cases shown : peekFrame reader.ciphertext.unread with
      | none =>
          rw [shown] at run
          cases run
          exact .moved _ .refl
      | some msg =>
          simp only [shown] at run
          rcases decryptChunk_moves aead reader sound msg shown with
            stops | ⟨refused, stops, refusal⟩ | ⟨middle, opens, move⟩
          · rw [stops] at run
            cases run
            exact .moved _ .refl
          · rw [stops] at run
            cases run
            exact .refused reader _ inner msg .refl refusal
          · rw [opens] at run
            exact (ih middle ((move inner).sound sound) run).after (.single (move inner))

/-- What has happened when it returns: the chunks, and perhaps the wrap behind them. -/
theorem decryptAllFullChunks_ok {aead : StreamAead} {reader next : EncryptedReader}
    {result : Except ErrorKind Unit}
    (run : decryptAllFullChunks aead reader = .ok (next, result)) :
    ∃ middle chunkEnd,
      decryptChunks aead reader.ciphertext.buf.len reader = .ok (middle, chunkEnd) ∧
      (chunkEnd = .invalid ∧ next = middle ∧ result = .error .invalidData ∨
        chunkEnd ≠ .invalid ∧ result = .ok () ∧
          (next = middle ∨ ∃ ciphertext, middle.ciphertext.wrap = .ok ciphertext ∧
            next = { middle with ciphertext := ciphertext })) := by
  rw [decryptAllFullChunks] at run
  cases chunks : decryptChunks aead reader.ciphertext.buf.len reader with
  | error panic =>
      rw [chunks] at run
      cases run
  | ok pair =>
      obtain ⟨middle, chunkEnd⟩ := pair
      refine ⟨middle, chunkEnd, rfl, ?_⟩
      rw [chunks] at run
      cases chunkEnd with
      | noRoom =>
          cases run
          exact .inr ⟨by simp, rfl, .inl rfl⟩
      | invalid =>
          cases run
          exact .inl ⟨rfl, rfl, rfl⟩
      | drained =>
          simp only at run
          split at run
          · cases wrapped : middle.ciphertext.wrap with
            | error panic =>
                rw [wrapped] at run
                cases run
            | ok ciphertext =>
                rw [wrapped] at run
                cases run
                exact .inr ⟨by simp, rfl, .inr ⟨ciphertext, rfl, rfl⟩⟩
          · cases run
            exact .inr ⟨by simp, rfl, .inl rfl⟩

/-- The call that returns an error has refused a chunk. -/
theorem decryptAllFullChunks_leads (aead : StreamAead) (reader next : EncryptedReader)
    (result : Except ErrorKind Unit) (sound : reader.Sound)
    (run : decryptAllFullChunks aead reader = .ok (next, result)) (inner : ByteStream) :
    Leads aead (reader, inner) (decide (result = .error .invalidData)) (next, inner) ∧
      (result = .ok () ∨ result = .error .invalidData) := by
  obtain ⟨middle, chunkEnd, chunks, ended⟩ := decryptAllFullChunks_ok run
  have leads := decryptChunks_leads aead _ reader middle chunkEnd sound chunks inner
  rcases ended with ⟨rfl, rfl, rfl⟩ | ⟨valid, rfl, moved⟩
  · exact ⟨leads, .inr rfl⟩
  · rw [decide_eq_false valid] at leads
    refine ⟨?_, .inl rfl⟩
    rcases moved with rfl | ⟨ciphertext, wrapped, rfl⟩
    · exact leads
    · exact .moved _ (leads.moves.tail (.wrap middle inner ciphertext wrapped))

/-- Whether the call failed with `InvalidData`. -/
def refusedBy {α : Type} : Outcome α → Bool
  | .failed .invalidData => true
  | _ => false

theorem refusedBy_map {α β : Type} (f : α → β) (outcome : Outcome α) :
    refusedBy (outcome.map f) = refusedBy outcome := by
  cases outcome with
  | failed kind => cases kind <;> rfl
  | _ => rfl

theorem innerRead_move (aead : StreamAead) (reader next : EncryptedReader)
    (inner rest : ByteStream) (event : ReadEvent) (bytes : List UInt8)
    (read : reader.innerRead inner event = (.filled bytes, next, rest)) :
    Move aead (reader, inner) (next, rest) := by
  rw [innerRead] at read
  cases answer : inner.pollRead reader.ciphertext.spareCapacityLen event with
  | mk kind after =>
      rw [answer] at read
      cases kind with
      | pending => cases read
      | error => cases read
      | filled filled =>
          cases read
          obtain ⟨taken, fits, closed⟩ := inner.pollRead_filled rest _ event bytes answer
          exact .receive reader inner rest bytes taken closed fits

theorem innerRead_other (reader next : EncryptedReader) (inner rest : ByteStream)
    (event : ReadEvent) (answer : ReadAnswer)
    (read : reader.innerRead inner event = (answer, next, rest))
    (notFilled : ∀ bytes, answer ≠ .filled bytes) : (next, rest) = (reader, inner) := by
  rw [innerRead] at read
  cases polled : inner.pollRead reader.ciphertext.spareCapacityLen event with
  | mk kind after =>
      rw [polled] at read
      cases kind with
      | filled bytes =>
          cases read
          exact absurd rfl (notFilled bytes)
      | _ =>
          cases read
          rw [inner.pollRead_other rest _ event _ polled notFilled]

/-- Whether a round of the read loop ends it, and with which flag. -/
def roundRefused : Option (Outcome Bool) → Bool
  | none => false
  | some outcome => refusedBy outcome

theorem finishRead_notRefused (debug : Bool) (reader : EncryptedReader) :
    refusedBy (reader.finishRead debug) = false := by
  unfold finishRead
  cases reader.cleartext.data with
  | error panic => rfl
  | ok data =>
      simp only
      cases debugAssert debug (!data.isEmpty) <;> rfl

theorem readStep_leads (aead : StreamAead) (debug : Bool) (event : ReadEvent)
    (reader : EncryptedReader) (inner : ByteStream) (sound : reader.Sound) :
    Leads aead (reader, inner) (roundRefused (readStep aead debug event reader inner).1)
      (readStep aead debug event reader inner).2 := by
  rw [readStep]
  cases read : reader.innerRead inner event with
  | mk answer after =>
      obtain ⟨next, rest⟩ := after
      cases answer with
      | error =>
          have same := innerRead_other reader next inner rest event _ read (by simp)
          cases same
          exact .moved _ .refl
      | pending =>
          have same := innerRead_other reader next inner rest event _ read (by simp)
          cases same
          simp only [sound.cleartext.data_eq]
          split
          · exact .moved _ .refl
          · simp only [roundRefused, finishRead_notRefused]
            exact .moved _ .refl
      | filled bytes =>
          have move := innerRead_move aead reader next inner rest event bytes read
          have nextSound := move.sound sound
          simp only [nextSound.ciphertext.data_eq, nextSound.cleartext.data_eq]
          split
          · exact .moved _ (.single move)
          · cases decrypts : decryptAllFullChunks aead next with
            | error panic => exact .moved _ (.single move)
            | ok pair =>
                obtain ⟨final, result⟩ := pair
                obtain ⟨leads, results⟩ :=
                  decryptAllFullChunks_leads aead next final result nextSound decrypts rest
                rcases results with fine | invalid
                · subst fine
                  exact leads.after (.single move)
                · subst invalid
                  exact leads.after (.single move)

theorem readLoop_leads (aead : StreamAead) (debug : Bool) (wanted : Nat)
    (events : List ReadEvent) (reader : EncryptedReader) (inner : ByteStream)
    (sound : reader.Sound) :
    Leads aead (reader, inner) (refusedBy (readLoop aead debug wanted events reader inner).1)
      (readLoop aead debug wanted events reader inner).2 := by
  induction events generalizing reader inner with
  | nil =>
      rw [readLoop, wantsMore_eq reader sound]
      cases decide (reader.cleartext.unread.length < wanted) &&
          decide (reader.ciphertext.spareCapacityLen ≠ 0) with
      | true => exact .moved _ .refl
      | false =>
          simp only [finishRead_notRefused]
          exact .moved _ .refl
  | cons event events ih =>
      rw [readLoop, wantsMore_eq reader sound]
      cases decide (reader.cleartext.unread.length < wanted) &&
          decide (reader.ciphertext.spareCapacityLen ≠ 0) with
      | false =>
          simp only [finishRead_notRefused]
          exact .moved _ .refl
      | true =>
          have step := readStep_leads aead debug event reader inner sound
          simp only
          generalize readStep aead debug event reader inner = result at step ⊢
          obtain ⟨outcome, next, rest⟩ := result
          cases outcome with
          | some outcome => exact step
          | none => exact (ih next rest (step.moves.sound sound)).after step.moves

theorem readIfNecessary_leads (aead : StreamAead) (debug : Bool) (wanted : Option Nat)
    (events : List ReadEvent) (reader : EncryptedReader) (inner : ByteStream)
    (sound : reader.Sound) :
    Leads aead (reader, inner)
      (refusedBy (readIfNecessary aead debug wanted events reader inner).1)
      (readIfNecessary aead debug wanted events reader inner).2 := by
  rw [readIfNecessary]
  cases debugAssert debug (decide (reader.cleartext.buf.capacity = maxChunkSize)) with
  | error panic => exact .moved _ .refl
  | ok first =>
      cases debugAssert debug (decide (reader.ciphertext.buf.capacity = 2 * maxChunkSize)) with
      | error panic => exact .moved _ .refl
      | ok second =>
          cases decrypts : decryptAllFullChunks aead reader with
          | error panic => exact .moved _ .refl
          | ok pair =>
              obtain ⟨next, result⟩ := pair
              obtain ⟨leads, results⟩ :=
                decryptAllFullChunks_leads aead reader next result sound decrypts inner
              rcases results with fine | invalid
              · subst fine
                exact (readLoop_leads aead debug (reader.bytesAmount wanted) events next inner
                  (leads.moves.sound sound)).after leads.moves
              · subst invalid
                exact leads

end EncryptedReader

namespace Reading

open EncryptedReader

/-- The reader and the stream it reads. -/
def buffers (state : Reading) : EncryptedReader × ByteStream := (state.reader, state.inner)

theorem call_leads (aead : StreamAead) (debug : Bool) (state : Reading) (input : ReaderCall)
    (sound : state.reader.Sound) :
    Leads aead state.buffers (refusedBy (state.call aead debug input).1)
      (state.call aead debug input).2.buffers := by
  cases input with
  | pollRead remaining events =>
      have leads := readIfNecessary_leads aead debug (some remaining) events state.reader
        state.inner sound
      have pollCase := pollRead_cases aead debug remaining events state.reader state.inner sound
      simp only [call]
      generalize state.reader.readIfNecessary aead debug (some remaining) events state.inner =
        before at leads pollCase
      generalize state.reader.pollRead aead debug remaining events state.inner = after at pollCase ⊢
      cases pollCase with
      | endOfStream next rest => exact leads
      | given next rest cleartext count countEq run =>
          exact .moved _ (leads.moves.tail (.take next rest count cleartext run))
      | stopped outcome next rest notReady =>
          rw [refusedBy_map]
          exact leads
  | pollFillBuf events =>
      have leads := readIfNecessary_leads aead debug none events state.reader state.inner sound
      simp only [call, pollFillBuf_eq aead debug events _ _ sound, refusedBy_map]
      exact leads
  | consume amt =>
      rw [call, consume]
      cases advanced : state.reader.cleartext.advanceCursor amt with
      | error panic => exact .moved _ .refl
      | ok cleartext =>
          exact .moved _ (.single (.take state.reader state.inner amt cleartext advanced))

end Reading
end Gday.Encryption
