import Gday.Encryption.Reader

/-! # What each function of the reader does

`Advances` compares the buffered reader with the plain sequence of decryptions: the
frames taken off the stream, the plaintext they gave, and what is still unread.  Every
function of the reader advances in this sense, whether or not a chunk fails.  The
remaining lemmas say in which state each function leaves the two buffers. -/
set_option autoImplicit false
namespace Gday.Encryption

open Gday.Lib.AsyncStream Gday.Lib.BigEndian Gday.Lib.Framing

theorem peekCipherChunk_eq (buf : HelperBuf) (wf : buf.WellFormed) :
    peekCipherChunk buf = .ok (peekFrame buf.unread) := by
  rw [peekCipherChunk, wf.data_eq]
  by_cases header : 4 ≤ buf.unread.length
  · have first : getRange buf.unread 0 4 = some (buf.unread.take 4) := by
      simp [getRange, header]
    have second : ∀ n, getRange buf.unread 4 (4 + n) =
        if 4 + n ≤ buf.unread.length then some ((buf.unread.drop 4).take n) else none := by
      intro n
      simp [getRange]
    simp only [first, second, peekFrame, if_pos header]
  · have first : getRange buf.unread 0 4 = none := by
      simp [getRange, header]
    simp only [first, peekFrame, if_neg header]

namespace StreamAead

/-- Every message of the sequence decrypts. -/
def Opens (aead : StreamAead) : StreamLE31 → List (List UInt8) → Prop
  | _, [] => True
  | stream, sealed :: rest =>
      ∃ plain next, aead.decryptNextInPlace stream sealed = some (plain, next) ∧
        Opens aead next rest

end StreamAead

namespace EncryptedReader

/-- What holds of the buffers in every state, also after a failed decryption. -/
structure Sound (reader : EncryptedReader) : Prop where
  cleartext : reader.cleartext.WellFormed
  ciphertext : reader.ciphertext.WellFormed
  ciphertextCapacity : reader.ciphertext.buf.capacity = 2 * maxChunkSize
  cleartextCapacity : reader.cleartext.buf.capacity ≤ maxChunkSize

/-- The cleartext buffer still has its full capacity. -/
def Intact (reader : EncryptedReader) : Prop := reader.cleartext.buf.capacity = maxChunkSize

/-- No complete chunk can be decrypted, and the ciphertext buffer was wrapped. -/
def Settled (reader : EncryptedReader) : Prop :=
  (peekFrame reader.ciphertext.unread = none ∧ reader.ciphertext.spareCapacityLen ≠ 0) ∨
    ∃ msg, peekFrame reader.ciphertext.unread = some msg ∧
      reader.cleartext.spareCapacityLen < msg.length

theorem withNonce_sound (sharedKey : Key) (nonce : Nonce) :
    (withNonce sharedKey nonce).Sound where
  cleartext := HelperBuf.withCapacity_wellFormed _
  ciphertext := HelperBuf.withCapacity_wellFormed _
  ciphertextCapacity := Nat.mul_comm ..
  cleartextCapacity := Nat.le_refl _

/-- From `before` to `after` the reader took the frames `msgs` off the stream and gave
the bytes `handed` to its caller. -/
structure Advances (aead : StreamAead) (before : EncryptedReader) (inner : ByteStream)
    (msgs : List (List UInt8)) (handed : List UInt8) (after : EncryptedReader)
    (rest : ByteStream) : Prop where
  stream : before.ciphertext.unread ++ inner.bytes =
    frames msgs ++ (after.ciphertext.unread ++ rest.bytes)
  short : ∀ msg ∈ msgs, msg.length < 2 ^ 32
  plain : handed ++ after.cleartext.unread =
    before.cleartext.unread ++ (aead.openFrames before.decryptor msgs).1
  decryptor : after.decryptor = (aead.openFrames before.decryptor msgs).2
  closed : rest.closed = inner.closed
  sound : after.Sound

theorem Advances.refl (aead : StreamAead) (reader : EncryptedReader) (inner : ByteStream)
    (sound : reader.Sound) : Advances aead reader inner [] [] reader inner where
  stream := rfl
  short := by simp
  plain := (List.append_nil _).symm
  decryptor := rfl
  closed := rfl
  sound := sound

theorem Advances.trans {aead : StreamAead} {first second third : EncryptedReader}
    {inner middle rest : ByteStream} {msgs more : List (List UInt8)} {handed later : List UInt8}
    (left : Advances aead first inner msgs handed second middle)
    (right : Advances aead second middle more later third rest) :
    Advances aead first inner (msgs ++ more) (handed ++ later) third rest where
  stream := by rw [left.stream, right.stream, frames_append, List.append_assoc]
  short := by
    intro msg member
    rcases List.mem_append.mp member with member | member
    · exact left.short msg member
    · exact right.short msg member
  plain := by
    rw [List.append_assoc, right.plain, ← List.append_assoc, left.plain, left.decryptor,
      aead.openFrames_append, List.append_assoc]
  decryptor := by rw [right.decryptor, left.decryptor, aead.openFrames_append]
  closed := right.closed.trans left.closed
  sound := right.sound

/-- Bytes that reach the stream later change nothing so far. -/
theorem Advances.extend {aead : StreamAead} {before after : EncryptedReader}
    {inner rest : ByteStream} {msgs : List (List UInt8)} {handed : List UInt8}
    (advances : Advances aead before inner msgs handed after rest) (more : List UInt8) :
    Advances aead before { inner with bytes := inner.bytes ++ more } msgs handed after
      { rest with bytes := rest.bytes ++ more } where
  stream := by
    have stream := advances.stream
    simp only [← List.append_assoc] at stream ⊢
    rw [stream]
  short := advances.short
  plain := advances.plain
  decryptor := advances.decryptor
  closed := advances.closed
  sound := advances.sound

/-! ## Decrypting the buffered chunks -/

/-- The three ways `decryptChunk` treats the chunk at the head of the ciphertext. -/
inductive ChunkCase (aead : StreamAead) (reader : EncryptedReader) (msg : List UInt8) :
    EncryptedReader × Option ChunkEnd → Prop where
  | noRoom (tight : reader.cleartext.spareCapacityLen < msg.length) :
      ChunkCase aead reader msg (reader, some .noRoom)
  | invalid (next : EncryptedReader)
      (failed : aead.decryptNextInPlace reader.decryptor msg = none)
      (advances : ∀ inner, Advances aead reader inner [msg] [] next inner)
      (cursor : next.cleartext.cursor = reader.cleartext.cursor)
      (bytes : next.cleartext.buf.bytes = reader.cleartext.buf.bytes)
      (capacity : next.cleartext.buf.capacity = reader.cleartext.buf.len) :
      ChunkCase aead reader msg (next, some .invalid)
  | opened (next : EncryptedReader) (plain : List UInt8) (stream : StreamLE31)
      (decrypted : aead.decryptNextInPlace reader.decryptor msg = some (plain, stream))
      (advances : ∀ inner, Advances aead reader inner [msg] [] next inner)
      (capacity : next.cleartext.buf.capacity = reader.cleartext.buf.capacity) :
      ChunkCase aead reader msg (next, none)

theorem splitOff_len (buf : BytesMut) :
    buf.splitOff buf.len =
      .ok (⟨buf.bytes, buf.len, Nat.le_refl _⟩,
        ⟨[], buf.capacity - buf.len, Nat.zero_le _⟩) := by
  have fits := buf.fits
  rw [BytesMut.splitOff, if_pos (by rw [BytesMut.len]; exact fits)]
  simp [BytesMut.len]

/-- Decrypting into the split-off space and joining it again appends the plaintext. -/
theorem unsplit_space (buf : BytesMut) (msg plain : List UInt8)
    (room : msg.length ≤ buf.capacity - buf.len) (smaller : plain.length ≤ msg.length) :
    (BytesMut.unsplit ⟨buf.bytes, buf.len, Nat.le_refl _⟩
      ((BytesMut.extendFromSlice ⟨[], buf.capacity - buf.len, Nat.zero_le _⟩ msg).replace plain)) =
      buf.extendFromSlice plain := by
  have fits := buf.fits
  have space : max (max (buf.capacity - buf.len) msg.length) plain.length =
      buf.capacity - buf.len := by omega
  have whole : max buf.capacity (buf.bytes ++ plain).length = buf.capacity := by
    rw [List.length_append]
    rw [BytesMut.len] at room
    omega
  by_cases empty : buf.bytes = []
  · simp only [BytesMut.unsplit, empty, if_true, BytesMut.extendFromSlice, BytesMut.replace,
      List.nil_append, BytesMut.mk.injEq, true_and]
    rw [space, BytesMut.len, empty]
    have small : plain.length ≤ buf.capacity := by
      rw [BytesMut.len, empty] at room
      simp at room
      omega
    simp
    omega
  · simp only [BytesMut.unsplit, empty, if_false, BytesMut.len, if_true,
      BytesMut.extendFromSlice, BytesMut.replace, List.nil_append, BytesMut.mk.injEq, true_and]
    rw [BytesMut.len] at space room
    rw [space, whole]
    omega

/-- The reader after a chunk was decrypted to `plain`. -/
def opened (reader : EncryptedReader) (plain : List UInt8) (stream : StreamLE31)
    (ciphertext : HelperBuf) : EncryptedReader :=
  ⟨stream, reader.cleartext.append plain, ciphertext⟩

/-- The reader after a chunk that did not decrypt: the spare capacity of the cleartext went
with the half that was split off. -/
def refused (reader : EncryptedReader) (ciphertext : HelperBuf) : EncryptedReader :=
  ⟨reader.decryptor,
    ⟨⟨reader.cleartext.buf.bytes, reader.cleartext.buf.len, Nat.le_refl _⟩,
      reader.cleartext.cursor⟩, ciphertext⟩

/-- What `decryptChunk` returns on a chunk for which there is room. -/
theorem decryptChunk_eq (aead : StreamAead) (reader : EncryptedReader) (msg : List UInt8)
    (room : msg.length ≤ reader.cleartext.spareCapacityLen) (ciphertext : HelperBuf)
    (advanced : reader.ciphertext.advanceCursor (msg.length + 4) = .ok ciphertext) :
    decryptChunk aead reader msg =
      .ok (match aead.decryptNextInPlace reader.decryptor msg with
        | none => (reader.refused ciphertext, some .invalid)
        | some (plain, stream) => (reader.opened plain stream ciphertext, none)) := by
  rw [decryptChunk, if_neg (Nat.not_lt.mpr room), splitOff_len]
  cases decrypted : aead.decryptNextInPlace reader.decryptor msg with
  | none =>
      simp only [advanced]
      rfl
  | some pair =>
      obtain ⟨plain, stream⟩ := pair
      have overhead := aead.decryptNextInPlace_length _ _ _ _ decrypted
      have joined := unsplit_space reader.cleartext.buf msg plain room (by omega)
      simp only [advanced, joined]
      rfl

/-- The cursor goes behind the frame that shows. -/
theorem advance_shown (buf : HelperBuf) (wf : buf.WellFormed) (msg : List UInt8)
    (shown : peekFrame buf.unread = some msg) :
    ∃ ciphertext, buf.advanceCursor (msg.length + 4) = .ok ciphertext ∧
      ciphertext.WellFormed ∧ buf.unread = frame msg ++ ciphertext.unread ∧
        ciphertext.buf.capacity = buf.buf.capacity := by
  obtain ⟨short, after, split⟩ := (peekFrame_eq_some _ msg).mp shown
  have within : msg.length + 4 ≤ buf.unread.length := by
    rw [split, List.length_append, frame_length]
    omega
  obtain ⟨ciphertext, advanced, nextWf, unread, capacity⟩ := buf.advanceCursor_spec wf _ within
  refine ⟨ciphertext, advanced, nextWf, ?_, capacity⟩
  have behind : ciphertext.unread = after := by
    rw [unread, split]
    exact List.drop_left' (frame_length msg)
  rw [split, behind]

theorem decryptChunk_cases (aead : StreamAead) (reader : EncryptedReader) (sound : reader.Sound)
    (msg : List UInt8) (shown : peekFrame reader.ciphertext.unread = some msg) :
    ∃ result, decryptChunk aead reader msg = .ok result ∧ ChunkCase aead reader msg result := by
  by_cases tight : reader.cleartext.spareCapacityLen < msg.length
  · exact ⟨_, by rw [decryptChunk, if_pos tight], .noRoom tight⟩
  obtain ⟨ciphertext, advanced, wf, split, capacity⟩ :=
    advance_shown reader.ciphertext sound.ciphertext msg shown
  have run := decryptChunk_eq aead reader msg (Nat.le_of_not_lt tight) ciphertext advanced
  have streamEq : ∀ inner : ByteStream, reader.ciphertext.unread ++ inner.bytes =
      frames [msg] ++ (ciphertext.unread ++ inner.bytes) := by
    intro inner
    rw [split, frames_cons, frames_nil, List.append_nil, List.append_assoc]
  have shortAll : ∀ m ∈ [msg], m.length < 2 ^ 32 := by
    intro m member
    rw [List.mem_singleton.mp member]
    exact ((peekFrame_eq_some _ msg).mp shown).1
  cases decrypted : aead.decryptNextInPlace reader.decryptor msg with
  | none =>
      rw [decrypted] at run
      refine ⟨_, run, .invalid (reader.refused ciphertext) decrypted ?_ rfl rfl rfl⟩
      intro inner
      exact
        { stream := streamEq inner
          short := shortAll
          plain := by simp [StreamAead.openFrames, decrypted, HelperBuf.unread, refused]
          decryptor := by simp [StreamAead.openFrames, decrypted, refused]
          closed := rfl
          sound :=
            { cleartext := sound.cleartext
              ciphertext := wf
              ciphertextCapacity := capacity.trans sound.ciphertextCapacity
              cleartextCapacity :=
                Nat.le_trans reader.cleartext.buf.fits sound.cleartextCapacity } }
  | some pair =>
      obtain ⟨plain, stream⟩ := pair
      rw [decrypted] at run
      have overhead := aead.decryptNextInPlace_length _ _ _ _ decrypted
      have plainRoom : plain.length ≤ reader.cleartext.spareCapacityLen := by omega
      refine ⟨_, run, .opened (reader.opened plain stream ciphertext) plain stream decrypted ?_
        (reader.cleartext.append_capacity plain plainRoom)⟩
      intro inner
      exact
        { stream := streamEq inner
          short := shortAll
          plain := by
            simp only [StreamAead.openFrames, decrypted, List.append_nil, List.nil_append]
            exact reader.cleartext.append_unread sound.cleartext plain
          decryptor := by simp [StreamAead.openFrames, decrypted, opened]
          closed := rfl
          sound :=
            { cleartext := reader.cleartext.append_wellFormed sound.cleartext plain
              ciphertext := wf
              ciphertextCapacity := capacity.trans sound.ciphertextCapacity
              cleartextCapacity :=
                (reader.cleartext.append_capacity plain plainRoom).trans_le
                  sound.cleartextCapacity } }

/-- How the loop over the buffered chunks ended, after taking the frames `msgs`. -/
inductive ChunksCase (aead : StreamAead) (reader : EncryptedReader) (msgs : List (List UInt8))
    (next : EncryptedReader) : ChunkEnd → Prop where
  | drained (opens : aead.Opens reader.decryptor msgs)
      (capacity : next.cleartext.buf.capacity = reader.cleartext.buf.capacity)
      (hidden : peekFrame next.ciphertext.unread = none) :
      ChunksCase aead reader msgs next .drained
  | noRoom (opens : aead.Opens reader.decryptor msgs)
      (capacity : next.cleartext.buf.capacity = reader.cleartext.buf.capacity)
      (msg : List UInt8) (shown : peekFrame next.ciphertext.unread = some msg)
      (tight : next.cleartext.spareCapacityLen < msg.length) :
      ChunksCase aead reader msgs next .noRoom
  | invalid (init : List (List UInt8)) (bad : List UInt8) (split : msgs = init ++ [bad])
      (opens : aead.Opens reader.decryptor init)
      (failed : aead.decryptNextInPlace (aead.openFrames reader.decryptor init).2 bad = none)
      (capacity : next.cleartext.buf.capacity = next.cleartext.buf.len) :
      ChunksCase aead reader msgs next .invalid

theorem ChunksCase.cons {aead : StreamAead} {reader middle next : EncryptedReader}
    {msg plain : List UInt8} {msgs : List (List UInt8)} {chunkEnd : ChunkEnd}
    (decrypted : aead.decryptNextInPlace reader.decryptor msg = some (plain, middle.decryptor))
    (capacity : middle.cleartext.buf.capacity = reader.cleartext.buf.capacity)
    (later : ChunksCase aead middle msgs next chunkEnd) :
    ChunksCase aead reader (msg :: msgs) next chunkEnd := by
  cases later with
  | drained opens laterCapacity hidden =>
      exact .drained ⟨plain, middle.decryptor, decrypted, opens⟩
        (laterCapacity.trans capacity) hidden
  | noRoom opens laterCapacity found shown tight =>
      exact .noRoom ⟨plain, middle.decryptor, decrypted, opens⟩
        (laterCapacity.trans capacity) found shown tight
  | invalid init bad split opens failed laterCapacity =>
      refine .invalid (msg :: init) bad (by rw [split]; rfl)
        ⟨plain, middle.decryptor, decrypted, opens⟩ ?_ laterCapacity
      simp only [StreamAead.openFrames, decrypted]
      exact failed

/-- The buffered bytes are enough rounds, and the loop ends in one of its three ways. -/
theorem decryptChunks_enough (aead : StreamAead) (rounds : Nat) (reader : EncryptedReader)
    (sound : reader.Sound) (enough : reader.ciphertext.unread.length ≤ rounds) :
    ∃ next chunkEnd msgs, decryptChunks aead rounds reader = .ok (next, chunkEnd) ∧
      (∀ inner, Advances aead reader inner msgs [] next inner) ∧
        ChunksCase aead reader msgs next chunkEnd := by
  induction rounds generalizing reader with
  | zero =>
      have none : reader.ciphertext.unread = [] := List.length_eq_zero_iff.mp (by omega)
      refine ⟨reader, .drained, [], rfl, fun inner => Advances.refl aead reader inner sound,
        .drained trivial rfl ?_⟩
      rw [none]
      rfl
  | succ rounds ih =>
      rw [decryptChunks, peekCipherChunk_eq _ sound.ciphertext]
      cases shown : peekFrame reader.ciphertext.unread with
      | none =>
          exact ⟨reader, .drained, [], rfl, fun inner => Advances.refl aead reader inner sound,
            .drained trivial rfl shown⟩
      | some msg =>
          obtain ⟨result, run, chunkCase⟩ := decryptChunk_cases aead reader sound msg shown
          simp only [run]
          cases chunkCase with
          | noRoom tight =>
              exact ⟨reader, .noRoom, [], rfl, fun inner => Advances.refl aead reader inner sound,
                .noRoom trivial rfl msg shown tight⟩
          | invalid next failed advances cursor bytes capacity =>
              refine ⟨next, .invalid, [msg], rfl, advances,
                .invalid [] msg rfl trivial failed ?_⟩
              rw [capacity, BytesMut.len, BytesMut.len, bytes]
          | opened middle plain stream decrypted advances capacity =>
              have step := advances ⟨[], false⟩
              have streamEq : middle.decryptor = stream := by
                rw [step.decryptor]
                simp [StreamAead.openFrames, decrypted]
              rw [← streamEq] at decrypted
              have shorter : middle.ciphertext.unread.length ≤ rounds := by
                have lengths := congrArg List.length step.stream
                simp only [List.append_nil, frames_cons, frames_nil, List.length_append,
                  frame_length] at lengths
                omega
              obtain ⟨next, chunkEnd, msgs, laterRun, later, laterCase⟩ :=
                ih middle step.sound shorter
              exact ⟨next, chunkEnd, msg :: msgs, laterRun,
                fun inner => (advances inner).trans (later inner),
                laterCase.cons decrypted capacity⟩

/-- The three results of `decrypt_all_full_chunks`. -/
inductive DecryptCase (aead : StreamAead) (reader : EncryptedReader) :
    Except Panic (EncryptedReader × Except ErrorKind Unit) → Prop where
  | wrapPanic (msgs : List (List UInt8)) (next : EncryptedReader)
      (advances : ∀ inner, Advances aead reader inner msgs [] next inner)
      (hidden : peekFrame next.ciphertext.unread = none)
      (full : next.ciphertext.spareCapacityLen = 0)
      (beyond : next.ciphertext.cursor < next.ciphertext.unread.length) :
      DecryptCase aead reader (.error .sliceIndex)
  | settled (msgs : List (List UInt8)) (next : EncryptedReader)
      (advances : ∀ inner, Advances aead reader inner msgs [] next inner)
      (opens : aead.Opens reader.decryptor msgs)
      (capacity : next.cleartext.buf.capacity = reader.cleartext.buf.capacity)
      (settled : next.Settled) :
      DecryptCase aead reader (.ok (next, .ok ()))
  | invalid (init : List (List UInt8)) (bad : List UInt8) (next : EncryptedReader)
      (advances : ∀ inner, Advances aead reader inner (init ++ [bad]) [] next inner)
      (opens : aead.Opens reader.decryptor init)
      (failed : aead.decryptNextInPlace (aead.openFrames reader.decryptor init).2 bad = none)
      (capacity : next.cleartext.buf.capacity = next.cleartext.buf.len) :
      DecryptCase aead reader (.ok (next, .error .invalidData))

theorem decryptAllFullChunks_cases (aead : StreamAead) (reader : EncryptedReader)
    (sound : reader.Sound) : DecryptCase aead reader (decryptAllFullChunks aead reader) := by
  have enough : reader.ciphertext.unread.length ≤ reader.ciphertext.buf.len := by
    rw [HelperBuf.unread_length]
    omega
  obtain ⟨next, chunkEnd, msgs, run, advances, chunksCase⟩ :=
    decryptChunks_enough aead _ reader sound enough
  have nextSound := (advances ⟨[], false⟩).sound
  rw [decryptAllFullChunks, run]
  cases chunksCase with
  | drained opens capacity hidden =>
      by_cases full : next.ciphertext.spareCapacityLen = 0
      · simp only [if_pos full]
        by_cases room : next.ciphertext.unread.length ≤ next.ciphertext.cursor
        · obtain ⟨wrapped, wrapRun, wf, unread, capacityEq, bytes⟩ :=
            next.ciphertext.wrap_spec nextSound.ciphertext room
          simp only [wrapRun]
          refine .settled msgs { next with ciphertext := wrapped } ?_ opens capacity
            (Or.inl ⟨by rw [unread]; exact hidden, ?_⟩)
          · intro inner
            have step := advances inner
            exact
              { stream := by rw [step.stream, unread]
                short := step.short
                plain := step.plain
                decryptor := step.decryptor
                closed := step.closed
                sound :=
                  { cleartext := nextSound.cleartext
                    ciphertext := wf
                    ciphertextCapacity := capacityEq.trans nextSound.ciphertextCapacity
                    cleartextCapacity := nextSound.cleartextCapacity } }
          · have sum := wrapped.spare_add_len
            have oldSum := next.ciphertext.spare_add_len
            have oldLength := next.ciphertext.unread_length
            have bound := nextSound.ciphertext.cursor_le
            rw [BytesMut.len, bytes, capacityEq] at sum
            have positive : next.ciphertext.buf.capacity = 2 * maxChunkSize :=
              nextSound.ciphertextCapacity
            rw [maxChunkSize] at positive
            show wrapped.spareCapacityLen ≠ 0
            omega
        · have beyond : next.ciphertext.cursor < next.ciphertext.unread.length := by omega
          simp only [next.ciphertext.wrap_error nextSound.ciphertext beyond]
          exact .wrapPanic msgs next advances hidden full beyond
      · simp only [if_neg full]
        exact .settled msgs next advances opens capacity (Or.inl ⟨hidden, full⟩)
  | noRoom opens capacity msg shown tight =>
      exact .settled msgs next advances opens capacity (Or.inr ⟨msg, shown, tight⟩)
  | invalid init bad split opens failed capacity =>
      subst split
      exact .invalid init bad next advances opens failed capacity

/-! ## One round of the read loop -/

theorem wantsMore_eq (reader : EncryptedReader) (sound : reader.Sound) (bytesAmount : Nat) :
    reader.wantsMore bytesAmount =
      .ok (decide (reader.cleartext.unread.length < bytesAmount) &&
        decide (reader.ciphertext.spareCapacityLen ≠ 0)) := by
  rw [wantsMore, sound.cleartext.data_eq]

theorem finishRead_eq (debug : Bool) (reader : EncryptedReader) (sound : reader.Sound) :
    reader.finishRead debug =
      if debug = true ∧ reader.cleartext.unread = [] then .panicked .debugAssertion
      else .ready false := by
  rw [finishRead, sound.cleartext.data_eq]
  cases debug with
  | false => simp [debugAssert]
  | true =>
      cases unread : reader.cleartext.unread with
      | nil => simp [debugAssert]
      | cons byte rest => simp [debugAssert]

/-- The inner reader put `bytes` behind the ciphertext. -/
structure Received (reader : EncryptedReader) (inner : ByteStream) (bytes : List UInt8)
    (next : EncryptedReader) (rest : ByteStream) : Prop where
  next : next = { reader with ciphertext := reader.ciphertext.append bytes }
  taken : inner.bytes = bytes ++ rest.bytes
  closed : rest.closed = inner.closed
  fits : bytes.length ≤ reader.ciphertext.spareCapacityLen
  ended : bytes = [] → inner.bytes = [] ∧ inner.closed = true
  held : bytes ≠ [] ∨ reader.ciphertext.unread ≠ [] ∨ reader.cleartext.unread ≠ []

/-- The inner reader answered that nothing has come yet. -/
def Stalled (event : ReadEvent) (inner : ByteStream) : Prop :=
  event = .pending ∨ (inner.bytes = [] ∧ inner.closed = false)

/-- Everything one round of the read loop can do. -/
inductive StepCase (aead : StreamAead) (event : ReadEvent) (reader : EncryptedReader)
    (inner : ByteStream) : Option (Outcome Bool) × EncryptedReader × ByteStream → Prop where
  | innerError (refused : event = .error) :
      StepCase aead event reader inner (some (.failed .inner), reader, inner)
  | nothing (stalled : Stalled event inner) (empty : reader.cleartext.unread = []) :
      StepCase aead event reader inner (some .pending, reader, inner)
  | leftover (stalled : Stalled event inner) (some_ : reader.cleartext.unread ≠ []) :
      StepCase aead event reader inner (some (.ready false), reader, inner)
  | endOfStream (gone : inner.bytes = []) (closed : inner.closed = true)
      (sealed : reader.ciphertext.unread = []) (clear : reader.cleartext.unread = []) :
      StepCase aead event reader inner (some (.ready true), reader, inner)
  | wrapPanic (bytes : List UInt8) (next : EncryptedReader) (rest : ByteStream)
      (received : Received reader inner bytes next rest)
      (msgs : List (List UInt8)) (final : EncryptedReader)
      (advances : Advances aead reader inner msgs [] final rest)
      (hidden : peekFrame final.ciphertext.unread = none)
      (full : final.ciphertext.spareCapacityLen = 0)
      (beyond : final.ciphertext.cursor < final.ciphertext.unread.length) :
      StepCase aead event reader inner (some (.panicked .sliceIndex), next, rest)
  | continued (bytes : List UInt8) (next : EncryptedReader) (rest : ByteStream)
      (received : Received reader inner bytes next rest)
      (msgs : List (List UInt8)) (final : EncryptedReader)
      (advances : Advances aead reader inner msgs [] final rest)
      (opens : aead.Opens reader.decryptor msgs)
      (capacity : final.cleartext.buf.capacity = reader.cleartext.buf.capacity)
      (settled : final.Settled) :
      StepCase aead event reader inner (none, final, rest)
  | invalid (bytes : List UInt8) (next : EncryptedReader) (rest : ByteStream)
      (received : Received reader inner bytes next rest)
      (init : List (List UInt8)) (bad : List UInt8) (final : EncryptedReader)
      (advances : Advances aead reader inner (init ++ [bad]) [] final rest)
      (opens : aead.Opens reader.decryptor init)
      (failed : aead.decryptNextInPlace (aead.openFrames reader.decryptor init).2 bad = none)
      (capacity : final.cleartext.buf.capacity = final.cleartext.buf.len) :
      StepCase aead event reader inner (some (.failed .invalidData), final, rest)

theorem append_sound (reader : EncryptedReader) (sound : reader.Sound) (bytes : List UInt8)
    (fits : bytes.length ≤ reader.ciphertext.spareCapacityLen) :
    ({ reader with ciphertext := reader.ciphertext.append bytes } : EncryptedReader).Sound where
  cleartext := sound.cleartext
  ciphertext := reader.ciphertext.append_wellFormed sound.ciphertext bytes
  ciphertextCapacity := by
    rw [reader.ciphertext.append_capacity bytes fits]
    exact sound.ciphertextCapacity
  cleartextCapacity := sound.cleartextCapacity

theorem Received.advances {reader next : EncryptedReader} {inner rest : ByteStream}
    {bytes : List UInt8} (received : Received reader inner bytes next rest)
    (aead : StreamAead) (sound : reader.Sound) : Advances aead reader inner [] [] next rest := by
  obtain ⟨rfl, taken, closed, fits, _, _⟩ := received
  exact
    { stream := by
        rw [reader.ciphertext.append_unread sound.ciphertext, taken, frames_nil, List.nil_append,
          List.append_assoc]
      short := by simp
      plain := (List.append_nil _).symm
      decryptor := rfl
      closed := closed
      sound := append_sound reader sound bytes fits }

/-- A round that received bytes goes on with whatever they allow to decrypt. -/
theorem Received.stepCase {reader next : EncryptedReader} {inner rest : ByteStream}
    {bytes : List UInt8} (received : Received reader inner bytes next rest)
    (aead : StreamAead) (event : ReadEvent) (sound : reader.Sound) :
    StepCase aead event reader inner
      (match decryptAllFullChunks aead next with
      | .error panic => (some (.panicked panic), next, rest)
      | .ok (final, .error kind) => (some (.failed kind), final, rest)
      | .ok (final, .ok ()) => (none, final, rest)) := by
  have first := received.advances aead sound
  have decryptorEq : next.decryptor = reader.decryptor := by rw [received.next]
  have capacityEq : next.cleartext.buf.capacity = reader.cleartext.buf.capacity := by
    rw [received.next]
  have decrypts := decryptAllFullChunks_cases aead next first.sound
  generalize decryptAllFullChunks aead next = result at decrypts ⊢
  cases decrypts with
  | wrapPanic msgs final advances hidden full beyond =>
      exact .wrapPanic bytes next rest received msgs final (first.trans (advances rest))
        hidden full beyond
  | settled msgs final advances opens capacity settled =>
      rw [decryptorEq] at opens
      exact .continued bytes next rest received msgs final (first.trans (advances rest)) opens
        (capacity.trans capacityEq) settled
  | invalid init bad final advances opens failed capacity =>
      rw [decryptorEq] at opens failed
      exact .invalid bytes next rest received init bad final (first.trans (advances rest)) opens
        failed capacity

theorem readStep_cases (aead : StreamAead) (debug : Bool) (event : ReadEvent)
    (reader : EncryptedReader) (inner : ByteStream) (sound : reader.Sound)
    (room : reader.ciphertext.spareCapacityLen ≠ 0) :
    StepCase aead event reader inner (readStep aead debug event reader inner) := by
  rw [readStep, innerRead]
  cases answer : inner.pollRead reader.ciphertext.spareCapacityLen event with
  | mk kind rest =>
      cases kind with
      | error =>
          have same := inner.pollRead_other rest _ event _ answer (by simp)
          subst same
          exact .innerError (rest.pollRead_error rest _ event answer)
      | pending =>
          have same := inner.pollRead_other rest _ event _ answer (by simp)
          subst same
          have stalled : Stalled event rest := rest.pollRead_pending rest _ event answer
          simp only [sound.cleartext.data_eq]
          cases unread : reader.cleartext.unread with
          | nil => exact .nothing stalled unread
          | cons byte more =>
              have some_ : reader.cleartext.unread ≠ [] := by simp [unread]
              simp only [List.isEmpty_cons, Bool.false_eq_true, if_false]
              rw [finishRead_eq debug reader sound, if_neg (fun both => some_ both.2)]
              exact .leftover stalled some_
      | filled bytes =>
          obtain ⟨taken, fits, closed⟩ := inner.pollRead_filled rest _ event bytes answer
          have nextSound := append_sound reader sound bytes fits
          simp only [nextSound.ciphertext.data_eq, nextSound.cleartext.data_eq]
          have ended : bytes = [] → inner.bytes = [] ∧ inner.closed = true := by
            intro none
            subst none
            obtain ⟨gone, isClosed, _⟩ := inner.pollRead_empty rest _ event answer room
            exact ⟨gone, isClosed⟩
          by_cases both : (reader.ciphertext.append bytes).unread = [] ∧
              reader.cleartext.unread = []
          · obtain ⟨sealedNone, clearNone⟩ := both
            rw [reader.ciphertext.append_unread sound.ciphertext,
              List.append_eq_nil_iff] at sealedNone
            obtain ⟨sealedNone, rfl⟩ := sealedNone
            obtain ⟨gone, isClosed, rfl⟩ := inner.pollRead_empty rest _ event answer room
            have unchanged : reader.ciphertext.append [] = reader.ciphertext := by
              cases cipher : reader.ciphertext with
              | mk buf cursor =>
                  cases buf with
                  | mk contents capacity fitsProof =>
                      simp [HelperBuf.append, BytesMut.extendFromSlice, BytesMut.replace, fitsProof]
            rw [unchanged]
            simp only [sealedNone, clearNone, List.isEmpty_nil, Bool.and_self, if_true]
            exact .endOfStream gone isClosed sealedNone clearNone
          · have notBoth : ((reader.ciphertext.append bytes).unread.isEmpty &&
                reader.cleartext.unread.isEmpty) = false := by
              rw [Bool.eq_false_iff]
              intro all
              rw [Bool.and_eq_true, List.isEmpty_iff, List.isEmpty_iff] at all
              exact both all
            simp only [notBoth, Bool.false_eq_true, if_false]
            have held : bytes ≠ [] ∨ reader.ciphertext.unread ≠ [] ∨
                reader.cleartext.unread ≠ [] := by
              rw [reader.ciphertext.append_unread sound.ciphertext, List.append_eq_nil_iff] at both
              tauto
            exact Received.stepCase ⟨rfl, taken, closed, fits, ended, held⟩ aead event sound

end EncryptedReader
end Gday.Encryption
