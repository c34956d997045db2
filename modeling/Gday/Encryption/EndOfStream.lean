import Gday.Encryption.CipherWindow

/-! # The reader at the end of its stream

A closed stream delivers its bytes in pieces of any size and reports end of stream ever
after.  The loop of `read_if_necessary` goes on at end of stream unless both buffers are
empty, and nothing that it does then changes the buffers.  So a poll goes on for ever exactly
where it starves: it takes in all that is left, and that is something, but not enough. -/
set_option autoImplicit false
namespace Gday.Encryption

open Gday.Lib.AsyncStream Gday.Lib.Framing Gday.Lib.Machine

/-- The first `count` answers of an inner reader that cuts its bytes as `pieces` says. -/
def firstReads : (Nat → Nat) → Nat → List ReadEvent
  | _, 0 => []
  | pieces, count + 1 => .ready (pieces 0) :: firstReads (fun k => pieces (k + 1)) count

theorem firstReads_ready (pieces : Nat → Nat) (count : Nat) :
    ∀ event ∈ firstReads pieces count, ∃ extra, event = .ready extra := by
  induction count generalizing pieces with
  | zero => simp [firstReads]
  | succ count ih =>
      intro event member
      rcases List.mem_cons.mp member with rfl | member
      · exact ⟨pieces 0, rfl⟩
      · exact ih _ event member

namespace EncryptedReader

/-- Some byte has been received and not used. -/
def Holds (reader : EncryptedReader) : Prop :=
  reader.cleartext.unread ≠ [] ∨ reader.ciphertext.unread ≠ []

/-- Decrypting again finds nothing to do. -/
theorem Settled.decryptAllFullChunks {reader : EncryptedReader} (settled : reader.Settled)
    (aead : StreamAead) (sound : reader.Sound) :
    EncryptedReader.decryptAllFullChunks aead reader = .ok (reader, .ok ()) := by
  rw [EncryptedReader.decryptAllFullChunks]
  rcases settled with ⟨hidden, room⟩ | ⟨msg, shown, tight⟩
  · have drained : decryptChunks aead reader.ciphertext.buf.len reader =
        .ok (reader, .drained) := by
      cases reader.ciphertext.buf.len with
      | zero => rfl
      | succ rounds => rw [decryptChunks, peekCipherChunk_eq _ sound.ciphertext, hidden]
    rw [drained]
    simp only [if_neg room]
  · have stopped : decryptChunks aead reader.ciphertext.buf.len reader = .ok (reader, .noRoom) := by
      cases lengthEq : reader.ciphertext.buf.len with
      | zero =>
          have empty := reader.ciphertext.unread_length
          rw [lengthEq, Nat.zero_sub, List.length_eq_zero_iff] at empty
          rw [empty] at shown
          cases shown
      | succ rounds =>
          rw [decryptChunks, peekCipherChunk_eq _ sound.ciphertext, shown]
          simp only [decryptChunk, if_pos tight]
    rw [stopped]

/-- The head of the loop where the poll wants more bytes than it has. -/
structure Wanting (bytesAmount : Nat) (reader : EncryptedReader) : Prop where
  sound : reader.Sound
  settled : reader.Settled
  few : reader.cleartext.unread.length < bytesAmount
  room : reader.ciphertext.spareCapacityLen ≠ 0

theorem Wanting.wantsMore {bytesAmount : Nat} {reader : EncryptedReader}
    (wanting : Wanting bytesAmount reader) : reader.wantsMore bytesAmount = .ok true := by
  rw [wantsMore_eq reader wanting.sound, decide_eq_true wanting.few, decide_eq_true wanting.room]
  rfl

theorem append_nil (helper : HelperBuf) : helper.append [] = helper := by
  obtain ⟨⟨contents, capacity, fits⟩, cursor⟩ := helper
  simp [HelperBuf.append, BytesMut.extendFromSlice, BytesMut.replace, fits]

/-- End of stream with a byte in a buffer: the round changes nothing. -/
theorem Wanting.readStep {bytesAmount : Nat} {reader : EncryptedReader}
    (wanting : Wanting bytesAmount reader) (aead : StreamAead) (debug : Bool) (extra : Nat)
    (holds : reader.Holds) :
    readStep aead debug (.ready extra) reader ⟨[], true⟩ = (none, reader, ⟨[], true⟩) := by
  have answer : ByteStream.pollRead ⟨[], true⟩ reader.ciphertext.spareCapacityLen (.ready extra) =
      (.filled [], ⟨[], true⟩) := rfl
  have notBoth : (reader.ciphertext.unread.isEmpty && reader.cleartext.unread.isEmpty) = false := by
    rw [Bool.eq_false_iff]
    intro both
    rw [Bool.and_eq_true, List.isEmpty_iff, List.isEmpty_iff] at both
    rcases holds with clear | sealed
    · exact clear both.2
    · exact sealed both.1
  rw [EncryptedReader.readStep, innerRead, answer]
  simp only [append_nil, wanting.sound.ciphertext.data_eq, wanting.sound.cleartext.data_eq,
    notBoth, Bool.false_eq_true, if_false,
    wanting.settled.decryptAllFullChunks aead wanting.sound]

theorem Wanting.readLoop {bytesAmount : Nat} {reader : EncryptedReader}
    (wanting : Wanting bytesAmount reader) (aead : StreamAead) (debug : Bool)
    (holds : reader.Holds) (events : List ReadEvent)
    (ready : ∀ event ∈ events, ∃ extra, event = .ready extra) :
    readLoop aead debug bytesAmount events reader ⟨[], true⟩ = (.waiting, reader, ⟨[], true⟩) := by
  induction events with
  | nil => rw [EncryptedReader.readLoop, wanting.wantsMore]
  | cons event events ih =>
      obtain ⟨extra, rfl⟩ := ready event (List.mem_cons_self ..)
      rw [EncryptedReader.readLoop, wanting.wantsMore]
      simp only [wanting.readStep aead debug extra holds]
      exact ih fun other member => ready other (List.mem_cons_of_mem _ member)

theorem finishRead_ne_waiting (debug : Bool) (reader : EncryptedReader) (sound : reader.Sound) :
    reader.finishRead debug ≠ .waiting := by
  rw [finishRead_eq debug reader sound]
  by_cases asserts : debug = true ∧ reader.cleartext.unread = []
  · simp [asserts]
  · simp [asserts]

/-- A loop that still waits stands at its head. -/
theorem readLoop_waiting (aead : StreamAead) (debug : Bool) (bytesAmount : Nat)
    (events : List ReadEvent) (reader head : EncryptedReader) (inner rest : ByteStream)
    (sound : reader.Sound) (settled : reader.Settled)
    (run : readLoop aead debug bytesAmount events reader inner = (.waiting, head, rest)) :
    Wanting bytesAmount head ∧ rest.closed = inner.closed := by
  have ends := readLoop_rule aead debug bytesAmount
    (fun _ next later => next.Sound ∧ next.Settled ∧ later.closed = inner.closed)
    (fun outcome next later => outcome = .waiting →
      Wanting bytesAmount next ∧ later.closed = inner.closed)
    (fun _ _ _ before => before.1)
    (fun _ next _ before _ waiting => absurd waiting (finishRead_ne_waiting debug next before.1))
    (fun _ _ before few room _ => ⟨⟨before.1, before.2.1, few, room⟩, before.2.2⟩)
    (by
      rintro event later middle between result ⟨middleSound, _, closed⟩ _ _ stepCase
      cases stepCase with
      | innerError refused => simp [RoundEnds]
      | nothing stalled empty => simp [RoundEnds]
      | leftover stalled some_ => simp [RoundEnds]
      | endOfStream gone isClosed sealed clear => simp [RoundEnds]
      | wrapPanic bytes next after received msgs final advances => simp [RoundEnds]
      | continued bytes next after received msgs final advances opens capacity settled =>
          exact ⟨advances.sound, settled, advances.closed.trans closed⟩
      | invalid bytes next after received init bad final advances => simp [RoundEnds])
    events reader inner ⟨sound, settled, rfl⟩
  rw [run] at ends
  exact ends rfl

/-- More events take up the loop where it waits, and change nothing where it has ended. -/
theorem readLoop_append (aead : StreamAead) (debug : Bool) (bytesAmount : Nat)
    (events more : List ReadEvent) (reader : EncryptedReader) (inner : ByteStream)
    (sound : reader.Sound) :
    readLoop aead debug bytesAmount (events ++ more) reader inner =
      if (readLoop aead debug bytesAmount events reader inner).1 = .waiting then
        readLoop aead debug bytesAmount more
          (readLoop aead debug bytesAmount events reader inner).2.1
          (readLoop aead debug bytesAmount events reader inner).2.2
      else readLoop aead debug bytesAmount events reader inner := by
  induction events generalizing reader inner with
  | nil =>
      cases wants : decide (reader.cleartext.unread.length < bytesAmount) &&
          decide (reader.ciphertext.spareCapacityLen ≠ 0) with
      | false =>
          have enough := (wantsMore_eq reader sound bytesAmount).trans (congrArg Except.ok wants)
          rw [List.nil_append, readLoop_enough aead debug bytesAmount _ reader inner enough,
            readLoop_enough aead debug bytesAmount _ reader inner enough,
            if_neg (finishRead_ne_waiting debug reader sound)]
      | true =>
          have wanting := (wantsMore_eq reader sound bytesAmount).trans (congrArg Except.ok wants)
          have stays : readLoop aead debug bytesAmount [] reader inner =
              (.waiting, reader, inner) := by rw [readLoop, wanting]
          rw [List.nil_append, stays, if_pos rfl]
  | cons event events ih =>
      cases wants : decide (reader.cleartext.unread.length < bytesAmount) &&
          decide (reader.ciphertext.spareCapacityLen ≠ 0) with
      | false =>
          have enough := (wantsMore_eq reader sound bytesAmount).trans (congrArg Except.ok wants)
          rw [readLoop_enough aead debug bytesAmount _ reader inner enough,
            readLoop_enough aead debug bytesAmount _ reader inner enough,
            if_neg (finishRead_ne_waiting debug reader sound)]
      | true =>
          have wanting := (wantsMore_eq reader sound bytesAmount).trans (congrArg Except.ok wants)
          have room : reader.ciphertext.spareCapacityLen ≠ 0 := by
            rw [Bool.and_eq_true] at wants
            exact of_decide_eq_true wants.2
          have stepCase := readStep_cases aead debug event reader inner sound room
          rw [List.cons_append, readLoop, readLoop, wanting]
          simp only
          generalize readStep aead debug event reader inner = result at stepCase ⊢
          cases stepCase with
          | innerError refused => rfl
          | nothing stalled empty => rfl
          | leftover stalled some_ => rfl
          | endOfStream gone isClosed sealed clear => rfl
          | wrapPanic bytes next after received msgs final advances => rfl
          | continued bytes next after received msgs final advances =>
              exact ih final after advances.sound
          | invalid bytes next after received init bad final advances => rfl

theorem firstReads_add (pieces : Nat → Nat) (first second : Nat) :
    firstReads pieces (first + second) =
      firstReads pieces first ++ firstReads (fun k => pieces (k + first)) second := by
  induction first generalizing pieces with
  | zero => simp [firstReads]
  | succ first ih =>
      have shifted : (fun k => pieces (k + (first + 1))) = fun k => pieces (k + first + 1) := rfl
      rw [Nat.add_right_comm, firstReads, firstReads, ih, shifted]
      rfl

/-- End of stream that meets a buffered byte: the loop goes on for ever. -/
theorem readLoop_stuck (aead : StreamAead) (debug : Bool) (bytesAmount : Nat)
    (pieces : Nat → Nat) (count : Nat) (reader head : EncryptedReader) (inner rest : ByteStream)
    (sound : reader.Sound) (settled : reader.Settled) (closed : inner.closed = true)
    (run : readLoop aead debug bytesAmount (firstReads pieces count) reader inner =
      (.waiting, head, rest))
    (gone : rest.bytes = []) (holds : head.Holds) (other : Nat) :
    (readLoop aead debug bytesAmount (firstReads pieces other) reader inner).1 = .waiting := by
  obtain ⟨wanting, sameClosed⟩ := readLoop_waiting aead debug bytesAmount _ reader head inner rest
    sound settled run
  have restEq : rest = ⟨[], true⟩ := by
    obtain ⟨bytes, isClosed⟩ := rest
    simp only at gone sameClosed
    rw [gone, sameClosed, closed]
  rcases Nat.le_total count other with later | earlier
  · obtain ⟨extra, rfl⟩ := Nat.exists_eq_add_of_le later
    rw [firstReads_add, readLoop_append aead debug bytesAmount _ _ reader inner sound, run,
      if_pos rfl, restEq, wanting.readLoop aead debug holds _ (firstReads_ready _ extra)]
  · obtain ⟨extra, rfl⟩ := Nat.exists_eq_add_of_le earlier
    by_contra ended
    rw [firstReads_add, readLoop_append aead debug bytesAmount _ _ reader inner sound,
      if_neg ended] at run
    rw [run] at ended
    exact ended rfl

theorem readLoop_firstReads (aead : StreamAead) (debug : Bool) (bytesAmount : Nat)
    (pieces : Nat → Nat) (count : Nat) (reader : EncryptedReader) (inner : ByteStream)
    (wanting : reader.wantsMore bytesAmount = .ok true) :
    readLoop aead debug bytesAmount (firstReads pieces (count + 1)) reader inner =
      match readStep aead debug (.ready (pieces 0)) reader inner with
      | (some outcome, next, rest) => (outcome, next, rest)
      | (none, next, rest) =>
          readLoop aead debug bytesAmount (firstReads (fun k => pieces (k + 1)) count) next
            rest := by
  cases stepped : readStep aead debug (.ready (pieces 0)) reader inner with
  | mk outcome rest =>
      cases outcome with
      | some outcome => simp only [firstReads, readLoop, wanting, stepped]
      | none => simp only [firstReads, readLoop, wanting, stepped]

/-- Whether a poll reaches its loop, and in which state, does not depend on the events. -/
theorem readIfNecessary_loop (aead : StreamAead) (debug : Bool) (wanted : Option Nat)
    (reader : EncryptedReader) (inner : ByteStream) (sound : reader.Sound) :
    (∀ events, (readIfNecessary aead debug wanted events reader inner).1 ≠ .waiting) ∨
      ∃ next, next.Sound ∧ next.Settled ∧ ∀ events,
        readIfNecessary aead debug wanted events reader inner =
          readLoop aead debug (reader.bytesAmount wanted) events next inner := by
  simp only [readIfNecessary]
  cases debugAssert debug (decide (reader.cleartext.buf.capacity = maxChunkSize)) with
  | error panic => exact Or.inl fun _ => by simp
  | ok first =>
      cases debugAssert debug (decide (reader.ciphertext.buf.capacity = 2 * maxChunkSize)) with
      | error panic => exact Or.inl fun _ => by simp
      | ok second =>
          have decrypts := decryptAllFullChunks_cases aead reader sound
          simp only
          generalize EncryptedReader.decryptAllFullChunks aead reader = result at decrypts ⊢
          cases decrypts with
          | wrapPanic => exact Or.inl fun _ => by simp
          | settled msgs next advances opens capacity settled =>
              exact Or.inr ⟨next, (advances inner).sound, settled, fun _ => rfl⟩
          | invalid => exact Or.inl fun _ => by simp

/-! ## What starves -/

/-- What a round does with a piece. -/
theorem readStep_piece (aead : StreamAead) (debug : Bool) (extra : Nat) (reader : EncryptedReader)
    (inner : ByteStream) (sound : reader.Sound) (some_ : inner.bytes ≠ [])
    (room : reader.ciphertext.spareCapacityLen ≠ 0) :
    let count := min (extra + 1) reader.ciphertext.spareCapacityLen
    let next : EncryptedReader :=
      { reader with ciphertext := reader.ciphertext.append (inner.bytes.take count) }
    let rest : ByteStream := { inner with bytes := inner.bytes.drop count }
    EncryptedReader.readStep aead debug (.ready extra) reader inner =
      match EncryptedReader.decryptAllFullChunks aead next with
      | .error panic => (some (.panicked panic), next, rest)
      | .ok (final, .error kind) => (some (.failed kind), final, rest)
      | .ok (final, .ok ()) => (none, final, rest) := by
  intro count next rest
  have fits : (inner.bytes.take count).length ≤ reader.ciphertext.spareCapacityLen := by
    rw [List.length_take]
    omega
  have answer : inner.pollRead reader.ciphertext.spareCapacityLen (.ready extra) =
      (.filled (inner.bytes.take count), rest) := by
    rw [ByteStream.pollRead, if_neg some_]
  have nextSound : next.Sound := append_sound reader sound _ fits
  have arrived : next.ciphertext.unread ≠ [] := by
    have positive := List.length_pos_iff.mpr some_
    have unread := reader.ciphertext.append_unread sound.ciphertext (inner.bytes.take count)
    intro none
    have lengths := congrArg List.length (unread.symm.trans none)
    rw [List.length_append, List.length_take, List.length_nil] at lengths
    omega
  have notBoth : (next.ciphertext.unread.isEmpty && next.cleartext.unread.isEmpty) = false := by
    rw [Bool.and_eq_false_iff]
    exact .inl (List.isEmpty_eq_false_iff.mpr arrived)
  rw [EncryptedReader.readStep, innerRead, answer]
  simp only [next] at nextSound notBoth
  simp only [nextSound.ciphertext.data_eq, nextSound.cleartext.data_eq, notBoth,
    Bool.false_eq_true, if_false]
  rfl

section Starving

variable {aead : StreamAead} {debug : Bool} {wanted : Nat} {reader : EncryptedReader}
  {inner : ByteStream} {msgs : List (List UInt8)} {halt : Halt} {clear behind : List UInt8}

/-- The window after a piece. -/
theorem Ahead.receive_window (ahead : Ahead aead reader inner.bytes msgs halt clear behind)
    (extra : Nat) :
    (reader.ciphertext.append (inner.bytes.take
        (min (extra + 1) reader.ciphertext.spareCapacityLen))).window =
      reader.ciphertext.window.receive
        (min inner.bytes.length (min (extra + 1) reader.ciphertext.window.spare)) := by
  rw [reader.ciphertext.append_window ahead.sound.ciphertext, List.length_take, Nat.min_comm,
    reader.ciphertext.window_spare ahead.sound.ciphertext ahead.sound.ciphertextCapacity]

/-- What is to be decrypted, one piece later. -/
theorem Ahead.piece (ahead : Ahead aead reader inner.bytes msgs halt clear behind) (extra : Nat) :
    SettleCase aead
      (inner.bytes.drop (min (extra + 1) reader.ciphertext.spareCapacityLen)) halt clear behind
      ((reader.ciphertext.window.receive
        (min inner.bytes.length (min (extra + 1) reader.ciphertext.window.spare))).settle msgs
          halt)
      (EncryptedReader.decryptAllFullChunks aead { reader with
        ciphertext := reader.ciphertext.append
          (inner.bytes.take (min (extra + 1) reader.ciphertext.spareCapacityLen)) }) := by
  rw [← ahead.receive_window extra]
  rw [← List.take_append_drop (min (extra + 1) reader.ciphertext.spareCapacityLen)
    inner.bytes] at ahead
  refine (ahead.receive ?_).decryptAllFullChunks
  rw [List.length_take]
  exact Nat.le_trans (Nat.min_le_left ..) (Nat.min_le_right ..)

theorem Ahead.wantsMore (ahead : Ahead aead reader inner.bytes msgs halt clear behind)
    (few : clear.length < wanted) (room : reader.ciphertext.spareCapacityLen ≠ 0) :
    reader.wantsMore wanted = .ok true := by
  have less := Nat.lt_of_le_of_lt ahead.clear_le few
  rw [wantsMore_eq reader ahead.sound, decide_eq_true less, decide_eq_true room]
  rfl

/-- The loop has come to the end of the stream, and waits. -/
def Starved (aead : StreamAead) (debug : Bool) (wanted : Nat) (halt : Halt)
    (clear behind : List UInt8) (pieces : Nat → Nat) (reader : EncryptedReader)
    (inner : ByteStream) : Prop :=
  ∃ count head left rest,
    readLoop aead debug wanted (firstReads pieces count) reader inner = (.waiting, head, rest) ∧
      rest.bytes = [] ∧ Ahead aead head [] left halt clear behind

theorem Ahead.starved_now (ahead : Ahead aead reader inner.bytes msgs halt clear behind)
    (wants : reader.wantsMore wanted = .ok true) (gone : inner.bytes = []) (pieces : Nat → Nat) :
    Starved aead debug wanted halt clear behind pieces reader inner := by
  refine ⟨0, reader, msgs, inner, ?_, gone, gone ▸ ahead⟩
  rw [firstReads, readLoop, wants]

/-- The loop goes on with what a piece makes of the reader. -/
theorem starved_later (wants : reader.wantsMore wanted = .ok true) (pieces : Nat → Nat)
    {next : EncryptedReader} {rest : ByteStream}
    (round : readStep aead debug (.ready (pieces 0)) reader inner = (none, next, rest)) :
    Starved aead debug wanted halt clear behind (fun k => pieces (k + 1)) next rest →
      Starved aead debug wanted halt clear behind pieces reader inner := by
  rintro ⟨count, head, left, final, run, gone, later⟩
  refine ⟨count + 1, head, left, final, ?_, gone, later⟩
  rw [readLoop_firstReads aead debug wanted pieces count reader inner wants, round]
  exact run

/-- Where the ciphertext buffer takes everything, and all of it is too little. -/
theorem Ahead.starves (rounds : Nat) (pieces : Nat → Nat)
    (ahead : Ahead aead reader inner.bytes msgs halt clear behind) (valid : halt ≠ .refused)
    (few : clear.length < wanted) (room : reader.ciphertext.spareCapacityLen ≠ 0)
    (takes : Window.takesIn halt rounds pieces inner.bytes.length msgs
      reader.ciphertext.window = true) :
    Starved aead debug wanted halt clear behind pieces reader inner := by
  induction rounds generalizing pieces reader inner msgs with
  | zero =>
      rw [Window.takesIn, decide_eq_true_iff] at takes
      exact ahead.starved_now (ahead.wantsMore few room) (List.length_eq_zero_iff.mp takes) pieces
  | succ rounds ih =>
      have wants := ahead.wantsMore few room
      by_cases gone : inner.bytes = []
      · exact ahead.starved_now wants gone pieces
      · have more : ¬inner.bytes.length = 0 := fun zero => gone (List.length_eq_zero_iff.mp zero)
        rw [Window.takesIn] at takes
        simp only [more, if_false] at takes
        have settles := ahead.piece (pieces 0)
        have round := readStep_piece aead debug (pieces 0) reader inner ahead.sound gone room
        simp only at round
        generalize EncryptedReader.decryptAllFullChunks aead _ = result at settles round
        generalize Window.settle _ msgs halt = settled at settles takes
        cases settles with
        | refused _ next refusal => exact absurd refusal valid
        | full left next later spare => cases takes
        | panics panic => cases takes
        | settled left next later spare =>
            refine starved_later wants pieces round (ih _ later spare ?_)
            have counts := reader.ciphertext.window_spare ahead.sound.ciphertext
              ahead.sound.ciphertextCapacity
            rw [List.length_drop, ← counts, Nat.sub_eq_sub_min]
            exact takes

theorem readLoop_wants (sound : reader.Sound) {events : List ReadEvent}
    (waits : (readLoop aead debug wanted events reader inner).1 = .waiting) :
    reader.wantsMore wanted = .ok true ∧ reader.ciphertext.spareCapacityLen ≠ 0 := by
  cases wants : decide (reader.cleartext.unread.length < wanted) &&
      decide (reader.ciphertext.spareCapacityLen ≠ 0) with
  | false =>
      have enough := (wantsMore_eq reader sound wanted).trans (congrArg Except.ok wants)
      rw [readLoop_enough aead debug wanted _ reader inner enough] at waits
      exact absurd waits (finishRead_ne_waiting debug reader sound)
  | true =>
      refine ⟨(wantsMore_eq reader sound wanted).trans (congrArg Except.ok wants), ?_⟩
      rw [Bool.and_eq_true] at wants
      exact of_decide_eq_true wants.2

/-- A loop that never ends has taken everything in. -/
theorem Ahead.waits (rounds : Nat) (pieces : Nat → Nat)
    (ahead : Ahead aead reader inner.bytes msgs halt clear behind)
    (enough : inner.bytes.length ≤ rounds)
    (waits : ∀ count,
      (readLoop aead debug wanted (firstReads pieces count) reader inner).1 = .waiting) :
    Window.takesIn halt rounds pieces inner.bytes.length msgs reader.ciphertext.window = true ∧
      Starved aead debug wanted halt clear behind pieces reader inner := by
  induction rounds generalizing pieces reader inner msgs with
  | zero =>
      have gone : inner.bytes.length = 0 := by omega
      refine ⟨by rw [Window.takesIn, gone]; rfl, ?_⟩
      exact ahead.starved_now (readLoop_wants ahead.sound (waits 0)).1
        (List.length_eq_zero_iff.mp gone) pieces
  | succ rounds ih =>
      obtain ⟨wants, room⟩ := readLoop_wants ahead.sound (waits 0)
      rw [Window.takesIn]
      by_cases gone : inner.bytes = []
      · refine ⟨?_, ahead.starved_now wants gone pieces⟩
        simp only [gone, List.length_nil, if_true]
      · have more : ¬inner.bytes.length = 0 := fun zero => gone (List.length_eq_zero_iff.mp zero)
        simp only [more, if_false]
        have settles := ahead.piece (pieces 0)
        have round := readStep_piece aead debug (pieces 0) reader inner ahead.sound gone room
        have unfolds := fun count =>
          readLoop_firstReads aead debug wanted pieces count reader inner wants
        simp only at round
        rw [round] at unfolds
        have shorter : (inner.bytes.drop
            (min (pieces 0 + 1) reader.ciphertext.spareCapacityLen)).length ≤ rounds := by
          rw [List.length_drop]
          omega
        generalize EncryptedReader.decryptAllFullChunks aead _ = result at settles round unfolds
        generalize Window.settle _ msgs halt = settled at settles
        cases settles with
        | refused _ next refusal =>
            have ended := waits 1
            rw [unfolds] at ended
            cases ended
        | full left next later spare =>
            have ended := waits 1
            rw [unfolds] at ended
            exact absurd spare (readLoop_wants later.sound ended).2
        | panics panic =>
            have ended := waits 1
            rw [unfolds] at ended
            cases ended
        | settled left next later spare =>
            obtain ⟨takes, starved⟩ := ih (fun k => pieces (k + 1)) later shorter fun count => by
              have goesOn := waits (count + 1)
              rw [unfolds] at goesOn
              exact goesOn
            have counts := reader.ciphertext.window_spare ahead.sound.ciphertext
              ahead.sound.ciphertextCapacity
            rw [List.length_drop, ← counts, Nat.sub_eq_sub_min] at takes
            exact ⟨takes, starved_later wants pieces round starved⟩

/-- A round at the end of the stream goes on only where a byte is in a buffer. -/
theorem readStep_holds (sound : reader.Sound) (room : reader.ciphertext.spareCapacityLen ≠ 0)
    {extra : Nat} {next : EncryptedReader} {rest : ByteStream} (gone : inner.bytes = [])
    (round : readStep aead debug (.ready extra) reader inner = (none, next, rest)) :
    reader.Holds := by
  have stepCase := readStep_cases aead debug (.ready extra) reader inner sound room
  rw [round] at stepCase
  cases stepCase with
  | continued bytes _ _ received =>
      have nothing : bytes = [] := by
        have taken := received.taken
        rw [gone] at taken
        exact (List.append_eq_nil_iff.mp taken.symm).1
      rcases received.held with some_ | sealed | clear
      · exact absurd nothing some_
      · exact .inr sealed
      · exact .inl clear

/-- A loop that goes on at the end of the stream has a byte in a buffer. -/
theorem readLoop_holds (sound : reader.Sound) {pieces : Nat → Nat} {count : Nat}
    {head : EncryptedReader} {rest : ByteStream} (wanting : head.Wanting wanted)
    (gone : rest.bytes = [])
    (run : readLoop aead debug wanted (firstReads pieces count) reader inner =
      (.waiting, head, rest))
    (further : (readLoop aead debug wanted (firstReads pieces (count + 1)) reader inner).1 =
      .waiting) : head.Holds := by
  rw [firstReads_add, readLoop_append aead debug wanted _ _ reader inner sound, run, if_pos rfl,
    readLoop_firstReads aead debug wanted _ 0 head rest wanting.wantsMore] at further
  cases round : readStep aead debug (.ready (pieces (0 + count))) head rest with
  | mk outcome after =>
      rw [round] at further
      cases outcome with
      | none => exact readStep_holds wanting.sound wanting.room gone round
      | some outcome =>
          have stepCase := readStep_cases aead debug (.ready (pieces (0 + count))) head rest
            wanting.sound wanting.room
          rw [round] at stepCase
          simp only at further
          subst further
          cases stepCase

/-- The frames ahead can all be decrypted and give too little, the ciphertext buffer takes
everything in, and there is a byte. -/
structure Starves (aead : StreamAead) (debug : Bool) (wanted : Option Nat) (pieces : Nat → Nat)
    (reader : EncryptedReader) (more : List UInt8) : Prop where
  intact : debug = true → reader.Intact
  valid : (reader.framesAhead aead more).2 ≠ .refused
  few : (reader.clearAhead aead more).length < reader.bytesAmount wanted
  some_ : reader.clearAhead aead more ≠ [] ∨
    reader.ciphertext.unread ++ more ≠ frames (reader.framesAhead aead more).1
  room : reader.ciphertext.window.takesAll (reader.framesAhead aead more).2 pieces more.length
    (reader.framesAhead aead more).1 = true

theorem readIfNecessary_intact (aead : StreamAead) (debug : Bool) (wanted : Option Nat)
    (events : List ReadEvent) (reader : EncryptedReader) (inner : ByteStream)
    (sound : reader.Sound) (intact : debug = true → reader.Intact) :
    readIfNecessary aead debug wanted events reader inner =
      match EncryptedReader.decryptAllFullChunks aead reader with
      | .error panic => (.panicked panic, reader, inner)
      | .ok (next, .error kind) => (.failed kind, next, inner)
      | .ok (next, .ok ()) =>
          readLoop aead debug (reader.bytesAmount wanted) events next inner := by
  have first : debugAssert debug (decide (reader.cleartext.buf.capacity = maxChunkSize)) =
      .ok () := by
    cases debug with
    | false => rfl
    | true =>
        have full : reader.cleartext.buf.capacity = maxChunkSize := intact rfl
        rw [decide_eq_true full, debugAssert_true]
  rewrite [readIfNecessary, first, decide_eq_true sound.ciphertextCapacity, debugAssert_true]
  rfl

/-- In a debug build a poll that waits has passed the assertion on the capacity. -/
theorem waiting_intact {wanted : Option Nat} {events : List ReadEvent}
    (waits : (readIfNecessary aead debug wanted events reader inner).1 = .waiting) :
    debug = true → reader.Intact := by
  rintro rfl
  by_contra broken
  rw [Intact] at broken
  rw [readIfNecessary, decide_eq_false broken] at waits
  cases waits

/-- Who never returns starves. -/
theorem waits_starves (wanted : Option Nat) (pieces : Nat → Nat) (sound : reader.Sound)
    (waits : ∀ count,
      (readIfNecessary aead debug wanted (firstReads pieces count) reader inner).1 = .waiting) :
    reader.Starves aead debug wanted pieces inner.bytes := by
  have intact := waiting_intact (waits 0)
  obtain ⟨behind, ahead⟩ := framesAhead_ahead aead reader sound inner.bytes
  have settles := ahead.decryptAllFullChunks
  have decrypts := decryptAllFullChunks_cases aead reader sound
  have unfolds := fun events =>
    readIfNecessary_intact aead debug wanted events reader inner sound intact
  simp only [unfolds] at waits
  have enters := waits 0
  generalize room : Window.settle _ _ _ = settled at settles
  generalize EncryptedReader.decryptAllFullChunks aead reader = result
    at settles decrypts waits enters
  cases settles with
  | refused _ next refusal => cases enters
  | full left next later spare => exact absurd spare (readLoop_wants later.sound enters).2
  | panics panic => cases enters
  | settled left next later spare =>
      have settledNext : next.Settled := by
        cases decrypts with
        | settled msgs _ advances opens capacity settled => exact settled
      obtain ⟨takes, count, head, last, rest, run, gone, final⟩ :=
        later.waits inner.bytes.length pieces (Nat.le_refl _) waits
      obtain ⟨wanting, stays⟩ := readLoop_waiting aead debug _ _ next head inner rest later.sound
        settledNext run
      obtain ⟨valid, clear, sealed⟩ := final.ended wanting.settled
      have holds := readLoop_holds later.sound wanting gone run (waits (count + 1))
      exact
        { intact := intact
          valid := valid
          few := by
            rw [← clear]
            exact wanting.few
          some_ := by
            rw [← clear, ahead.behind, ← sealed]
            refine holds.imp_right fun some_ same => some_ ?_
            exact List.append_right_eq_self.mp same
          room := by
            rw [Window.takesAll, room]
            exact takes }

/-- Who starves takes everything in, and reads on and on at the end of the stream. -/
theorem Starves.waits {wanted : Option Nat} {pieces : Nat → Nat}
    (starves : reader.Starves aead debug wanted pieces inner.bytes) (sound : reader.Sound)
    (closed : inner.closed = true) (count : Nat) :
    (readIfNecessary aead debug wanted (firstReads pieces count) reader inner).1 = .waiting := by
  obtain ⟨intact, valid, few, some_, room⟩ := starves
  obtain ⟨behind, ahead⟩ := framesAhead_ahead aead reader sound inner.bytes
  have settles := ahead.decryptAllFullChunks
  have decrypts := decryptAllFullChunks_cases aead reader sound
  rw [readIfNecessary_intact aead debug wanted _ reader inner sound intact]
  rw [Window.takesAll] at room
  generalize EncryptedReader.decryptAllFullChunks aead reader = result at settles decrypts ⊢
  generalize Window.settle _ _ _ = settled at settles room
  cases settles with
  | refused _ next refusal => exact absurd refusal valid
  | full left next later spare => cases room
  | panics panic => cases room
  | settled left next later spare =>
      cases decrypts with
      | settled msgs _ advances opens capacity settled =>
          obtain ⟨other, head, last, rest, run, gone, final⟩ :=
            later.starves inner.bytes.length pieces valid few spare room
          obtain ⟨wanting, _⟩ := readLoop_waiting aead debug _ _ next head inner rest later.sound
            settled run
          obtain ⟨_, clear, sealed⟩ := final.ended wanting.settled
          have holds : head.Holds := by
            rw [ahead.behind, ← sealed, ← clear] at some_
            refine some_.imp_right fun more none => more ?_
            rw [none, List.append_nil]
          exact readLoop_stuck aead debug _ pieces other next head inner rest later.sound settled
            closed run gone holds count

end Starving

end EncryptedReader

namespace Reading

/-- `poll_read` with room for so many bytes, or `poll_fill_buf`. -/
def pollOf : Option Nat → List ReadEvent → ReaderCall
  | some remaining, events => .pollRead remaining events
  | none, events => .pollFillBuf events

/-- A poll waits just where its `read_if_necessary` does, and in the same state. -/
theorem call_waiting (aead : StreamAead) (debug : Bool) (state next : Reading)
    (wanted : Option Nat) (events : List ReadEvent) (sound : state.reader.Sound) :
    state.call aead debug (pollOf wanted events) = (.waiting, next) ↔
      EncryptedReader.readIfNecessary aead debug wanted events state.reader state.inner =
        (.waiting, next.reader, next.inner) ∧ next.handed = state.handed := by
  obtain ⟨nextReader, nextInner, handed⟩ := next
  cases wanted with
  | some remaining =>
      have readCase := EncryptedReader.pollRead_cases aead debug remaining events state.reader
        state.inner sound
      simp only [pollOf, call]
      generalize state.reader.pollRead aead debug remaining events state.inner = result
        at readCase ⊢
      generalize EncryptedReader.readIfNecessary aead debug (some remaining) events state.reader
        state.inner = before at readCase ⊢
      cases readCase with
      | endOfStream reader rest => simp
      | given reader rest cleartext count countEq run => simp
      | stopped outcome reader rest notReady =>
          cases outcome with
          | ready eof => exact absurd rfl (notReady eof)
          | failed kind => simp [Outcome.map]
          | pending => simp [Outcome.map]
          | panicked panic => simp [Outcome.map]
          | waiting =>
              simp only [Outcome.map, EncryptedReader.givenBy, List.append_nil, Prod.mk.injEq,
                Reading.mk.injEq, true_and, and_assoc]
              exact and_congr_right fun _ => and_congr_right fun _ => eq_comm
  | none =>
      simp only [pollOf, call, EncryptedReader.pollFillBuf_eq aead debug events _ _ sound]
      generalize EncryptedReader.readIfNecessary aead debug none events state.reader state.inner =
        before
      obtain ⟨outcome, reader, rest⟩ := before
      cases outcome with
      | ready eof => simp [Outcome.map]
      | failed kind => simp [Outcome.map]
      | pending => simp [Outcome.map]
      | panicked panic => simp [Outcome.map]
      | waiting =>
          simp only [Outcome.map, Prod.mk.injEq, Reading.mk.injEq, true_and, and_assoc]
          exact and_congr_right fun _ => and_congr_right fun _ => eq_comm

/-- A poll waits where its `read_if_necessary` does. -/
theorem call_waits (aead : StreamAead) (debug : Bool) (state : Reading) (wanted : Option Nat)
    (events : List ReadEvent) (sound : state.reader.Sound) :
    (state.call aead debug (pollOf wanted events)).1 = .waiting ↔
      (EncryptedReader.readIfNecessary aead debug wanted events state.reader state.inner).1 =
        .waiting := by
  constructor
  · intro waits
    have run := (call_waiting aead debug state _ wanted events sound).mp (Prod.ext waits rfl)
    exact congrArg Prod.fst run.1
  · intro waits
    have run := (call_waiting aead debug state ⟨_, _, state.handed⟩ wanted events sound).mpr
      ⟨Prod.ext waits rfl, rfl⟩
    exact congrArg Prod.fst run

/-- A poll that meets end of stream with a byte in a buffer never returns. -/
theorem poll_stuck (aead : StreamAead) (debug : Bool) (state next : Reading)
    (wanted : Option Nat) (pieces : Nat → Nat) (count : Nat) (sound : state.reader.Sound)
    (closed : state.inner.closed = true)
    (waits : state.call aead debug (pollOf wanted (firstReads pieces count)) = (.waiting, next))
    (gone : next.inner.bytes = []) (holds : next.reader.Holds) (other : Nat) :
    (state.call aead debug (pollOf wanted (firstReads pieces other))).1 = .waiting := by
  have run := ((call_waiting aead debug state next wanted _ sound).mp waits).1
  rcases EncryptedReader.readIfNecessary_loop aead debug wanted state.reader state.inner sound with
    ended | ⟨first, firstSound, settled, unfolds⟩
  · exact absurd (congrArg Prod.fst run) (ended _)
  · rw [unfolds] at run
    have stuck := EncryptedReader.readLoop_stuck aead debug _ pieces count first next.reader
      state.inner next.inner firstSound settled closed run gone holds other
    rw [← unfolds] at stuck
    have whole := (call_waiting aead debug state
      ⟨_, _, state.handed⟩ wanted (firstReads pieces other) sound).mpr
        ⟨Prod.ext stuck rfl, rfl⟩
    rw [whole]

/-- A poll that starves goes on for ever. -/
theorem starves_hangs (aead : StreamAead) (debug : Bool) (state : Reading) (wanted : Option Nat)
    (pieces : Nat → Nat) (sound : state.reader.Sound) (closed : state.inner.closed = true)
    (starves : state.reader.Starves aead debug wanted pieces state.inner.bytes) (count : Nat) :
    (state.call aead debug (pollOf wanted (firstReads pieces count))).1 = .waiting := by
  rw [call_waits aead debug state wanted _ sound]
  exact starves.waits sound closed count

/-- In every state that calls on a closed stream lead to, a poll returns if and only if it does
not starve on the bytes that are left. -/
theorem poll_returns_iff (aead : StreamAead) (debug : Bool) (sharedKey : Key) (nonce : Nonce)
    (bytes : List UInt8) (calls : List ReaderCall) (state : Reading)
    (run : runInputs (Reading.step aead debug) calls
      ⟨EncryptedReader.withNonce sharedKey nonce, ⟨bytes, true⟩, []⟩ = some state)
    (wanted : Option Nat) (pieces : Nat → Nat) :
    (∃ count, (state.call aead debug (pollOf wanted (firstReads pieces count))).1 ≠ .waiting) ↔
      ¬state.reader.Starves aead debug wanted pieces state.inner.bytes := by
  obtain ⟨msgs, handed, advances, _⟩ := Reading.run_advances aead debug calls _ state
    (EncryptedReader.withNonce_sound sharedKey nonce) run
  have never : (∀ count, (state.call aead debug
      (pollOf wanted (firstReads pieces count))).1 = .waiting) ↔
        state.reader.Starves aead debug wanted pieces state.inner.bytes := by
    constructor
    · intro waits
      refine EncryptedReader.waits_starves wanted pieces advances.sound fun count => ?_
      exact (call_waits aead debug state wanted _ advances.sound).mp (waits count)
    · exact starves_hangs aead debug state wanted pieces advances.sound advances.closed
  rw [← never, not_forall]

/-- A stream of one frame with three bytes in it. -/
def threeBytes : Reading :=
  ⟨EncryptedReader.withNonce [] [], ⟨frame ([97, 98, 99] ++ List.replicate 16 0), true⟩, []⟩

/-- A stream that ends in the middle of a frame. -/
def halfFrame : Reading := ⟨EncryptedReader.withNonce [] [], ⟨[0, 0, 0, 19, 97], true⟩, []⟩

/-- A `poll_read` of the three bytes returns: they are enough. -/
theorem poll_returns_three :
    ∃ count, (threeBytes.call paddingAead true
      (pollOf (some 3) (firstReads (fun _ => 5) count))).1 ≠ .waiting := by
  refine (poll_returns_iff paddingAead true [] [] _ [] threeBytes rfl (some 3) (fun _ => 5)).mpr ?_
  intro starves
  exact absurd starves.few (by decide +kernel)

/-- The three bytes arrive, but never reach the caller of `poll_fill_buf`, nor of a
`poll_read` for four of them; and no poll notices the end of half a frame. -/
theorem poll_hangs :
    (∀ count, (threeBytes.call paddingAead true
        (pollOf none (firstReads (fun _ => 22) count))).1 = .waiting) ∧
      (∀ count, (threeBytes.call paddingAead true
        (pollOf (some 4) (firstReads (fun _ => 22) count))).1 = .waiting) ∧
      ∀ count, (halfFrame.call paddingAead true
        (pollOf (some 1) (firstReads (fun _ => 22) count))).1 = .waiting := by
  refine ⟨starves_hangs paddingAead true threeBytes none _ (EncryptedReader.withNonce_sound ..) rfl
      ⟨fun _ => rfl, ?_, ?_, ?_, ?_⟩,
    starves_hangs paddingAead true threeBytes (some 4) _ (EncryptedReader.withNonce_sound ..) rfl
      ⟨fun _ => rfl, ?_, ?_, ?_, ?_⟩,
    starves_hangs paddingAead true halfFrame (some 1) _ (EncryptedReader.withNonce_sound ..) rfl
      ⟨fun _ => rfl, ?_, ?_, ?_, ?_⟩⟩
  all_goals decide +kernel

end Reading
end Gday.Encryption
