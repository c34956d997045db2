import Gday.Lib.Machine
import Gday.Encryption.ReaderSpec

/-! # Whole runs of the reader

`Reading` is a reader, the stream it reads and the bytes its caller was given; a run
makes any calls in any order, and goes on after a call that failed.  `readLoop_rule`
carries an invariant of one round through the loop of `read_if_necessary`. -/
set_option autoImplicit false
namespace Gday.Encryption

open Gday.Lib.AsyncStream Gday.Lib.Framing Gday.Lib.Machine

namespace EncryptedReader

/-! ## The read loop -/

/-- The result that the loop leaves at once, or the state in which it goes on. -/
def RoundEnds (goesOn : EncryptedReader → ByteStream → Prop)
    (ends : Outcome Bool → EncryptedReader → ByteStream → Prop) :
    Option (Outcome Bool) × EncryptedReader × ByteStream → Prop
  | (none, next, rest) => goesOn next rest
  | (some outcome, next, rest) => ends outcome next rest

/-- The rule for the loop: what one round preserves, with one event fewer to come, holds
when the loop is left. -/
theorem readLoop_rule (aead : StreamAead) (debug : Bool) (bytesAmount : Nat)
    (goesOn : List ReadEvent → EncryptedReader → ByteStream → Prop)
    (ends : Outcome Bool → EncryptedReader → ByteStream → Prop)
    (sound : ∀ events reader inner, goesOn events reader inner → reader.Sound)
    (done : ∀ events reader inner, goesOn events reader inner →
      (bytesAmount ≤ reader.cleartext.unread.length ∨ reader.ciphertext.spareCapacityLen = 0) →
      ends (reader.finishRead debug) reader inner)
    (dry : ∀ reader inner, goesOn [] reader inner →
      reader.cleartext.unread.length < bytesAmount → reader.ciphertext.spareCapacityLen ≠ 0 →
      ends .waiting reader inner)
    (round : ∀ event events reader inner result, goesOn (event :: events) reader inner →
      reader.cleartext.unread.length < bytesAmount → reader.ciphertext.spareCapacityLen ≠ 0 →
      StepCase aead event reader inner result → RoundEnds (goesOn events) ends result)
    (events : List ReadEvent) (reader : EncryptedReader) (inner : ByteStream)
    (start : goesOn events reader inner) :
    ends (readLoop aead debug bytesAmount events reader inner).1
      (readLoop aead debug bytesAmount events reader inner).2.1
      (readLoop aead debug bytesAmount events reader inner).2.2 := by
  induction events generalizing reader inner with
  | nil =>
      rw [readLoop, wantsMore_eq reader (sound [] reader inner start)]
      by_cases more : reader.cleartext.unread.length < bytesAmount ∧
          reader.ciphertext.spareCapacityLen ≠ 0
      · simp only [decide_eq_true more.1, decide_eq_true more.2, Bool.and_self]
        exact dry reader inner start more.1 more.2
      · have stop : (decide (reader.cleartext.unread.length < bytesAmount) &&
            decide (reader.ciphertext.spareCapacityLen ≠ 0)) = false := by
          simpa using more
        simp only [stop]
        exact done [] reader inner start (by omega)
  | cons event events ih =>
      have readerSound := sound (event :: events) reader inner start
      rw [readLoop, wantsMore_eq reader readerSound]
      by_cases more : reader.cleartext.unread.length < bytesAmount ∧
          reader.ciphertext.spareCapacityLen ≠ 0
      · simp only [decide_eq_true more.1, decide_eq_true more.2, Bool.and_self]
        have stepCase := readStep_cases aead debug event reader inner readerSound more.2
        have ending := round event events reader inner _ start more.1 more.2 stepCase
        generalize readStep aead debug event reader inner = result at ending ⊢
        rcases result with ⟨_ | outcome, next, rest⟩
        · exact ih next rest ending
        · exact ending
      · have stop : (decide (reader.cleartext.unread.length < bytesAmount) &&
            decide (reader.ciphertext.spareCapacityLen ≠ 0)) = false := by
          simpa using more
        simp only [stop]
        exact done (event :: events) reader inner start (by omega)

theorem readLoop_enough (aead : StreamAead) (debug : Bool) (bytesAmount : Nat)
    (events : List ReadEvent) (reader : EncryptedReader) (inner : ByteStream)
    (enough : reader.wantsMore bytesAmount = .ok false) :
    readLoop aead debug bytesAmount events reader inner =
      (reader.finishRead debug, reader, inner) := by
  cases events <;> rw [readLoop, enough]

theorem readLoop_advances (aead : StreamAead) (debug : Bool) (bytesAmount : Nat)
    (events : List ReadEvent) (reader : EncryptedReader) (inner : ByteStream)
    (sound : reader.Sound) :
    ∃ msgs, Advances aead reader inner msgs []
      (readLoop aead debug bytesAmount events reader inner).2.1
      (readLoop aead debug bytesAmount events reader inner).2.2 := by
  refine readLoop_rule aead debug bytesAmount
    (fun _ next rest => ∃ msgs, Advances aead reader inner msgs [] next rest)
    (fun _ next rest => ∃ msgs, Advances aead reader inner msgs [] next rest)
    ?_ ?_ ?_ ?_ events reader inner ⟨[], Advances.refl aead reader inner sound⟩
  · rintro _ next rest ⟨msgs, advances⟩
    exact advances.sound
  · intro _ next rest before _
    exact before
  · intro next rest before _ _
    exact before
  · rintro event _ middle between result ⟨msgs, advances⟩ _ _ stepCase
    cases stepCase with
    | innerError refused => exact ⟨msgs, advances⟩
    | nothing stalled empty => exact ⟨msgs, advances⟩
    | leftover stalled some_ => exact ⟨msgs, advances⟩
    | endOfStream gone closed sealed clear => exact ⟨msgs, advances⟩
    | wrapPanic bytes next rest received =>
        exact ⟨_, advances.trans (received.advances aead advances.sound)⟩
    | continued bytes next rest received more final later =>
        exact ⟨_, advances.trans later⟩
    | invalid bytes next rest received init bad final later =>
        exact ⟨_, advances.trans later⟩

theorem readIfNecessary_advances (aead : StreamAead) (debug : Bool) (wanted : Option Nat)
    (events : List ReadEvent) (reader : EncryptedReader) (inner : ByteStream)
    (sound : reader.Sound) :
    ∃ msgs, Advances aead reader inner msgs []
      (readIfNecessary aead debug wanted events reader inner).2.1
      (readIfNecessary aead debug wanted events reader inner).2.2 := by
  have stay : ∃ msgs, Advances aead reader inner msgs [] reader inner :=
    ⟨[], Advances.refl aead reader inner sound⟩
  rw [readIfNecessary]
  cases debugAssert debug (decide (reader.cleartext.buf.capacity = maxChunkSize)) with
  | error panic => exact stay
  | ok first =>
      cases debugAssert debug (decide (reader.ciphertext.buf.capacity = 2 * maxChunkSize)) with
      | error panic => exact stay
      | ok second =>
          have decrypts := decryptAllFullChunks_cases aead reader sound
          simp only
          generalize decryptAllFullChunks aead reader = result at decrypts ⊢
          cases decrypts with
          | wrapPanic => exact stay
          | settled msgs next advances opens capacity settled =>
              obtain ⟨more, later⟩ := readLoop_advances aead debug (reader.bytesAmount wanted)
                events next inner (advances inner).sound
              exact ⟨msgs ++ more, (advances inner).trans later⟩
          | invalid init bad next advances => exact ⟨init ++ [bad], advances inner⟩

/-- Bytes taken from the front of the cleartext. -/
theorem Advances.handOut {aead : StreamAead} {before after : EncryptedReader}
    {inner rest : ByteStream} {msgs : List (List UInt8)}
    (advances : Advances aead before inner msgs [] after rest) (count : Nat)
    (within : count ≤ after.cleartext.unread.length) :
    ∃ cleartext, after.cleartext.advanceCursor count = .ok cleartext ∧
      cleartext.buf.capacity = after.cleartext.buf.capacity ∧
      cleartext.unread = after.cleartext.unread.drop count ∧
        Advances aead before inner msgs (after.cleartext.unread.take count)
          { after with cleartext := cleartext } rest := by
  obtain ⟨cleartext, run, wf, unread, capacity⟩ :=
    after.cleartext.advanceCursor_spec advances.sound.cleartext count within
  refine ⟨cleartext, run, capacity, unread, ?_⟩
  exact
    { stream := advances.stream
      short := advances.short
      plain := by
        rw [unread, List.take_append_drop]
        exact advances.plain
      decryptor := advances.decryptor
      closed := advances.closed
      sound :=
        { cleartext := wf
          ciphertext := advances.sound.ciphertext
          ciphertextCapacity := advances.sound.ciphertextCapacity
          cleartextCapacity := by
            rw [capacity]
            exact advances.sound.cleartextCapacity } }

/-- How `poll_read` follows `read_if_necessary`. -/
inductive PollReadCase (remaining : Nat) :
    Outcome Bool × EncryptedReader × ByteStream →
      Outcome (List UInt8) × EncryptedReader × ByteStream → Prop where
  | endOfStream (next : EncryptedReader) (rest : ByteStream) :
      PollReadCase remaining (.ready true, next, rest) (.ready [], next, rest)
  | given (next : EncryptedReader) (rest : ByteStream) (cleartext : HelperBuf) (count : Nat)
      (countEq : count = min remaining next.cleartext.unread.length)
      (run : next.cleartext.advanceCursor count = .ok cleartext) :
      PollReadCase remaining (.ready false, next, rest)
        (.ready (next.cleartext.unread.take count), { next with cleartext := cleartext }, rest)
  | stopped (outcome : Outcome Bool) (next : EncryptedReader) (rest : ByteStream)
      (notReady : ∀ eof, outcome ≠ .ready eof) :
      PollReadCase remaining (outcome, next, rest) (outcome.map fun _ => [], next, rest)

theorem pollRead_cases (aead : StreamAead) (debug : Bool) (remaining : Nat)
    (events : List ReadEvent) (reader : EncryptedReader) (inner : ByteStream)
    (sound : reader.Sound) :
    PollReadCase remaining (readIfNecessary aead debug (some remaining) events reader inner)
      (pollRead aead debug remaining events reader inner) := by
  obtain ⟨msgs, advances⟩ :=
    readIfNecessary_advances aead debug (some remaining) events reader inner sound
  rw [pollRead]
  generalize readIfNecessary aead debug (some remaining) events reader inner = before at advances ⊢
  obtain ⟨outcome, next, rest⟩ := before
  cases outcome with
  | ready eof =>
      cases eof with
      | true => exact .endOfStream next rest
      | false =>
          have within : min remaining next.cleartext.unread.length ≤
              next.cleartext.unread.length := Nat.min_le_right ..
          obtain ⟨cleartext, run, _⟩ :=
            next.cleartext.advanceCursor_spec advances.sound.cleartext _ within
          simp only [advances.sound.cleartext.data_eq, slice_take _ _ within, run]
          exact .given next rest cleartext _ rfl run
  | failed kind => exact .stopped _ next rest (by simp)
  | pending => exact .stopped _ next rest (by simp)
  | panicked panic => exact .stopped _ next rest (by simp)
  | waiting => exact .stopped _ next rest (by simp)

/-- `poll_fill_buf` leaves the bytes it shows where they are. -/
theorem pollFillBuf_eq (aead : StreamAead) (debug : Bool) (events : List ReadEvent)
    (reader : EncryptedReader) (inner : ByteStream) (sound : reader.Sound) :
    pollFillBuf aead debug events reader inner =
      ((readIfNecessary aead debug none events reader inner).1.map fun eof =>
          if eof then []
          else (readIfNecessary aead debug none events reader inner).2.1.cleartext.unread,
        (readIfNecessary aead debug none events reader inner).2) := by
  obtain ⟨msgs, advances⟩ := readIfNecessary_advances aead debug none events reader inner sound
  rw [pollFillBuf]
  generalize readIfNecessary aead debug none events reader inner = before at advances ⊢
  obtain ⟨outcome, next, rest⟩ := before
  cases outcome with
  | ready eof =>
      cases eof with
      | true => rfl
      | false =>
          simp only [advances.sound.cleartext.data_eq]
          rfl
  | failed kind => rfl
  | pending => rfl
  | panicked panic => rfl
  | waiting => rfl

/-- What a call gave its caller for good. -/
def givenBy : Outcome (List UInt8) → List UInt8
  | .ready bytes => bytes
  | _ => []

theorem PollReadCase.advances {aead : StreamAead} {reader : EncryptedReader} {inner : ByteStream}
    {remaining : Nat} {msgs : List (List UInt8)}
    {before : Outcome Bool × EncryptedReader × ByteStream}
    {after : Outcome (List UInt8) × EncryptedReader × ByteStream}
    (readCase : PollReadCase remaining before after)
    (advances : Advances aead reader inner msgs [] before.2.1 before.2.2) :
    Advances aead reader inner msgs (givenBy after.1) after.2.1 after.2.2 := by
  cases readCase with
  | endOfStream next rest => exact advances
  | given next rest cleartext count countEq run =>
      obtain ⟨other, otherRun, _, _, handed⟩ :=
        advances.handOut count (countEq ▸ Nat.min_le_right ..)
      rw [run, Except.ok.injEq] at otherRun
      subst otherRun
      exact handed
  | stopped outcome next rest notReady =>
      have nothing : givenBy (outcome.map fun _ => []) = [] := by
        cases outcome <;> rfl
      rw [nothing]
      exact advances

theorem consume_cases (aead : StreamAead) (reader : EncryptedReader) (inner : ByteStream)
    (sound : reader.Sound) (amt : Nat) :
    (reader.cleartext.unread.length < amt ∧ reader.consume amt = .error .assertion) ∨
      ∃ next, amt ≤ reader.cleartext.unread.length ∧ reader.consume amt = .ok next ∧
        next.cleartext.buf.capacity = reader.cleartext.buf.capacity ∧
          Advances aead reader inner [] (reader.cleartext.unread.take amt) next inner := by
  rw [consume]
  by_cases within : amt ≤ reader.cleartext.unread.length
  · right
    obtain ⟨cleartext, run, capacity, _, handed⟩ :=
      (Advances.refl aead reader inner sound).handOut amt within
    simp only [run]
    exact ⟨_, within, rfl, capacity, handed⟩
  · left
    refine ⟨by omega, ?_⟩
    rw [reader.cleartext.advanceCursor_error sound.cleartext amt (by omega)]

end EncryptedReader

/-! ## Calls in any order -/

inductive ReaderCall where
  | pollRead (remaining : Nat) (events : List ReadEvent)
  | pollFillBuf (events : List ReadEvent)
  | consume (amt : Nat)
  deriving DecidableEq, Repr

structure Reading where
  reader : EncryptedReader
  inner : ByteStream
  handed : List UInt8
  deriving DecidableEq

namespace Reading

/-- What a call returns, and the state after it.  The bytes of a `poll_read` and the
bytes that are consumed count as handed out. -/
def call (aead : StreamAead) (debug : Bool) (state : Reading) :
    ReaderCall → Outcome (List UInt8) × Reading
  | .pollRead remaining events =>
      let result := state.reader.pollRead aead debug remaining events state.inner
      (result.1, ⟨result.2.1, result.2.2, state.handed ++ EncryptedReader.givenBy result.1⟩)
  | .pollFillBuf events =>
      let result := state.reader.pollFillBuf aead debug events state.inner
      (result.1, ⟨result.2.1, result.2.2, state.handed⟩)
  | .consume amt =>
      match state.reader.consume amt with
      | .error panic => (.panicked panic, state)
      | .ok reader =>
          (.ready [],
            ⟨reader, state.inner, state.handed ++ state.reader.cleartext.unread.take amt⟩)

/-- What callers keep to: a buffer to read into is not empty, and no more is consumed than
was shown. -/
def Permitted (state : Reading) : ReaderCall → Prop
  | .pollRead remaining _ => 0 < remaining
  | .pollFillBuf _ => True
  | .consume amt => amt ≤ state.reader.cleartext.unread.length

instance (state : Reading) : (input : ReaderCall) → Decidable (state.Permitted input)
  | .pollRead remaining _ => Nat.decLt 0 remaining
  | .pollFillBuf _ => .isTrue trivial
  | .consume amt => Nat.decLe amt state.reader.cleartext.unread.length

/-- A run goes on unless the call panicked or is still waiting for its inner reader. -/
def step (aead : StreamAead) (debug : Bool) (state : Reading) (input : ReaderCall) :
    Option Reading :=
  match state.call aead debug input with
  | (.panicked _, _) => none
  | (.waiting, _) => none
  | (_, next) => some next

theorem step_eq_some (aead : StreamAead) (debug : Bool) (state next : Reading)
    (input : ReaderCall) :
    state.step aead debug input = some next ↔
      (∀ panic, (state.call aead debug input).1 ≠ .panicked panic) ∧
        (state.call aead debug input).1 ≠ .waiting ∧
          (state.call aead debug input).2 = next := by
  rw [step]
  generalize state.call aead debug input = result
  obtain ⟨outcome, after⟩ := result
  cases outcome <;> simp

/-- A call advances along the stream, also one that fails or panics. -/
theorem call_advances (aead : StreamAead) (debug : Bool) (state : Reading) (input : ReaderCall)
    (sound : state.reader.Sound) :
    ∃ msgs handed, EncryptedReader.Advances aead state.reader state.inner msgs handed
        (state.call aead debug input).2.reader (state.call aead debug input).2.inner ∧
      (state.call aead debug input).2.handed = state.handed ++ handed := by
  cases input with
  | pollRead remaining events =>
      obtain ⟨msgs, advances⟩ := EncryptedReader.readIfNecessary_advances aead debug
        (some remaining) events state.reader state.inner sound
      exact ⟨msgs, _, (EncryptedReader.pollRead_cases aead debug remaining events state.reader
        state.inner sound).advances advances, rfl⟩
  | pollFillBuf events =>
      obtain ⟨msgs, advances⟩ := EncryptedReader.readIfNecessary_advances aead debug
        none events state.reader state.inner sound
      refine ⟨msgs, [], ?_, (List.append_nil _).symm⟩
      simp only [call, EncryptedReader.pollFillBuf_eq aead debug events _ _ sound]
      exact advances
  | consume amt =>
      rcases EncryptedReader.consume_cases aead state.reader state.inner sound amt with
        ⟨_, run⟩ | ⟨next, _, run, _, advances⟩
      · simp only [call, run]
        exact ⟨[], [], EncryptedReader.Advances.refl aead _ _ sound, (List.append_nil _).symm⟩
      · simp only [call, run]
        exact ⟨[], _, advances, rfl⟩

theorem run_advances (aead : StreamAead) (debug : Bool) (calls : List ReaderCall)
    (state final : Reading) (sound : state.reader.Sound)
    (run : runInputs (Reading.step aead debug) calls state = some final) :
    ∃ msgs handed, EncryptedReader.Advances aead state.reader state.inner msgs handed
      final.reader final.inner ∧ final.handed = state.handed ++ handed := by
  refine runInputs_invariant (Reading.step aead debug)
    (fun after => ∃ msgs handed, EncryptedReader.Advances aead state.reader state.inner msgs handed
      after.reader after.inner ∧ after.handed = state.handed ++ handed)
    ?_ calls state final ⟨[], [], EncryptedReader.Advances.refl aead _ _ sound,
      (List.append_nil _).symm⟩ run
  rintro middle input next ⟨msgs, handed, advances, handedEq⟩ stepRun
  obtain ⟨_, _, rfl⟩ := (step_eq_some aead debug middle next input).mp stepRun
  obtain ⟨more, later, further, laterEq⟩ := middle.call_advances aead debug input advances.sound
  exact ⟨msgs ++ more, handed ++ later, advances.trans further, by
    rw [laterEq, handedEq, List.append_assoc]⟩

end Reading
end Gday.Encryption
