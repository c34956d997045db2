import Gday.Encryption.EndOfStream
import Gday.Encryption.GoodStream

/-! # What an empty result stands for

A caller takes an empty result for the end of the stream.  It is that on every stream whose
frames decrypt and fit the cleartext buffer and which does not end inside a frame; on every
other stream some calls find out that it is not. -/
set_option autoImplicit false
namespace Gday.Encryption

open Gday.Lib.AsyncStream Gday.Lib.BigEndian Gday.Lib.Framing Gday.Lib.Machine

/-! ## Faultless streams -/

/-- Every frame decrypts, no announced length is beyond the cleartext buffer, and the stream
does not end inside a frame. -/
structure Faultless (aead : StreamAead) (stream : StreamLE31) (bytes : List UInt8)
    (closed : Bool) : Prop where
  announced : AnnouncedLe maxChunkSize bytes
  opens : ∀ msgs rest, bytes = frames msgs ++ rest → (∀ msg ∈ msgs, msg.length < 2 ^ 32) →
    aead.Opens stream msgs
  whole : closed = true → ∃ msgs, bytes = frames msgs ∧ ∀ msg ∈ msgs, msg.length < 2 ^ 32

/-- What is wrong at the head of a stream. -/
inductive Fault (aead : StreamAead) (stream : StreamLE31) (bytes : List UInt8) (closed : Bool) :
    Prop where
  | tooLong (header : 4 ≤ bytes.length) (beyond : maxChunkSize < ofBe (bytes.take 4))
  | invalid (bad : List UInt8) (shown : peekFrame bytes = some bad)
      (small : bad.length ≤ maxChunkSize) (failed : aead.decryptNextInPlace stream bad = none)
  | cut (isClosed : closed = true) (some_ : bytes ≠ []) (hidden : peekFrame bytes = none)
      (small : bytes.length < maxChunkSize + 4)

theorem Faultless.drop {aead : StreamAead} {stream : StreamLE31} {msgs : List (List UInt8)}
    {rest : List UInt8} {closed : Bool}
    (faultless : Faultless aead stream (frames msgs ++ rest) closed)
    (short : ∀ msg ∈ msgs, msg.length < 2 ^ 32) :
    aead.Opens stream msgs ∧ Faultless aead (aead.openFrames stream msgs).2 rest closed := by
  refine ⟨faultless.opens msgs rest rfl short, ?_⟩
  constructor
  · exact faultless.announced.drop_frames short
  · intro more tail split moreShort
    have all := faultless.opens (msgs ++ more) tail
      (by rw [frames_append, split, List.append_assoc]) (by
        intro msg member
        rcases List.mem_append.mp member with first | later
        · exact short msg first
        · exact moreShort msg later)
    exact ((aead.opens_append _ _ _).mp all).2
  · intro isClosed
    obtain ⟨all, split, allShort⟩ := faultless.whole isClosed
    obtain ⟨more, allEq, restEq⟩ := frames_split msgs all rest short allShort split
    refine ⟨more, restEq, ?_⟩
    intro msg member
    apply allShort
    rw [allEq]
    exact List.mem_append_right _ member

/-- A stream that shows no frame is at fault itself or faultless. -/
theorem fault_of_hidden (aead : StreamAead) (stream : StreamLE31) (bytes : List UInt8)
    (closed : Bool) (hidden : peekFrame bytes = none) :
    Faultless aead stream bytes closed ∨ Fault aead stream bytes closed := by
  have noFrame : ∀ msgs rest, bytes = frames msgs ++ rest →
      (∀ msg ∈ msgs, msg.length < 2 ^ 32) → msgs = [] := by
    intro msgs rest split short
    cases msgs with
    | nil => rfl
    | cons msg others =>
        rw [split, frames_cons, List.append_assoc,
          peekFrame_frame msg _ (short msg (List.mem_cons_self ..))] at hidden
        cases hidden
  by_cases beyond : 4 ≤ bytes.length ∧ maxChunkSize < ofBe (bytes.take 4)
  · exact Or.inr (.tooLong beyond.1 beyond.2)
  · by_cases ends : closed = true ∧ bytes ≠ []
    · right
      apply Fault.cut ends.1 ends.2 hidden
      rcases length_lt_four_or_header bytes hidden with few | header
      · omega
      · by_cases four : 4 ≤ bytes.length
        · have := Nat.le_of_not_lt fun larger => beyond ⟨four, larger⟩
          omega
        · omega
    · left
      constructor
      · intro msgs rest split short header
        have none := noFrame msgs rest split short
        rw [none, frames_nil, List.nil_append] at split
        subst split
        exact Nat.le_of_not_lt fun larger => beyond ⟨header, larger⟩
      · intro msgs rest split short
        rw [noFrame msgs rest split short]
        trivial
      · intro isClosed
        have none : bytes = [] := by
          by_contra some_
          exact ends ⟨isClosed, some_⟩
        exact ⟨[], none, fun msg member => absurd member List.not_mem_nil⟩

/-- A good frame in front keeps the stream faultless. -/
theorem Faultless.cons {aead : StreamAead} {stream next : StreamLE31} {msg plain : List UInt8}
    {rest : List UInt8} {closed : Bool} (short : msg.length < 2 ^ 32)
    (small : msg.length ≤ maxChunkSize)
    (decrypted : aead.decryptNextInPlace stream msg = some (plain, next))
    (faultless : Faultless aead next rest closed) :
    Faultless aead stream (frame msg ++ rest) closed := by
  constructor
  · exact AnnouncedLe.cons small short faultless.announced
  · intro msgs tail split msgsShort
    cases msgs with
    | nil => trivial
    | cons first others =>
        have firstShort := msgsShort first (List.mem_cons_self ..)
        rw [frames_cons, List.append_assoc] at split
        have same : some msg = some first := by
          rw [← peekFrame_frame msg rest short, split, peekFrame_frame first _ firstShort]
        cases Option.some.inj same
        exact ⟨plain, next, decrypted, faultless.opens others tail (List.append_cancel_left split)
          fun other member => msgsShort other (List.mem_cons_of_mem _ member)⟩
  · intro isClosed
    obtain ⟨msgs, restEq, msgsShort⟩ := faultless.whole isClosed
    refine ⟨msg :: msgs, by rw [restEq, frames_cons], ?_⟩
    intro other member
    rcases List.mem_cons.mp member with same | later
    · rw [same]
      exact short
    · exact msgsShort other later

/-- A stream is faultless, or good up to its first fault. -/
theorem faultless_or_fault (aead : StreamAead) (stream : StreamLE31) (bytes : List UInt8)
    (closed : Bool) :
    Faultless aead stream bytes closed ∨ ∃ msgs tail, bytes = frames msgs ++ tail ∧
      aead.Opens stream msgs ∧ (∀ msg ∈ msgs, msg.length ≤ maxChunkSize) ∧
      Fault aead (aead.openFrames stream msgs).2 tail closed := by
  induction length : bytes.length using Nat.strong_induction_on generalizing bytes stream with
  | _ length ih =>
      subst length
      have here : ∀ fault : Fault aead stream bytes closed, ∃ msgs tail,
          bytes = frames msgs ++ tail ∧ aead.Opens stream msgs ∧
          (∀ msg ∈ msgs, msg.length ≤ maxChunkSize) ∧
          Fault aead (aead.openFrames stream msgs).2 tail closed := fun fault =>
        ⟨[], bytes, rfl, trivial, fun msg member => absurd member List.not_mem_nil, fault⟩
      cases shown : peekFrame bytes with
      | none =>
          rcases fault_of_hidden aead stream bytes closed shown with faultless | fault
          · exact Or.inl faultless
          · exact Or.inr (here fault)
      | some msg =>
          obtain ⟨short, rest, split⟩ := (peekFrame_eq_some bytes msg).mp shown
          by_cases small : msg.length ≤ maxChunkSize
          · cases decrypted : aead.decryptNextInPlace stream msg with
            | none => exact Or.inr (here (.invalid msg shown small decrypted))
            | some pair =>
                obtain ⟨plain, next⟩ := pair
                have shorter : rest.length < bytes.length := by
                  rw [split, List.length_append, frame_length]
                  omega
                rcases ih rest.length shorter next rest rfl with
                  faultless | ⟨msgs, tail, restEq, opens, allSmall, fault⟩
                · left
                  rw [split]
                  exact faultless.cons short small decrypted
                · right
                  refine ⟨msg :: msgs, tail, ?_, ⟨plain, next, decrypted, opens⟩, ?_, ?_⟩
                  · rw [split, restEq, frames_cons, List.append_assoc]
                  · intro other member
                    rcases List.mem_cons.mp member with same | later
                    · rw [same]
                      exact small
                    · exact allSmall other later
                  · simp only [StreamAead.openFrames, decrypted]
                    exact fault
          · refine Or.inr (here (.tooLong ?_ ?_))
            · rw [split, List.length_append, frame_length]
              omega
            · rw [split, frame_take_four, ofBe_toBe _ short]
              omega

namespace Reading

/-- The received bytes that are not used yet, and those still to come. -/
def ahead (state : Reading) : List UInt8 :=
  state.reader.ciphertext.unread ++ state.inner.bytes

/-- The poll waited for an inner reader with nothing left, which then reported its end. -/
def ReportedEnd (aead : StreamAead) (state : Reading) (wanted : Option Nat)
    (events : List ReadEvent) : Prop :=
  ∃ before extra after waiting, events = before ++ .ready extra :: after ∧
    state.call aead false (pollOf wanted before) = (.waiting, waiting) ∧
      waiting.inner.bytes = [] ∧ waiting.inner.closed = true

/-- Every byte received is of a frame that was decrypted and handed out. -/
def AllHanded (aead : StreamAead) (start : StreamLE31) (bytes : List UInt8)
    (state : Reading) : Prop :=
  ∃ msgs, bytes = frames msgs ++ state.inner.bytes ∧ (∀ msg ∈ msgs, msg.length < 2 ^ 32) ∧
    aead.Opens start msgs ∧ state.handed = (aead.openFrames start msgs).1

/-- What a poll into a buffer that is not empty owes its caller. -/
structure EndsTruly (aead : StreamAead) (start : StreamLE31) (bytes : List UInt8)
    (state : Reading) : Prop where
  empty : ∀ wanted events next, wanted ≠ some 0 →
    state.call aead false (pollOf wanted events) = (.ready [], next) →
      state.ReportedEnd aead wanted events ∧ next.AllHanded aead start bytes
  cut : state.reader.cleartext.unread = [] → state.inner.closed = true → state.ahead ≠ [] →
    peekFrame state.ahead = none → ∀ wanted pieces, wanted ≠ some 0 → ∃ count kind,
      (state.call aead false (pollOf wanted (firstReads pieces count))).1 = .failed kind
  tooLong : state.reader.cleartext.unread = [] → 4 ≤ state.ahead.length →
    maxChunkSize < ofBe (state.ahead.take 4) → ∀ wanted events outcome next, wanted ≠ some 0 →
      state.call aead false (pollOf wanted events) = (outcome, next) →
        4 ≤ next.reader.ciphertext.unread.length → outcome ≠ .waiting →
          ∃ kind, outcome = .failed kind

/-- In every state that any calls lead to. -/
def TrueEnds (aead : StreamAead) (sharedKey : Key) (nonce : Nonce) (inner : ByteStream) : Prop :=
  ∀ calls state, runInputs (Reading.step aead false) calls
      ⟨EncryptedReader.withNonce sharedKey nonce, inner, []⟩ = some state →
    state.EndsTruly aead (.new sharedKey nonce) inner.bytes

end Reading

namespace EncryptedReader

/-! ## Faultless streams end truly -/

/-- The rest of the stream is faultless, and no decryption has failed. -/
structure Clean (aead : StreamAead) (reader : EncryptedReader) (inner : ByteStream) : Prop where
  faultless : Faultless aead reader.decryptor (reader.ciphertext.unread ++ inner.bytes) inner.closed
  intact : reader.Intact
  sound : reader.Sound

variable {aead : StreamAead} {reader next : EncryptedReader} {inner rest : ByteStream}

theorem Clean.advance {msgs : List (List UInt8)} {handed : List UInt8}
    (clean : Clean aead reader inner) (advances : Advances aead reader inner msgs handed next rest)
    (intact : next.Intact) : Clean aead next rest := by
  have faultless := clean.faultless
  rw [advances.stream] at faultless
  have later := (faultless.drop advances.short).2
  rw [← advances.decryptor, ← advances.closed] at later
  exact ⟨later, intact, advances.sound⟩

theorem Clean.no_invalid {init : List (List UInt8)} {bad handed : List UInt8}
    (clean : Clean aead reader inner)
    (advances : Advances aead reader inner (init ++ [bad]) handed next rest) :
    aead.decryptNextInPlace (aead.openFrames reader.decryptor init).2 bad ≠ none := by
  have opens := clean.faultless.opens _ _ advances.stream advances.short
  obtain ⟨plain, stream, decrypted, _⟩ := ((aead.opens_append _ _ _).mp opens).2
  rw [decrypted]
  exact Option.some_ne_none _

/-- With no cleartext left there is room for every frame that shows. -/
theorem Clean.room (clean : Clean aead reader inner) (settled : reader.Settled)
    (none : reader.cleartext.unread = []) : reader.ciphertext.spareCapacityLen ≠ 0 := by
  rcases settled with ⟨_, room⟩ | ⟨msg, shown, tight⟩
  · exact room
  · obtain ⟨short, more, split⟩ := (peekFrame_eq_some _ msg).mp shown
    have header : 4 ≤ reader.ciphertext.unread.length := by
      rw [split, List.length_append, frame_length]
      omega
    have small := clean.faultless.announced.of_append.header header
    rw [split, frame_take_four, ofBe_toBe _ short] at small
    rw [clean.sound.cleartext.spare_of_unread_nil none, clean.intact] at tight
    omega

theorem Clean.readLoop (clean : Clean aead reader inner) (settled : reader.Settled)
    (wanted : Nat) (events : List ReadEvent) :
    Clean aead (readLoop aead false wanted events reader inner).2.1
        (readLoop aead false wanted events reader inner).2.2 ∧
      (0 < wanted → (readLoop aead false wanted events reader inner).1 = .ready false →
        (readLoop aead false wanted events reader inner).2.1.cleartext.unread ≠ []) := by
  refine readLoop_rule aead false wanted
    (fun _ next rest => Clean aead next rest ∧ next.Settled)
    (fun outcome next rest => Clean aead next rest ∧
      (0 < wanted → outcome = .ready false → next.cleartext.unread ≠ []))
    (fun _ _ _ before => before.1.sound) ?_ ?_ ?_ events reader inner ⟨clean, settled⟩
  · intro _ middle between before enough
    refine ⟨before.1, ?_⟩
    intro positive _ none
    rcases enough with satisfied | full
    · rw [none, List.length_nil] at satisfied
      omega
    · exact before.1.room before.2 none full
  · intro middle between before _ _
    exact ⟨before.1, fun _ same => by cases same⟩
  · intro event _ middle between result before _ _ stepCase
    cases stepCase with
    | innerError refused => exact ⟨before.1, fun _ same => by cases same⟩
    | nothing stalled empty => exact ⟨before.1, fun _ same => by cases same⟩
    | leftover stalled some_ => exact ⟨before.1, fun _ _ => some_⟩
    | endOfStream gone closed sealed clear =>
        exact ⟨before.1, fun _ same => by cases same⟩
    | wrapPanic bytes next rest received =>
        have intact : next.Intact := by
          rw [received.next]
          exact before.1.intact
        exact ⟨before.1.advance (received.advances aead before.1.sound) intact,
          fun _ same => by cases same⟩
    | continued bytes next rest received msgs final advances opens capacity settled =>
        exact ⟨before.1.advance advances (capacity.trans before.1.intact), settled⟩
    | invalid bytes next rest received init bad final advances opens failed capacity =>
        exact absurd failed (before.1.no_invalid advances)

/-- All the frames that have arrived decrypt, and the loop starts behind them. -/
theorem Clean.loops (clean : Clean aead reader inner) (wanted : Option Nat) :
    (∃ panic, ∀ events,
      readIfNecessary aead false wanted events reader inner = (.panicked panic, reader, inner)) ∨
    ∃ first, Clean aead first inner ∧ first.Settled ∧ ∀ events,
      readIfNecessary aead false wanted events reader inner =
        EncryptedReader.readLoop aead false (reader.bytesAmount wanted) events first inner := by
  have capacity : reader.cleartext.buf.capacity = maxChunkSize := clean.intact
  simp only [EncryptedReader.readIfNecessary, capacity, clean.sound.ciphertextCapacity,
    decide_true, debugAssert_true]
  have decrypts := decryptAllFullChunks_cases aead reader clean.sound
  generalize decryptAllFullChunks aead reader = result at decrypts ⊢
  cases decrypts with
  | wrapPanic => exact Or.inl ⟨_, fun _ => rfl⟩
  | settled msgs first advances opens same settled =>
      have after := clean.advance (advances inner) (same.trans clean.intact)
      exact Or.inr ⟨first, after, settled, fun _ => rfl⟩
  | invalid init bad first advances opens failed =>
      exact absurd failed (clean.no_invalid (advances inner))

theorem Clean.readIfNecessary (clean : Clean aead reader inner) (wanted : Option Nat)
    (events : List ReadEvent) :
    Clean aead (readIfNecessary aead false wanted events reader inner).2.1
        (readIfNecessary aead false wanted events reader inner).2.2 ∧
      (wanted ≠ some 0 →
        (readIfNecessary aead false wanted events reader inner).1 = .ready false →
        (readIfNecessary aead false wanted events reader inner).2.1.cleartext.unread ≠ []) := by
  have capacity : reader.cleartext.buf.capacity = maxChunkSize := clean.intact
  have amount : wanted ≠ some 0 → 0 < reader.bytesAmount wanted := by
    intro positive
    cases wanted with
    | none =>
        rw [bytesAmount, capacity]
        decide
    | some amount =>
        have : amount ≠ 0 := fun zero => positive (congrArg some zero)
        rw [bytesAmount, capacity, maxChunkSize]
        omega
  rcases clean.loops wanted with ⟨panic, stops⟩ | ⟨first, after, settled, unfolds⟩
  · rw [stops]
    exact ⟨clean, fun _ same => by cases same⟩
  · rw [unfolds]
    obtain ⟨stays, nonempty⟩ := after.readLoop settled (reader.bytesAmount wanted) events
    exact ⟨stays, fun positive => nonempty (amount positive)⟩

/-! ### The end that the inner reader reports -/

theorem finishRead_ne_ended (debug : Bool) (reader : EncryptedReader) (sound : reader.Sound) :
    reader.finishRead debug ≠ .ready true := by
  rw [finishRead_eq debug reader sound]
  by_cases asserts : debug = true ∧ reader.cleartext.unread = []
  · rw [if_pos asserts]
    exact nofun
  · rw [if_neg asserts]
    exact fun same => Bool.false_ne_true (Outcome.ready.inj same)

/-- Only a read that is answered can show the end of the stream. -/
theorem readStep_endOfStream (aead : StreamAead) (debug : Bool) (event : ReadEvent)
    (reader : EncryptedReader) (inner : ByteStream) (sound : reader.Sound)
    (ended : (readStep aead debug event reader inner).1 = some (.ready true)) :
    ∃ extra, event = .ready extra := by
  cases event with
  | ready extra => exact ⟨extra, rfl⟩
  | error => cases ended
  | pending =>
      have answer : inner.pollRead reader.ciphertext.spareCapacityLen .pending =
          (.pending, inner) := rfl
      rw [readStep, innerRead, answer] at ended
      simp only [sound.cleartext.data_eq] at ended
      by_cases none : reader.cleartext.unread.isEmpty = true
      · rw [if_pos none] at ended
        cases ended
      · rw [if_neg none] at ended
        exact absurd (Option.some.inj ended) (finishRead_ne_ended debug reader sound)

theorem readLoop_stops {debug : Bool} {wanted : Nat} {event : ReadEvent} {outcome : Outcome Bool}
    (events : List ReadEvent) (wanting : reader.wantsMore wanted = .ok true)
    (stepped : readStep aead debug event reader inner = (some outcome, next, rest)) :
    readLoop aead debug wanted (event :: events) reader inner = (outcome, next, rest) := by
  rw [readLoop, wanting]
  simp only [stepped]

theorem readLoop_goesOn {debug : Bool} {wanted : Nat} {event : ReadEvent}
    (events : List ReadEvent) (wanting : reader.wantsMore wanted = .ok true)
    (stepped : readStep aead debug event reader inner = (none, next, rest)) :
    readLoop aead debug wanted (event :: events) reader inner =
      readLoop aead debug wanted events next rest := by
  rw [readLoop, wanting]
  simp only [stepped]

/-- A loop that ends with the end of the stream stood at its head before the inner reader
reported it, with nothing in its buffers. -/
theorem readLoop_endOfStream (debug : Bool) (wanted : Nat) (events : List ReadEvent)
    (reader : EncryptedReader) (inner : ByteStream) (sound : reader.Sound)
    (ended : (readLoop aead debug wanted events reader inner).1 = .ready true) :
    ∃ before extra after, events = before ++ .ready extra :: after ∧
      readLoop aead debug wanted before reader inner =
        (.waiting, (readLoop aead debug wanted events reader inner).2) ∧
      (readLoop aead debug wanted events reader inner).2.2.bytes = [] ∧
      (readLoop aead debug wanted events reader inner).2.2.closed = true ∧
      (readLoop aead debug wanted events reader inner).2.1.ciphertext.unread = [] ∧
      (readLoop aead debug wanted events reader inner).2.1.cleartext.unread = [] := by
  induction events generalizing reader inner with
  | nil =>
      cases wants : decide (reader.cleartext.unread.length < wanted) &&
          decide (reader.ciphertext.spareCapacityLen ≠ 0) with
      | true =>
          have wanting := (wantsMore_eq reader sound wanted).trans (congrArg Except.ok wants)
          rw [readLoop, wanting] at ended
          cases ended
      | false =>
          have enough := (wantsMore_eq reader sound wanted).trans (congrArg Except.ok wants)
          rw [readLoop_enough aead debug wanted _ reader inner enough] at ended
          exact absurd ended (finishRead_ne_ended debug reader sound)
  | cons event events ih =>
      cases wants : decide (reader.cleartext.unread.length < wanted) &&
          decide (reader.ciphertext.spareCapacityLen ≠ 0) with
      | false =>
          have enough := (wantsMore_eq reader sound wanted).trans (congrArg Except.ok wants)
          rw [readLoop_enough aead debug wanted _ reader inner enough] at ended
          exact absurd ended (finishRead_ne_ended debug reader sound)
      | true =>
          have wanting := (wantsMore_eq reader sound wanted).trans (congrArg Except.ok wants)
          have room : reader.ciphertext.spareCapacityLen ≠ 0 := by
            rw [Bool.and_eq_true] at wants
            exact of_decide_eq_true wants.2
          have stops : readLoop aead debug wanted [] reader inner = (.waiting, reader, inner) := by
            rw [readLoop, wanting]
          have stepCase := readStep_cases aead debug event reader inner sound room
          have answered := readStep_endOfStream aead debug event reader inner sound
          cases stepped : readStep aead debug event reader inner with
          | mk outcome after =>
              rw [stepped] at stepCase answered
              cases stepCase with
              | endOfStream gone closed sealed clear =>
                  obtain ⟨extra, rfl⟩ := answered rfl
                  rw [readLoop_stops events wanting stepped]
                  exact ⟨[], extra, events, rfl, stops, gone, closed, sealed, clear⟩
              | continued bytes next rest received msgs final advances opens capacity settled =>
                  rw [readLoop_goesOn events wanting stepped] at ended ⊢
                  obtain ⟨before, extra, later, split, waits, facts⟩ :=
                    ih final rest advances.sound ended
                  refine ⟨event :: before, extra, later, by rw [split]; rfl, ?_, facts⟩
                  rw [readLoop_goesOn before wanting stepped]
                  exact waits
              | innerError refused =>
                  rw [readLoop_stops events wanting stepped] at ended
                  cases ended
              | nothing stalled empty =>
                  rw [readLoop_stops events wanting stepped] at ended
                  cases ended
              | leftover stalled some_ =>
                  rw [readLoop_stops events wanting stepped] at ended
                  cases ended
              | wrapPanic bytes next rest received msgs final advances hidden full beyond =>
                  rw [readLoop_stops events wanting stepped] at ended
                  cases ended
              | invalid bytes next rest received init bad final advances opens failed capacity =>
                  rw [readLoop_stops events wanting stepped] at ended
                  cases ended

theorem readIfNecessary_endOfStream (clean : Clean aead reader inner) (wanted : Option Nat)
    (events : List ReadEvent)
    (ended : (readIfNecessary aead false wanted events reader inner).1 = .ready true) :
    ∃ before extra after, events = before ++ .ready extra :: after ∧
      readIfNecessary aead false wanted before reader inner =
        (.waiting, (readIfNecessary aead false wanted events reader inner).2) ∧
      (readIfNecessary aead false wanted events reader inner).2.2.bytes = [] ∧
      (readIfNecessary aead false wanted events reader inner).2.2.closed = true ∧
      (readIfNecessary aead false wanted events reader inner).2.1.ciphertext.unread = [] ∧
      (readIfNecessary aead false wanted events reader inner).2.1.cleartext.unread = [] := by
  rcases clean.loops wanted with ⟨panic, stops⟩ | ⟨first, after, _, unfolds⟩
  · rw [stops] at ended
    cases ended
  · simp only [unfolds] at ended ⊢
    exact readLoop_endOfStream false _ events first inner after.sound ended

end EncryptedReader

namespace Reading

open EncryptedReader

theorem call_clean {aead : StreamAead} (state : Reading)
    (clean : Clean aead state.reader state.inner) (input : ReaderCall) :
    Clean aead (state.call aead false input).2.reader (state.call aead false input).2.inner := by
  cases input with
  | pollRead remaining events =>
      obtain ⟨after, _⟩ := clean.readIfNecessary (some remaining) events
      have readCase := pollRead_cases aead false remaining events state.reader state.inner
        clean.sound
      simp only [call]
      generalize state.reader.pollRead aead false remaining events state.inner = result
        at readCase ⊢
      generalize EncryptedReader.readIfNecessary aead false (some remaining) events state.reader
        state.inner = before at after readCase
      cases readCase with
      | endOfStream next rest => exact after
      | given next rest cleartext count countEq run =>
          obtain ⟨other, otherRun, capacity, _, handed⟩ :=
            (Advances.refl aead next rest after.sound).handOut count
              (countEq ▸ Nat.min_le_right ..)
          rw [run, Except.ok.injEq] at otherRun
          subst otherRun
          exact after.advance handed (capacity.trans after.intact)
      | stopped outcome next rest notReady => exact after
  | pollFillBuf events =>
      simp only [call, pollFillBuf_eq aead false events _ _ clean.sound]
      exact (clean.readIfNecessary none events).1
  | consume amt =>
      rcases consume_cases aead state.reader state.inner clean.sound amt with
        ⟨_, run⟩ | ⟨next, _, run, capacity, advances⟩
      · simp only [call, run]
        exact clean
      · simp only [call, run]
        exact clean.advance advances (capacity.trans clean.intact)

theorem run_clean {aead : StreamAead} (calls : List ReaderCall) (state final : Reading)
    (clean : Clean aead state.reader state.inner)
    (run : runInputs (Reading.step aead false) calls state = some final) :
    Clean aead final.reader final.inner := by
  refine runInputs_invariant (Reading.step aead false)
    (fun after => Clean aead after.reader after.inner) ?_ calls state final clean run
  intro middle input next before stepped
  obtain ⟨_, _, rfl⟩ := (step_eq_some aead false middle next input).mp stepped
  exact middle.call_clean before input

/-- An empty result on a faultless stream is the end that the inner reader reported. -/
theorem empty_cases {aead : StreamAead} {state next : Reading} {wanted : Option Nat}
    {events : List ReadEvent} (clean : Clean aead state.reader state.inner)
    (positive : wanted ≠ some 0)
    (ran : state.call aead false (pollOf wanted events) = (.ready [], next)) :
    EncryptedReader.readIfNecessary aead false wanted events state.reader state.inner =
      (.ready true, next.reader, next.inner) ∧ next.handed = state.handed := by
  obtain ⟨after, nonempty⟩ := clean.readIfNecessary wanted events
  cases wanted with
  | some remaining =>
      have readCase := pollRead_cases aead false remaining events state.reader state.inner
        clean.sound
      simp only [pollOf, call] at ran
      generalize state.reader.pollRead aead false remaining events state.inner = result
        at readCase ran
      generalize EncryptedReader.readIfNecessary aead false (some remaining) events state.reader
        state.inner = before at after nonempty readCase ⊢
      cases readCase with
      | endOfStream reader rest =>
          cases ran
          exact ⟨rfl, List.append_nil _⟩
      | given reader rest cleartext count countEq run =>
          have some_ : reader.cleartext.unread ≠ [] := nonempty positive rfl
          have nothing : reader.cleartext.unread.take count = [] :=
            Outcome.ready.inj (congrArg Prod.fst ran)
          have lengths := congrArg List.length nothing
          have unread := List.length_pos_iff.mpr some_
          have room : remaining ≠ 0 := fun zero => positive (congrArg some zero)
          rw [List.length_take, List.length_nil] at lengths
          omega
      | stopped outcome reader rest notReady =>
          cases outcome with
          | ready eof => exact absurd rfl (notReady eof)
          | failed kind => cases ran
          | pending => cases ran
          | panicked panic => cases ran
          | waiting => cases ran
  | none =>
      simp only [pollOf, call, pollFillBuf_eq aead false events _ _ clean.sound] at ran
      generalize EncryptedReader.readIfNecessary aead false none events state.reader
        state.inner = before at after nonempty ran ⊢
      obtain ⟨outcome, reader, rest⟩ := before
      cases outcome with
      | ready eof =>
          cases eof with
          | true =>
              cases ran
              exact ⟨rfl, rfl⟩
          | false =>
              have some_ : reader.cleartext.unread ≠ [] := nonempty positive rfl
              exact absurd (Outcome.ready.inj (congrArg Prod.fst ran)) some_
      | failed kind => cases ran
      | pending => cases ran
      | panicked panic => cases ran
      | waiting => cases ran

/-- Faultless streams end truly. -/
theorem trueEnds_of_faultless {aead : StreamAead} {sharedKey : Key} {nonce : Nonce}
    {inner : ByteStream}
    (faultless : Faultless aead (.new sharedKey nonce) inner.bytes inner.closed) :
    TrueEnds aead sharedKey nonce inner := by
  intro calls state run
  have atStart : Clean aead (withNonce sharedKey nonce) inner :=
    ⟨faultless, rfl, withNonce_sound sharedKey nonce⟩
  have clean := run_clean calls _ state atStart run
  constructor
  · intro wanted events next positive ran
    obtain ⟨ended, sameHanded⟩ := empty_cases clean positive ran
    obtain ⟨before, extra, after, split, waits, gone, closed, sealed, clear⟩ :=
      readIfNecessary_endOfStream clean wanted events (congrArg Prod.fst ended)
    rw [ended] at waits gone closed sealed clear
    constructor
    · refine ⟨before, extra, after, ⟨next.reader, next.inner, state.handed⟩, split, ?_, gone,
        closed⟩
      exact (call_waiting aead false state _ wanted before clean.sound).mpr ⟨waits, rfl⟩
    · obtain ⟨msgs, handed, advances, handedEq⟩ :=
        Reading.run_advances aead false calls _ state (withNonce_sound sharedKey nonce) run
      obtain ⟨more, further⟩ := readIfNecessary_advances aead false wanted events state.reader
        state.inner clean.sound
      rw [ended] at further
      have whole := advances.trans further
      have taken := whole.stream
      rw [sealed] at taken
      have all : inner.bytes = frames (msgs ++ more) ++ next.inner.bytes := taken
      have plain := whole.plain
      rw [clear, List.append_nil, List.append_nil] at plain
      refine ⟨msgs ++ more, all, whole.short, faultless.opens _ _ all whole.short, ?_⟩
      rw [sameHanded, handedEq, plain]
      rfl
  · intro empty closed some_ hidden
    obtain ⟨msgs, split, short⟩ := clean.faultless.whole closed
    cases msgs with
    | nil => exact absurd split some_
    | cons msg rest =>
        rw [ahead, split, frames_cons, peekFrame_frame msg _ (short msg (List.mem_cons_self ..))]
          at hidden
        cases hidden
  · intro empty header beyond
    have small := clean.faultless.announced.header header
    exact absurd small (Nat.not_le_of_lt beyond)

end Reading

end Gday.Encryption
