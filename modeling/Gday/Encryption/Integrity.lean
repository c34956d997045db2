import Gday.Encryption.Reading
import Gday.Encryption.Sending

/-! # Integrity against a tampering network

The reader decrypts whatever frames it finds, skips those that fail, and goes on where
it stood.  Under an ideal cipher what it releases is still the beginning of what the
writer encrypted. -/
set_option autoImplicit false
namespace Gday.Encryption

open Gday.Lib.AsyncStream Gday.Lib.Framing Gday.Lib.Machine

/-- What was encrypted under each nonce: the chunks with their ciphertexts, in order. -/
abbrev SealedLogs := Nonce → List (List UInt8 × List UInt8)

/-- Under this key exactly the recorded ciphertexts open, each under its own nonce and at
its own position. -/
def StreamAead.OnlyOpens (aead : StreamAead) (sharedKey : Key) (logs : SealedLogs) : Prop :=
  ∀ nonce position sealed plain, aead.openAt sharedKey nonce position sealed = some plain ↔
    (logs nonce)[position]? = some (plain, sealed)

/-- The logs of a key that one writer used, with this nonce. -/
def oneWriter (nonce : Nonce) (log : List (List UInt8 × List UInt8)) : SealedLogs :=
  fun used => if used = nonce then log else []

/-- Whatever messages it is given, the decryptor releases chunks of the log in order. -/
theorem StreamAead.OnlyOpens.openFrames {aead : StreamAead} {sharedKey : Key} {logs : SealedLogs}
    (only : aead.OnlyOpens sharedKey logs) (stream : StreamLE31) (key : stream.key = sharedKey)
    (msgs : List (List UInt8)) :
    (aead.openFrames stream msgs).1 <+:
      (((logs stream.nonce).drop stream.position).map Prod.fst).flatten := by
  induction msgs generalizing stream with
  | nil => exact List.nil_prefix
  | cons sealed rest ih =>
      simp only [StreamAead.openFrames]
      cases decrypted : aead.decryptNextInPlace stream sealed with
      | none => exact ih stream key
      | some pair =>
          obtain ⟨plain, next⟩ := pair
          obtain ⟨_, opened, rfl⟩ :=
            (aead.decryptNextInPlace_eq_some stream next sealed plain).mp decrypted
          rw [key] at opened
          obtain ⟨inside, found⟩ := List.getElem?_eq_some_iff.mp ((only _ _ _ _).mp opened)
          have later := ih stream.advance key
          rw [List.drop_eq_getElem_cons inside, found, List.map_cons, List.flatten_cons]
          exact (List.prefix_append_right_inj _).mpr later

/-- From its first byte on, a reader hands out nothing but a prefix of the log that
belongs to the nonce it read. -/
theorem Reading.handed_start (aead : StreamAead) (debug : Bool) (sharedKey : Key)
    (logs : SealedLogs) (only : aead.OnlyOpens sharedKey logs)
    (wire rest : ByteStream) (reader : EncryptedReader)
    (opened : EncryptedReader.new wire sharedKey = .ok (reader, rest))
    (calls : List ReaderCall) (final : Reading)
    (run : runInputs (Reading.step aead debug) calls ⟨reader, rest, []⟩ = some final) :
    final.handed ++ final.reader.cleartext.unread <+:
      ((logs (wire.bytes.take 8)).map Prod.fst).flatten := by
  have readerEq : reader = EncryptedReader.withNonce sharedKey (wire.bytes.take 8) := by
    rw [EncryptedReader.new] at opened
    by_cases enough : 8 ≤ wire.bytes.length
    · rw [if_pos enough, Except.ok.injEq, Prod.mk.injEq] at opened
      exact opened.1.symm
    · rw [if_neg enough] at opened
      cases opened
  subst readerEq
  obtain ⟨msgs, handed, advances, handedEq⟩ := Reading.run_advances aead debug calls _ final
    (EncryptedReader.withNonce_sound sharedKey _) run
  have released := only.openFrames (StreamLE31.new sharedKey (wire.bytes.take 8)) rfl msgs
  have plain := advances.plain
  rw [handedEq, List.nil_append, plain]
  exact released

/-- Every byte that was ever handed out, and every byte still shown by `poll_fill_buf`,
lies in a prefix of what the writer accepted. -/
theorem stream_integrity (aead : StreamAead) (writerDebug readerDebug : Bool) (sharedKey : Key)
    (nonce : Nonce) (writerCalls : List WriterCall) (sending : Sending)
    (wrote : runInputs (Sending.step aead writerDebug) writerCalls
      (Sending.start sharedKey nonce) = some sending)
    (only : aead.OnlyOpens sharedKey (oneWriter nonce sending.sealed))
    (wire rest : ByteStream) (reader : EncryptedReader)
    (opened : EncryptedReader.new wire sharedKey = .ok (reader, rest))
    (readerCalls : List ReaderCall) (reading : Reading)
    (read : runInputs (Reading.step aead readerDebug) readerCalls ⟨reader, rest, []⟩ =
      some reading) :
    reading.handed ++ reading.reader.cleartext.unread <+: sending.accepted := by
  have handed := Reading.handed_start aead readerDebug sharedKey _ only wire rest reader opened
    readerCalls reading read
  rw [oneWriter] at handed
  by_cases same : wire.bytes.take 8 = nonce
  · rw [if_pos same] at handed
    obtain ⟨_, acceptedAll, _⟩ := Sending.run_sealed aead writerDebug
      (StreamLE31.new sharedKey nonce) writerCalls _ sending
      (Sending.start_healthy aead sharedKey nonce) wrote
    exact handed.trans acceptedAll
  · rw [if_neg same] at handed
    exact handed.trans List.nil_prefix

theorem ledger_seal_length (_ : Key) (_ : Nonce) (_ : Nat) (plain : List UInt8) :
    (plain ++ List.replicate ciphertextOverhead 0).length = plain.length + ciphertextOverhead := by
  simp

/-- A cipher that opens exactly what the logs record. -/
def ledgerAead (logs : SealedLogs) : StreamAead where
  counterMax := 2 ^ 31 - 1
  sealAt _ _ _ plain := plain ++ List.replicate ciphertextOverhead 0
  openAt _ nonce position sealed :=
    ((logs nonce)[position]?).bind fun entry =>
      if entry.2 = sealed ∧ sealed.length = entry.1.length + ciphertextOverhead then some entry.1
      else none
  sealAt_length := ledger_seal_length
  openAt_length := by
    intro key nonce position sealed plain opened
    obtain ⟨entry, _, opened⟩ := Option.bind_eq_some_iff.mp opened
    by_cases fits : entry.2 = sealed ∧ sealed.length = entry.1.length + ciphertextOverhead
    · rw [if_pos fits, Option.some.injEq] at opened
      rw [← opened]
      exact fits.2
    · rw [if_neg fits] at opened
      cases opened

theorem ledgerAead_onlyOpens (logs : SealedLogs)
    (long : ∀ nonce, ∀ entry ∈ logs nonce,
      entry.2.length = entry.1.length + ciphertextOverhead) (sharedKey : Key) :
    (ledgerAead logs).OnlyOpens sharedKey logs := by
  intro nonce position sealed plain
  show ((logs nonce)[position]?).bind _ = some plain ↔ _
  cases found : (logs nonce)[position]? with
  | none => simp
  | some entry =>
      have fits := long nonce entry (List.mem_of_getElem? found)
      obtain ⟨chunk, message⟩ := entry
      simp only [Option.bind_some, Option.some.injEq, Prod.mk.injEq]
      constructor
      · intro opened
        by_cases same : message = sealed ∧ sealed.length = chunk.length + ciphertextOverhead
        · rw [if_pos same, Option.some.injEq] at opened
          exact ⟨opened, same.1⟩
        · rw [if_neg same] at opened
          cases opened
      · rintro ⟨rfl, rfl⟩
        rw [if_pos ⟨rfl, fits⟩]

/-- A reader of one good frame, a forged frame and the good frame again: the caller polls
on after the error and still gets the three bytes that were written, once. -/
theorem stream_integrity_forged :
    let log := [([97, 98, 99], [97, 98, 99] ++ List.replicate 16 0)]
    let aead := ledgerAead (oneWriter (List.replicate 8 7) log)
    let good := frame ([97, 98, 99] ++ List.replicate 16 0)
    ∃ sending reading,
      runInputs (Sending.step aead true)
          [.pollWrite [97, 98, 99] [], .pollFlush [.ready 30, .ready 0]]
          (Sending.start [] (List.replicate 8 7)) = some sending ∧
        runInputs (Reading.step aead false)
          [.pollFillBuf [.ready 100], .consume 2, .pollRead 5 [.pending], .pollRead 5 [.ready 0]]
          ⟨.withNonce [] (List.replicate 8 7), ⟨good ++ [0, 0, 0, 2, 5, 5] ++ good, false⟩, []⟩ =
            some reading ∧
        reading.handed = [97, 98, 99] ∧
          reading.handed ++ reading.reader.cleartext.unread <+: sending.accepted := by
  intro log aead good
  have wroteLog : (runInputs (Sending.step aead true)
      [.pollWrite [97, 98, 99] [], .pollFlush [.ready 30, .ready 0]]
      (Sending.start [] (List.replicate 8 7))).map Sending.sealed = some log := by decide +kernel
  have readBytes : (runInputs (Reading.step aead false)
      [.pollFillBuf [.ready 100], .consume 2, .pollRead 5 [.pending], .pollRead 5 [.ready 0]]
      ⟨.withNonce [] (List.replicate 8 7), ⟨good ++ [0, 0, 0, 2, 5, 5] ++ good, false⟩, []⟩).map
        Reading.handed = some [97, 98, 99] := by decide +kernel
  obtain ⟨sending, wrote, sealedEq⟩ := Option.map_eq_some_iff.mp wroteLog
  obtain ⟨reading, read, handedEq⟩ := Option.map_eq_some_iff.mp readBytes
  refine ⟨sending, reading, wrote, read, handedEq, ?_⟩
  refine stream_integrity aead true false [] (List.replicate 8 7) _ sending wrote ?_
    ⟨List.replicate 8 7 ++ (good ++ [0, 0, 0, 2, 5, 5] ++ good), false⟩
    ⟨good ++ [0, 0, 0, 2, 5, 5] ++ good, false⟩ _ rfl _ reading read
  rw [sealedEq]
  refine ledgerAead_onlyOpens _ ?_ []
  intro nonce entry member
  rw [oneWriter] at member
  by_cases same : nonce = List.replicate 8 7
  · rw [if_pos same, List.mem_singleton] at member
    rw [member]
    rfl
  · rw [if_neg same] at member
    cases member

end Gday.Encryption
