import Gday.Encryption.Reading

/-! # The plaintext of a stream of bytes

What a reader hands out is told by the bytes of its stream alone.  How they are cut, what is
called and in which order, and what fails on the way only say how far it gets. -/
set_option autoImplicit false
namespace Gday.Encryption

open Gday.Lib.AsyncStream Gday.Lib.Framing Gday.Lib.Machine

/-- What the complete frames of a stream decrypt to, one after the other, without those that
do not decrypt. -/
def plainTextOf (aead : StreamAead) (sharedKey : Key) (bytes : List UInt8) : List UInt8 :=
  (aead.openFrames (.new sharedKey (bytes.take 8)) (cutFrames (bytes.drop 8))).1

theorem StreamAead.openFrames_prefix (aead : StreamAead) (stream : StreamLE31)
    {first second : List (List UInt8)} (earlier : first <+: second) :
    (aead.openFrames stream first).1 <+: (aead.openFrames stream second).1 := by
  obtain ⟨more, rfl⟩ := earlier
  rw [aead.openFrames_append]
  exact List.prefix_append ..

/-- More bytes only add plaintext at the end. -/
theorem plainTextOf_append (aead : StreamAead) (sharedKey : Key) (bytes more : List UInt8)
    (opened : 8 ≤ bytes.length) :
    plainTextOf aead sharedKey bytes <+: plainTextOf aead sharedKey (bytes ++ more) := by
  rw [plainTextOf, plainTextOf, List.take_append_of_le_length opened,
    List.drop_append_of_le_length opened]
  exact aead.openFrames_prefix _ (cutFrames_append ..)

theorem EncryptedReader.new_eq_ok {wire rest : ByteStream} {sharedKey : Key}
    {reader : EncryptedReader} (opened : EncryptedReader.new wire sharedKey = .ok (reader, rest)) :
    8 ≤ wire.bytes.length ∧ reader = .withNonce sharedKey (wire.bytes.take 8) ∧
      rest.bytes = wire.bytes.drop 8 := by
  rw [EncryptedReader.new] at opened
  by_cases enough : 8 ≤ wire.bytes.length
  · rw [if_pos enough, Except.ok.injEq, Prod.mk.injEq] at opened
    obtain ⟨rfl, rfl⟩ := opened
    exact ⟨enough, rfl, rfl⟩
  · rw [if_neg enough] at opened
    cases opened

/-- Whatever was handed out, and what is shown, is a beginning of the plaintext. -/
theorem Reading.handed_plainTextOf (aead : StreamAead) (debug : Bool) (sharedKey : Key)
    (wire rest : ByteStream) (reader : EncryptedReader)
    (opened : EncryptedReader.new wire sharedKey = .ok (reader, rest))
    (calls : List ReaderCall) (final : Reading)
    (run : runInputs (Reading.step aead debug) calls ⟨reader, rest, []⟩ = some final) :
    final.handed ++ final.reader.cleartext.unread <+: plainTextOf aead sharedKey wire.bytes := by
  obtain ⟨_, rfl, restEq⟩ := EncryptedReader.new_eq_ok opened
  obtain ⟨msgs, handed, advances, handedEq⟩ := Reading.run_advances aead debug calls _ final
    (EncryptedReader.withNonce_sound sharedKey _) run
  have stream : rest.bytes = frames msgs ++ (final.reader.ciphertext.unread ++ final.inner.bytes) :=
    advances.stream
  have cut : msgs <+: cutFrames (wire.bytes.drop 8) := by
    rw [← restEq, stream]
    exact prefix_cutFrames msgs _ advances.short
  rw [handedEq, List.nil_append, advances.plain]
  exact aead.openFrames_prefix _ cut

/-- Two readers of one stream, of which one may have got more of it, give the same bytes as
far as both have got. -/
theorem same_bytes (aead : StreamAead) (firstDebug secondDebug : Bool) (sharedKey : Key)
    (wire rest longer longerRest : ByteStream) (more : List UInt8)
    (grown : longer.bytes = wire.bytes ++ more) (firstReader secondReader : EncryptedReader)
    (opened : EncryptedReader.new wire sharedKey = .ok (firstReader, rest))
    (openedToo : EncryptedReader.new longer sharedKey = .ok (secondReader, longerRest))
    (firstCalls secondCalls : List ReaderCall) (first second : Reading)
    (run : runInputs (Reading.step aead firstDebug) firstCalls ⟨firstReader, rest, []⟩ =
      some first)
    (otherRun : runInputs (Reading.step aead secondDebug) secondCalls
      ⟨secondReader, longerRest, []⟩ = some second) :
    first.handed ++ first.reader.cleartext.unread <+: plainTextOf aead sharedKey wire.bytes ∧
      second.handed ++ second.reader.cleartext.unread <+:
        plainTextOf aead sharedKey longer.bytes ∧
      plainTextOf aead sharedKey wire.bytes <+: plainTextOf aead sharedKey longer.bytes ∧
      (first.handed <+: second.handed ∨ second.handed <+: first.handed) := by
  have firstPlain := Reading.handed_plainTextOf aead firstDebug sharedKey wire rest firstReader
    opened firstCalls first run
  have secondPlain := Reading.handed_plainTextOf aead secondDebug sharedKey longer longerRest
    secondReader openedToo secondCalls second otherRun
  have grows : plainTextOf aead sharedKey wire.bytes <+:
      plainTextOf aead sharedKey longer.bytes := by
    rw [grown]
    exact plainTextOf_append aead sharedKey _ more (EncryptedReader.new_eq_ok opened).1
  refine ⟨firstPlain, secondPlain, grows, ?_⟩
  have firstHanded := ((List.prefix_append _ _).trans firstPlain).trans grows
  have secondHanded := (List.prefix_append _ _).trans secondPlain
  exact List.prefix_or_prefix_of_prefix firstHanded secondHanded

/-- A bad frame between two good ones: one reader gets all at once and polls on after the
failure, the other takes the stream byte by byte and stops before it. -/
theorem abc_same_bytes :
    let good := frame ([97, 98, 99] ++ List.replicate 16 0)
    let bytes := good ++ frame [5] ++ good
    ∃ first second,
      runInputs (Reading.step paddingAead false) [.pollRead 2 [.ready 100], .pollRead 2 []]
          ⟨.withNonce [] (List.replicate 8 0), ⟨bytes, false⟩, []⟩ = some first ∧
        runInputs (Reading.step paddingAead true)
          [.pollRead 1 (List.replicate 23 (.ready 0)), .pollFillBuf [.pending], .consume 1,
            .pollRead 9 [.pending]]
          ⟨.withNonce [] (List.replicate 8 0), ⟨bytes ++ [1], true⟩, []⟩ = some second ∧
        first.handed = [97, 98] ∧ second.handed = [97, 98, 99] ∧
        second.handed ++ second.reader.cleartext.unread <+:
          plainTextOf paddingAead [] (List.replicate 8 0 ++ (bytes ++ [1])) := by
  intro good bytes
  have readFirst : (runInputs (Reading.step paddingAead false)
      [.pollRead 2 [.ready 100], .pollRead 2 []]
      ⟨.withNonce [] (List.replicate 8 0), ⟨bytes, false⟩, []⟩).map Reading.handed =
        some [97, 98] := by
    decide +kernel
  have readSecond : (runInputs (Reading.step paddingAead true)
      [.pollRead 1 (List.replicate 23 (.ready 0)), .pollFillBuf [.pending], .consume 1,
        .pollRead 9 [.pending]]
      ⟨.withNonce [] (List.replicate 8 0), ⟨bytes ++ [1], true⟩, []⟩).map Reading.handed =
        some [97, 98, 99] := by
    decide +kernel
  obtain ⟨first, run, handed⟩ := Option.map_eq_some_iff.mp readFirst
  obtain ⟨second, otherRun, otherHanded⟩ := Option.map_eq_some_iff.mp readSecond
  refine ⟨first, second, run, otherRun, handed, otherHanded, ?_⟩
  exact (same_bytes paddingAead false true [] ⟨List.replicate 8 0 ++ bytes, false⟩ _
    ⟨List.replicate 8 0 ++ (bytes ++ [1]), true⟩ _ [1] (List.append_assoc ..).symm _ _ rfl rfl
    _ _ first second run otherRun).2.1

end Gday.Encryption
