import Gday.Encryption.GoodStream
import Gday.Encryption.Integrity

/-! # Both directions of a session

`establish_peer_connection` keys the writer and the reader of a peer with one shared
secret, and the reader takes its nonce from the wire.  Whose bytes a reader hands out is
therefore decided by the nonce it is given: with the nonce of the peer's own writer it
opens what that writer encrypted. -/
set_option autoImplicit false
namespace Gday.Encryption

open Gday.Lib.AsyncStream Gday.Lib.Framing Gday.Lib.Machine

/-- `establish_peer_connection` once the peers agree on a secret: the writer drew `nonce`,
and `incoming` is what arrives on the stream. -/
def establishPeerConnection (sharedSecret : Key) (nonce : Nonce) (incoming : ByteStream) :
    Except ErrorKind (EncryptedWriter × EncryptedReader × ByteStream) :=
  match EncryptedReader.new incoming sharedSecret with
  | .error kind => .error kind
  | .ok (reader, rest) => .ok (EncryptedWriter.new sharedSecret nonce, reader, rest)

theorem new_append (sharedKey : Key) (used : Nonce) (eight : used.length = 8)
    (bytes : List UInt8) (closed : Bool) :
    EncryptedReader.new ⟨used ++ bytes, closed⟩ sharedKey =
      .ok (EncryptedReader.withNonce sharedKey used, ⟨bytes, closed⟩) := by
  have long : 8 ≤ (used ++ bytes).length := by
    rw [List.length_append]
    omega
  have first : (used ++ bytes).take 8 = used := List.take_left' eight
  have rest : (used ++ bytes).drop 8 = bytes := List.drop_left' eight
  rw [EncryptedReader.new, if_pos long]
  simp only [first, rest]

theorem establishPeerConnection_ok (sharedSecret : Key) (nonce used : Nonce)
    (eight : used.length = 8) (bytes : List UInt8) (closed : Bool) :
    establishPeerConnection sharedSecret nonce ⟨used ++ bytes, closed⟩ =
      .ok (EncryptedWriter.new sharedSecret nonce, EncryptedReader.withNonce sharedSecret used,
        ⟨bytes, closed⟩) := by
  rw [establishPeerConnection, new_append sharedSecret used eight]

/-- The logs of a key that two writers used, each with its own nonce. -/
def twoWriters (ours : Nonce) (ourLog : List (List UInt8 × List UInt8)) (theirs : Nonce)
    (theirLog : List (List UInt8 × List UInt8)) : SealedLogs :=
  fun used => if used = ours then ourLog else if used = theirs then theirLog else []

/-- The rest of a log opens one message after the other. -/
theorem StreamAead.OnlyOpens.opens_log {aead : StreamAead} {sharedKey : Key} {logs : SealedLogs}
    (only : aead.OnlyOpens sharedKey logs) (stream final : StreamLE31)
    (key : stream.key = sharedKey) (before entries : List (List UInt8 × List UInt8))
    (split : logs stream.nonce = before ++ entries) (position : stream.position = before.length)
    (made : aead.sealChunks stream (entries.map Prod.fst) = some (entries.map Prod.snd, final)) :
    aead.Opens stream (entries.map Prod.snd) ∧
      (aead.openFrames stream (entries.map Prod.snd)).1 = (entries.map Prod.fst).flatten := by
  induction entries generalizing stream before with
  | nil => exact ⟨trivial, rfl⟩
  | cons entry rest ih =>
      obtain ⟨chunk, sealed⟩ := entry
      obtain ⟨message, next, others, headRun, tailRun, messages⟩ :=
        aead.sealChunks_cons stream final chunk _ _ made
      obtain ⟨going, _, rfl⟩ :=
        (aead.encryptNextInPlace_eq_some stream next chunk message).mp headRun
      simp only [List.map_cons, List.cons.injEq] at messages
      rw [← messages.2] at tailRun
      have logged : (logs stream.nonce)[stream.position]? = some (chunk, sealed) := by
        rw [split, position, List.getElem?_append_right (Nat.le_refl _), Nat.sub_self]
        rfl
      have decrypted : aead.decryptNextInPlace stream sealed = some (chunk, stream.advance) := by
        rw [aead.decryptNextInPlace_eq_some]
        exact ⟨going, by rw [key]; exact (only _ _ _ _).mpr logged, rfl⟩
      obtain ⟨opens, plain⟩ := ih stream.advance key (before ++ [(chunk, sealed)])
        (by rw [List.append_assoc]; exact split)
        (by rw [StreamLE31.advance_position, position, List.length_append]; rfl) tailRun
      constructor
      · exact ⟨chunk, stream.advance, decrypted, opens⟩
      · simp only [List.map_cons, StreamAead.openFrames, decrypted, plain, List.flatten_cons]

/-- A reader that is fed the frames of a log, under the nonce of that log, hands out all
of its plaintext. -/
theorem reads_log (aead : StreamAead) (debug : Bool) (sharedKey : Key) (nonce : Nonce)
    (logs : SealedLogs) (only : aead.OnlyOpens sharedKey logs)
    (log : List (List UInt8 × List UInt8)) (logEq : logs nonce = log) (final : StreamLE31)
    (made : aead.sealChunks (StreamLE31.new sharedKey nonce) (log.map Prod.fst) =
      some (log.map Prod.snd, final))
    (small : ∀ chunk ∈ log.map Prod.fst, chunk.length ≤ maxPlain) :
    ∃ calls reading, runInputs (Reading.step aead debug) calls
        ⟨EncryptedReader.withNonce sharedKey nonce, ⟨frames (log.map Prod.snd), false⟩, []⟩ =
          some reading ∧
      reading.handed = (log.map Prod.fst).flatten := by
  obtain ⟨opens, plain⟩ :=
    only.opens_log (StreamLE31.new sharedKey nonce) final rfl [] log logEq rfl made
  have expects : EncryptedReader.Expects aead (log.map Prod.snd) []
      (EncryptedReader.withNonce sharedKey nonce) ⟨frames (log.map Prod.snd), false⟩ :=
    { stream := List.append_nil _
      opens := opens
      small := aead.sealChunks_lengths _ final _ _ maxPlain made small
      intact := rfl
      sound := EncryptedReader.withNonce_sound sharedKey nonce
      unfinished := rfl }
  obtain ⟨calls, reading, run, handed⟩ := Reading.reads_all aead debug
    ⟨EncryptedReader.withNonce sharedKey nonce, ⟨frames (log.map Prod.snd), false⟩, []⟩ _ expects
  refine ⟨calls, reading, run, ?_⟩
  rw [handed, Reading.remaining, List.nil_append]
  exact plain

/-! ## Whose bytes a reader hands out -/

/-- A message that a reader decrypted, under its nonce and at its position. -/
structure Opening where
  nonce : Nonce
  position : Nat
  sealed : List UInt8
  plain : List UInt8
  deriving DecidableEq, Repr

/-- The successful ones of successive decryptions. -/
def StreamAead.openings (aead : StreamAead) : StreamLE31 → List (List UInt8) → List Opening
  | _, [] => []
  | stream, sealed :: rest =>
      match aead.decryptNextInPlace stream sealed with
      | none => aead.openings stream rest
      | some (plain, next) =>
          ⟨stream.nonce, stream.position, sealed, plain⟩ :: aead.openings next rest

/-- The writer with this nonce and this log made the message. -/
def Opening.SealedBy (opening : Opening) (nonce : Nonce)
    (log : List (List UInt8 × List UInt8)) : Prop :=
  opening.nonce = nonce ∧ log[opening.position]? = some (opening.plain, opening.sealed)

/-- The bytes that a reader handed out, each with the message that it was decrypted from: the
frames in question are those that were taken off the stream. -/
def Reading.traced (aead : StreamAead) (sharedKey : Key) (nonce : Nonce) (bytes : List UInt8)
    (reading : Reading) : List (UInt8 × Opening) :=
  let left := reading.reader.ciphertext.unread ++ reading.inner.bytes
  let msgs := cutFrames (bytes.take (bytes.length - left.length))
  ((aead.openings (StreamLE31.new sharedKey nonce) msgs).flatMap fun opening =>
    opening.plain.map fun byte => (byte, opening)).take reading.handed.length

theorem StreamAead.openings_plain (aead : StreamAead) (stream : StreamLE31)
    (msgs : List (List UInt8)) :
    (aead.openings stream msgs).flatMap Opening.plain = (aead.openFrames stream msgs).1 := by
  induction msgs generalizing stream with
  | nil => rfl
  | cons sealed rest ih =>
      rw [StreamAead.openings, StreamAead.openFrames]
      cases aead.decryptNextInPlace stream sealed with
      | none => exact ih stream
      | some pair => rw [List.flatMap_cons, ih pair.2]

/-- A message opens under the nonce of its stream, and only where a log has it. -/
theorem StreamAead.OnlyOpens.openings {aead : StreamAead} {sharedKey : Key} {logs : SealedLogs}
    (only : aead.OnlyOpens sharedKey logs) (stream : StreamLE31) (key : stream.key = sharedKey)
    (msgs : List (List UInt8)) :
    ∀ opening ∈ aead.openings stream msgs, opening.SealedBy stream.nonce (logs stream.nonce) := by
  induction msgs generalizing stream with
  | nil =>
      intro opening member
      cases member
  | cons sealed rest ih =>
      intro opening member
      rw [StreamAead.openings] at member
      cases decrypted : aead.decryptNextInPlace stream sealed with
      | none =>
          rw [decrypted] at member
          exact ih stream key opening member
      | some pair =>
          obtain ⟨plain, next⟩ := pair
          rw [decrypted] at member
          obtain ⟨_, opened, rfl⟩ :=
            (aead.decryptNextInPlace_eq_some stream next sealed plain).mp decrypted
          rcases List.mem_cons.mp member with rfl | later
          · rw [key] at opened
            exact ⟨rfl, (only _ _ _ _).mp opened⟩
          · exact ih stream.advance key opening later

/-- The traced bytes are those that were handed out. -/
theorem Reading.traced_bytes (aead : StreamAead) (debug : Bool) (sharedKey : Key) (nonce : Nonce)
    (inner : ByteStream) (calls : List ReaderCall) (reading : Reading)
    (run : runInputs (Reading.step aead debug) calls
      ⟨EncryptedReader.withNonce sharedKey nonce, inner, []⟩ = some reading) :
    (reading.traced aead sharedKey nonce inner.bytes).map Prod.fst = reading.handed := by
  obtain ⟨msgs, handed, advances, handedEq⟩ := Reading.run_advances aead debug calls _ reading
    (EncryptedReader.withNonce_sound sharedKey nonce) run
  have stream : inner.bytes =
      frames msgs ++ (reading.reader.ciphertext.unread ++ reading.inner.bytes) := advances.stream
  have taken : inner.bytes.take (inner.bytes.length -
      (reading.reader.ciphertext.unread ++ reading.inner.bytes).length) = frames msgs := by
    rw [stream, List.length_append, Nat.add_sub_cancel]
    exact List.take_left' rfl
  have plain : handed ++ reading.reader.cleartext.unread =
      (aead.openFrames (StreamLE31.new sharedKey nonce) msgs).1 := advances.plain
  rw [Reading.traced, taken, cutFrames_frames msgs advances.short, handedEq, List.nil_append,
    List.map_take, List.map_flatMap]
  simp only [List.map_map, Function.comp_def, List.map_id']
  show ((aead.openings _ msgs).flatMap Opening.plain).take _ = _
  rw [aead.openings_plain, ← plain]
  exact List.take_left' rfl

theorem Reading.traced_sealed (aead : StreamAead) (sharedKey : Key) (logs : SealedLogs)
    (only : aead.OnlyOpens sharedKey logs) (nonce : Nonce) (bytes : List UInt8)
    (reading : Reading) :
    ∀ entry ∈ reading.traced aead sharedKey nonce bytes,
      entry.2.SealedBy nonce (logs nonce) := by
  intro entry member
  obtain ⟨opening, opened, inside⟩ := List.mem_flatMap.mp (List.mem_of_mem_take member)
  obtain ⟨byte, _, rfl⟩ := List.mem_map.mp inside
  exact only.openings (StreamLE31.new sharedKey nonce) rfl _ opening opened

/-- All that was handed out is a beginning of what the peer's writer accepted, and every byte of
it comes from a message which that writer made, and not the own one. -/
structure FromPeer (aead : StreamAead) (sharedSecret : Key) (ours theirs used : Nonce)
    (sending peer : Sending) (bytes : List UInt8) (reading : Reading) : Prop where
  start : reading.handed <+: peer.accepted
  foreign : ∀ entry ∈ reading.traced aead sharedSecret used bytes,
    entry.2.SealedBy theirs peer.sealed
  notOwn : ∀ entry ∈ reading.traced aead sharedSecret used bytes,
    ¬entry.2.SealedBy ours sending.sealed

/-- A reader that hands out nothing has nothing from anyone else. -/
theorem FromPeer.of_nothing {aead : StreamAead} {sharedSecret : Key} {ours theirs used : Nonce}
    {sending peer : Sending} {bytes : List UInt8} {reading : Reading}
    (traced : (reading.traced aead sharedSecret used bytes).map Prod.fst = reading.handed)
    (nothing : reading.handed = []) :
    FromPeer aead sharedSecret ours theirs used sending peer bytes reading := by
  rw [nothing, List.map_eq_nil_iff] at traced
  exact
    { start := nothing ▸ List.nil_prefix
      foreign := by simp [traced]
      notOwn := by simp [traced] }

/-- A reader only hands out what the peer's writer encrypted, whatever arrives behind the nonce,
if and only if that nonce is not the one of its own writer, or its own writer has encrypted
nothing. -/
theorem session_origin_iff (aead : StreamAead) (ourDebug theirDebug debug : Bool)
    (sharedSecret : Key) (ours theirs : Nonce) (distinct : ours ≠ theirs)
    (ourCalls theirCalls : List WriterCall) (sending peer : Sending)
    (wrote : runInputs (Sending.step aead ourDebug) ourCalls (Sending.start sharedSecret ours) =
      some sending)
    (peerWrote : runInputs (Sending.step aead theirDebug) theirCalls
      (Sending.start sharedSecret theirs) = some peer)
    (only : aead.OnlyOpens sharedSecret (twoWriters ours sending.sealed theirs peer.sealed))
    (used : Nonce) (eight : used.length = 8) :
    (∀ bytes closed writer reader rest calls reading,
      establishPeerConnection sharedSecret ours ⟨used ++ bytes, closed⟩ =
        .ok (writer, reader, rest) →
      runInputs (Reading.step aead debug) calls ⟨reader, rest, []⟩ = some reading →
        FromPeer aead sharedSecret ours theirs used sending peer bytes reading) ↔
      used ≠ ours ∨ (sending.sealed.map Prod.fst).flatten = [] := by
  obtain ⟨made, _, small⟩ := Sending.run_sealed aead ourDebug (StreamLE31.new sharedSecret ours)
    ourCalls _ sending (Sending.start_healthy aead sharedSecret ours) wrote
  obtain ⟨_, peerAccepted, _⟩ := Sending.run_sealed aead theirDebug
    (StreamLE31.new sharedSecret theirs) theirCalls _ peer
    (Sending.start_healthy aead sharedSecret theirs) peerWrote
  constructor
  · intro authentic
    by_cases own : used = ours
    · right
      subst own
      obtain ⟨calls, reading, run, handed⟩ := reads_log aead debug sharedSecret used _ only
        sending.sealed (if_pos rfl) _ made small
      have origin := authentic _ false _ _ _ calls reading
        (establishPeerConnection_ok sharedSecret used used eight _ false) run
      rw [← handed, ← reading.traced_bytes aead debug sharedSecret used _ calls run,
        List.map_eq_nil_iff, List.eq_nil_iff_forall_not_mem]
      intro entry member
      have sealed := reading.traced_sealed aead sharedSecret _ only used _ entry member
      exact distinct (sealed.1.symm.trans (origin.foreign entry member).1)
    · exact .inl own
  · intro apart bytes closed writer reader rest calls reading opened run
    rw [establishPeerConnection_ok sharedSecret ours used eight bytes closed, Except.ok.injEq,
      Prod.mk.injEq, Prod.mk.injEq] at opened
    obtain ⟨_, rfl, rfl⟩ := opened
    have handed := Reading.handed_start aead debug sharedSecret _ only _ _ _
      (new_append sharedSecret used eight bytes closed) calls reading run
    have traced := reading.traced_bytes aead debug sharedSecret used _ calls run
    have sealed := reading.traced_sealed aead sharedSecret _ only used bytes
    have first : (used ++ bytes).take 8 = used := List.take_left' eight
    simp only [first, twoWriters] at handed sealed
    have start := (List.prefix_append reading.handed reading.reader.cleartext.unread).trans handed
    by_cases own : used = ours
    · rw [if_pos own, apart.resolve_left (not_not.mpr own), List.prefix_nil] at start
      exact .of_nothing traced start
    · simp only [if_neg own] at start sealed
      by_cases their : used = theirs
      · simp only [if_pos their] at start sealed
        exact
          { start := start.trans peerAccepted
            foreign := fun entry member => their ▸ sealed entry member
            notOwn := fun entry member same => own ((sealed entry member).1.symm.trans same.1) }
      · simp only [if_neg their] at start
        exact .of_nothing traced (List.prefix_nil.mp start)

/-- The nonces of two writers, and the log of one that wrote three bytes. -/
def ourNonce : Nonce := List.replicate 8 7

def theirNonce : Nonce := List.replicate 8 9

def abcLog : List (List UInt8 × List UInt8) :=
  [([97, 98, 99], [97, 98, 99] ++ List.replicate 16 0)]

def abcAead : StreamAead := ledgerAead (twoWriters ourNonce abcLog theirNonce abcLog)

theorem abcAead_onlyOpens :
    abcAead.OnlyOpens [] (twoWriters ourNonce abcLog theirNonce abcLog) := by
  refine ledgerAead_onlyOpens _ ?_ []
  intro nonce entry member
  have logged : entry ∈ abcLog := by
    rw [twoWriters] at member
    split at member
    · exact member
    · split at member
      · exact member
      · cases member
  rw [List.mem_singleton.mp logged]
  rfl

def writesAbc : List WriterCall := [.pollWrite [97, 98, 99] [], .pollFlush [.ready 30, .ready 0]]

theorem abc_written (nonce : Nonce) (among : nonce = ourNonce ∨ nonce = theirNonce) :
    (runInputs (Sending.step abcAead true) writesAbc (Sending.start [] nonce)).map
      Sending.sealed = some abcLog := by
  rcases among with rfl | rfl <;> decide +kernel

/-- Both peers wrote the same three bytes; a reader that is given the other one's nonce hands
out the other one's. -/
theorem session_origin_both :
    ∃ sending peer, runInputs (Sending.step abcAead true) writesAbc (Sending.start [] ourNonce) =
        some sending ∧
      runInputs (Sending.step abcAead true) writesAbc (Sending.start [] theirNonce) = some peer ∧
      ∀ bytes closed writer reader rest calls reading,
        establishPeerConnection [] ourNonce ⟨theirNonce ++ bytes, closed⟩ =
          .ok (writer, reader, rest) →
        runInputs (Reading.step abcAead true) calls ⟨reader, rest, []⟩ = some reading →
          FromPeer abcAead [] ourNonce theirNonce theirNonce sending peer bytes reading := by
  obtain ⟨sending, wrote, log⟩ := Option.map_eq_some_iff.mp (abc_written _ (.inl rfl))
  obtain ⟨peer, peerWrote, peerLog⟩ := Option.map_eq_some_iff.mp (abc_written _ (.inr rfl))
  refine ⟨sending, peer, wrote, peerWrote, ?_⟩
  exact (session_origin_iff abcAead true true true [] ourNonce theirNonce (by decide) _ _ sending
    peer wrote peerWrote (by rw [log, peerLog]; exact abcAead_onlyOpens) theirNonce rfl).mpr
      (.inl (by decide))

/-- The peer's own frame, sent back to it with its own nonce, is handed out; the other peer wrote
the same three bytes, but none of those that were read. -/
theorem session_reflected :
    ∃ sending peer reading,
      runInputs (Sending.step abcAead true) writesAbc (Sending.start [] ourNonce) = some sending ∧
        runInputs (Sending.step abcAead true) writesAbc (Sending.start [] theirNonce) =
          some peer ∧
        abcAead.OnlyOpens [] (twoWriters ourNonce sending.sealed theirNonce peer.sealed) ∧
        establishPeerConnection [] ourNonce ⟨ourNonce ++ sending.sent, false⟩ =
          .ok (EncryptedWriter.new [] ourNonce, EncryptedReader.withNonce [] ourNonce,
            ⟨sending.sent, false⟩) ∧
        runInputs (Reading.step abcAead true) [.pollRead 3 [.ready 30]]
          ⟨EncryptedReader.withNonce [] ourNonce, ⟨sending.sent, false⟩, []⟩ = some reading ∧
        reading.handed = [97, 98, 99] ∧
        ∀ entry ∈ reading.traced abcAead [] ourNonce sending.sent,
          entry.2.SealedBy ourNonce sending.sealed ∧ ¬entry.2.SealedBy theirNonce peer.sealed := by
  obtain ⟨sending, wrote, log⟩ := Option.map_eq_some_iff.mp (abc_written _ (.inl rfl))
  obtain ⟨peer, peerWrote, peerLog⟩ := Option.map_eq_some_iff.mp (abc_written _ (.inr rfl))
  have readBack : (runInputs (Sending.step abcAead true) writesAbc
      (Sending.start [] ourNonce)).bind (fun sending =>
        (runInputs (Reading.step abcAead true) [.pollRead 3 [.ready 30]]
          ⟨EncryptedReader.withNonce [] ourNonce, ⟨sending.sent, false⟩, []⟩).map
            Reading.handed) = some [97, 98, 99] := by
    decide +kernel
  rw [wrote, Option.bind_some] at readBack
  obtain ⟨reading, run, handed⟩ := Option.map_eq_some_iff.mp readBack
  have only : abcAead.OnlyOpens [] (twoWriters ourNonce sending.sealed theirNonce peer.sealed) := by
    rw [log, peerLog]
    exact abcAead_onlyOpens
  refine ⟨sending, peer, reading, wrote, peerWrote, only,
    establishPeerConnection_ok [] ourNonce ourNonce rfl _ _, run, handed, ?_⟩
  intro entry member
  have sealed := reading.traced_sealed abcAead [] _ only ourNonce sending.sent entry member
  rw [twoWriters, if_pos rfl] at sealed
  exact ⟨sealed, fun other => absurd (sealed.1.symm.trans other.1) (by decide)⟩

end Gday.Encryption
