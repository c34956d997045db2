import Gday.Chat.MessageFraming
import Gday.Lib.Reencoding

/-! # What is read is well formed

Whatever bytes `deserialize_from` gets, a message that it returns is one that `serialize_into`
takes: its paths are strings, and its frame is no longer than the buffer it was read from.  Read
again, it is the same message. -/
set_option autoImplicit false
namespace Gday.Chat.Protocol

open Gday.Lib.BigEndian Gday.Lib.Postcard Gday.Lib.SegmentedStream

theorem payloadCodec_reencodes : ∀ variant, Reencodes (payloadCodec variant)
  | 0 => option_reencodes (vec_reencodes (pair_reencodes str_reencodes u64_reencodes))
  | 1 => vec_reencodes bool_reencodes

theorem wireCodec_reencodes : Reencodes wireCodec :=
  enumeration_reencodes two_variants payloadCodec_reencodes

/-! ## Encoding what was decoded -/

theorem FileMeta.wire_ofWire (wire : Str × UInt64) : (FileMeta.ofWire wire).wire = .ok wire := by
  have valid : isUtf8 (FileMeta.ofWire wire).path.val := wire.1.property.2
  unfold FileMeta.wire PathBuf.toStr
  rw [dif_pos valid]
  rfl

theorem wireFiles_ofWire (wires : List (Str × UInt64)) :
    ∃ same, wireFiles (wires.map FileMeta.ofWire) = .ok same ∧ same.val = wires := by
  induction wires with
  | nil => exact ⟨⟨[], rfl⟩, rfl, rfl⟩
  | cons wire wires ih =>
      obtain ⟨same, encoded, back⟩ := ih
      refine ⟨⟨wire :: same.val, congrArg (· + 1) same.property⟩, ?_, ?_⟩
      · show wireFiles (FileMeta.ofWire wire :: wires.map FileMeta.ofWire) = _
        rw [wireFiles, FileMeta.wire_ofWire, encoded]
        rfl
      · exact congrArg (wire :: ·) back

theorem Message.wire_ofWire (wire : Sigma payload) : (Message.ofWire wire).wire = .ok wire := by
  match wire with
  | ⟨0, none⟩ => rfl
  | ⟨0, some wires⟩ =>
      obtain ⟨same, encoded, back⟩ := wireFiles_ofWire wires.val
      show (Message.fileOffer (some ⟨wires.val.map FileMeta.ofWire,
        (List.length_map FileMeta.ofWire).symm ▸ wires.property⟩)).wire = _
      unfold Message.wire
      simp only [encoded]
      exact congrArg (fun files => Except.ok (⟨0, some files⟩ : Sigma payload))
        (Subtype.ext back)
  | ⟨1, chosen⟩ => rfl

/-- What `from_bytes` returns is encoded in no more bytes than it was given. -/
theorem Message.fromBytes_encoded {bytes : List UInt8} {message : Message}
    (decoded : Message.fromBytes bytes = .ok message) :
    ∃ encoding, message.toStdvec = .ok encoding ∧ encoding.length ≤ bytes.length := by
  obtain ⟨wire, read, rfl⟩ := ok_of_map decoded
  refine ⟨wireCodec.write wire, ?_, (wireCodec_reencodes.fromBytes read).1⟩
  rw [Message.toStdvec, Message.wire_ofWire]
  rfl

theorem Message.utf8_of_encoded {bytes : List UInt8} {message : Message}
    (encoded : message.toStdvec = .ok bytes) : message.Utf8 := by
  by_contra invalid
  rw [Message.toStdvec, message.wire_invalid invalid] at encoded
  cases encoded

theorem deserializeFrom_decoded {stream rest : Segments} {tmpBuf buffer : List UInt8}
    {message : Message} (read : deserializeFrom stream tmpBuf = (.ok message, rest, buffer)) :
    Message.fromBytes buffer = .ok message := by
  unfold deserializeFrom at read
  split at read
  · cases read
  · simp only at read
    split at read
    · cases read
    · split at read
      · cases read
      · next decoded =>
          cases read
          exact decoded

/-- A message that was read, from whatever bytes and with whatever in the buffer, can be
written: in a frame that is no longer than the buffer, and from which it is read again. -/
theorem read_written_again (stream rest : Segments) (tmpBuf buffer : List UInt8)
    (message : Message) (read : deserializeFrom stream tmpBuf = (.ok message, rest, buffer))
    (short : buffer.length < 2 ^ 32) :
    message.Sendable ∧ ∃ frame_ : List UInt8, frame_.length ≤ 4 + buffer.length ∧
      (∀ already, serializeInto ⟨already, none⟩ message = (.ok (), ⟨already ++ frame_, none⟩)) ∧
      ∀ (again : Segments) (trailing other : List UInt8), again.flatten = frame_ ++ trailing →
        ∃ behind filled, deserializeFrom again other = (.ok message, behind, filled) ∧
          behind.flatten = trailing := by
  obtain ⟨encoding, encoded, fits⟩ := Message.fromBytes_encoded (deserializeFrom_decoded read)
  have sendable : message.Sendable := by
    refine ⟨Message.utf8_of_encoded encoded, fun bytes same => ?_⟩
    rw [encoded, Except.ok.injEq] at same
    rw [← same]
    omega
  obtain ⟨bytes, same, small, written⟩ := serializeInto_sendable message sendable
  rw [encoded, Except.ok.injEq] at same
  subst same
  refine ⟨sendable, toBe encoding.length ++ encoding, ?_, written, ?_⟩
  · rw [List.length_append, toBe_length]
    omega
  · intro again trailing other delivers
    exact deserializeFrom_frame message encoding trailing other encoded small again delivers

/-- One file is accepted, in two bytes for a length of one, which is written in one. -/
theorem longAnswer_written : ∃ frame_ : List UInt8, frame_.length ≤ 8 ∧
    serializeInto ⟨[], none⟩ (.fileAccept ⟨[true], Nat.one_lt_two_pow (by omega)⟩) =
      (.ok (), ⟨frame_, none⟩) := by
  obtain ⟨_, frame_, short, written, _⟩ := read_written_again [[0, 0, 0, 4, 1, 129, 0, 1]] [] []
    [1, 129, 0, 1] (.fileAccept ⟨[true], Nat.one_lt_two_pow (by omega)⟩) rfl (by decide)
  exact ⟨frame_, short, written []⟩

end Gday.Chat.Protocol
