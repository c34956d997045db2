import Gday.Chat.Protocol

/-! # Messages arrive as they were sent

A frame is read back from the start of any stream that begins with it, whatever the buffer
held; over a sequence of messages the stream is left exactly behind the last frame. -/
set_option autoImplicit false
namespace Gday.Chat.Protocol

open Gday.Lib.BigEndian Gday.Lib.Postcard Gday.Lib.SegmentedStream

/-- All the paths are strings. -/
def Message.Utf8 : Message → Prop
  | .fileOffer (some files) => ∀ meta_ ∈ files.val, isUtf8 meta_.path.val
  | .fileOffer none => True
  | .fileAccept _ => True

/-- The paths are strings and the encoding has a `u32` for its length. -/
def Message.Sendable (message : Message) : Prop :=
  message.Utf8 ∧ ∀ bytes, message.toStdvec = .ok bytes → bytes.length < 2 ^ 32

/-! ## Encoding one message -/

theorem FileMeta.wire_utf8 (meta_ : FileMeta) (valid : isUtf8 meta_.path.val) :
    ∃ wire, meta_.wire = .ok wire ∧ FileMeta.ofWire wire = meta_ := by
  refine ⟨(⟨meta_.path.val, meta_.path.property, valid⟩, meta_.size), ?_, rfl⟩
  unfold FileMeta.wire PathBuf.toStr
  rw [dif_pos valid]

theorem FileMeta.wire_invalid (meta_ : FileMeta) (invalid : ¬ isUtf8 meta_.path.val) :
    meta_.wire = .error .serdeSerCustom := by
  unfold FileMeta.wire PathBuf.toStr
  rw [dif_neg invalid]

theorem wireFiles_utf8 (files : List FileMeta)
    (valid : ∀ meta_ ∈ files, isUtf8 meta_.path.val) :
    ∃ wires, wireFiles files = .ok wires ∧ wires.val.map FileMeta.ofWire = files := by
  induction files with
  | nil => exact ⟨⟨[], rfl⟩, rfl, rfl⟩
  | cons meta_ files ih =>
      obtain ⟨wire, encoded, back⟩ := meta_.wire_utf8 (valid meta_ List.mem_cons_self)
      obtain ⟨wires, encodedRest, backRest⟩ :=
        ih fun other member => valid other (List.mem_cons_of_mem _ member)
      refine ⟨⟨wire :: wires.val, congrArg (· + 1) wires.property⟩, ?_, ?_⟩
      · unfold wireFiles
        rw [encoded, encodedRest]
        rfl
      · rw [List.map_cons, back, backRest]

theorem wireFiles_invalid (files : List FileMeta)
    (invalid : ¬ ∀ meta_ ∈ files, isUtf8 meta_.path.val) :
    wireFiles files = .error .serdeSerCustom := by
  induction files with
  | nil => exact absurd (fun _ member => absurd member List.not_mem_nil) invalid
  | cons meta_ files ih =>
      unfold wireFiles
      by_cases valid : isUtf8 meta_.path.val
      · obtain ⟨wire, encoded, -⟩ := meta_.wire_utf8 valid
        have failed := ih fun all => invalid fun other member => by
          rcases List.mem_cons.mp member with rfl | member
          · exact valid
          · exact all other member
        rw [encoded, failed]
        rfl
      · rw [meta_.wire_invalid valid]
        rfl

theorem Message.wire_utf8 (message : Message) (valid : message.Utf8) :
    ∃ wire, message.wire = .ok wire ∧ Message.ofWire wire = message := by
  cases message with
  | fileAccept chosen => exact ⟨⟨1, chosen⟩, rfl, rfl⟩
  | fileOffer files =>
      cases files with
      | none => exact ⟨⟨0, none⟩, rfl, rfl⟩
      | some files =>
          obtain ⟨wires, encoded, back⟩ := wireFiles_utf8 files.val valid
          refine ⟨⟨0, some ⟨wires.val, wires.property.symm ▸ files.property⟩⟩, ?_, ?_⟩
          · unfold Message.wire
            simp only [encoded]
            rfl
          · unfold Message.ofWire
            exact congrArg (fun files => Message.fileOffer (some files)) (Subtype.ext back)

theorem Message.wire_invalid (message : Message) (invalid : ¬ message.Utf8) :
    message.wire = .error .serdeSerCustom := by
  cases message with
  | fileAccept chosen => exact absurd trivial invalid
  | fileOffer files =>
      cases files with
      | none => exact absurd trivial invalid
      | some files =>
          unfold Message.wire
          simp only [wireFiles_invalid files.val invalid]
          rfl

theorem wireCodec_kept (wire : Sigma payload) : wireCodec.kept wire = wire := by
  match wire with
  | ⟨0, none⟩ => rfl
  | ⟨0, some wires⟩ =>
      have kept := vec_kept (pair str u64) (fun _ => rfl) wires
      exact congrArg (fun wires => (⟨0, some wires⟩ : Sigma payload)) kept
  | ⟨1, chosen⟩ =>
      have kept := vec_kept bool (fun _ => rfl) chosen
      exact congrArg (fun chosen => (⟨1, chosen⟩ : Sigma payload)) kept

/-- Whatever follows the encoding is not looked at. -/
theorem Message.fromBytes_toStdvec (message : Message) (bytes rest : List UInt8)
    (encoded : message.toStdvec = .ok bytes) :
    Message.fromBytes (bytes ++ rest) = .ok message := by
  unfold Message.toStdvec at encoded
  by_cases valid : message.Utf8
  · obtain ⟨wire, wired, back⟩ := message.wire_utf8 valid
    rw [wired] at encoded
    cases encoded
    unfold Message.fromBytes Lib.Postcard.fromBytes
    rw [wireCodec.reads, wireCodec_kept]
    exact congrArg Except.ok back
  · rw [message.wire_invalid valid] at encoded
    cases encoded

/-! ## One frame -/

theorem deserializeFrom_frame (message : Message) (bytes trailing tmpBuf : List UInt8)
    (encoded : message.toStdvec = .ok bytes) (short : bytes.length < 2 ^ 32) (stream : Segments)
    (delivers : stream.flatten = toBe bytes.length ++ bytes ++ trailing) :
    ∃ rest buffer, deserializeFrom stream tmpBuf = (.ok message, rest, buffer) ∧
      rest.flatten = trailing := by
  rw [List.append_assoc] at delivers
  obtain ⟨body, header, behind⟩ := readExact_append stream _ _ delivers
  obtain ⟨rest, payload, left_⟩ := readExact_append body bytes trailing behind
  rw [toBe_length] at header
  have number : ofBe (toBe bytes.length) = bytes.length := ofBe_toBe _ short
  have decoded := message.fromBytes_toStdvec bytes
    ((grow tmpBuf bytes.length).drop bytes.length) encoded
  refine ⟨rest, bytes ++ (grow tmpBuf bytes.length).drop bytes.length, ?_, left_⟩
  unfold deserializeFrom
  simp only [header, number, payload, decoded]

/-! ## Many messages -/

def serializeAll (sink : Sink) : List Message → Except Error Unit × Sink
  | [] => (.ok (), sink)
  | message :: messages =>
      match serializeInto sink message with
      | (.ok (), sink) => serializeAll sink messages
      | failed => failed

/-- `buffers` says what buffer a call is given, from the one that the last call left. -/
def deserializeAll (stream : Segments) (tmpBuf : List UInt8) :
    List (List UInt8 → List UInt8) → Except Error (List Message) × Segments
  | [] => (.ok [], stream)
  | buffer :: buffers =>
      match deserializeFrom stream (buffer tmpBuf) with
      | (.error error, stream, _) => (.error error, stream)
      | (.ok message, stream, tmpBuf) =>
          match deserializeAll stream tmpBuf buffers with
          | (.ok messages, stream) => (.ok (message :: messages), stream)
          | failed => failed

theorem serializeInto_sendable (message : Message) (sendable : message.Sendable) :
    ∃ bytes, message.toStdvec = .ok bytes ∧ bytes.length < 2 ^ 32 ∧ ∀ already,
      serializeInto ⟨already, none⟩ message =
        (.ok (), ⟨already ++ (toBe bytes.length ++ bytes), none⟩) := by
  obtain ⟨valid, small⟩ := sendable
  obtain ⟨wire, wired, -⟩ := message.wire_utf8 valid
  have encoded : message.toStdvec = .ok (wireCodec.write wire) := by
    unfold Message.toStdvec
    rw [wired]
    rfl
  have short := small _ encoded
  refine ⟨wireCodec.write wire, encoded, short, fun already => ?_⟩
  unfold serializeInto
  simp only [encoded, if_pos short]
  rfl

theorem serializeInto_refuses (message : Message) (sink : Sink)
    (refused : ¬ message.Sendable) :
    ∃ error, serializeInto sink message = (.error error, sink) := by
  unfold serializeInto
  cases encoded : message.toStdvec with
  | error error => exact ⟨.postcard error, rfl⟩
  | ok bytes =>
      by_cases short : bytes.length < 2 ^ 32
      · refine absurd ⟨?_, ?_⟩ refused
        · by_contra invalid
          unfold Message.toStdvec at encoded
          rw [message.wire_invalid invalid] at encoded
          cases encoded
        · intro other same
          rw [encoded] at same
          cases same
          exact short
      · exact ⟨.messageTooLong, by simp only [if_neg short]⟩

/-- Sent one after the other and read as often, the messages arrive and the stream is left
behind them; what cannot be sent is not begun. -/
theorem messages_round_trip :
    (∀ messages : List Message, (∀ message ∈ messages, message.Sendable) →
      ∃ sent, (∀ already, serializeAll ⟨already, none⟩ messages =
          (.ok (), ⟨already ++ sent, none⟩)) ∧
        ∀ (stream : Segments) (trailing tmpBuf : List UInt8)
          (buffers : List (List UInt8 → List UInt8)), stream.flatten = sent ++ trailing →
            buffers.length = messages.length →
              ∃ rest, deserializeAll stream tmpBuf buffers = (.ok messages, rest) ∧
                rest.flatten = trailing) ∧
      ∀ (message : Message) (sink : Sink), ¬ message.Sendable →
        ∃ error, serializeInto sink message = (.error error, sink) := by
  refine ⟨?_, serializeInto_refuses⟩
  intro messages
  induction messages with
  | nil =>
      intro _
      refine ⟨[], fun already => ?_, ?_⟩
      · rw [List.append_nil, serializeAll]
      · intro stream trailing tmpBuf buffers delivers asOften
        rw [List.eq_nil_of_length_eq_zero asOften, deserializeAll]
        exact ⟨stream, rfl, delivers⟩
  | cons message messages ih =>
      intro sendable
      obtain ⟨bytes, encoded, short, serialized⟩ :=
        serializeInto_sendable message (sendable message List.mem_cons_self)
      obtain ⟨sent, serializedRest, arrives⟩ :=
        ih fun other member => sendable other (List.mem_cons_of_mem _ member)
      refine ⟨toBe bytes.length ++ bytes ++ sent, fun already => ?_, ?_⟩
      · rw [serializeAll, serialized]
        simp only [serializedRest, List.append_assoc]
      · intro stream trailing tmpBuf buffers delivers asOften
        cases buffers with
        | nil => cases asOften
        | cons buffer buffers =>
            rw [List.append_assoc] at delivers
            obtain ⟨rest, left_, first, behind⟩ := deserializeFrom_frame message bytes
              (sent ++ trailing) (buffer tmpBuf) encoded short stream delivers
            obtain ⟨final, others, final_flatten⟩ :=
              arrives rest trailing left_ buffers behind (Nat.succ.inj asOften)
            refine ⟨final, ?_, final_flatten⟩
            rw [deserializeAll, first]
            simp only [others]

/-- An offer of one file and its answer, read with the buffer that the first message left. -/
def offerAndAnswer : List Message :=
  [.fileOffer (some ⟨[⟨⟨[97], by decide⟩, 3⟩], by decide⟩), .fileAccept ⟨[true], by decide⟩]

/-- They arrive with one buffer for both, and two bytes stay behind them. -/
theorem offerAndAnswer_arrives :
    ∃ sent, serializeAll ⟨[], none⟩ offerAndAnswer = (.ok (), ⟨sent, none⟩) ∧
      ∀ stream : Segments, stream.flatten = sent ++ [7, 8] →
        ∃ rest, deserializeAll stream [] [id, id] = (.ok offerAndAnswer, rest) ∧
          rest.flatten = [7, 8] := by
  have sendable : ∀ message ∈ offerAndAnswer, message.Sendable := by
    intro message member
    rcases List.mem_pair.mp member with rfl | rfl
    · refine ⟨?_, ?_⟩
      · intro meta_ member
        rw [List.mem_singleton.mp member]
        decide
      · intro bytes encoded
        cases encoded
        decide
    · refine ⟨trivial, ?_⟩
      intro bytes encoded
      cases encoded
      decide
  obtain ⟨sent, serialized, arrives⟩ := messages_round_trip.1 offerAndAnswer sendable
  exact ⟨sent, serialized [], fun stream delivers => arrives stream [7, 8] [] [id, id] delivers rfl⟩

end Gday.Chat.Protocol
