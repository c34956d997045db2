import Gday.HolePunch.BufferedMessenger
import Gday.Lib.Reencoding

/-! # What is read can be passed on

Whatever bytes a messenger gets, a message that it returns is written by a messenger with four
bytes more, which the length takes up, and is read again as it is. -/
set_option autoImplicit false
namespace Gday.HolePunch

open Gday.Lib.Postcard Gday.Lib.BigEndian Gday.Lib.Framing

/-! ## The codecs -/

theorem socketAddrV4_reencodes : Reencodes socketAddrV4 :=
  via_reencodes (pair_reencodes (octets_reencodes 4) u16_reencodes) fun _ _ => rfl

theorem socketAddrV6_reencodes : Reencodes socketAddrV6 :=
  via_reencodes (pair_reencodes (octets_reencodes 16) u16_reencodes) fun _ _ => rfl

theorem SocketAddr.payload_reencodes : ∀ variant, Reencodes (SocketAddr.payloadCodec variant)
  | 0 => socketAddrV4_reencodes
  | 1 => socketAddrV6_reencodes

theorem socketAddr_reencodes : Reencodes socketAddr := by
  apply via_reencodes (enumeration_reencodes _ SocketAddr.payload_reencodes)
  intro source _
  match source with
  | ⟨0, addr⟩ => rfl
  | ⟨1, addr⟩ => rfl

theorem contact_reencodes : Reencodes contact :=
  via_reencodes (pair_reencodes (option_reencodes socketAddrV6_reencodes)
    (option_reencodes socketAddrV4_reencodes)) fun _ _ => rfl

theorem fullContact_reencodes : Reencodes fullContact :=
  via_reencodes (pair_reencodes contact_reencodes contact_reencodes) fun _ _ => rfl

theorem ClientMessage.payload_reencodes :
    ∀ variant, Reencodes (ClientMessage.payloadCodec variant)
  | 0 => unit_reencodes
  | 1 => u32_reencodes
  | 2 => option_reencodes socketAddr_reencodes
  | 3 => unit_reencodes

theorem clientMessage_reencodes : Reencodes clientMessage := by
  apply via_reencodes (enumeration_reencodes _ ClientMessage.payload_reencodes)
  intro source _
  match source with
  | ⟨0, _⟩ => rfl
  | ⟨1, roomId⟩ => rfl
  | ⟨2, addr⟩ => rfl
  | ⟨3, _⟩ => rfl

theorem ServerMessage.payload_reencodes :
    ∀ variant, Reencodes (ServerMessage.payloadCodec variant)
  | 0 => u32_reencodes
  | 1 => unit_reencodes
  | 2 => pair_reencodes fullContact_reencodes fullContact_reencodes
  | 3 => unit_reencodes
  | 4 => unit_reencodes

theorem serverMessage_reencodes : Reencodes serverMessage := by
  apply via_reencodes (enumeration_reencodes _ ServerMessage.payload_reencodes)
  intro source _
  match source with
  | ⟨0, roomId⟩ => rfl
  | ⟨1, _⟩ => rfl
  | ⟨2, contacts⟩ => rfl
  | ⟨3, _⟩ => rfl
  | ⟨4, _⟩ => rfl

/-! ## The messenger -/

variable {Value : Type}

/-- What `next_msg` returns comes from the bytes behind a length. -/
theorem Messenger.nextMsg_decoded {messenger : Messenger} {codec : Codec Value}
    {stream rest : List UInt8} {message : Value}
    (read : messenger.nextMsg codec stream = (.ok message, rest)) :
    ∃ body, fromBytes codec body = .ok message ∧ body.length ≤ messenger.bufLen ∧
      4 + body.length + rest.length = stream.length := by
  unfold nextMsg at read
  split at read
  · cases read
  · next long =>
      simp only at read
      split at read
      · cases read
      · next within =>
          split at read
          · cases read
          · next enough =>
              rw [List.length_drop] at enough
              have length : ((stream.drop 4).take (ofBe (stream.take 4))).length =
                  ofBe (stream.take 4) := by
                rw [List.length_take, List.length_drop]
                omega
              split at read
              · cases read
              · next decoded =>
                  cases read
                  refine ⟨_, decoded, by omega, ?_⟩
                  rw [length, List.length_drop, List.length_drop]
                  omega

/-- A message that was read by one messenger is written by a larger one, and read again. -/
theorem Messenger.passes_on {messenger : Messenger} {codec : Codec Value}
    (reencodes : Reencodes codec) {stream rest : List UInt8} {message : Value}
    (read : messenger.nextMsg codec stream = (.ok message, rest))
    (bounded : (codec.write message).length < 2 ^ 32) :
    ∃ bytes, (Messenger.mk (messenger.bufLen + 4)).writeMsg codec message = .ok bytes ∧
      bytes.length + rest.length ≤ stream.length ∧
      ∀ behind, messenger.nextMsg codec (bytes ++ behind) = (.ok message, behind) := by
  obtain ⟨body, decoded, within, whole⟩ := Messenger.nextMsg_decoded read
  obtain ⟨short, again⟩ := reencodes.fromBytes decoded
  refine ⟨toBe (codec.write message).length ++ codec.write message, ?_, ?_, ?_⟩
  · rw [writeMsg_short _ codec message bounded]
    exact if_pos (by simp only; omega)
  · rw [List.length_append, toBe_length]
    omega
  · intro behind
    rw [nextMsg_body messenger codec (codec.write message) behind (by omega) bounded, again]

/-- Of any bytes, a messenger returns only messages that one with four bytes more writes, in no
more bytes than they were read from; and read again they are the same. -/
theorem read_passed_on (type : MessageType) (capacity : Nat) (stream rest : List UInt8)
    (message : AnyMessage) (read : type.next ⟨capacity⟩ stream = (.ok message, rest)) :
    message.type = type ∧ ∃ bytes, message.written ⟨capacity + 4⟩ = .ok bytes ∧
      bytes.length + rest.length ≤ stream.length ∧
      ∀ behind, type.next ⟨capacity⟩ (bytes ++ behind) = (.ok message, behind) := by
  cases type with
  | client =>
      obtain ⟨inside, found, rfl⟩ := ok_of_map (congrArg Prod.fst read)
      have left_ : (Messenger.nextMsg ⟨capacity⟩ clientMessage stream).2 = rest :=
        congrArg Prod.snd read
      have bounded := (AnyMessage.client inside).encoding_length_le
      obtain ⟨bytes, written, short, again⟩ := Messenger.passes_on clientMessage_reencodes
        (Prod.ext found left_) (show (clientMessage.write inside).length < 2 ^ 32 by
          exact lt_of_le_of_lt bounded (by decide))
      refine ⟨rfl, bytes, written, short, fun behind => ?_⟩
      rw [MessageType.next, again behind]
      rfl
  | server =>
      obtain ⟨inside, found, rfl⟩ := ok_of_map (congrArg Prod.fst read)
      have left_ : (Messenger.nextMsg ⟨capacity⟩ serverMessage stream).2 = rest :=
        congrArg Prod.snd read
      have bounded := (AnyMessage.server inside).encoding_length_le
      obtain ⟨bytes, written, short, again⟩ := Messenger.passes_on serverMessage_reencodes
        (Prod.ext found left_) (show (serverMessage.write inside).length < 2 ^ 32 by
          exact lt_of_le_of_lt bounded (by decide))
      refine ⟨rfl, bytes, written, short, fun behind => ?_⟩
      rw [MessageType.next, again behind]
      rfl

/-- A room id with a leading zero, which is not written again. -/
theorem longRoomId_passed_on : ∃ bytes,
    (AnyMessage.client (.joinRoom 5)).written ⟨7⟩ = .ok bytes ∧ bytes.length ≤ 7 := by
  obtain ⟨_, bytes, written, short, _⟩ := read_passed_on .client 3 [0, 0, 0, 3, 1, 133, 0] []
    (.client (.joinRoom 5)) (by decide)
  exact ⟨bytes, written, short⟩

end Gday.HolePunch
