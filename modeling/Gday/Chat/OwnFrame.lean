import Gday.Chat.Protocol
import Gday.Lib.Framing

/-! # What a message is decoded from

`deserialize_from` decodes its whole buffer, of which only the front is the frame.  The bytes
behind it are looked at only where the payload is cut off: on every other payload the result
is that of the payload alone, whatever the buffer held. -/
set_option autoImplicit false
namespace Gday.Chat.Protocol

open Gday.Lib.BigEndian Gday.Lib.Framing Gday.Lib.Postcard Gday.Lib.SegmentedStream

/-! ## Decoding stops where a message ends -/

theorem payloadCodec_stable : ∀ variant, Stable (payloadCodec variant).read
  | 0 => option_stable (vec_stable (pair_stable str_stable u64_stable))
  | 1 => vec_stable bool_stable

theorem Message.fromBytes_stable (bytes extra : List UInt8) (message : Message)
    (decoded : Message.fromBytes bytes = .ok message) :
    Message.fromBytes (bytes ++ extra) = .ok message := by
  have stable : Stable wireCodec.read := enumeration_stable two_variants payloadCodec_stable
  unfold Message.fromBytes at decoded ⊢
  cases wire : Lib.Postcard.fromBytes wireCodec bytes with
  | error error => simp [wire, Except.map] at decoded
  | ok value =>
      rw [Lib.Postcard.fromBytes_stable stable bytes extra value wire]
      rw [wire] at decoded
      exact decoded

/-! ## The frame and the rest of the buffer -/

theorem readExact_take (count : Nat) (stream : Segments) (enough : count ≤ stream.flatten.length) :
    ∃ rest, readExact count stream = (.ok (stream.flatten.take count), rest) ∧
      rest.flatten = stream.flatten.drop count := by
  have lengthIs : (stream.flatten.take count).length = count := List.length_take_of_le enough
  have found := readExact_append stream _ _ (List.take_append_drop count stream.flatten).symm
  rw [lengthIs] at found
  exact found

theorem readExact_short (count : Nat) (stream : Segments) (short : stream.flatten.length < count) :
    ∃ bytes rest, readExact count stream = (.error bytes, rest) := by
  obtain ⟨bytes, _⟩ := takeUpTo_flatten count stream
  unfold readExact
  generalize takeUpTo count stream = taken at bytes
  obtain ⟨taken, rest⟩ := taken
  have few : taken.length ≠ count := by
    rw [show taken = _ from bytes, List.length_take]
    omega
  exact ⟨taken, rest, by simp [few]⟩

/-- Without a whole frame nothing is decoded. -/
theorem deserializeFrom_hidden (stream : Segments) (tmpBuf : List UInt8)
    (hidden : peekFrame stream.flatten = none) :
    (deserializeFrom stream tmpBuf).1 = .error .io := by
  unfold deserializeFrom
  by_cases header : 4 ≤ stream.flatten.length
  · obtain ⟨rest, read, behind⟩ := readExact_take 4 stream header
    have short : rest.flatten.length < ofBe (stream.flatten.take 4) := by
      rw [behind, List.length_drop]
      rw [peekFrame, if_pos header] at hidden
      by_contra long
      rw [if_pos (by omega)] at hidden
      cases hidden
    obtain ⟨bytes, left_, cut⟩ := readExact_short _ rest short
    simp only [read, cut]
  · obtain ⟨bytes, rest, cut⟩ := readExact_short 4 stream (by omega)
    simp only [cut]

/-- The payload is decoded together with what the buffer holds behind it. -/
theorem deserializeFrom_shown (stream : Segments) (tmpBuf payload : List UInt8)
    (shown : peekFrame stream.flatten = some payload) :
    (deserializeFrom stream tmpBuf).1 =
      (Message.fromBytes (payload ++ (grow tmpBuf payload.length).drop payload.length)).mapError
        .postcard := by
  obtain ⟨short, trailing, split⟩ := (peekFrame_eq_some _ payload).mp shown
  rw [frame, List.append_assoc] at split
  obtain ⟨body, header, behind⟩ := readExact_append stream _ _ split
  obtain ⟨rest, read, _⟩ := readExact_append body payload trailing behind
  rw [toBe_length] at header
  have number : ofBe (toBe payload.length) = payload.length := ofBe_toBe _ short
  unfold deserializeFrom
  simp only [header, number, read]
  cases Message.fromBytes (payload ++ (grow tmpBuf payload.length).drop payload.length) with
  | error error => rfl
  | ok message => rfl

/-! ## Truncated payloads -/

/-- The payload is no message, but with other bytes behind it it would be one. -/
def Truncated (payload : List UInt8) : Prop :=
  (∃ error, Message.fromBytes payload = .error error) ∧
    ∃ more message, Message.fromBytes (payload ++ more) = .ok message

/-- The same message, or an error in both cases, whatever the buffer held. -/
def IgnoresBuffer (stream : Segments) : Prop :=
  ∀ first second, (deserializeFrom stream first).1.toOption =
    (deserializeFrom stream second).1.toOption

/-- Every content behind the payload is that of some buffer. -/
theorem grow_drop (length : Nat) (more : List UInt8) :
    ∃ tmpBuf, (grow tmpBuf length).drop length = more := by
  refine ⟨List.replicate length 0 ++ more, ?_⟩
  have long : ¬ (List.replicate length (0 : UInt8) ++ more).length < length := by
    rw [List.length_append, List.length_replicate]
    omega
  rw [grow, if_neg long]
  exact List.drop_left' (List.length_replicate ..)

/-- Old bytes have a say exactly in the frames that are cut off. -/
theorem ignoresBuffer_iff (stream : Segments) :
    IgnoresBuffer stream ↔
      ∀ payload, peekFrame stream.flatten = some payload → ¬ Truncated payload := by
  constructor
  · intro ignores payload shown truncated
    obtain ⟨⟨error, refused⟩, more, message, accepted⟩ := truncated
    obtain ⟨first, holdsNothing⟩ := grow_drop payload.length []
    obtain ⟨second, holdsMore⟩ := grow_drop payload.length more
    have same := ignores first second
    rw [deserializeFrom_shown stream first payload shown, holdsNothing, List.append_nil, refused,
      deserializeFrom_shown stream second payload shown, holdsMore, accepted] at same
    cases same
  · intro whole first second
    cases shown : peekFrame stream.flatten with
    | none => rw [deserializeFrom_hidden stream first shown,
        deserializeFrom_hidden stream second shown]
    | some payload =>
        rw [deserializeFrom_shown stream first payload shown,
          deserializeFrom_shown stream second payload shown]
        cases decoded : Message.fromBytes payload with
        | ok message =>
            rw [Message.fromBytes_stable payload _ message decoded,
              Message.fromBytes_stable payload _ message decoded]
        | error error =>
            -- what does not complete the payload leaves an error
            have refused : ∀ more, ((Message.fromBytes (payload ++ more)).mapError
                Error.postcard).toOption = none := by
              intro more
              cases completed : Message.fromBytes (payload ++ more) with
              | error other => rfl
              | ok message =>
                  exact absurd ⟨⟨error, decoded⟩, more, message, completed⟩ (whole payload shown)
            rw [refused, refused]

/-- Of two truth values only one arrived: the old buffer has the other. -/
theorem stale_byte_read : ¬ IgnoresBuffer [[0, 0, 0, 3], [1, 2, 1]] := by
  intro ignores
  have same := congrArg Option.isSome (ignores [] [0, 0, 0, 1])
  exact absurd same (by decide)

end Gday.Chat.Protocol
