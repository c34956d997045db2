import Gday.HolePunch.Messenger
import Gday.Lib.Framing

/-! # A messenger and its buffer

`Messenger` with the bytes of its buffer, which every call leaves to the next one: a
message is written behind the first four bytes and read to the start.  A call goes on as
the stream takes or delivers bytes; `unsent` and `received` say how far it is. -/
set_option autoImplicit false
namespace Gday.HolePunch

open Gday.Lib.Postcard Gday.Lib.BigEndian Gday.Lib.Framing

def SocketAddrV6.Plain (addr : SocketAddrV6) : Prop := addr.flowinfo = 0 ∧ addr.scopeId = 0

def FullContact.Plain (contact : FullContact) : Prop :=
  (∀ addr ∈ contact.private_.v6, addr.Plain) ∧ ∀ addr ∈ contact.public_.v6, addr.Plain

theorem SocketAddrV6.zeroed_of_plain (addr : SocketAddrV6) (plain : addr.Plain) :
    addr.zeroed = addr := by
  obtain ⟨ip, port, flowinfo, scopeId⟩ := addr
  obtain ⟨noFlow, noScope⟩ := plain
  simp only at noFlow noScope
  rw [SocketAddrV6.zeroed, noFlow, noScope]

theorem Contact.zeroed_of_plain (contact : Contact) (plain : ∀ addr ∈ contact.v6, addr.Plain) :
    contact.zeroed = contact := by
  obtain ⟨v6, v4⟩ := contact
  cases v6 with
  | none => rfl
  | some addr =>
      exact congrArg (fun addr => (⟨some addr, v4⟩ : Contact))
        (addr.zeroed_of_plain (plain addr rfl))

theorem FullContact.zeroed_of_plain (contact : FullContact) (plain : contact.Plain) :
    contact.zeroed = contact := by
  rw [FullContact.zeroed, contact.private_.zeroed_of_plain plain.1,
    contact.public_.zeroed_of_plain plain.2]

/-- What `next_msg` is asked for. -/
inductive MessageType where
  | client
  | server
  deriving DecidableEq, Repr

/-- What `write_msg` is given. -/
inductive AnyMessage where
  | client (message : ClientMessage)
  | server (message : ServerMessage)
  deriving DecidableEq

namespace AnyMessage

def type : AnyMessage → MessageType
  | .client _ => .client
  | .server _ => .server

def encoding : AnyMessage → List UInt8
  | .client message => clientMessage.write message
  | .server message => serverMessage.write message

def zeroed : AnyMessage → AnyMessage
  | .client message => .client message.zeroed
  | .server message => .server message.zeroed

/-- Every IPv6 address has zero for its flow info and scope id. -/
def Plain : AnyMessage → Prop
  | .client (.sendPrivateAddr (some (.v6 addr))) => addr.Plain
  | .client _ => True
  | .server (.sharePeerContacts one other) => one.Plain ∧ other.Plain
  | .server _ => True

theorem zeroed_of_plain (message : AnyMessage) (plain : message.Plain) :
    message.zeroed = message := by
  match message with
  | .client .createRoom => rfl
  | .client (.joinRoom _) => rfl
  | .client (.sendPrivateAddr none) => rfl
  | .client (.sendPrivateAddr (some (.v4 _))) => rfl
  | .client (.sendPrivateAddr (some (.v6 addr))) =>
      exact congrArg (fun addr => client (.sendPrivateAddr (some (.v6 addr))))
        (addr.zeroed_of_plain plain)
  | .client .doneSending => rfl
  | .server (.roomCreated _) => rfl
  | .server .roomJoined => rfl
  | .server (.sharePeerContacts one other) =>
      exact congrArg₂ (fun one other => server (.sharePeerContacts one other))
        (one.zeroed_of_plain plain.1) (other.zeroed_of_plain plain.2)
  | .server .syntaxError => rfl
  | .server .errorNoSuchRoomId => rfl

def toSlice (room : Nat) : AnyMessage → Except Error (List UInt8)
  | .client message => Lib.Postcard.toSlice clientMessage room message
  | .server message => Lib.Postcard.toSlice serverMessage room message

theorem toSlice_eq (room : Nat) (message : AnyMessage) :
    message.toSlice room =
      if message.encoding.length ≤ room then .ok message.encoding
      else .error .serializeBufferFull := by
  cases message with
  | client message => rfl
  | server message => rfl

/-- What a messenger of this size writes. -/
def written (messenger : Messenger) : AnyMessage → Except SerializationError (List UInt8)
  | .client message => messenger.writeMsg clientMessage message
  | .server message => messenger.writeMsg serverMessage message

/-- The longest message has two contacts with two addresses of each family. -/
theorem encoding_length_le (message : AnyMessage) : message.encoding.length ≤ 113 := by
  have contact : ∀ value : Contact, value.size ≤ 26 := by
    intro value
    obtain ⟨v6, v4⟩ := value
    have port := portSize_le
    cases v6 with
    | none =>
        cases v4 with
        | none => decide
        | some addr =>
            have bound := port addr.port
            simp only [Contact.size, Option.map_none, Option.map_some, Option.getD_none,
              Option.getD_some]
            omega
    | some addr =>
        have bound := port addr.port
        cases v4 with
        | none =>
            simp only [Contact.size, Option.map_none, Option.map_some, Option.getD_none,
              Option.getD_some]
            omega
        | some other =>
            have otherBound := port other.port
            simp only [Contact.size, Option.map_some, Option.getD_some]
            omega
  cases message with
  | client message =>
      have bound := clientMessage_length_le message
      rw [encoding]
      omega
  | server message =>
      rw [encoding]
      by_cases fits : (serverMessage.write message).length ≤ 64
      · omega
      · rw [serverMessage_fits_iff] at fits
        cases message with
        | sharePeerContacts client peer =>
            have own := contact client.private_
            have ownPublic := contact client.public_
            have others := contact peer.private_
            have othersPublic := contact peer.public_
            rw [sharePeerContacts_length, FullContact.size, FullContact.size]
            omega
        | roomCreated roomId => exact absurd trivial fits
        | roomJoined => exact absurd trivial fits
        | syntaxError => exact absurd trivial fits
        | errorNoSuchRoomId => exact absurd trivial fits

theorem written_eq (capacity : Nat) (message : AnyMessage) :
    message.written ⟨capacity⟩ =
      if message.encoding.length ≤ capacity - 4 then .ok (frame message.encoding)
      else .error (.postcard .serializeBufferFull) := by
  have short : message.encoding.length < 2 ^ 32 :=
    lt_of_le_of_lt message.encoding_length_le (by decide)
  cases message with
  | client message => exact Messenger.writeMsg_short ⟨capacity⟩ clientMessage message short
  | server message => exact Messenger.writeMsg_short ⟨capacity⟩ serverMessage message short

end AnyMessage

def MessageType.fromBytes : MessageType → List UInt8 → Except Error AnyMessage
  | .client, bytes => (Lib.Postcard.fromBytes clientMessage bytes).map .client
  | .server, bytes => (Lib.Postcard.fromBytes serverMessage bytes).map .server

theorem fromBytes_encoding (message : AnyMessage) :
    message.type.fromBytes message.encoding = .ok message.zeroed := by
  cases message with
  | client message =>
      rw [AnyMessage.type, AnyMessage.encoding, MessageType.fromBytes, fromBytes_write,
        clientMessage_kept]
      rfl
  | server message =>
      rw [AnyMessage.type, AnyMessage.encoding, MessageType.fromBytes, fromBytes_write,
        serverMessage_kept]
      rfl

/-- What `next_msg` returns for the bytes of a message. -/
def MessageType.answer (type : MessageType) (body : List UInt8) :
    Except SerializationError AnyMessage :=
  match type.fromBytes body with
  | .error error => .error (.postcard error)
  | .ok message => .ok message

/-- What a messenger of this size reads. -/
def MessageType.next (messenger : Messenger) (stream : List UInt8) :
    MessageType → Except SerializationError AnyMessage × List UInt8
  | .client => ((messenger.nextMsg clientMessage stream).1.map .client,
      (messenger.nextMsg clientMessage stream).2)
  | .server => ((messenger.nextMsg serverMessage stream).1.map .server,
      (messenger.nextMsg serverMessage stream).2)

theorem MessageType.next_frame (type : MessageType) (capacity : Nat) (body rest : List UInt8)
    (fits : body.length ≤ capacity) (small : body.length < 2 ^ 32) :
    type.next ⟨capacity⟩ (frame body ++ rest) = (type.answer body, rest) := by
  cases type with
  | client =>
      have read := Messenger.nextMsg_body ⟨capacity⟩ clientMessage body rest fits small
      rw [MessageType.next, frame, read, MessageType.answer, MessageType.fromBytes]
      cases Lib.Postcard.fromBytes clientMessage body with
      | error error => rfl
      | ok message => rfl
  | server =>
      have read := Messenger.nextMsg_body ⟨capacity⟩ serverMessage body rest fits small
      rw [MessageType.next, frame, read, MessageType.answer, MessageType.fromBytes]
      cases Lib.Postcard.fromBytes serverMessage body with
      | error error => rfl
      | ok message => rfl

/-! ## Calls -/

/-- `write_all` is at a place of the buffer, `read_u32` has some bytes, `read_exact` has
filled some of the buffer. -/
inductive Progress where
  | idle
  | panicked
  | writing (written stop : Nat)
  | readingLength (type : MessageType) (bytes : List UInt8)
  | readingBody (type : MessageType) (length filled : Nat)
  deriving DecidableEq

structure BufferedMessenger where
  buf : List UInt8
  progress : Progress
  deriving DecidableEq

namespace BufferedMessenger

def withCapacity (capacity : Nat) : BufferedMessenger := ⟨List.replicate capacity 0, .idle⟩

/-- `write_msg` up to `write_all`, with its answer where the stream has no error.  `left`
is what a `to_slice` that fails leaves behind the length. -/
def writeMsg (messenger : BufferedMessenger) (message : AnyMessage) (left : List UInt8) :
    BufferedMessenger × Option (Except SerializationError Unit) :=
  if messenger.buf.length < 4 then ({ messenger with progress := .panicked }, none)
  else
    match message.toSlice (messenger.buf.length - 4) with
    | .error error =>
        ({ messenger with buf := messenger.buf.take 4 ++ left }, some (.error (.postcard error)))
    | .ok bytes =>
        let buf := messenger.buf.take 4 ++ bytes ++ messenger.buf.drop (4 + bytes.length)
        if bytes.length < 2 ^ 32 then
          (⟨toBe bytes.length ++ buf.drop 4, .writing 0 (4 + bytes.length)⟩, some (.ok ()))
        else ({ messenger with buf := buf }, some (.error .messageTooLong))

/-- The stream takes some of the bytes that `write_all` has left. -/
def put (messenger : BufferedMessenger) (count : Nat) :
    Option (List UInt8 × BufferedMessenger) :=
  match messenger.progress with
  | .writing written stop =>
      if 0 < count ∧ written + count ≤ stop then
        some ((messenger.buf.drop written).take count,
          { messenger with
            progress := if written + count = stop then .idle else .writing (written + count) stop })
      else none
  | _ => none

def nextMsg (messenger : BufferedMessenger) (type : MessageType) : BufferedMessenger :=
  { messenger with progress := .readingLength type [] }

/-- How many bytes the read that is going on asks for. -/
def wanted (messenger : BufferedMessenger) : Nat :=
  match messenger.progress with
  | .readingLength _ bytes => 4 - bytes.length
  | .readingBody _ length filled => length - filled
  | _ => 0

/-- `read_exact`, which is over once the message is there. -/
def readBody (messenger : BufferedMessenger) (type : MessageType) (length filled : Nat) :
    BufferedMessenger × Option (MessageType × Except SerializationError AnyMessage) :=
  if filled < length then ({ messenger with progress := .readingBody type length filled }, none)
  else
    ({ messenger with progress := .idle },
      some (type, type.answer (messenger.buf.take length)))

/-- The stream delivers some of the bytes that were asked for. -/
def receive (messenger : BufferedMessenger) (bytes : List UInt8) :
    BufferedMessenger × Option (MessageType × Except SerializationError AnyMessage) :=
  match messenger.progress with
  | .readingLength type before =>
      if (before ++ bytes).length < 4 then
        ({ messenger with progress := .readingLength type (before ++ bytes) }, none)
      else if messenger.buf.length < ofBe (before ++ bytes) then
        ({ messenger with progress := .idle }, some (type, .error .tmpBufTooSmall))
      else messenger.readBody type (ofBe (before ++ bytes)) 0
  | .readingBody type length filled =>
      { messenger with
        buf := messenger.buf.take filled ++ bytes ++ messenger.buf.drop (filled + bytes.length)
        }.readBody type length (filled + bytes.length)
  | _ => (messenger, none)

/-! ## How far a call is -/

/-- What the stream has not taken of a message that is being written. -/
def unsent (messenger : BufferedMessenger) : List UInt8 :=
  match messenger.progress with
  | .writing written stop => (messenger.buf.take stop).drop written
  | _ => []

/-- What the stream has delivered of a message that is being read. -/
def received (messenger : BufferedMessenger) : List UInt8 :=
  match messenger.progress with
  | .readingLength _ bytes => bytes
  | .readingBody _ length filled => toBe length ++ messenger.buf.take filled
  | _ => []

def Reading (messenger : BufferedMessenger) : Prop :=
  match messenger.progress with
  | .readingLength _ _ => True
  | .readingBody _ _ _ => True
  | _ => False

/-- Nobody panicked, and all places are within the buffer. -/
structure Sound (capacity : Nat) (messenger : BufferedMessenger) : Prop where
  size : messenger.buf.length = capacity
  inside : match messenger.progress with
    | .idle => True
    | .panicked => False
    | .writing written stop => written < stop ∧ stop ≤ capacity
    | .readingLength _ bytes => bytes.length < 4
    | .readingBody _ length filled => filled < length ∧ length ≤ capacity ∧ length < 2 ^ 32

/-! ## What a call does -/

section Calls

variable {messenger : BufferedMessenger} {capacity : Nat}

theorem withCapacity_sound (capacity : Nat) : (withCapacity capacity).Sound capacity :=
  ⟨List.length_replicate, trivial⟩

theorem writeMsg_fits (message : AnyMessage) (left : List UInt8) (sound : messenger.Sound capacity)
    (roomy : 4 ≤ capacity) (fits : message.encoding.length ≤ capacity - 4) :
    ∃ after, messenger.writeMsg message left = (after, some (.ok ())) ∧ after.Sound capacity ∧
      after.unsent = frame message.encoding ∧ after.received = [] := by
  have size := sound.size
  have bound := message.encoding_length_le
  have first : (messenger.buf.take 4).length = 4 := List.length_take_of_le (by omega)
  have behind : (messenger.buf.take 4 ++ message.encoding ++
      messenger.buf.drop (4 + message.encoding.length)).drop 4 =
      message.encoding ++ messenger.buf.drop (4 + message.encoding.length) := by
    rw [List.append_assoc]
    exact List.drop_left' first
  refine ⟨⟨toBe message.encoding.length ++
      (message.encoding ++ messenger.buf.drop (4 + message.encoding.length)),
    .writing 0 (4 + message.encoding.length)⟩, ?_, ⟨?_, ?_⟩, ?_, rfl⟩
  · have encoded := message.toSlice_eq (messenger.buf.length - 4)
    rw [size, if_pos fits] at encoded
    rw [writeMsg, if_neg (by omega), size, encoded]
    simp only [behind]
    rw [if_pos (by omega)]
  · rw [List.length_append, List.length_append, toBe_length, List.length_drop]
    omega
  · exact ⟨by omega, by omega⟩
  · have whole : (frame message.encoding).length = 4 + message.encoding.length := by
      rw [frame_length]
      omega
    simp only [unsent, List.drop_zero]
    rw [← List.append_assoc]
    exact List.take_left' whole

theorem writeMsg_full (message : AnyMessage) (left : List UInt8) (sound : messenger.Sound capacity)
    (roomy : 4 ≤ capacity) (full : ¬ message.encoding.length ≤ capacity - 4)
    (leaves : left.length = capacity - 4) :
    ∃ after, messenger.writeMsg message left =
        (after, some (.error (.postcard .serializeBufferFull))) ∧
      after.Sound capacity ∧ after.progress = messenger.progress := by
  have size := sound.size
  have refused := message.toSlice_eq (messenger.buf.length - 4)
  rw [size, if_neg full] at refused
  refine ⟨{ messenger with buf := messenger.buf.take 4 ++ left }, ?_, ⟨?_, sound.inside⟩, rfl⟩
  · rw [writeMsg, if_neg (by omega), size, refused]
  · rw [List.length_append, List.length_take_of_le (by omega), leaves]
    omega

/-- What is written is what the messenger writes that is known by its size alone. -/
theorem writeMsg_agrees (message : AnyMessage) (left : List UInt8)
    (sound : messenger.Sound capacity) (roomy : 4 ≤ capacity)
    (leaves : left.length = capacity - 4) :
    (messenger.writeMsg message left).2 =
        some ((message.written ⟨capacity⟩).map fun _ => ()) ∧
      message.written ⟨capacity⟩ = (message.written ⟨capacity⟩).map fun _ =>
        (messenger.writeMsg message left).1.unsent := by
  have short := message.encoding_length_le
  by_cases fits : message.encoding.length ≤ capacity - 4
  · obtain ⟨after, called, -, pending, -⟩ := writeMsg_fits message left sound roomy fits
    rw [message.written_eq, if_pos fits, called, pending]
    exact ⟨rfl, rfl⟩
  · obtain ⟨after, called, -, -⟩ := writeMsg_full message left sound roomy fits leaves
    rw [message.written_eq, if_neg fits, called]
    exact ⟨rfl, rfl⟩

theorem put_moves (count : Nat) (piece : List UInt8) (after : BufferedMessenger)
    (sound : messenger.Sound capacity) (taken : messenger.put count = some (piece, after)) :
    after.Sound capacity ∧ messenger.unsent = piece ++ after.unsent ∧
      messenger.received = [] ∧ after.received = [] := by
  obtain ⟨buf, progress⟩ := messenger
  obtain ⟨size, inside⟩ := sound
  cases progress with
  | writing written stop =>
      simp only [put] at taken
      by_cases part : 0 < count ∧ written + count ≤ stop
      · rw [if_pos part] at taken
        cases taken
        have same : ((buf.take stop).drop written).take count = (buf.drop written).take count := by
          rw [List.drop_take, List.take_take, Nat.min_eq_left (by omega)]
        have pieces : (buf.take stop).drop written =
            (buf.drop written).take count ++ (buf.take stop).drop (written + count) := by
          rw [← same, ← List.drop_drop, List.take_append_drop]
        by_cases last : written + count = stop
        · rw [if_pos last]
          refine ⟨⟨size, trivial⟩, ?_, rfl, rfl⟩
          have nothing : (buf.take stop).drop stop = [] := by
            rw [List.drop_take, Nat.sub_self, List.take_zero]
          simp only [unsent]
          rw [pieces, last, nothing]
        · rw [if_neg last]
          have behind : stop ≤ capacity := inside.2
          exact ⟨⟨size, by omega, behind⟩, pieces, rfl, rfl⟩
      · rw [if_neg part] at taken
        cases taken
  | idle => cases taken
  | panicked => cases taken
  | readingLength type bytes => cases taken
  | readingBody type length filled => cases taken

theorem readBody_moves (messenger : BufferedMessenger) (type : MessageType) (length filled : Nat)
    (size : messenger.buf.length = capacity) (inside : filled ≤ length)
    (fits : length ≤ capacity) (small : length < 2 ^ 32) :
    ((messenger.readBody type length filled).2 = none ∧
        (messenger.readBody type length filled).1.received =
          toBe length ++ messenger.buf.take filled ∨
      ∃ body, body.length < 2 ^ 32 ∧ frame body = toBe length ++ messenger.buf.take filled ∧
        (messenger.readBody type length filled).2 = some (type, type.answer body) ∧
        (messenger.readBody type length filled).1.received = []) ∧
      (messenger.readBody type length filled).1.Sound capacity ∧
      (messenger.readBody type length filled).1.unsent = [] := by
  unfold readBody
  by_cases more : filled < length
  · rw [if_pos more]
    exact ⟨Or.inl ⟨rfl, rfl⟩, ⟨size, more, fits, small⟩, rfl⟩
  · rw [if_neg more]
    have whole : filled = length := by omega
    have long : (messenger.buf.take length).length = length :=
      List.length_take_of_le (by omega)
    refine ⟨Or.inr ⟨messenger.buf.take length, by omega, ?_, rfl, rfl⟩, ⟨size, trivial⟩, rfl⟩
    rw [frame, long, whole]

/-- The call goes on with what it has, or it is over and what it had is the frame of what it
returns. -/
theorem receive_moves (bytes : List UInt8) (sound : messenger.Sound capacity)
    (reading : messenger.Reading) (asked : bytes.length ≤ messenger.wanted)
    (announced : 4 ≤ (messenger.received ++ bytes).length →
      ofBe ((messenger.received ++ bytes).take 4) ≤ capacity) :
    ((messenger.receive bytes).2 = none ∧
        (messenger.receive bytes).1.received = messenger.received ++ bytes ∨
      ∃ type body, body.length < 2 ^ 32 ∧ frame body = messenger.received ++ bytes ∧
        (messenger.receive bytes).2 = some (type, type.answer body) ∧
        (messenger.receive bytes).1.received = []) ∧
      (messenger.receive bytes).1.Sound capacity ∧
      (messenger.receive bytes).1.unsent = [] := by
  obtain ⟨buf, progress⟩ := messenger
  obtain ⟨size, inside⟩ := sound
  cases progress with
  | readingLength type before =>
      have short : before.length < 4 := inside
      have wantedLength : bytes.length ≤ 4 - before.length := asked
      simp only [receive, received]
      by_cases more : (before ++ bytes).length < 4
      · rw [if_pos more]
        exact ⟨Or.inl ⟨rfl, rfl⟩, ⟨size, more⟩, rfl⟩
      · have four : (before ++ bytes).length = 4 := by
          rw [List.length_append] at more ⊢
          omega
        have fits := announced (Nat.not_lt.mp more)
        simp only [received] at fits
        rw [List.take_of_length_le four.le] at fits
        have room : ¬ buf.length < ofBe (before ++ bytes) := by
          have sameSize : buf.length = capacity := size
          omega
        rw [if_neg more, if_neg room]
        obtain ⟨outcome, afterSound, nothing⟩ :=
          readBody_moves ⟨buf, .readingLength type before⟩ type
            (ofBe (before ++ bytes)) 0 size (Nat.zero_le _) fits (ofBe_lt _ four)
        rw [List.take_zero, List.append_nil, toBe_ofBe _ four] at outcome
        refine ⟨?_, afterSound, nothing⟩
        rcases outcome with going | ⟨body, small, framed, answered, none⟩
        · exact Or.inl going
        · exact Or.inr ⟨type, body, small, framed, answered, none⟩
  | readingBody type length filled =>
      have sameSize : buf.length = capacity := size
      obtain ⟨started, fits, small⟩ := inside
      have wantedLength : bytes.length ≤ length - filled := asked
      simp only [receive, received]
      have first : (buf.take filled).length = filled := List.length_take_of_le (by omega)
      have filledTo : (buf.take filled ++ bytes ++ buf.drop (filled + bytes.length)).take
          (filled + bytes.length) = buf.take filled ++ bytes :=
        List.take_left' (by rw [List.length_append, first])
      have stays : (buf.take filled ++ bytes ++
          buf.drop (filled + bytes.length)).length = capacity := by
        rw [List.length_append, List.length_append, first, List.length_drop]
        omega
      obtain ⟨outcome, afterSound, nothing⟩ := readBody_moves
        ⟨buf.take filled ++ bytes ++ buf.drop (filled + bytes.length),
          .readingBody type length filled⟩ type length (filled + bytes.length) stays
        (by omega) fits small
      simp only [filledTo] at outcome
      rw [← List.append_assoc] at outcome
      refine ⟨?_, afterSound, nothing⟩
      rcases outcome with going | ⟨body, short, framed, answered, none⟩
      · exact Or.inl going
      · exact Or.inr ⟨type, body, short, framed, answered, none⟩
  | idle => exact absurd reading id
  | panicked => exact absurd reading id
  | writing written stop => exact absurd reading id

theorem Reading.unsent (reading : messenger.Reading) : messenger.unsent = [] := by
  obtain ⟨buf, progress⟩ := messenger
  cases progress with
  | readingLength type bytes => rfl
  | readingBody type length filled => rfl
  | idle => rfl
  | panicked => rfl
  | writing written stop => exact absurd reading id

theorem readBody_reading (messenger : BufferedMessenger) (type : MessageType)
    (length filled : Nat) (going : (messenger.readBody type length filled).2 = none) :
    (messenger.readBody type length filled).1.Reading := by
  unfold readBody at going ⊢
  by_cases more : filled < length
  · rw [if_pos more]
    trivial
  · rw [if_neg more] at going
    cases going

/-- Without an answer it goes on reading. -/
theorem receive_reading (bytes : List UInt8) (reading : messenger.Reading)
    (going : (messenger.receive bytes).2 = none) : (messenger.receive bytes).1.Reading := by
  obtain ⟨buf, progress⟩ := messenger
  cases progress with
  | readingLength type before =>
      simp only [receive] at going ⊢
      by_cases more : (before ++ bytes).length < 4
      · rw [if_pos more]
        trivial
      · rw [if_neg more] at going ⊢
        by_cases room : buf.length < ofBe (before ++ bytes)
        · rw [if_pos room] at going
          cases going
        · rw [if_neg room] at going ⊢
          exact readBody_reading _ type _ 0 going
  | readingBody type length filled => exact readBody_reading _ type length _ going
  | idle => exact absurd reading id
  | panicked => exact absurd reading id
  | writing written stop => exact absurd reading id

theorem wanted_pos (sound : messenger.Sound capacity) (reading : messenger.Reading) :
    0 < messenger.wanted := by
  obtain ⟨buf, progress⟩ := messenger
  obtain ⟨size, inside⟩ := sound
  cases progress with
  | readingLength type bytes => exact Nat.sub_pos_of_lt inside
  | readingBody type length filled => exact Nat.sub_pos_of_lt inside.1
  | idle => exact absurd reading id
  | panicked => exact absurd reading id
  | writing written stop => exact absurd reading id

/-- A call that is going on does not have a whole message. -/
theorem received_partial (sound : messenger.Sound capacity) (body rest : List UInt8)
    (short : body.length < 2 ^ 32) : messenger.received ≠ frame body ++ rest := by
  intro whole
  have lengths := congrArg List.length whole
  rw [List.length_append, frame_length] at lengths
  obtain ⟨buf, progress⟩ := messenger
  obtain ⟨size, inside⟩ := sound
  cases progress with
  | readingLength type bytes =>
      have few : bytes.length < 4 := inside
      simp only [received] at lengths
      omega
  | readingBody type length filled =>
      obtain ⟨started, fits, small⟩ := inside
      have header : toBe body.length = toBe length := by
        rw [← frame_take_four body rest, ← whole]
        exact List.take_left' (toBe_length _)
      have same : body.length = length := by
        rw [← ofBe_toBe _ short, header, ofBe_toBe _ small]
      simp only [received, List.length_append, toBe_length, List.length_take] at lengths
      omega
  | idle => exact absurd lengths.symm (by simp [received])
  | panicked => exact absurd inside id
  | writing written stop => exact absurd lengths.symm (by simp [received])

end Calls

end BufferedMessenger

end Gday.HolePunch
