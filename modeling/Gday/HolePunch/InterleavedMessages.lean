import Gday.HolePunch.BufferedMessenger
import Gday.Lib.Machine

/-! # Messages both ways over one buffer each

Two messengers whose streams are joined, each making its calls whenever it likes and each
stream moving some bytes at a time.  What is on the way, with what a reader has and what
a writer has left, is always the frames of the messages that were not read. -/
set_option autoImplicit false
namespace Gday.HolePunch

open Gday.Lib.Machine Gday.Lib.Postcard Gday.Lib.BigEndian Gday.Lib.Framing

/-- A messenger with the bytes that are on the way from it and all that it ever put on its
stream, and its calls with what they answered. -/
structure Party where
  messenger : BufferedMessenger
  wire : List UInt8
  stream : List UInt8
  writes : List (AnyMessage × Except SerializationError Unit)
  reads : List (MessageType × Except SerializationError AnyMessage)

namespace Party

def withCapacity (capacity : Nat) : Party := ⟨.withCapacity capacity, [], [], [], []⟩

def writeMsg (party : Party) (message : AnyMessage) (left : List UInt8) : Party :=
  { party with
    messenger := (party.messenger.writeMsg message left).1
    writes := party.writes ++
      (party.messenger.writeMsg message left).2.toList.map fun answer => (message, answer) }

def put (party : Party) (count : Nat) : Option Party :=
  (party.messenger.put count).map fun (piece, messenger) =>
    { party with
      messenger
      wire := party.wire ++ piece
      stream := party.stream ++ piece }

def nextMsg (party : Party) (type : MessageType) : Party :=
  { party with messenger := party.messenger.nextMsg type }

def receive (party : Party) (bytes : List UInt8) : Party :=
  { party with
    messenger := (party.messenger.receive bytes).1
    reads := party.reads ++ (party.messenger.receive bytes).2.toList }

def deliver (party : Party) (count : Nat) : Party :=
  { party with wire := party.wire.drop count }

/-- The messages whose `write_msg` did not fail. -/
def sent (party : Party) : List AnyMessage :=
  (party.writes.filter fun write => write.2.isOk).map Prod.fst

end Party

inductive MessengerEvent where
  | writeMsg (side : Bool) (message : AnyMessage) (left : List UInt8)
  | put (side : Bool) (count : Nat)
  | nextMsg (side : Bool) (type : MessageType)
  | receive (side : Bool) (count : Nat)

/-- A call starts where there is no other one; a stream takes what is to be written and
delivers what is on the way. -/
def messengerStep (parties : Bool → Party) : MessengerEvent → Option (Bool → Party)
  | .writeMsg side message left =>
      if (parties side).messenger.progress = .idle ∧
          left.length = (parties side).messenger.buf.length - 4 then
        some (Function.update parties side ((parties side).writeMsg message left))
      else none
  | .put side count => ((parties side).put count).map (Function.update parties side)
  | .nextMsg side type =>
      if (parties side).messenger.progress = .idle then
        some (Function.update parties side ((parties side).nextMsg type))
      else none
  | .receive side count =>
      if 0 < count ∧ count ≤ (parties side).messenger.wanted ∧
          count ≤ (parties !side).wire.length then
        some (Function.update
          (Function.update parties (!side) ((parties !side).deliver count)) side
          ((parties side).receive ((parties !side).wire.take count)))
      else none

/-! ## One direction -/

/-- Asked for the type of the message, `next_msg` returned it. -/
def Returns (message : AnyMessage)
    (read : MessageType × Except SerializationError AnyMessage) : Prop :=
  read.1 = message.type →
    read.2 = .ok message.zeroed ∧ (message.Plain → read.2 = .ok message)

/-- The first messages were read, and the others are in these bytes. -/
def Delivers (sent : List AnyMessage)
    (reads : List (MessageType × Except SerializationError AnyMessage))
    (bytes : List UInt8) : Prop :=
  ∃ read unread, sent = read ++ unread ∧ List.Forall₂ Returns read reads ∧
    bytes = frames (unread.map AnyMessage.encoding)

theorem returns_answer (message : AnyMessage) (type : MessageType) :
    Returns message (type, type.answer message.encoding) := by
  intro same
  simp only at same
  have whole : type.answer message.encoding = .ok message.zeroed := by
    rw [same, MessageType.answer, fromBytes_encoding]
  refine ⟨whole, fun plain => ?_⟩
  rw [whole, message.zeroed_of_plain plain]

theorem encodings_short (messages : List AnyMessage) :
    ∀ body ∈ messages.map AnyMessage.encoding, body.length < 2 ^ 32 := by
  intro body member
  obtain ⟨message, -, rfl⟩ := List.mem_map.mp member
  exact lt_of_le_of_lt message.encoding_length_le (by decide)

section Directions

variable {sent : List AnyMessage}
  {reads : List (MessageType × Except SerializationError AnyMessage)} {bytes : List UInt8}

theorem Delivers.send (delivers : Delivers sent reads bytes) (message : AnyMessage) :
    Delivers (sent ++ [message]) reads (bytes ++ frame message.encoding) := by
  obtain ⟨read, unread, all, returned, rest⟩ := delivers
  refine ⟨read, unread ++ [message], by rw [all, List.append_assoc], returned, ?_⟩
  rw [List.map_append, frames_append, ← rest]
  exact congrArg (bytes ++ ·) (List.append_nil _).symm

/-- What is read off the front is the oldest message. -/
theorem Delivers.read {body rest : List UInt8} (delivers : Delivers sent reads (frame body ++ rest))
    (short : body.length < 2 ^ 32) (type : MessageType) :
    Delivers sent (reads ++ [(type, type.answer body)]) rest := by
  obtain ⟨read, unread, all, returned, framed⟩ := delivers
  obtain ⟨more, bodies, remaining⟩ := frames_split [body] (unread.map AnyMessage.encoding) rest
    (fun other member => by rw [List.mem_singleton.mp member]; exact short)
    (encodings_short unread) (by rw [frames_cons, frames_nil, List.append_nil, framed])
  cases unread with
  | nil => cases bodies
  | cons message unread =>
      rw [List.map_cons, List.singleton_append, List.cons.injEq] at bodies
      obtain ⟨encoded, others⟩ := bodies
      refine ⟨read ++ [message], unread, by rw [all, List.append_assoc]; rfl, ?_, ?_⟩
      · rw [← encoded]
        exact List.rel_append returned (.cons (returns_answer message type) .nil)
      · rw [remaining, ← others]

theorem Delivers.announced {capacity : Nat} (delivers : Delivers sent reads bytes)
    (fit : ∀ message ∈ sent, message.encoding.length ≤ capacity) (header : 4 ≤ bytes.length) :
    ofBe (bytes.take 4) ≤ capacity := by
  obtain ⟨read, unread, all, -, framed⟩ := delivers
  cases unread with
  | nil =>
      rw [framed] at header
      exact absurd header (by decide)
  | cons message unread =>
      rw [framed, List.map_cons, frames_cons, frame_take_four,
        ofBe_toBe _ (lt_of_le_of_lt message.encoding_length_le (by decide))]
      exact fit message (by rw [all]; simp)

end Directions

/-! ## Both directions -/

/-- A message is refused for its length alone. -/
def writeAnswer (capacity : Nat) (message : AnyMessage) : Except SerializationError Unit :=
  if message.encoding.length ≤ capacity - 4 then .ok ()
  else .error (.postcard .serializeBufferFull)

/-- Every `write_msg` answered as the length of its message says, and the stream got the
messages that it did not refuse, but for what is still to be taken. -/
structure Party.Sound (capacity : Nat) (party : Party) : Prop where
  messenger : party.messenger.Sound capacity
  answered : ∀ write ∈ party.writes, write.2 = writeAnswer capacity write.1
  framed : party.stream ++ party.messenger.unsent = frames (party.sent.map AnyMessage.encoding)

/-- What one sends is what the other reads. -/
def Party.DeliversTo (sender reader : Party) : Prop :=
  Delivers sender.sent reader.reads
    (reader.messenger.received ++ (sender.wire ++ sender.messenger.unsent))

structure Linked (capacity : Nat) (one other : Party) : Prop where
  sound : one.Sound capacity
  otherSound : other.Sound capacity
  outward : one.DeliversTo other
  inward : other.DeliversTo one

section Calls

variable {capacity : Nat} {one other : Party}

theorem Linked.symm (linked : Linked capacity one other) : Linked capacity other one :=
  ⟨linked.otherSound, linked.sound, linked.inward, linked.outward⟩

theorem Party.Sound.fit (sound : one.Sound capacity) :
    ∀ message ∈ one.sent, message.encoding.length ≤ capacity := by
  intro message member
  obtain ⟨write, taken, rfl⟩ := List.mem_map.mp member
  obtain ⟨made, went⟩ := List.mem_filter.mp taken
  have answer := sound.answered write made
  by_contra long
  rw [writeAnswer, if_neg (by omega)] at answer
  rw [answer] at went
  cases went

theorem linked_withCapacity (capacity : Nat) :
    Linked capacity (.withCapacity capacity) (.withCapacity capacity) := by
  have sound : (Party.withCapacity capacity).Sound capacity :=
    ⟨BufferedMessenger.withCapacity_sound capacity,
      fun write member => absurd member List.not_mem_nil, rfl⟩
  have nothing : (Party.withCapacity capacity).DeliversTo (.withCapacity capacity) :=
    ⟨[], [], rfl, .nil, rfl⟩
  exact ⟨sound, sound, nothing, nothing⟩

/-- Only what is sent, what was read and the bytes between the two matter. -/
theorem Party.DeliversTo.congr {sender reader : Party} (delivers : one.DeliversTo other)
    (sent : sender.sent = one.sent) (reads : reader.reads = other.reads)
    (bytes : reader.messenger.received ++ (sender.wire ++ sender.messenger.unsent) =
      other.messenger.received ++ (one.wire ++ one.messenger.unsent)) :
    sender.DeliversTo reader := by
  unfold DeliversTo at delivers ⊢
  rw [sent, reads, bytes]
  exact delivers

theorem Party.writeMsg_eq {message : AnyMessage} {left : List UInt8} {after : BufferedMessenger}
    {answer : Except SerializationError Unit}
    (called : one.messenger.writeMsg message left = (after, some answer)) :
    one.writeMsg message left =
      { one with messenger := after, writes := one.writes ++ [(message, answer)] } := by
  rw [writeMsg, called]
  rfl

/-- A message that fits is sent, and of any other one not a byte is. -/
theorem Linked.writeMsg (linked : Linked capacity one other) (roomy : 4 ≤ capacity)
    (message : AnyMessage) (left : List UInt8) (idle : one.messenger.progress = .idle)
    (leaves : left.length = one.messenger.buf.length - 4) :
    Linked capacity (one.writeMsg message left) other := by
  obtain ⟨⟨sound, answered, framed⟩, otherSound, outward, inward⟩ := linked
  have unsent : one.messenger.unsent = [] := by rw [BufferedMessenger.unsent, idle]
  have received : one.messenger.received = [] := by rw [BufferedMessenger.received, idle]
  rw [sound.size] at leaves
  have answers : ∀ after answer, answer = writeAnswer capacity message →
      one.messenger.writeMsg message left = (after, some answer) →
        ∀ write ∈ (one.writeMsg message left).writes, write.2 = writeAnswer capacity write.1 := by
    intro after answer due called write member
    rw [Party.writeMsg_eq called] at member
    rcases List.mem_append.mp member with before | new
    · exact answered write before
    · rw [List.mem_singleton.mp new]
      exact due
  by_cases fits : message.encoding.length ≤ capacity - 4
  · obtain ⟨after, called, afterSound, pending, read⟩ :=
      BufferedMessenger.writeMsg_fits message left sound roomy fits
    have all := answers after _ (if_pos fits).symm called
    rw [Party.writeMsg_eq called] at all ⊢
    have sent : ({ one with
        messenger := after, writes := one.writes ++ [(message, .ok ())] } : Party).sent =
        one.sent ++ [message] := by
      rw [Party.sent, List.filter_append, List.map_append]
      rfl
    refine ⟨⟨afterSound, all, ?_⟩, otherSound, ?_, inward.congr rfl rfl ?_⟩
    · rw [sent, List.map_append, frames_append, ← framed, unsent, List.append_nil]
      exact congrArg (one.stream ++ ·) (pending.trans (List.append_nil _).symm)
    · have more := Delivers.send outward message
      rw [unsent, List.append_nil, List.append_assoc, ← pending] at more
      rw [Party.DeliversTo, sent]
      exact more
    · rw [received]
      exact congrArg (· ++ _) read
  · obtain ⟨after, called, afterSound, same⟩ :=
      BufferedMessenger.writeMsg_full message left sound roomy fits leaves
    have all := answers after _ (if_neg fits).symm called
    rw [Party.writeMsg_eq called] at all ⊢
    have sent : ({ one with
        messenger := after
        writes := one.writes ++ [(message, .error (.postcard .serializeBufferFull))] } :
          Party).sent = one.sent := by
      rw [Party.sent, List.filter_append, List.map_append]
      exact List.append_nil _
    have pending : after.unsent = one.messenger.unsent := by
      rw [unsent, BufferedMessenger.unsent, same, idle]
    have read : after.received = one.messenger.received := by
      rw [received, BufferedMessenger.received, same, idle]
    refine ⟨⟨afterSound, all, ?_⟩, otherSound, outward.congr sent rfl ?_,
      inward.congr rfl rfl ?_⟩
    · rw [sent, ← framed]
      exact congrArg (one.stream ++ ·) pending
    · exact congrArg (fun bytes => other.messenger.received ++ (one.wire ++ bytes)) pending
    · exact congrArg (· ++ _) read

theorem Linked.put (linked : Linked capacity one other) (count : Nat) (after : Party)
    (taken : one.put count = some after) : Linked capacity after other := by
  obtain ⟨⟨sound, answered, framed⟩, otherSound, outward, inward⟩ := linked
  obtain ⟨⟨piece, messenger⟩, moved, same⟩ := Option.map_eq_some_iff.mp taken
  subst same
  obtain ⟨afterSound, split, received, read⟩ :=
    BufferedMessenger.put_moves count piece messenger sound moved
  refine ⟨⟨afterSound, answered, ?_⟩, otherSound, outward.congr rfl rfl ?_,
    inward.congr rfl rfl ?_⟩
  · rw [split, ← List.append_assoc] at framed
    exact framed
  · rw [split, ← List.append_assoc one.wire]
  · rw [received]
    exact congrArg (· ++ _) read

theorem Linked.nextMsg (linked : Linked capacity one other) (type : MessageType)
    (idle : one.messenger.progress = .idle) : Linked capacity (one.nextMsg type) other := by
  obtain ⟨⟨sound, answered, framed⟩, otherSound, outward, inward⟩ := linked
  have unsent : one.messenger.unsent = [] := by rw [BufferedMessenger.unsent, idle]
  have received : one.messenger.received = [] := by rw [BufferedMessenger.received, idle]
  have short : ([] : List UInt8).length < 4 := by decide
  refine ⟨⟨⟨sound.size, short⟩, answered, ?_⟩, otherSound, outward.congr rfl rfl ?_,
    inward.congr rfl rfl ?_⟩
  · rw [unsent] at framed
    exact framed
  · rw [unsent]
    rfl
  · rw [received]
    rfl

theorem Linked.receive (linked : Linked capacity one other) (count : Nat)
    (reading : one.messenger.Reading) (asked : count ≤ one.messenger.wanted) :
    Linked capacity (one.receive (other.wire.take count)) (other.deliver count) := by
  obtain ⟨⟨sound, answered, framed⟩, otherSound, outward, inward⟩ := linked
  have unsent := reading.unsent
  unfold Party.DeliversTo at inward
  rw [← List.take_append_drop count other.wire, List.append_assoc, ← List.append_assoc] at inward
  obtain ⟨outcome, afterSound, pending⟩ := BufferedMessenger.receive_moves
    (other.wire.take count) sound reading
    ((List.length_take_le _ _).trans asked) fun header => by
      have announced := inward.announced otherSound.fit
        (by rw [List.length_append]; omega)
      rwa [List.take_append_of_le_length header] at announced
  have same : (one.receive (other.wire.take count)).messenger.unsent = one.messenger.unsent :=
    pending.trans unsent.symm
  refine ⟨⟨afterSound, answered, ?_⟩, ⟨otherSound.messenger, otherSound.answered,
    otherSound.framed⟩, outward.congr rfl rfl ?_, ?_⟩
  · rw [same]
    exact framed
  · rw [same]
    rfl
  · rw [Party.DeliversTo, Party.receive]
    simp only
    rcases outcome with ⟨going, more⟩ | ⟨type, body, short, framed, answer, none_⟩
    · rw [going, Option.toList_none, List.append_nil, more]
      exact inward
    · rw [answer, Option.toList_some, none_, List.nil_append]
      rw [← framed] at inward
      exact inward.read short type

end Calls

/-! ## Runs -/

def AllLinked (capacity : Nat) (parties : Bool → Party) : Prop :=
  ∀ side, Linked capacity (parties side) (parties !side)

theorem allLinked_of (capacity : Nat) (parties : Bool → Party) (side : Bool)
    (linked : Linked capacity (parties side) (parties !side)) : AllLinked capacity parties := by
  intro any
  by_cases same : any = side
  · rw [same]
    exact linked
  · have other : any = !side := Bool.eq_not_of_ne same
    rw [other, Bool.not_not]
    exact linked.symm

theorem allLinked_update {capacity : Nat} {parties : Bool → Party} {side : Bool} {party : Party}
    (linked : Linked capacity party (parties !side)) :
    AllLinked capacity (Function.update parties side party) := by
  apply allLinked_of capacity _ side
  rw [Function.update_self, Function.update_of_ne (Bool.not_ne_self side)]
  exact linked

theorem wanted_reading (messenger : BufferedMessenger) (asks : 0 < messenger.wanted) :
    messenger.Reading := by
  unfold BufferedMessenger.wanted at asks
  unfold BufferedMessenger.Reading
  split at asks <;> simp_all

theorem messengerStep_linked (capacity : Nat) (roomy : 4 ≤ capacity) (parties : Bool → Party)
    (event : MessengerEvent) (next : Bool → Party) (linked : AllLinked capacity parties)
    (run : messengerStep parties event = some next) : AllLinked capacity next := by
  cases event with
  | writeMsg side message left =>
      simp only [messengerStep] at run
      split at run
      next starts =>
        cases Option.some.inj run
        exact allLinked_update ((linked side).writeMsg roomy message left starts.1 starts.2)
      next => cases run
  | put side count =>
      obtain ⟨after, taken, same⟩ := Option.map_eq_some_iff.mp run
      subst same
      exact allLinked_update ((linked side).put count after taken)
  | nextMsg side type =>
      simp only [messengerStep] at run
      split at run
      next idle =>
        cases Option.some.inj run
        exact allLinked_update ((linked side).nextMsg type idle)
      next => cases run
  | receive side count =>
      simp only [messengerStep] at run
      split at run
      next moves =>
        obtain ⟨some_, asked, there⟩ := moves
        cases Option.some.inj run
        apply allLinked_update
        rw [Function.update_self]
        exact (linked side).receive count (wanted_reading _ (by omega)) asked
      next => cases run

theorem run_linked (capacity : Nat) (roomy : 4 ≤ capacity) (events : List MessengerEvent)
    (parties : Bool → Party)
    (run : runInputs messengerStep events (fun _ => .withCapacity capacity) = some parties) :
    AllLinked capacity parties :=
  runInputs_invariant messengerStep (AllLinked capacity) (messengerStep_linked capacity roomy)
    events _ parties (fun _ => linked_withCapacity capacity) run

/-! ## A call that waits for a message gets it -/

/-- The stream to this side moves on. -/
def MessengerEvent.MovesTo (side : Bool) : MessengerEvent → Prop
  | .put sender _ => sender = !side
  | .receive reader _ => reader = side
  | _ => False

/-- All that is to be written can be taken at once. -/
theorem Party.put_all (party : Party) (capacity written stop : Nat)
    (sound : party.messenger.Sound capacity)
    (progress : party.messenger.progress = .writing written stop) :
    ∃ after, party.put (stop - written) = some after ∧ after.messenger.unsent = [] ∧
      after.sent = party.sent := by
  have inside := sound.inside
  rw [progress] at inside
  have taken : party.messenger.put (stop - written) =
      some ((party.messenger.buf.drop written).take (stop - written),
        { party.messenger with progress := .idle }) := by
    rw [BufferedMessenger.put, progress]
    simp only
    rw [if_pos (by omega), if_pos (by omega)]
  rw [put, taken]
  exact ⟨_, rfl, rfl, rfl⟩

theorem flush (parties : Bool → Party) (side : Bool) (capacity : Nat)
    (sound : (parties !side).messenger.Sound capacity) :
    ∃ events next, (∀ event ∈ events, MessengerEvent.MovesTo side event) ∧
      runInputs messengerStep events parties = some next ∧
      (next !side).messenger.unsent = [] ∧ (next !side).sent = (parties !side).sent ∧
      next side = parties side := by
  by_cases nothing : (parties !side).messenger.unsent = []
  · exact ⟨[], parties, List.forall_mem_nil _, rfl, nothing, rfl, rfl⟩
  · cases progress : (parties !side).messenger.progress with
    | writing written stop =>
        obtain ⟨after, taken, unsent, sent⟩ :=
          (parties !side).put_all capacity written stop sound progress
        refine ⟨[.put (!side) (stop - written)], Function.update parties (!side) after, ?_, ?_, ?_⟩
        · intro event member
          rw [List.mem_singleton.mp member]
          rfl
        · rw [runInputs, messengerStep, taken]
          rfl
        · rw [Function.update_self, Function.update_of_ne (Bool.not_ne_self side).symm]
          exact ⟨unsent, sent, rfl⟩
    | idle => exact absurd (by rw [BufferedMessenger.unsent, progress]) nothing
    | panicked => exact absurd (by rw [BufferedMessenger.unsent, progress]) nothing
    | readingLength type bytes => exact absurd (by rw [BufferedMessenger.unsent, progress]) nothing
    | readingBody type length filled =>
        exact absurd (by rw [BufferedMessenger.unsent, progress]) nothing

/-- While there is a message that was not read, a reader has bytes to wait for. -/
theorem Linked.wire_pos {capacity : Nat} {one other : Party} (linked : Linked capacity one other)
    (unsent : other.messenger.unsent = []) (behind : one.reads.length < other.sent.length) :
    0 < other.wire.length := by
  obtain ⟨read, unread, all, returned, framed⟩ := linked.inward
  have asMany := returned.length_eq
  rw [all, List.length_append] at behind
  cases unread with
  | nil =>
      rw [List.length_nil] at behind
      omega
  | cons message unread =>
      rw [unsent, List.append_nil, List.map_cons, frames_cons] at framed
      apply List.length_pos_of_ne_nil
      intro empty
      rw [empty, List.append_nil] at framed
      exact BufferedMessenger.received_partial linked.sound.messenger message.encoding _
        (lt_of_le_of_lt message.encoding_length_le (by decide)) framed

/-- Byte for byte, until the message is there: by induction on the bytes on the way. -/
theorem receives (capacity : Nat) (side : Bool) (count : Nat) (parties : Bool → Party)
    (linked : AllLinked capacity parties) (reading : (parties side).messenger.Reading)
    (unsent : (parties !side).messenger.unsent = [])
    (behind : (parties side).reads.length < (parties !side).sent.length)
    (wire : (parties !side).wire.length = count) :
    ∃ events next read, (∀ event ∈ events, MessengerEvent.MovesTo side event) ∧
      runInputs messengerStep events parties = some next ∧
      (next side).reads = (parties side).reads ++ [read] := by
  have there := (linked side).wire_pos unsent behind
  induction count generalizing parties with
  | zero => omega
  | succ count ih =>
      have asked := BufferedMessenger.wanted_pos (linked side).sound.messenger reading
      have stepped : messengerStep parties (.receive side 1) = some (Function.update
          (Function.update parties (!side) ((parties !side).deliver 1)) side
            ((parties side).receive ((parties !side).wire.take 1))) := by
        rw [messengerStep]
        exact if_pos ⟨Nat.one_pos, asked, there⟩
      generalize moved : Function.update (Function.update parties (!side)
        ((parties !side).deliver 1)) side
          ((parties side).receive ((parties !side).wire.take 1)) = next at stepped
      have reader : next side = (parties side).receive ((parties !side).wire.take 1) := by
        rw [← moved, Function.update_self]
      have sender : next (!side) = (parties !side).deliver 1 := by
        rw [← moved, Function.update_of_ne (Bool.not_ne_self side), Function.update_self]
      have reads : (next side).reads = (parties side).reads ++
          ((parties side).messenger.receive ((parties !side).wire.take 1)).2.toList := by
        rw [reader]
        rfl
      cases answer : ((parties side).messenger.receive ((parties !side).wire.take 1)).2 with
      | some read =>
          rw [answer] at reads
          refine ⟨[.receive side 1], next, read, ?_, ?_, reads⟩
          · intro event member
            rw [List.mem_singleton.mp member]
            rfl
          · rw [runInputs, stepped]
            rfl
      | none =>
          rw [answer, Option.toList_none, List.append_nil] at reads
          have still : (next side).messenger.Reading := by
            rw [reader]
            exact BufferedMessenger.receive_reading _ reading answer
          have nextLinked : AllLinked capacity next := by
            rw [← moved]
            apply allLinked_update
            rw [Function.update_self]
            exact (linked side).receive 1 reading asked
          have nextUnsent : (next !side).messenger.unsent = [] := by
            rw [sender]
            exact unsent
          have nextBehind : (next side).reads.length < (next !side).sent.length := by
            rw [reads, sender]
            exact behind
          have nextWire : (next !side).wire.length = count := by
            rw [sender, Party.deliver]
            simp only [List.length_drop]
            omega
          obtain ⟨events, final, read, moves, run, more⟩ := ih next nextLinked still nextUnsent
            nextBehind nextWire ((nextLinked side).wire_pos nextUnsent nextBehind)
          refine ⟨.receive side 1 :: events, final, read, ?_, ?_, by rw [more, reads]⟩
          · intro event member
            rcases List.mem_cons.mp member with same | member
            · rw [same]
              rfl
            · exact moves event member
          · rw [runInputs, stepped]
            exact run

theorem returns_of_linked (capacity : Nat) (roomy : 4 ≤ capacity) (parties : Bool → Party)
    (side : Bool) (linked : AllLinked capacity parties)
    (reading : (parties side).messenger.Reading)
    (behind : (parties side).reads.length < (parties !side).sent.length) :
    ∃ events next read, (∀ event ∈ events, MessengerEvent.MovesTo side event) ∧
      runInputs messengerStep events parties = some next ∧
      (next side).reads = (parties side).reads ++ [read] := by
  obtain ⟨flushing, middle, flushMoves, flushed, unsent, sent, same⟩ :=
    flush parties side capacity (linked side).otherSound.messenger
  have middleLinked := runInputs_invariant messengerStep (AllLinked capacity)
    (messengerStep_linked capacity roomy) flushing parties middle linked flushed
  obtain ⟨events, next, read, moves, run, more⟩ := receives capacity side _ middle middleLinked
    (by rw [same]; exact reading) unsent (by rw [same, sent]; exact behind) rfl
  refine ⟨flushing ++ events, next, read, ?_, ?_, by rw [more, same]⟩
  · intro event member
    rcases List.mem_append.mp member with first | second
    · exact flushMoves event first
    · exact moves event second
  · rw [runInputs_append, flushed]
    exact run

/-- In every run, of what a side wrote the messages that are too long are refused and put
nothing on the stream, and the others are read by the other side one after the other. -/
theorem messages_in_order (capacity : Nat) (roomy : 4 ≤ capacity) (events : List MessengerEvent)
    (parties : Bool → Party)
    (run : runInputs messengerStep events (fun _ => .withCapacity capacity) = some parties)
    (side : Bool) :
    (parties side).messenger.progress ≠ .panicked ∧
      (∀ write ∈ (parties side).writes, write.2 = writeAnswer capacity write.1) ∧
      (parties side).stream ++ (parties side).messenger.unsent =
        frames ((parties side).sent.map AnyMessage.encoding) ∧
      (∃ read unread, (parties !side).sent = read ++ unread ∧
        List.Forall₂ Returns read (parties side).reads) ∧
      ((parties side).messenger.Reading →
        (parties side).reads.length < (parties !side).sent.length →
          ∃ more next read, (∀ event ∈ more, MessengerEvent.MovesTo side event) ∧
            runInputs messengerStep more parties = some next ∧
            (next side).reads = (parties side).reads ++ [read]) := by
  have linked := run_linked capacity roomy events parties run
  obtain ⟨⟨sound, answered, framed⟩, -, -, inward⟩ := linked side
  refine ⟨?_, answered, framed, ?_, returns_of_linked capacity roomy parties side linked⟩
  · intro panicked
    have inside := sound.inside
    rw [panicked] at inside
    exact inside
  · obtain ⟨read, unread, all, returned, -⟩ := inward
    exact ⟨read, unread, all, returned⟩

/-- With room for four bytes a long room id is refused, and the next message is read. -/
def refusedAndSent : List MessengerEvent :=
  [.writeMsg true (.client (.joinRoom 4000000000)) [1, 128, 208, 172], .nextMsg false .client,
    .writeMsg true (.client .doneSending) [0, 0, 0, 0], .put true 3, .receive false 2,
    .put true 2, .receive false 2, .receive false 1]

theorem refusedAndSent_arrives :
    ∃ parties, runInputs messengerStep refusedAndSent (fun _ => .withCapacity 8) =
        some parties ∧
      (parties false).reads = [(.client, .ok (.client .doneSending))] ∧
      ∃ read unread, (parties true).sent = read ++ unread ∧
        List.Forall₂ Returns read (parties false).reads := by
  have reads : (runInputs messengerStep refusedAndSent (fun _ => .withCapacity 8)).map
      (fun parties => (parties false).reads) =
        some [(.client, .ok (.client .doneSending))] := rfl
  obtain ⟨parties, run, read⟩ := Option.map_eq_some_iff.mp reads
  have arrived := messages_in_order 8 (by decide) refusedAndSent parties run false
  exact ⟨parties, run, read, arrived.2.2.2.1⟩

end Gday.HolePunch
