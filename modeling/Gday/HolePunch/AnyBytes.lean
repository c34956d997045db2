import Gday.HolePunch.InterleavedMessages

/-! # A messenger and any bytes

What `next_msg` answers is read off the front of all the bytes that arrived, by the function that
knows the messenger by its size alone, however these bytes were cut, whatever they are and
whatever was written in between. -/
set_option autoImplicit false
namespace Gday.HolePunch

open Gday.Lib.Machine Gday.Lib.Postcard Gday.Lib.BigEndian Gday.Lib.Framing

/-! ## Answers off the front of some bytes -/

/-- Asked for these types, one after the other, a messenger of this size answers so on the
bytes, and leaves the last of them. -/
inductive Answers (capacity : Nat) :
    List UInt8 → List (MessageType × Except SerializationError AnyMessage) → List UInt8 → Prop where
  | nil (bytes : List UInt8) : Answers capacity bytes [] bytes
  | cons (type : MessageType) (answer : Except SerializationError AnyMessage)
      (bytes rest last : List UInt8)
      (reads : List (MessageType × Except SerializationError AnyMessage))
      (next : ∀ more, type.next ⟨capacity⟩ (bytes ++ more) = (answer, rest ++ more))
      (later : Answers capacity rest reads last) :
      Answers capacity bytes ((type, answer) :: reads) last

namespace Answers

variable {capacity : Nat} {bytes last rest : List UInt8}
  {reads others : List (MessageType × Except SerializationError AnyMessage)}

/-- More bytes are left at the end. -/
theorem more (answers : Answers capacity bytes reads last) (behind : List UInt8) :
    Answers capacity (bytes ++ behind) reads (last ++ behind) := by
  induction answers with
  | nil bytes => exact .nil _
  | cons type answer bytes rest last reads next later ih =>
      refine .cons type answer _ _ _ reads (fun more => ?_) ih
      rw [List.append_assoc, next, List.append_assoc]

theorem snoc (answers : Answers capacity bytes reads last) (type : MessageType)
    (answer : Except SerializationError AnyMessage)
    (next : ∀ more, type.next ⟨capacity⟩ (last ++ more) = (answer, rest ++ more)) :
    Answers capacity bytes (reads ++ [(type, answer)]) rest := by
  induction answers with
  | nil bytes => exact .cons type answer bytes rest rest [] next (.nil rest)
  | cons first given bytes behind last reads before later ih =>
      exact .cons first given bytes behind rest _ before (ih next)

/-- The bytes and the types that were asked for say what is answered. -/
theorem unique (answers : Answers capacity bytes reads last) {otherLast : List UInt8}
    (another : Answers capacity bytes others otherLast)
    (types : reads.map Prod.fst = others.map Prod.fst) : reads = others ∧ last = otherLast := by
  induction answers generalizing others otherLast with
  | nil bytes =>
      cases another with
      | nil => exact ⟨rfl, rfl⟩
      | cons => cases types
  | cons type answer bytes rest last reads next later ih =>
      cases another with
      | nil => cases types
      | cons otherType otherAnswer _ otherRest _ otherReads otherNext otherLater =>
          have sameType : type = otherType := (List.cons.inj types).1
          have behind := (List.cons.inj types).2
          subst sameType
          have same := (next []).symm.trans (otherNext [])
          rw [Prod.mk.injEq, List.append_nil, List.append_nil] at same
          obtain ⟨rfl, rfl⟩ := same
          obtain ⟨rfl, rfl⟩ := ih otherLater behind
          exact ⟨rfl, rfl⟩

end Answers

/-! ## A messenger whose stream delivers anything -/

/-- A party and all that its stream has delivered to it. -/
structure Exposed where
  party : Party
  arrived : List UInt8

inductive ExposedEvent where
  | writeMsg (message : AnyMessage) (left : List UInt8)
  | put (count : Nat)
  | nextMsg (type : MessageType)
  | receive (bytes : List UInt8)

/-- A call starts where there is no other one; a stream delivers any bytes, as many as are
asked for at most. -/
def exposedStep (exposed : Exposed) : ExposedEvent → Option Exposed
  | .writeMsg message left =>
      if exposed.party.messenger.progress = .idle ∧
          left.length = exposed.party.messenger.buf.length - 4 then
        some { exposed with party := exposed.party.writeMsg message left }
      else none
  | .put count => (exposed.party.put count).map fun party => { exposed with party }
  | .nextMsg type =>
      if exposed.party.messenger.progress = .idle then
        some { exposed with party := exposed.party.nextMsg type }
      else none
  | .receive bytes =>
      if 0 < bytes.length ∧ bytes.length ≤ exposed.party.messenger.wanted then
        some ⟨exposed.party.receive bytes, exposed.arrived ++ bytes⟩
      else none

/-! ## One party -/

section Parties

variable {capacity : Nat} {party : Party}

/-- A message that fits is sent, and of any other one not a byte is. -/
theorem Party.Sound.writeMsg (sound : party.Sound capacity) (roomy : 4 ≤ capacity)
    (message : AnyMessage) (left : List UInt8) (idle : party.messenger.progress = .idle)
    (leaves : left.length = party.messenger.buf.length - 4) :
    (party.writeMsg message left).Sound capacity ∧
      (party.writeMsg message left).messenger.received = [] := by
  obtain ⟨messenger, answered, framed⟩ := sound
  have unsent : party.messenger.unsent = [] := by rw [BufferedMessenger.unsent, idle]
  rw [messenger.size] at leaves
  have answers : ∀ answer, answer = writeAnswer capacity message →
      ∀ write ∈ party.writes ++ [(message, answer)], write.2 = writeAnswer capacity write.1 := by
    intro answer due write member
    rcases List.mem_append.mp member with before | new
    · exact answered write before
    · rw [List.mem_singleton.mp new]
      exact due
  by_cases fits : message.encoding.length ≤ capacity - 4
  · obtain ⟨after, called, afterSound, pending, read⟩ :=
      BufferedMessenger.writeMsg_fits message left messenger roomy fits
    rw [Party.writeMsg_eq called]
    refine ⟨⟨afterSound, answers _ (if_pos fits).symm, ?_⟩, read⟩
    have sent : ({ party with
        messenger := after, writes := party.writes ++ [(message, .ok ())] } : Party).sent =
        party.sent ++ [message] := by
      rw [Party.sent, List.filter_append, List.map_append]
      rfl
    rw [sent, List.map_append, frames_append, ← framed, unsent, List.append_nil]
    exact congrArg (party.stream ++ ·) (pending.trans (List.append_nil _).symm)
  · obtain ⟨after, called, afterSound, same⟩ :=
      BufferedMessenger.writeMsg_full message left messenger roomy fits leaves
    rw [Party.writeMsg_eq called]
    refine ⟨⟨afterSound, answers _ (if_neg fits).symm, ?_⟩, ?_⟩
    · have sent : ({ party with
          messenger := after
          writes := party.writes ++ [(message, .error (.postcard .serializeBufferFull))] } :
            Party).sent = party.sent := by
        rw [Party.sent, List.filter_append, List.map_append]
        exact List.append_nil _
      have nothing : after.unsent = [] := by rw [BufferedMessenger.unsent, same, idle]
      rw [sent, ← framed, unsent]
      exact congrArg (party.stream ++ ·) nothing
    · show after.received = []
      rw [BufferedMessenger.received, same, idle]

theorem Party.Sound.put (sound : party.Sound capacity) {count : Nat} {after : Party}
    (taken : party.put count = some after) :
    after.Sound capacity ∧ party.messenger.received = [] ∧ after.messenger.received = [] ∧
      after.reads = party.reads := by
  obtain ⟨messenger, answered, framed⟩ := sound
  obtain ⟨⟨piece, next⟩, moved, rfl⟩ := Option.map_eq_some_iff.mp taken
  obtain ⟨afterSound, split, received, read⟩ :=
    BufferedMessenger.put_moves count piece next messenger moved
  refine ⟨⟨afterSound, answered, ?_⟩, received, read, rfl⟩
  rw [split, ← List.append_assoc] at framed
  exact framed

theorem Party.Sound.nextMsg (sound : party.Sound capacity) (type : MessageType)
    (idle : party.messenger.progress = .idle) : (party.nextMsg type).Sound capacity := by
  obtain ⟨messenger, answered, framed⟩ := sound
  have unsent : party.messenger.unsent = [] := by rw [BufferedMessenger.unsent, idle]
  have short : ([] : List UInt8).length < 4 := by decide
  refine ⟨⟨messenger.size, short⟩, answered, ?_⟩
  rw [unsent] at framed
  exact framed

end Parties

/-! ## What arrives -/

namespace BufferedMessenger

variable {messenger : BufferedMessenger} {capacity : Nat}

/-- The call goes on with what it has, or it answers what is read off the front of that. -/
theorem receive_any (bytes : List UInt8) (sound : messenger.Sound capacity)
    (reading : messenger.Reading) (asked : bytes.length ≤ messenger.wanted) :
    ((messenger.receive bytes).2 = none ∧
        (messenger.receive bytes).1.received = messenger.received ++ bytes ∨
      ∃ type answer, (messenger.receive bytes).2 = some (type, answer) ∧
        (∀ more, type.next ⟨capacity⟩ (messenger.received ++ bytes ++ more) = (answer, more)) ∧
        (messenger.receive bytes).1.received = []) ∧
      (messenger.receive bytes).1.Sound capacity ∧
      (messenger.receive bytes).1.unsent = [] := by
  by_cases announced : 4 ≤ (messenger.received ++ bytes).length →
      ofBe ((messenger.received ++ bytes).take 4) ≤ capacity
  · obtain ⟨outcome, afterSound, unsent⟩ := receive_moves bytes sound reading asked announced
    refine ⟨?_, afterSound, unsent⟩
    rcases outcome with going | ⟨type, body, short, framed, answered, nothing⟩
    · exact .inl going
    · refine .inr ⟨type, type.answer body, answered, fun more => ?_, nothing⟩
      have long : 4 ≤ (messenger.received ++ bytes).length := by
        rw [← framed, frame_length]
        omega
      have fits := announced long
      rw [← framed] at fits ⊢
      have header := frame_take_four body []
      rw [List.append_nil] at header
      rw [header, ofBe_toBe _ short] at fits
      exact type.next_frame capacity body more fits short
  · -- a length that is too large, of which the last bytes have come now
    push Not at announced
    obtain ⟨header, large⟩ := announced
    obtain ⟨buf, progress⟩ := messenger
    obtain ⟨size, inside⟩ := sound
    cases progress with
    | readingLength type before =>
        have short : before.length < 4 := inside
        have wantedLength : bytes.length ≤ 4 - before.length := asked
        simp only [received] at header large
        have four : (before ++ bytes).length = 4 := by
          rw [List.length_append] at header ⊢
          omega
        rw [List.take_of_length_le four.le] at large
        have more_ : ¬ (before ++ bytes).length < 4 := by omega
        have room : buf.length < ofBe (before ++ bytes) := by
          have sameSize : buf.length = capacity := size
          omega
        simp only [receive, if_neg more_, if_pos room, received]
        refine ⟨.inr ⟨type, _, rfl, fun more => ?_, trivial⟩, ⟨size, trivial⟩, rfl⟩
        have start_ : ¬ (before ++ bytes ++ more).length < 4 := by
          rw [List.length_append]
          omega
        have front : (before ++ bytes ++ more).take 4 = before ++ bytes := List.take_left' four
        have behind : (before ++ bytes ++ more).drop 4 = more := List.drop_left' four
        cases type with
        | client =>
            simp only [MessageType.next, Messenger.nextMsg, if_neg start_, front, behind,
              if_pos large]
            rfl
        | server =>
            simp only [MessageType.next, Messenger.nextMsg, if_neg start_, front, behind,
              if_pos large]
            rfl
    | readingBody type length filled =>
        obtain ⟨_, fits, small⟩ := inside
        simp only [received] at large
        rw [List.append_assoc, List.take_left' (toBe_length _), ofBe_toBe _ small] at large
        omega
    | idle => exact absurd reading id
    | panicked => exact absurd reading id
    | writing written stop => exact absurd reading id

/-- What a call holds of a message is less than the buffer and a length. -/
theorem received_short (sound : messenger.Sound capacity) (roomy : 4 ≤ capacity) :
    messenger.received.length < 4 + capacity := by
  obtain ⟨buf, progress⟩ := messenger
  obtain ⟨size, inside⟩ := sound
  cases progress with
  | readingLength type bytes =>
      have few : bytes.length < 4 := inside
      simp only [received]
      omega
  | readingBody type length filled =>
      obtain ⟨started, fits, _⟩ := inside
      simp only [received, List.length_append, toBe_length, List.length_take]
      omega
  | _ =>
      simp only [received, List.length_nil]
      omega

end BufferedMessenger

/-! ## Runs -/

/-- What was answered is what all the bytes say; those that are left are being read. -/
structure Exposed.Sound (capacity : Nat) (exposed : Exposed) : Prop where
  party : exposed.party.Sound capacity
  answers : Answers capacity exposed.arrived exposed.party.reads exposed.party.messenger.received

theorem exposedStep_sound {capacity : Nat} (roomy : 4 ≤ capacity) (exposed : Exposed)
    (event : ExposedEvent) (next : Exposed) (sound : exposed.Sound capacity)
    (run : exposedStep exposed event = some next) : next.Sound capacity := by
  obtain ⟨party, answers⟩ := sound
  cases event with
  | writeMsg message left =>
      obtain ⟨⟨idle, leaves⟩, same⟩ := (Option.ite_none_right_eq_some).mp run
      cases same
      obtain ⟨after, received⟩ := party.writeMsg roomy message left idle leaves
      refine ⟨after, ?_⟩
      simp only [received]
      rw [BufferedMessenger.received, idle] at answers
      exact answers
  | put count =>
      obtain ⟨after, taken, rfl⟩ := Option.map_eq_some_iff.mp run
      obtain ⟨afterSound, before, received, reads⟩ := party.put taken
      refine ⟨afterSound, ?_⟩
      simp only [received, reads]
      rw [before] at answers
      exact answers
  | nextMsg type =>
      obtain ⟨idle, same⟩ := (Option.ite_none_right_eq_some).mp run
      cases same
      refine ⟨party.nextMsg type idle, ?_⟩
      rw [BufferedMessenger.received, idle] at answers
      exact answers
  | receive bytes =>
      obtain ⟨⟨some_, asked⟩, same⟩ := (Option.ite_none_right_eq_some).mp run
      cases same
      have reading := wanted_reading exposed.party.messenger (by omega)
      have unsent := reading.unsent
      obtain ⟨outcome, afterSound, nothing⟩ :=
        BufferedMessenger.receive_any bytes party.messenger reading asked
      have grown := answers.more bytes
      refine ⟨⟨afterSound, party.answered, ?_⟩, ?_⟩
      · have framed := party.framed
        rw [unsent] at framed
        show exposed.party.stream ++ (exposed.party.messenger.receive bytes).1.unsent = _
        rw [nothing]
        exact framed
      · simp only [Party.receive]
        rcases outcome with ⟨going, more⟩ | ⟨type, answer, answered, read, left_⟩
        · rw [going, Option.toList_none, List.append_nil, more]
          exact grown
        · rw [answered, Option.toList_some, left_]
          exact grown.snoc type answer read

theorem exposed_sound {capacity : Nat} (roomy : 4 ≤ capacity) {events : List ExposedEvent}
    {exposed : Exposed}
    (run : runInputs exposedStep events ⟨.withCapacity capacity, []⟩ = some exposed) :
    exposed.Sound capacity := by
  have start_ : Exposed.Sound capacity ⟨.withCapacity capacity, []⟩ :=
    ⟨⟨BufferedMessenger.withCapacity_sound capacity, fun _ member =>
      absurd member List.not_mem_nil, rfl⟩, .nil []⟩
  exact runInputs_invariant exposedStep (Exposed.Sound capacity) (exposedStep_sound roomy) events
    _ exposed start_ run

/-- Whatever bytes arrive: no call panics, what is written is framed as it would be alone, what
`next_msg` answers is read off the front of all the bytes, and what it holds of them never
outgrows the buffer.  However the same bytes are cut otherwise, and whatever is written in
between, the answers to the same questions are the same. -/
theorem any_bytes (capacity : Nat) (roomy : 4 ≤ capacity) (events : List ExposedEvent)
    (exposed : Exposed)
    (run : runInputs exposedStep events ⟨.withCapacity capacity, []⟩ = some exposed) :
    exposed.party.messenger.progress ≠ .panicked ∧
      (∀ write ∈ exposed.party.writes, write.2 = writeAnswer capacity write.1) ∧
      exposed.party.stream ++ exposed.party.messenger.unsent =
        frames (exposed.party.sent.map AnyMessage.encoding) ∧
      Answers capacity exposed.arrived exposed.party.reads exposed.party.messenger.received ∧
      exposed.party.messenger.received.length < 4 + capacity ∧
      ∀ others other, runInputs exposedStep others ⟨.withCapacity capacity, []⟩ = some other →
        other.arrived = exposed.arrived →
          other.party.reads.map Prod.fst = exposed.party.reads.map Prod.fst →
            other.party.reads = exposed.party.reads := by
  obtain ⟨party, answers⟩ := exposed_sound roomy run
  refine ⟨fun panicked => ?_, party.answered, party.framed, answers,
    BufferedMessenger.received_short party.messenger roomy, ?_⟩
  · have inside := party.messenger.inside
    rw [panicked] at inside
    exact inside
  · intro others other otherRun arrived types
    have otherAnswers := (exposed_sound roomy otherRun).answers
    rw [arrived] at otherAnswers
    exact (otherAnswers.unique answers types).1

/-- A length that is too large, and then the last message of a client. -/
def hugeLengthFirst : List ExposedEvent :=
  [.nextMsg .client, .receive [0, 0], .receive [0, 200], .nextMsg .client, .receive [0, 0, 0],
    .receive [1], .receive [3]]

theorem hugeLength_answered : ∃ exposed,
    runInputs exposedStep hugeLengthFirst ⟨.withCapacity 8, []⟩ = some exposed ∧
      exposed.party.reads =
        [(.client, .error .tmpBufTooSmall), (.client, .ok (.client .doneSending))] ∧
      Answers 8 [0, 0, 0, 200, 0, 0, 0, 1, 3] exposed.party.reads
        exposed.party.messenger.received := by
  obtain ⟨exposed, run⟩ := Option.isSome_iff_exists.mp (show
    (runInputs exposedStep hugeLengthFirst ⟨.withCapacity 8, []⟩).isSome = true by decide)
  have seen : (runInputs exposedStep hugeLengthFirst ⟨.withCapacity 8, []⟩).map
      (fun exposed => (exposed.party.reads, exposed.arrived)) =
        some ([(.client, .error .tmpBufTooSmall), (.client, .ok (.client .doneSending))],
          [0, 0, 0, 200, 0, 0, 0, 1, 3]) := by decide
  rw [run, Option.map_some, Option.some.injEq, Prod.mk.injEq] at seen
  obtain ⟨_, _, _, answers, _⟩ := any_bytes 8 (by decide) hugeLengthFirst exposed run
  rw [seen.2] at answers
  exact ⟨exposed, run, seen.1, answers⟩

end Gday.HolePunch
