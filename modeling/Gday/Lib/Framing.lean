import Gday.Lib.BigEndian

/-! # Length-prefixed frames in a byte stream

A frame is a four-byte big-endian length followed by that many bytes.  `peekFrame`
looks for a complete frame at the head of a stream.  It answers exactly when the
stream starts with a frame (`peekFrame_eq_some`), so a stream is cut into frames in
one way only, wherever the bytes received so far happen to end. -/
set_option autoImplicit false
namespace Gday.Lib.Framing

open Gday.Lib.BigEndian

def frame (body : List UInt8) : List UInt8 := toBe body.length ++ body

def frames (bodies : List (List UInt8)) : List UInt8 := bodies.flatMap frame

def peekFrame (stream : List UInt8) : Option (List UInt8) :=
  if 4 ≤ stream.length then
    if 4 + ofBe (stream.take 4) ≤ stream.length then
      some ((stream.drop 4).take (ofBe (stream.take 4)))
    else none
  else none

@[simp] theorem frame_length (body : List UInt8) : (frame body).length = body.length + 4 := by
  simp [frame]
  omega

@[simp] theorem frames_nil : frames [] = [] := rfl

@[simp] theorem frames_cons (body : List UInt8) (rest : List (List UInt8)) :
    frames (body :: rest) = frame body ++ frames rest := rfl

@[simp] theorem frames_append (left right : List (List UInt8)) :
    frames (left ++ right) = frames left ++ frames right := by
  simp [frames]

theorem frame_take_four (body rest : List UInt8) :
    (frame body ++ rest).take 4 = toBe body.length := by
  rw [frame, List.append_assoc]
  exact List.take_left' (toBe_length _)

theorem frame_drop_four (body rest : List UInt8) :
    (frame body ++ rest).drop 4 = body ++ rest := by
  rw [frame, List.append_assoc]
  exact List.drop_left' (toBe_length _)

theorem peekFrame_frame (body rest : List UInt8) (short : body.length < 2 ^ 32) :
    peekFrame (frame body ++ rest) = some body := by
  have header : ofBe ((frame body ++ rest).take 4) = body.length := by
    rw [frame_take_four, ofBe_toBe _ short]
  have long : 4 + body.length ≤ (frame body ++ rest).length := by
    rw [List.length_append, frame_length]
    omega
  rw [peekFrame, if_pos (by omega), header, if_pos long, frame_drop_four]
  simp

theorem peekFrame_eq_some (stream body : List UInt8) :
    peekFrame stream = some body ↔
      body.length < 2 ^ 32 ∧ ∃ rest, stream = frame body ++ rest := by
  constructor
  · intro found
    rw [peekFrame] at found
    by_cases header : 4 ≤ stream.length
    · rw [if_pos header] at found
      have four : (stream.take 4).length = 4 := by simp; omega
      by_cases complete : 4 + ofBe (stream.take 4) ≤ stream.length
      · rw [if_pos complete, Option.some.injEq] at found
        have bodyLength : body.length = ofBe (stream.take 4) := by
          rw [← found, List.length_take, List.length_drop]
          omega
        refine ⟨by rw [bodyLength]; exact ofBe_lt _ four, stream.drop (4 + body.length), ?_⟩
        rw [frame, bodyLength, toBe_ofBe _ four, ← found, List.append_assoc, ← List.drop_drop,
          List.take_append_drop, List.take_append_drop]
      · simp [complete] at found
    · simp [header] at found
  · rintro ⟨short, rest, rfl⟩
    exact peekFrame_frame body rest short

/-- A stream that starts with a frame but shows none holds only a part of it. -/
theorem length_lt_of_peekFrame_none (seen unseen body rest : List UInt8)
    (short : body.length < 2 ^ 32) (split : seen ++ unseen = frame body ++ rest)
    (hidden : peekFrame seen = none) : seen.length < body.length + 4 := by
  by_contra long
  have start : seen = frame body ++ seen.drop (frame body).length := by
    have whole : (seen ++ unseen).take (frame body).length = frame body := by
      rw [split]
      exact List.take_left' rfl
    rw [List.take_append_of_le_length (by rw [frame_length]; omega)] at whole
    conv => lhs; rw [← List.take_append_drop (frame body).length seen, whole]
  rw [start, peekFrame_frame _ _ short] at hidden
  cases hidden

/-- A complete frame at the head of what was seen is the stream's first frame. -/
theorem peekFrame_of_split (seen unseen body found rest : List UInt8)
    (short : body.length < 2 ^ 32) (split : seen ++ unseen = frame body ++ rest)
    (shown : peekFrame seen = some found) :
    found = body ∧ ∃ more, seen = frame body ++ more ∧ more ++ unseen = rest := by
  obtain ⟨foundShort, more, seenEq⟩ := (peekFrame_eq_some seen found).mp shown
  have whole : peekFrame (seen ++ unseen) = some found := by
    rw [seenEq, List.append_assoc]
    exact peekFrame_frame _ _ foundShort
  rw [split, peekFrame_frame _ _ short, Option.some.injEq] at whole
  subst whole
  refine ⟨rfl, more, seenEq, ?_⟩
  rw [seenEq, List.append_assoc] at split
  exact List.append_cancel_left split

/-- Two ways to cut a stream into frames agree as far as both go. -/
theorem frames_split (bodies all : List (List UInt8)) (rest : List UInt8)
    (short : ∀ body ∈ bodies, body.length < 2 ^ 32) (allShort : ∀ body ∈ all, body.length < 2 ^ 32)
    (split : frames bodies ++ rest = frames all) :
    ∃ more, all = bodies ++ more ∧ rest = frames more := by
  induction bodies generalizing all with
  | nil => exact ⟨all, rfl, split⟩
  | cons body others ih =>
      have bodyShort : body.length < 2 ^ 32 := short body (List.mem_cons_self ..)
      rw [frames_cons, List.append_assoc] at split
      cases all with
      | nil =>
          have lengths := congrArg List.length split
          rw [List.length_append, frame_length, frames_nil, List.length_nil] at lengths
          omega
      | cons first remaining =>
          have firstShort : first.length < 2 ^ 32 := allShort first (List.mem_cons_self ..)
          have same : some body = some first := by
            rw [← peekFrame_frame body (frames others ++ rest) bodyShort, split, frames_cons,
              peekFrame_frame first _ firstShort]
          rw [Option.some.injEq] at same
          subst same
          obtain ⟨more, remainingEq, restEq⟩ := ih remaining
            (fun b member => short b (List.mem_cons_of_mem _ member))
            (fun b member => allShort b (List.mem_cons_of_mem _ member))
            (List.append_cancel_left split)
          exact ⟨more, by rw [remainingEq]; rfl, restEq⟩

/-- Before the same rest there are the same bodies. -/
theorem frames_cancel (first second : List (List UInt8)) (rest : List UInt8)
    (short : ∀ body ∈ first, body.length < 2 ^ 32)
    (otherShort : ∀ body ∈ second, body.length < 2 ^ 32)
    (same : frames first ++ rest = frames second ++ rest) : first = second := by
  have split : frames second ++ [] = frames first := by
    rw [List.append_nil]
    exact (List.append_cancel_right same).symm
  obtain ⟨more, all, none⟩ := frames_split second first [] otherShort short split
  cases more with
  | nil => rw [all, List.append_nil]
  | cons body others =>
      have lengths := congrArg List.length none
      rw [frames_cons, List.length_append, frame_length, List.length_nil] at lengths
      omega

theorem length_lt_four_or_header (seen : List UInt8) (hidden : peekFrame seen = none) :
    seen.length < 4 ∨ seen.length < 4 + ofBe (seen.take 4) := by
  rw [peekFrame] at hidden
  by_cases header : 4 ≤ seen.length
  · right
    rw [if_pos header] at hidden
    by_contra complete
    rw [if_pos (by omega)] at hidden
    cases hidden
  · left
    omega

/-! ## Streams whose announced lengths are bounded -/

/-- Every length that a walk over the stream's frames meets is at most `limit`. -/
def AnnouncedLe (limit : Nat) (stream : List UInt8) : Prop :=
  ∀ bodies rest, stream = frames bodies ++ rest → (∀ body ∈ bodies, body.length < 2 ^ 32) →
    4 ≤ rest.length → ofBe (rest.take 4) ≤ limit

theorem AnnouncedLe.header {limit : Nat} {stream : List UInt8} (bounded : AnnouncedLe limit stream)
    (header : 4 ≤ stream.length) : ofBe (stream.take 4) ≤ limit :=
  bounded [] stream rfl (by simp) header

theorem AnnouncedLe.drop_frames {limit : Nat} {bodies : List (List UInt8)} {rest : List UInt8}
    (bounded : AnnouncedLe limit (frames bodies ++ rest))
    (short : ∀ body ∈ bodies, body.length < 2 ^ 32) : AnnouncedLe limit rest := by
  intro more tail split moreShort header
  apply bounded (bodies ++ more) tail ?_ ?_ header
  · rw [frames_append, split, List.append_assoc]
  · intro body member
    rcases List.mem_append.mp member with member | member
    · exact short body member
    · exact moreShort body member

theorem AnnouncedLe.of_append {limit : Nat} {seen unseen : List UInt8}
    (bounded : AnnouncedLe limit (seen ++ unseen)) : AnnouncedLe limit seen := by
  intro bodies rest split short header
  have wider := bounded bodies (rest ++ unseen) (by rw [split, List.append_assoc]) short
    (by rw [List.length_append]; omega)
  rwa [List.take_append_of_le_length header] at wider

theorem AnnouncedLe.cons {limit : Nat} {body stream : List UInt8} (small : body.length ≤ limit)
    (short : body.length < 2 ^ 32) (bounded : AnnouncedLe limit stream) :
    AnnouncedLe limit (frame body ++ stream) := by
  intro bodies rest split shorts header
  cases bodies with
  | nil =>
      rw [frames_nil, List.nil_append] at split
      rw [← split, frame_take_four, ofBe_toBe _ short]
      exact small
  | cons first others =>
      have firstShort : first.length < 2 ^ 32 := shorts first (List.mem_cons_self ..)
      rw [frames_cons, List.append_assoc] at split
      have same : some body = some first := by
        rw [← peekFrame_frame body stream short, split, peekFrame_frame first _ firstShort]
      rw [Option.some.injEq] at same
      subst same
      exact bounded others rest (List.append_cancel_left split)
        (fun b member => shorts b (List.mem_cons_of_mem _ member)) header

/-! ## Cutting a stream -/

/-- The frames at the front of a stream, which take a unit of fuel each. -/
def cutFramesFrom : Nat → List UInt8 → List (List UInt8)
  | 0, _ => []
  | fuel + 1, stream =>
      match peekFrame stream with
      | none => []
      | some body => body :: cutFramesFrom fuel (stream.drop (body.length + 4))

/-- All complete frames at the front of a stream. -/
def cutFrames (stream : List UInt8) : List (List UInt8) :=
  cutFramesFrom stream.length stream

theorem frames_length (bodies : List (List UInt8)) :
    (frames bodies).length = bodies.flatten.length + 4 * bodies.length := by
  induction bodies with
  | nil => rfl
  | cons body others ih =>
      rw [frames_cons, List.length_append, frame_length, ih, List.flatten_cons, List.length_append,
        List.length_cons]
      omega

theorem cutFramesFrom_cons (fuel : Nat) (body rest : List UInt8) (short : body.length < 2 ^ 32) :
    cutFramesFrom (fuel + 1) (frame body ++ rest) = body :: cutFramesFrom fuel rest := by
  simp only [cutFramesFrom, peekFrame_frame body rest short]
  rw [← frame_length body, List.drop_left]

theorem cutFramesFrom_sound (fuel : Nat) (stream : List UInt8) :
    (∀ body ∈ cutFramesFrom fuel stream, body.length < 2 ^ 32) ∧
      ∃ rest, stream = frames (cutFramesFrom fuel stream) ++ rest := by
  induction fuel generalizing stream with
  | zero => exact ⟨by simp [cutFramesFrom], stream, rfl⟩
  | succ fuel ih =>
      cases shown : peekFrame stream with
      | none =>
          simp only [cutFramesFrom, shown]
          exact ⟨by simp, stream, rfl⟩
      | some body =>
          obtain ⟨short, rest, rfl⟩ := (peekFrame_eq_some stream body).mp shown
          obtain ⟨shorts, tail, split⟩ := ih rest
          rw [cutFramesFrom_cons fuel body rest short]
          refine ⟨?_, tail, ?_⟩
          · intro other member
            rcases List.mem_cons.mp member with rfl | member
            · exact short
            · exact shorts other member
          · rw [frames_cons, List.append_assoc, ← split]

theorem prefix_cutFramesFrom (bodies : List (List UInt8)) (rest : List UInt8)
    (short : ∀ body ∈ bodies, body.length < 2 ^ 32) (fuel : Nat) (enough : bodies.length ≤ fuel) :
    bodies <+: cutFramesFrom fuel (frames bodies ++ rest) := by
  induction bodies generalizing fuel with
  | nil => exact List.nil_prefix
  | cons body others ih =>
      obtain ⟨less, rfl⟩ : ∃ less, fuel = less + 1 :=
        ⟨fuel - 1, by rw [List.length_cons] at enough; omega⟩
      rw [frames_cons, List.append_assoc,
        cutFramesFrom_cons less body _ (short body (List.mem_cons_self ..))]
      refine (List.prefix_cons_inj body).mpr (ih ?_ less ?_)
      · exact fun other member => short other (List.mem_cons_of_mem _ member)
      · rw [List.length_cons] at enough
        omega

/-- Frames that stand at the front of a stream are the first that it is cut into. -/
theorem prefix_cutFrames (bodies : List (List UInt8)) (rest : List UInt8)
    (short : ∀ body ∈ bodies, body.length < 2 ^ 32) :
    bodies <+: cutFrames (frames bodies ++ rest) := by
  apply prefix_cutFramesFrom bodies rest short
  rw [List.length_append, frames_length]
  omega

/-- What comes later cuts nothing that came before in another way. -/
theorem cutFrames_append (stream more : List UInt8) :
    cutFrames stream <+: cutFrames (stream ++ more) := by
  obtain ⟨short, rest, split⟩ := cutFramesFrom_sound stream.length stream
  have first := prefix_cutFrames (cutFrames stream) (rest ++ more) short
  rwa [← List.append_assoc, cutFrames, ← split] at first

/-- More fuel than bytes cuts nothing more. -/
theorem cutFramesFrom_enough (first second : Nat) (stream : List UInt8)
    (enough : stream.length ≤ first) (alsoEnough : stream.length ≤ second) :
    cutFramesFrom first stream = cutFramesFrom second stream := by
  induction first generalizing second stream with
  | zero =>
      have empty : stream = [] := List.length_eq_zero_iff.mp (by omega)
      subst empty
      cases second <;> rfl
  | succ first ih =>
      cases second with
      | zero =>
          have empty : stream = [] := List.length_eq_zero_iff.mp (by omega)
          subst empty
          rfl
      | succ second =>
          rw [cutFramesFrom, cutFramesFrom]
          cases peekFrame stream with
          | none => rfl
          | some body =>
              have shorter : (stream.drop (body.length + 4)).length ≤ min first second := by
                rw [List.length_drop]
                omega
              have same := ih second (stream.drop (body.length + 4)) (by omega) (by omega)
              simp only [same]

theorem cutFrames_hidden {stream : List UInt8} (hidden : peekFrame stream = none) :
    cutFrames stream = [] := by
  rw [cutFrames]
  cases stream.length with
  | zero => rfl
  | succ fuel => rw [cutFramesFrom, hidden]

theorem cutFrames_frame (msg rest : List UInt8) (short : msg.length < 2 ^ 32) :
    cutFrames (frame msg ++ rest) = msg :: cutFrames rest := by
  have length : (frame msg ++ rest).length = (msg.length + 3 + rest.length) + 1 := by
    rw [List.length_append, frame_length]
    omega
  rw [cutFrames, length, cutFramesFrom_cons _ _ _ short, cutFrames,
    cutFramesFrom_enough _ rest.length rest (by omega) (Nat.le_refl _)]

theorem cutFrames_short (stream : List UInt8) : ∀ msg ∈ cutFrames stream, msg.length < 2 ^ 32 :=
  (cutFramesFrom_sound stream.length stream).1

/-- The stream begins with the frames that it is cut into. -/
theorem cutFrames_head {stream msg : List UInt8} {msgs : List (List UInt8)}
    (cut : cutFrames stream = msg :: msgs) : ∃ rest, stream = frame msg ++ rest := by
  obtain ⟨_, rest, split⟩ := cutFramesFrom_sound stream.length stream
  rw [← cutFrames, cut, frames_cons, List.append_assoc] at split
  exact ⟨_, split⟩

theorem cutFrames_frames (bodies : List (List UInt8))
    (short : ∀ body ∈ bodies, body.length < 2 ^ 32) :
    cutFrames (frames bodies) = bodies := by
  induction bodies with
  | nil => rfl
  | cons body others ih =>
      rw [frames_cons, cutFrames_frame body _ (short body List.mem_cons_self),
        ih fun other member => short other (List.mem_cons_of_mem _ member)]

end Gday.Lib.Framing
