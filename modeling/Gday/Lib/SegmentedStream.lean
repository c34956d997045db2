import Mathlib

/-! # Reading a stream that arrives in segments

A stream is the list of segments in which its bytes arrive, up to its end; an empty
segment is a read that had to wait.  One read takes no more than a segment.  What the
reads of a call deliver does not depend on how the bytes are cut. -/
set_option autoImplicit false
namespace Gday.Lib.SegmentedStream

abbrev Segments := List (List UInt8)

/-- Reads until there are so many bytes or the stream has ended. -/
def takeUpTo : Nat → Segments → List UInt8 × Segments
  | 0, segments => ([], segments)
  | _ + 1, [] => ([], [])
  | count + 1, segment :: rest =>
      if count + 1 < segment.length then
        (segment.take (count + 1), segment.drop (count + 1) :: rest)
      else
        let (bytes, rest) := takeUpTo (count + 1 - segment.length) rest
        (segment ++ bytes, rest)

theorem takeUpTo_flatten (count : Nat) (segments : Segments) :
    (takeUpTo count segments).1 = segments.flatten.take count ∧
      (takeUpTo count segments).2.flatten = segments.flatten.drop count := by
  induction segments generalizing count with
  | nil => cases count <;> simp [takeUpTo]
  | cons segment rest ih =>
      cases count with
      | zero => simp [takeUpTo]
      | succ count =>
          rw [takeUpTo, List.flatten_cons]
          by_cases inside : count + 1 < segment.length
          · rw [if_pos inside, List.take_append_of_le_length inside.le,
              List.drop_append_of_le_length inside.le]
            exact ⟨rfl, rfl⟩
          · rw [if_neg inside, List.take_append, List.drop_append]
            obtain ⟨bytes, behind⟩ := ih (count + 1 - segment.length)
            have whole : segment.take (count + 1) = segment :=
              List.take_of_length_le (by omega)
            have gone : segment.drop (count + 1) = [] := List.drop_of_length_le (by omega)
            rw [whole, gone]
            exact ⟨congrArg (segment ++ ·) bytes, behind⟩

/-- `read_exact`: all the bytes, or an error with those that there were. -/
def readExact (count : Nat) (segments : Segments) :
    Except (List UInt8) (List UInt8) × Segments :=
  let (bytes, rest) := takeUpTo count segments
  (if bytes.length = count then .ok bytes else .error bytes, rest)

theorem readExact_append (segments : Segments) (first second : List UInt8)
    (delivers : segments.flatten = first ++ second) :
    ∃ rest, readExact first.length segments = (.ok first, rest) ∧ rest.flatten = second := by
  obtain ⟨bytes, behind⟩ := takeUpTo_flatten first.length segments
  rw [delivers, List.take_left] at bytes
  rw [delivers, List.drop_left] at behind
  unfold readExact
  generalize takeUpTo first.length segments = taken at bytes behind
  obtain ⟨taken, rest⟩ := taken
  subst bytes
  exact ⟨rest, by simp, behind⟩

end Gday.Lib.SegmentedStream
