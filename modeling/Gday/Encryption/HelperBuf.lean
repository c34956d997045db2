import Gday.Lib.AsyncStream

/-! # The buffers of gday_encryption

`BytesMut` keeps its initialised bytes and its capacity; `splitOff` and `unsplit`
move capacity between two halves as the `bytes` crate documents.  `HelperBuf` adds
the cursor that separates the bytes already used from the unread ones. -/
set_option autoImplicit false
namespace Gday.Encryption

open Gday.Lib.AsyncStream

def maxChunkSize : Nat := 8 * 1024

def ciphertextOverhead : Nat := 16

structure BytesMut where
  bytes : List UInt8
  capacity : Nat
  fits : bytes.length ≤ capacity
  deriving DecidableEq

namespace BytesMut

def withCapacity (capacity : Nat) : BytesMut := ⟨[], capacity, Nat.zero_le _⟩

def len (buf : BytesMut) : Nat := buf.bytes.length

/-- Puts `bytes` in place of the contents; a buffer that is too small is reallocated. -/
def replace (buf : BytesMut) (bytes : List UInt8) : BytesMut :=
  ⟨bytes, max buf.capacity bytes.length, Nat.le_max_right ..⟩

def extendFromSlice (buf : BytesMut) (bytes : List UInt8) : BytesMut :=
  buf.replace (buf.bytes ++ bytes)

def clear (buf : BytesMut) : BytesMut := ⟨[], buf.capacity, Nat.zero_le _⟩

def truncate (buf : BytesMut) (length : Nat) : BytesMut :=
  ⟨buf.bytes.take length, buf.capacity, by
    have := buf.fits
    rw [List.length_take]
    omega⟩

/-- `split_off(at)`: the elements `[0, at)` and the elements `[at, capacity)`. -/
def splitOff (buf : BytesMut) (at_ : Nat) : Except Panic (BytesMut × BytesMut) :=
  if at_ ≤ buf.capacity then
    .ok (⟨buf.bytes.take at_, at_, by rw [List.length_take]; omega⟩,
      ⟨buf.bytes.drop at_, buf.capacity - at_, by
        have := buf.fits
        rw [List.length_drop]
        omega⟩)
  else .error .splitAt

/-- `unsplit`: absorbs the half that `split_off` returned.  With no gap left before
it the two are joined in place; otherwise its bytes are copied. -/
def unsplit (buf other : BytesMut) : BytesMut :=
  if buf.bytes = [] then other
  else if buf.len = buf.capacity then
    ⟨buf.bytes ++ other.bytes, buf.capacity + other.capacity, by
      have := buf.fits
      have := other.fits
      rw [List.length_append]
      omega⟩
  else buf.extendFromSlice other.bytes

@[simp] theorem replace_bytes (buf : BytesMut) (bytes : List UInt8) :
    (buf.replace bytes).bytes = bytes := rfl

@[simp] theorem replace_capacity (buf : BytesMut) (bytes : List UInt8) :
    (buf.replace bytes).capacity = max buf.capacity bytes.length := rfl

@[simp] theorem truncate_bytes (buf : BytesMut) (length : Nat) :
    (buf.truncate length).bytes = buf.bytes.take length := rfl

@[simp] theorem truncate_capacity (buf : BytesMut) (length : Nat) :
    (buf.truncate length).capacity = buf.capacity := rfl

end BytesMut

structure HelperBuf where
  buf : BytesMut
  cursor : Nat
  deriving DecidableEq

namespace HelperBuf

def withCapacity (capacity : Nat) : HelperBuf := ⟨BytesMut.withCapacity capacity, 0⟩

def advanceCursor (helper : HelperBuf) (numBytes : Nat) : Except Panic HelperBuf :=
  if helper.cursor + numBytes ≤ helper.buf.len then
    if helper.cursor + numBytes = helper.buf.len then
      .ok { buf := helper.buf.clear, cursor := 0 }
    else .ok { helper with cursor := helper.cursor + numBytes }
  else .error .assertion

def data (helper : HelperBuf) : Except Panic (List UInt8) :=
  slice helper.buf.bytes helper.cursor helper.buf.len

def spareCapacityLen (helper : HelperBuf) : Nat := helper.buf.capacity - helper.buf.len

/-- Moves the unread bytes to the front, over the bytes already used. -/
def wrap (helper : HelperBuf) : Except Panic HelperBuf :=
  if helper.cursor ≤ helper.buf.len then
    let blank := helper.buf.bytes.take helper.cursor
    let data := helper.buf.bytes.drop helper.cursor
    if data.length ≤ blank.length then
      .ok { buf := (helper.buf.replace (data ++ blank.drop data.length ++ data)).truncate data.length,
            cursor := 0 }
    else .error .sliceIndex
  else .error .splitAt

/-! ## The bytes not yet used -/

def unread (helper : HelperBuf) : List UInt8 := helper.buf.bytes.drop helper.cursor

/-- The cursor stands before an unread byte, or the buffer is empty and reset. -/
def WellFormed (helper : HelperBuf) : Prop :=
  helper.cursor < helper.buf.len ∨ (helper.cursor = 0 ∧ helper.buf.bytes = [])

theorem withCapacity_wellFormed (capacity : Nat) : (withCapacity capacity).WellFormed :=
  Or.inr ⟨rfl, rfl⟩

theorem WellFormed.cursor_le {helper : HelperBuf} (wf : helper.WellFormed) :
    helper.cursor ≤ helper.buf.len := by
  rcases wf with before | ⟨reset, _⟩
  · omega
  · omega

theorem unread_length (helper : HelperBuf) :
    helper.unread.length = helper.buf.len - helper.cursor := by
  rw [unread, List.length_drop, BytesMut.len]

theorem WellFormed.data_eq {helper : HelperBuf} (wf : helper.WellFormed) :
    helper.data = .ok helper.unread := by
  have bound := wf.cursor_le
  rw [data, slice, if_pos ⟨bound, Nat.le_refl _⟩, unread]
  congr 1
  apply List.take_of_length_le
  rw [List.length_drop, BytesMut.len]

theorem WellFormed.unread_eq_nil {helper : HelperBuf} (wf : helper.WellFormed) :
    helper.unread = [] ↔ helper.buf.bytes = [] := by
  constructor
  · intro none
    have lengths := helper.unread_length
    rw [none, List.length_nil] at lengths
    rcases wf with before | ⟨_, empty⟩
    · omega
    · exact empty
  · intro empty
    simp [unread, empty]

theorem WellFormed.spare_of_unread_nil {helper : HelperBuf} (wf : helper.WellFormed)
    (none : helper.unread = []) : helper.spareCapacityLen = helper.buf.capacity := by
  rw [spareCapacityLen, BytesMut.len, wf.unread_eq_nil.mp none]
  simp

theorem spare_add_len (helper : HelperBuf) :
    helper.spareCapacityLen + helper.buf.len = helper.buf.capacity := by
  have := helper.buf.fits
  rw [spareCapacityLen, BytesMut.len]
  omega

/-- What `advance_cursor` does within the unread bytes. -/
theorem advanceCursor_spec (helper : HelperBuf) (wf : helper.WellFormed) (numBytes : Nat)
    (within : numBytes ≤ helper.unread.length) :
    ∃ next, helper.advanceCursor numBytes = .ok next ∧ next.WellFormed ∧
      next.unread = helper.unread.drop numBytes ∧ next.buf.capacity = helper.buf.capacity := by
  have bound := wf.cursor_le
  rw [unread_length] at within
  by_cases all : helper.cursor + numBytes = helper.buf.len
  · refine ⟨{ buf := helper.buf.clear, cursor := 0 }, ?_, Or.inr ⟨rfl, rfl⟩, ?_, rfl⟩
    · rw [advanceCursor, if_pos (by omega), if_pos all]
    · have gone : helper.unread.drop numBytes = [] := by
        rw [List.drop_eq_nil_iff, unread_length]
        omega
      rw [gone]
      rfl
  · refine ⟨{ helper with cursor := helper.cursor + numBytes }, ?_, Or.inl ?_, ?_, rfl⟩
    · rw [advanceCursor, if_pos (by omega), if_neg all]
    · show helper.cursor + numBytes < helper.buf.len
      omega
    · rw [unread, unread, List.drop_drop]

theorem advanceCursor_error (helper : HelperBuf) (wf : helper.WellFormed) (numBytes : Nat)
    (beyond : helper.unread.length < numBytes) :
    helper.advanceCursor numBytes = .error .assertion := by
  have bound := wf.cursor_le
  rw [unread_length] at beyond
  rw [advanceCursor, if_neg (by omega)]

theorem wrap_spec (helper : HelperBuf) (wf : helper.WellFormed)
    (room : helper.unread.length ≤ helper.cursor) :
    ∃ next, helper.wrap = .ok next ∧ next.WellFormed ∧ next.unread = helper.unread ∧
      next.buf.capacity = helper.buf.capacity ∧ next.buf.bytes = helper.unread := by
  have bound := wf.cursor_le
  have capacityLe := helper.buf.fits
  have lengths := helper.unread_length
  have blankLength : (helper.buf.bytes.take helper.cursor).length = helper.cursor := by
    rw [List.length_take]
    exact Nat.min_eq_left bound
  have copied : (helper.unread ++
      (helper.buf.bytes.take helper.cursor).drop helper.unread.length ++
        helper.unread).length = helper.buf.len := by
    rw [List.length_append, List.length_append, List.length_drop, blankLength]
    omega
  have kept : (helper.unread ++
      (helper.buf.bytes.take helper.cursor).drop helper.unread.length ++
        helper.unread).take helper.unread.length = helper.unread := by
    rw [List.append_assoc]
    exact List.take_left' rfl
  refine ⟨{ buf := (helper.buf.replace (helper.unread ++
      (helper.buf.bytes.take helper.cursor).drop helper.unread.length ++
        helper.unread)).truncate helper.unread.length, cursor := 0 }, ?_, ?_, ?_, ?_, kept⟩
  · unfold wrap
    rw [if_pos bound]
    have small : (helper.buf.bytes.drop helper.cursor).length ≤
        (helper.buf.bytes.take helper.cursor).length := by
      rw [blankLength]
      exact room
    simp only [if_pos small]
    rfl
  · rcases wf with before | ⟨reset, empty⟩
    · left
      rw [BytesMut.len, BytesMut.truncate_bytes, BytesMut.replace_bytes, kept, lengths]
      show 0 < helper.buf.len - helper.cursor
      omega
    · right
      refine ⟨rfl, ?_⟩
      rw [BytesMut.truncate_bytes, BytesMut.replace_bytes, kept, unread, empty]
      simp
  · rw [unread, BytesMut.truncate_bytes, BytesMut.replace_bytes, kept, List.drop_zero]
  · rw [BytesMut.truncate_capacity, BytesMut.replace_capacity, copied]
    exact Nat.max_eq_left capacityLe

theorem wrap_error (helper : HelperBuf) (wf : helper.WellFormed)
    (tooLong : helper.cursor < helper.unread.length) : helper.wrap = .error .sliceIndex := by
  have bound := wf.cursor_le
  have blankLength : (helper.buf.bytes.take helper.cursor).length = helper.cursor := by
    rw [List.length_take]
    exact Nat.min_eq_left bound
  unfold wrap
  rw [if_pos bound]
  have large : ¬ (helper.buf.bytes.drop helper.cursor).length ≤
      (helper.buf.bytes.take helper.cursor).length := by
    rw [blankLength]
    exact Nat.not_le_of_lt tooLong
  simp only [if_neg large]

/-! ## Appending to the buffer -/

/-- Adds bytes behind the unread ones. -/
def append (helper : HelperBuf) (bytes : List UInt8) : HelperBuf :=
  { helper with buf := helper.buf.extendFromSlice bytes }

theorem append_unread (helper : HelperBuf) (wf : helper.WellFormed) (bytes : List UInt8) :
    (helper.append bytes).unread = helper.unread ++ bytes := by
  show (helper.buf.bytes ++ bytes).drop helper.cursor = _
  rw [List.drop_append_of_le_length wf.cursor_le, unread]

theorem append_wellFormed (helper : HelperBuf) (wf : helper.WellFormed) (bytes : List UInt8) :
    (helper.append bytes).WellFormed := by
  rcases wf with before | ⟨reset, empty⟩
  · left
    show helper.cursor < (helper.buf.bytes ++ bytes).length
    rw [List.length_append]
    exact Nat.lt_add_right _ before
  · cases bytes with
    | nil =>
        right
        refine ⟨reset, ?_⟩
        show helper.buf.bytes ++ [] = []
        rw [empty, List.append_nil]
    | cons byte rest =>
        left
        show helper.cursor < (helper.buf.bytes ++ byte :: rest).length
        rw [reset, List.length_append, List.length_cons]
        omega

theorem append_capacity (helper : HelperBuf) (bytes : List UInt8)
    (room : bytes.length ≤ helper.spareCapacityLen) :
    (helper.append bytes).buf.capacity = helper.buf.capacity := by
  have fits := helper.spare_add_len
  show max helper.buf.capacity (helper.buf.bytes ++ bytes).length = _
  rw [List.length_append]
  apply Nat.max_eq_left
  rw [BytesMut.len] at fits
  omega

theorem append_len (helper : HelperBuf) (bytes : List UInt8) :
    (helper.append bytes).buf.len = helper.buf.len + bytes.length := by
  show (helper.buf.bytes ++ bytes).length = _
  rw [List.length_append, BytesMut.len]

end HelperBuf
end Gday.Encryption
