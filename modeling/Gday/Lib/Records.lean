import Mathlib.Data.List.Infix

/-! # Records without delimiters

Records are written one after the other, and a reader cuts what it gets at sizes that it was told.
Each byte is marked with the record that it was written for, or was read for; what comes behind
the records has no number.  Both agree on all bytes exactly where the sizes are right as far as
there is a byte behind. -/
set_option autoImplicit false
namespace Gday.Lib.Records

variable {Byte : Type}

/-- Bytes behind the records. -/
def behind (bytes : List Byte) : List (Option Nat × Byte) := bytes.map fun byte => (none, byte)

def record (number : Nat) (bytes : List Byte) : List (Option Nat × Byte) :=
  bytes.map fun byte => (some number, byte)

/-- The bytes as they were written, for records that are numbered from `first` on. -/
def marked (first : Nat) : List (List Byte) → List (Option Nat × Byte)
  | [] => []
  | chunk :: chunks => record first chunk ++ marked (first + 1) chunks

/-- The bytes as they are read by one who cuts at these sizes. -/
def cut (first : Nat) : List Nat → List Byte → List (Option Nat × Byte)
  | [], bytes => behind bytes
  | size :: sizes, bytes => record first (bytes.take size) ++ cut (first + 1) sizes (bytes.drop size)

/-- No record is longer than its size, and none is shorter unless nothing comes behind it. -/
def Aligned : List Nat → List (List Byte) → List Byte → Prop
  | size :: sizes, chunk :: chunks, last =>
      chunk.length ≤ size ∧ (chunk.length = size ∨ chunks.flatten ++ last = []) ∧
        Aligned sizes chunks last
  | _, _, _ => True

theorem cut_nil (first : Nat) (sizes : List Nat) : cut first sizes ([] : List Byte) = [] := by
  induction sizes generalizing first with
  | nil => rfl
  | cons size sizes ih =>
      rw [cut, List.take_nil, List.drop_nil, ih]
      rfl

theorem cut_length (first : Nat) (sizes : List Nat) (bytes : List Byte) :
    (cut first sizes bytes).length = bytes.length := by
  induction sizes generalizing first bytes with
  | nil => exact List.length_map _
  | cons size sizes ih =>
      rw [cut, List.length_append, ih, record, List.length_map, ← List.length_append,
        List.take_append_drop]

theorem marked_length (first : Nat) (chunks : List (List Byte)) :
    (marked first chunks).length = chunks.flatten.length := by
  induction chunks generalizing first with
  | nil => rfl
  | cons chunk chunks ih =>
      rw [marked, List.length_append, ih, record, List.length_map, List.flatten_cons,
        List.length_append]

/-- More bytes do not change what the first ones were read for. -/
theorem cut_prefix (first : Nat) (sizes : List Nat) {bytes more : List Byte}
    (start : bytes <+: more) : cut first sizes bytes <+: cut first sizes more := by
  induction sizes generalizing first bytes more with
  | nil => exact start.map _
  | cons size sizes ih =>
      rw [cut, cut]
      by_cases enough : size ≤ bytes.length
      · obtain ⟨rest, rfl⟩ := start
        rw [List.take_append_of_le_length enough, List.drop_append_of_le_length enough]
        exact (List.prefix_append_right_inj _).mpr (ih _ (List.prefix_append _ _))
      · rw [List.drop_of_length_le (by omega), cut_nil, List.append_nil]
        exact ((start.take size).map _).trans (List.prefix_append _ _)

theorem behind_number (bytes : List Byte) (number : Nat) :
    ∀ pair ∈ behind bytes, pair.1 ≠ some number := by
  intro pair member
  obtain ⟨byte, _, rfl⟩ := List.mem_map.mp member
  exact nofun

theorem record_number {first number : Nat} (later : number < first) (bytes : List Byte) :
    ∀ pair ∈ record first bytes, pair.1 ≠ some number := by
  intro pair member same
  obtain ⟨byte, _, rfl⟩ := List.mem_map.mp member
  exact absurd (Option.some.inj same) (by omega)

theorem marked_number {first number : Nat} (later : number < first) (chunks : List (List Byte)) :
    ∀ pair ∈ marked first chunks, pair.1 ≠ some number := by
  induction chunks generalizing first with
  | nil => exact fun pair member => absurd member List.not_mem_nil
  | cons chunk chunks ih =>
      intro pair member
      rcases List.mem_append.mp member with own | others
      · exact record_number later chunk pair own
      · exact ih (Nat.lt_succ_of_lt later) pair others

theorem cut_number {first number : Nat} (later : number < first) (sizes : List Nat)
    (bytes : List Byte) : ∀ pair ∈ cut first sizes bytes, pair.1 ≠ some number := by
  induction sizes generalizing first bytes with
  | nil => exact behind_number bytes number
  | cons size sizes ih =>
      intro pair member
      rcases List.mem_append.mp member with own | others
      · exact record_number later _ pair own
      · exact ih (Nat.lt_succ_of_lt later) _ pair others

/-- How many bytes have the number of the record that comes first. -/
theorem count_first (number : Nat) (bytes : List Byte) (others : List (Option Nat × Byte))
    (none_ : ∀ pair ∈ others, pair.1 ≠ some number) :
    (record number bytes ++ others).countP (fun pair => pair.1 = some number) = bytes.length := by
  have later : others.countP (fun pair => pair.1 = some number) = 0 :=
    List.countP_eq_zero.mpr fun pair member => by simpa using none_ pair member
  rw [List.countP_append, later, Nat.add_zero, record, List.countP_map]
  exact List.countP_eq_length.mpr fun byte _ => decide_eq_true rfl

/-- A record is cut off as it was written exactly where it ends. -/
theorem take_iff (size : Nat) (chunk rest : List Byte) :
    ((chunk ++ rest).take size).length = chunk.length ↔
      chunk.length ≤ size ∧ (chunk.length = size ∨ rest = []) := by
  rw [List.length_take, List.length_append, ← List.length_eq_zero_iff]
  omega

theorem cut_off {size : Nat} {chunk rest : List Byte}
    (whole : ((chunk ++ rest).take size).length = chunk.length) :
    (chunk ++ rest).take size = chunk ∧ (chunk ++ rest).drop size = rest :=
  List.append_inj (List.take_append_drop size (chunk ++ rest)) whole

/-- A reader takes all bytes for what they are: exactly where the records are aligned. -/
theorem cut_eq_iff (first : Nat) (sizes : List Nat) (chunks : List (List Byte))
    (last : List Byte)
    (count : chunks.length = sizes.length ∨ chunks.length ≤ sizes.length ∧ last = []) :
    cut first sizes (chunks.flatten ++ last) = marked first chunks ++ behind last ↔
      Aligned sizes chunks last := by
  induction sizes generalizing first chunks with
  | nil =>
      have none_ : chunks = [] := by simpa using count.imp_right And.left
      subst none_
      exact ⟨fun _ => trivial, fun _ => rfl⟩
  | cons size sizes ih =>
      cases chunks with
      | nil =>
          have nothing : last = [] := by simpa using count
          subst nothing
          exact ⟨fun _ => trivial, fun _ => cut_nil _ _⟩
      | cons chunk chunks =>
          have later := ih (first + 1) chunks (by simpa using count)
          rw [List.flatten_cons, List.append_assoc, cut, marked, List.append_assoc, Aligned,
            ← later, ← and_assoc, ← take_iff]
          have others : ∀ pair ∈ marked (first + 1) chunks ++ behind last,
              pair.1 ≠ some first := by
            intro pair member
            rcases List.mem_append.mp member with other | left_
            · exact marked_number (Nat.lt_succ_self first) chunks pair other
            · exact behind_number last first pair left_
          constructor
          · intro same
            have whole := congrArg (List.countP fun pair => pair.1 = some first) same
            rw [count_first first _ _ (cut_number (Nat.lt_succ_self first) _ _),
              count_first first _ _ others] at whole
            rw [(cut_off whole).1, (cut_off whole).2] at same
            exact ⟨whole, List.append_cancel_left same⟩
          · rintro ⟨whole, same⟩
            rw [(cut_off whole).1, (cut_off whole).2, same]

end Gday.Lib.Records
