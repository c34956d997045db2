import Mathlib

/-! # Padded text

`strip` takes padding away from both ends of a list.  Pieces between separators do not
change when the whole is stripped first, as long as the separator is no padding.  The last
section says which characters are one byte of UTF-8. -/
set_option autoImplicit false
namespace Gday.Lib.Text

section Strip

variable {α : Type} {padding : α → Bool}

def strip (padding : α → Bool) (text : List α) : List α :=
  (text.dropWhile padding).rdropWhile padding

theorem strip_cons (char : α) (text : List α) (padded : padding char = true) :
    strip padding (char :: text) = strip padding text := by
  rw [strip, List.dropWhile_cons_of_pos padded, strip]

theorem strip_concat (char : α) (text : List α) (padded : padding char = true) :
    strip padding (text ++ [char]) = strip padding text := by
  rw [strip, strip, List.dropWhile_append]
  cases rest : text.dropWhile padding with
  | nil =>
      rw [List.isEmpty_nil, if_pos rfl, List.dropWhile_cons_of_pos padded, List.dropWhile_nil]
  | cons first others =>
      rw [List.isEmpty_cons, if_neg Bool.false_ne_true,
        List.rdropWhile_concat_pos padding _ _ padded]

theorem strip_before (before text : List α) (padded : ∀ char ∈ before, padding char = true) :
    strip padding (before ++ text) = strip padding text := by
  induction before with
  | nil => rfl
  | cons char before ih =>
      have rest := List.forall_mem_cons.mp padded
      rw [List.cons_append, strip_cons char _ rest.1, ih rest.2]

theorem strip_behind (text after : List α) (padded : ∀ char ∈ after, padding char = true) :
    strip padding (text ++ after) = strip padding text := by
  induction after using List.reverseRecOn with
  | nil => rw [List.append_nil]
  | append_singleton after char ih =>
      rw [← List.append_assoc, strip_concat char _ (padded char (by simp)),
        ih fun other member => padded other (List.mem_append_left _ member)]

theorem strip_self (text : List α) (bare : ∀ char ∈ text, padding char = false) :
    strip padding text = text := by
  have front : text.dropWhile padding = text := by
    cases text with
    | nil => rfl
    | cons char text =>
        exact List.dropWhile_cons_of_neg (by rw [bare char List.mem_cons_self]; decide)
  rw [strip, front, List.rdropWhile_eq_self_iff]
  intro some_
  rw [bare _ (List.getLast_mem some_)]
  exact Bool.false_ne_true

/-- What stands between padding is all that is left. -/
theorem strip_padded (before text after : List α) (bare : ∀ char ∈ text, padding char = false)
    (padded : ∀ char ∈ before, padding char = true)
    (paddedBehind : ∀ char ∈ after, padding char = true) :
    strip padding (before ++ text ++ after) = text := by
  rw [strip_behind _ after paddedBehind, strip_before before text padded, strip_self text bare]

theorem exists_padding (padding : α → Bool) (text : List α) :
    ∃ before after, text = before ++ strip padding text ++ after ∧
      (∀ char ∈ before, padding char = true) ∧ ∀ char ∈ after, padding char = true := by
  refine ⟨text.takeWhile padding, (text.dropWhile padding).rtakeWhile padding, ?_, ?_, ?_⟩
  · rw [strip, List.append_assoc, List.rdropWhile_append_rtakeWhile,
      List.takeWhile_append_dropWhile]
  · exact fun char member => List.mem_takeWhile_imp member
  · exact fun char member => List.mem_rtakeWhile_imp member

end Strip

/-! ## Between separators -/

section Split

variable {α : Type} [DecidableEq α] {padding : α → Bool} (separator : α)

theorem splitOn_concat (text : List α) (char : α) (other : char ≠ separator) :
    ∃ pieces last, text.splitOn separator = pieces ++ [last] ∧
      (text ++ [char]).splitOn separator = pieces ++ [last ++ [char]] := by
  induction text with
  | nil => exact ⟨[], [], by simp, by simp [List.splitOn_cons_eq_if_modifyHead, other]⟩
  | cons first text ih =>
      obtain ⟨pieces, last, split, added⟩ := ih
      rw [List.cons_append, List.splitOn_cons_eq_if_modifyHead,
        List.splitOn_cons_eq_if_modifyHead, split, added]
      by_cases same : first = separator
      · exact ⟨[] :: pieces, last, by simp [same], by simp [same]⟩
      · cases pieces with
        | nil => exact ⟨[], first :: last, by simp [same], by simp [same]⟩
        | cons piece pieces =>
            exact ⟨(first :: piece) :: pieces, last, by simp [same], by simp [same]⟩

variable (bare : padding separator = false)
include bare

theorem strip_pieces_before (before text : List α)
    (padded : ∀ char ∈ before, padding char = true) :
    ((before ++ text).splitOn separator).map (strip padding) =
      (text.splitOn separator).map (strip padding) := by
  induction before with
  | nil => rfl
  | cons char before ih =>
      have rest := List.forall_mem_cons.mp padded
      have other : char ≠ separator := by
        intro same
        rw [same, bare] at rest
        cases rest.1
      rw [← ih rest.2, List.cons_append, List.splitOn_cons_eq_if_modifyHead,
        beq_false_of_ne other]
      cases pieces : (before ++ text).splitOn separator with
      | nil => rfl
      | cons piece others =>
          simp only [Bool.false_eq_true, if_false, List.modifyHead_cons, List.map_cons,
            strip_cons char piece rest.1]

theorem strip_pieces_behind (text after : List α)
    (padded : ∀ char ∈ after, padding char = true) :
    ((text ++ after).splitOn separator).map (strip padding) =
      (text.splitOn separator).map (strip padding) := by
  induction after using List.reverseRecOn with
  | nil => rw [List.append_nil]
  | append_singleton after char ih =>
      have white := padded char (by simp)
      have other : char ≠ separator := by
        intro same
        rw [same, bare] at white
        cases white
      obtain ⟨pieces, last, split, added⟩ := splitOn_concat separator (text ++ after) char other
      rw [← ih fun other member => padded other (List.mem_append_left _ member),
        ← List.append_assoc, split, added]
      simp only [List.map_append, List.map_cons, List.map_nil, strip_concat char last white]

theorem strip_pieces (text : List α) :
    ((strip padding text).splitOn separator).map (strip padding) =
      (text.splitOn separator).map (strip padding) := by
  obtain ⟨before, after, whole, padded, paddedBehind⟩ := exists_padding padding text
  have same := strip_pieces_behind separator bare (before ++ strip padding text) after paddedBehind
  rw [← whole, strip_pieces_before separator bare before _ padded] at same
  exact same.symm

end Split

/-! ## Bytes -/

theorem utf8_ascii (char : Char) (ascii : char.toNat < 128) :
    String.utf8EncodeChar char = [UInt8.ofNat char.toNat] := by
  rw [String.utf8EncodeChar]
  exact if_pos (Nat.le_of_lt_succ ascii)

theorem utf8_other (char : Char) (other : 128 ≤ char.toNat) :
    String.utf8EncodeChar char ≠ [] ∧
      ∀ byte ∈ String.utf8EncodeChar char, 128 ≤ byte.toNat := by
  have notAscii : ¬ char.val.toNat ≤ 127 := Nat.not_le_of_lt other
  have high : ∀ value, 128 ≤ value → value < 256 → 128 ≤ (UInt8.ofNat value).toNat := by
    intro value low small
    rw [UInt8.toNat_ofNat', Nat.mod_eq_of_lt small]
    exact low
  rw [String.utf8EncodeChar, if_neg notAscii]
  split
  · refine ⟨List.cons_ne_nil _ _, ?_⟩
    simp only [List.forall_mem_cons]
    exact ⟨high _ (by omega) (by omega), high _ (by omega) (by omega), List.forall_mem_nil _⟩
  · split
    · refine ⟨List.cons_ne_nil _ _, ?_⟩
      simp only [List.forall_mem_cons]
      exact ⟨high _ (by omega) (by omega), high _ (by omega) (by omega),
        high _ (by omega) (by omega), List.forall_mem_nil _⟩
    · refine ⟨List.cons_ne_nil _ _, ?_⟩
      simp only [List.forall_mem_cons]
      exact ⟨high _ (by omega) (by omega), high _ (by omega) (by omega),
        high _ (by omega) (by omega), high _ (by omega) (by omega), List.forall_mem_nil _⟩

end Gday.Lib.Text
