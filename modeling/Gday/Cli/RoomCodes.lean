import Gday.Cli.Numerals

/-! # Retyped room codes

A person reads a code out and another one types it in: in small letters, with letters that
look like a one, with blanks.  What comes out of `from_string` is what went into
`to_string`. -/
set_option autoImplicit false
namespace Gday.Cli

open Gday.Lib.AsyncStream (Panic)
open Gday.Chat (isWhiteSpace trim)
open Gday.Lib.Text

/-- How one character may be typed. -/
inductive Respells : Char → Char → Prop where
  | same (char : Char) : Respells char char
  | lower (char : Char) : Respells char char.toLower
  | upper (char : Char) : Respells char char.toUpper
  | one (like : Char) (letter : like ∈ ['I', 'i', 'L', 'l']) : Respells '1' like

/-- A component, with white space around it. -/
def RetypedPart (part typed : List Char) : Prop :=
  ∃ before spelled after, List.Forall₂ Respells part spelled ∧
    (∀ char ∈ before, isWhiteSpace char = true) ∧ (∀ char ∈ after, isWhiteSpace char = true) ∧
    typed = before ++ spelled ++ after

/-- A code, with white space around it and around its components. -/
def Retyped (text typed : List Char) : Prop :=
  ∃ before parts after, List.Forall₂ RetypedPart (text.splitOn '.') parts ∧
    (∀ char ∈ before, isWhiteSpace char = true) ∧ (∀ char ∈ after, isWhiteSpace char = true) ∧
    typed = before ++ ['.'].intercalate parts ++ after

/-! ## What is written -/

def digitChar (digit : Nat) : Char := alphabetText.getD digit '0'

theorem digitChar_spec : ∀ digit < 32, digitChar digit ∈ alphabetText ∧
    alphabetText.idxOf (digitChar digit) = digit ∧
    Char.ofNat (UInt8.ofNat (digitChar digit).toNat).toNat = digitChar digit ∧
    alphabet[digit]? = some (UInt8.ofNat (digitChar digit).toNat) := by decide

theorem alphabet_get (num : Nat) :
    alphabet.get ⟨num % 32, index_lt num⟩ = UInt8.ofNat (digitChar (num % 32)).toNat := by
  have at_ := (digitChar_spec (num % 32) (Nat.mod_lt num (by omega))).2.2.2
  rw [List.getElem?_eq_getElem (index_lt num)] at at_
  exact Option.some.inj at_

theorem pushDigits_digits (num : Nat) (s : List UInt8) :
    pushDigits num s =
      s ++ (Nat.digits 32 num).map fun digit => UInt8.ofNat (digitChar digit).toNat := by
  induction num using Nat.strongRecOn generalizing s with
  | ind num ih =>
      rw [pushDigits]
      by_cases zero : num = 0
      · rw [if_pos zero, zero, Nat.digits_zero, List.map_nil, List.append_nil]
      · have positive : 0 < num := Nat.pos_of_ne_zero zero
        rw [if_neg zero, ih (num / 32) (Nat.div_lt_self positive (by omega)), alphabet_get,
          Nat.digits_def' (by omega) positive, List.map_cons, List.append_assoc,
          List.singleton_append]

/-- The text of a number is its digits, or a zero. -/
theorem u32ToStr_digits (num : UInt32) :
    u32ToStr num =
      if num = 0 then ['0'] else ((Nat.digits 32 num.toNat).map digitChar).reverse := by
  have pushed := pushDigits_digits num.toNat []
  rw [List.nil_append] at pushed
  rw [u32ToStr, pushed]
  by_cases zero : num = 0
  · subst zero
    rfl
  · have positive : num.toNat ≠ 0 := fun same => zero (UInt32.toNat_inj.mp same)
    have some_ : ((Nat.digits 32 num.toNat).map fun digit =>
        UInt8.ofNat (digitChar digit).toNat).reverse.isEmpty = false := by
      rw [List.isEmpty_reverse, List.isEmpty_map, List.isEmpty_eq_false_iff]
      exact Nat.digits_ne_nil_iff_ne_zero.mpr positive
    simp only [some_, Bool.false_eq_true, if_false, if_neg zero, List.map_reverse, List.map_map]
    congr 1
    apply List.map_congr_left
    intro digit member
    exact (digitChar_spec digit (Nat.digits_lt_base (by omega) member)).2.2.1

theorem u32ToStr_numeral (num : UInt32) : Numeral (u32ToStr num) := by
  rw [u32ToStr_digits]
  intro char member
  by_cases zero : num = 0
  · rw [if_pos zero, List.mem_singleton] at member
    subst member
    exact (digitChar_spec 0 (by decide)).1
  · rw [if_neg zero, List.mem_reverse, List.mem_map] at member
    obtain ⟨digit, own, rfl⟩ := member
    exact (digitChar_spec digit (Nat.digits_lt_base (by omega) own)).1

theorem u32ToStr_value (num : UInt32) : value (u32ToStr num) = num.toNat := by
  rw [u32ToStr_digits, value, digitsOf]
  by_cases zero : num = 0
  · subst zero
    rfl
  · have digits : ((Nat.digits 32 num.toNat).map digitChar).map alphabetText.idxOf =
        Nat.digits 32 num.toNat := by
      rw [List.map_map]
      calc (Nat.digits 32 num.toNat).map (alphabetText.idxOf ∘ digitChar)
          = (Nat.digits 32 num.toNat).map id := by
            apply List.map_congr_left
            intro digit member
            exact (digitChar_spec digit (Nat.digits_lt_base (by omega) member)).2.1
        _ = Nat.digits 32 num.toNat := List.map_id _
    rw [if_neg zero, List.reverse_reverse, digits, Nat.ofDigits_digits]

/-- Seven digits hold every `u32`. -/
theorem u32ToStr_length (num : UInt32) : (u32ToStr num).length ≤ 7 := by
  rw [u32ToStr_digits]
  by_cases zero : num = 0
  · rw [if_pos zero]
    decide
  · rw [if_neg zero, List.length_reverse, List.length_map, Nat.digits_length_le_iff (by omega)]
    exact Nat.lt_of_lt_of_le num.toNat_lt (by omega)

theorem u32ToStr_short (num : UInt32) : ¬ Overlong (u32ToStr num) := by
  rintro ⟨front, high, low, split, length, -⟩
  have whole := u32ToStr_length num
  rw [split, List.length_append, List.length_cons] at whole
  omega

theorem dot_bare : ∀ char ∈ alphabetText, char ≠ '.' := by
  rw [← List.all_iff_forall_prop]
  decide

theorem u32ToStr_dot (num : UInt32) : '.' ∉ u32ToStr num :=
  fun member => dot_bare '.' (u32ToStr_numeral num '.' member) rfl

theorem u32ToStr_some (num : UInt32) : u32ToStr num ≠ [] := by
  rw [u32ToStr_digits]
  by_cases zero : num = 0
  · rw [if_pos zero]
    exact List.cons_ne_nil _ _
  · have positive : num.toNat ≠ 0 := fun same => zero (UInt32.toNat_inj.mp same)
    rw [if_neg zero, Ne, List.reverse_eq_nil_iff, List.map_eq_nil_iff]
    exact Nat.digits_ne_nil_iff_ne_zero.mpr positive

theorem pushVals_some (s : List Char) (vals : List UInt32) (some_ : s ≠ []) :
    pushVals s vals = s ++ vals.flatMap fun val => '.' :: u32ToStr val := by
  induction vals generalizing s with
  | nil => rw [pushVals, List.flatMap_nil, List.append_nil]
  | cons val vals ih =>
      have full : s.isEmpty = false := List.isEmpty_eq_false_iff.mpr some_
      rw [pushVals, full, if_neg Bool.false_ne_true,
        ih _ (List.append_ne_nil_of_right_ne_nil _ (u32ToStr_some val)), List.flatMap_cons,
        List.append_assoc, List.append_assoc, List.singleton_append, List.cons_append]

theorem intercalate_flatMap (first : List Char) (others : List (List Char)) :
    ['.'].intercalate (first :: others) = first ++ others.flatMap ('.' :: ·) := by
  induction others generalizing first with
  | nil => simp
  | cons second others ih =>
      rw [List.intercalate_cons_cons, ih second, List.flatMap_cons, List.append_assoc,
        List.singleton_append, List.cons_append]

theorem toString_intercalate (vals : List UInt32) :
    toString vals = ['.'].intercalate (vals.map u32ToStr) := by
  cases vals with
  | nil => rfl
  | cons val vals =>
      rw [toString, pushVals, List.isEmpty_nil, if_pos rfl, List.nil_append,
        pushVals_some _ vals (u32ToStr_some val), List.map_cons, intercalate_flatMap,
        List.flatMap_map]

/-- The components of a code are the texts of its numbers. -/
theorem toString_splitOn (vals : List UInt32) (some_ : vals ≠ []) :
    (toString vals).splitOn '.' = vals.map u32ToStr := by
  rw [toString_intercalate, List.splitOn_intercalate]
  · intro part member
    obtain ⟨val, -, rfl⟩ := List.mem_map.mp member
    exact u32ToStr_dot val
  · rw [Ne, List.map_eq_nil_iff]
    exact some_

/-! ## What is read -/

/-- A digit, typed in any of these ways, is ASCII, no blank, no dot, and still that digit. -/
def Readable (char typed : Char) : Prop :=
  typed.toNat < 128 ∧ isWhiteSpace typed = false ∧ typed ≠ '.' ∧
    (if typed.toUpper = 'I' ∨ typed.toUpper = 'L' then '1' else typed.toUpper) = char

instance (char typed : Char) : Decidable (Readable char typed) := by
  unfold Readable
  infer_instance

theorem readable_digit : ∀ char ∈ alphabetText, Readable char char ∧
    Readable char char.toLower ∧ Readable char char.toUpper := by
  rw [← List.all_iff_forall_prop]
  decide

theorem readable_one : ∀ like ∈ ['I', 'i', 'L', 'l'], Readable '1' like := by
  rw [← List.all_iff_forall_prop]
  decide

theorem respells_readable (char typed : Char) (digit : char ∈ alphabetText)
    (respells : Respells char typed) : Readable char typed := by
  cases respells with
  | same => exact (readable_digit char digit).1
  | lower => exact (readable_digit char digit).2.1
  | upper => exact (readable_digit char digit).2.2
  | one _ letter => exact readable_one typed letter

theorem spelled_readable (part spelled : List Char) (digits : Numeral part)
    (respells : List.Forall₂ Respells part spelled) : List.Forall₂ Readable part spelled := by
  induction respells with
  | nil => exact List.Forall₂.nil
  | cons first others ih =>
      rw [numeral_cons] at digits
      exact List.Forall₂.cons (respells_readable _ _ digits.1 first) (ih digits.2)

theorem readable_typed (part spelled : List Char) (readable : List.Forall₂ Readable part spelled) :
    ∀ char ∈ spelled, isWhiteSpace char = false ∧ char ≠ '.' := by
  induction readable with
  | nil => exact List.forall_mem_nil _
  | cons first others ih => exact List.forall_mem_cons.mpr ⟨⟨first.2.1, first.2.2.1⟩, ih⟩

theorem trim_retyped (before spelled after part : List Char)
    (readable : List.Forall₂ Readable part spelled)
    (white : ∀ char ∈ before, isWhiteSpace char = true)
    (whiteBehind : ∀ char ∈ after, isWhiteSpace char = true) :
    trim (before ++ spelled ++ after) = spelled :=
  strip_padded before spelled after
    (fun char member => (readable_typed part spelled readable char member).1) white whiteBehind

theorem upper_spelled (unicode : Uppercase) (part spelled : List Char)
    (readable : List.Forall₂ Readable part spelled) :
    (unicode.string spelled).map (fun c => if c = 'I' ∨ c = 'L' then '1' else c) = part := by
  induction readable with
  | nil => rfl
  | cons first others ih =>
      rw [Uppercase.string, List.flatMap_cons, unicode.ascii _ first.1, List.singleton_append,
        List.map_cons, first.2.2.2]
      exact congrArg _ ih

theorem strToU32_written (unicode : Uppercase) (debug : Bool) (s : List Char) (val : UInt32)
    (normal : normalize unicode s = u32ToStr val) :
    strToU32 unicode debug s = .ok (some val) := by
  obtain ⟨read, returned, exact_⟩ := strToU32_reads unicode s
    (normal ▸ u32ToStr_short val) debug
  have own : read = some val := by
    rw [exact_ val, normal]
    exact ⟨u32ToStr_numeral val, u32ToStr_value val⟩
  rw [returned, own]

/-- Only what stands between the blanks is read. -/
def ReadAs (unicode : Uppercase) (debug : Bool) (core : List Char) (val : UInt32) : Prop :=
  ∀ s, trim s = core → strToU32 unicode debug s = .ok (some val)

theorem readAll_pieces (unicode : Uppercase) (debug : Bool) (pieces : List (List Char))
    (vals : List UInt32)
    (read : List.Forall₂ (ReadAs unicode debug) (pieces.map trim) vals) :
    readAll unicode debug pieces = .ok (some vals) := by
  induction pieces generalizing vals with
  | nil =>
      cases read
      rfl
  | cons piece pieces ih =>
      cases read with
      | cons first others =>
          rw [readAll, first piece rfl]
          simp only [ih _ others]
          rfl

theorem retyped_part (unicode : Uppercase) (debug : Bool) (val : UInt32) (typed : List Char)
    (retyped : RetypedPart (u32ToStr val) typed) :
    ReadAs unicode debug (trim typed) val ∧ '.' ∉ typed := by
  obtain ⟨before, spelled, after, respells, white, whiteBehind, rfl⟩ := retyped
  have readable := spelled_readable _ spelled (u32ToStr_numeral val) respells
  constructor
  · intro s same
    apply strToU32_written unicode debug s val
    rw [normalize, same, trim_retyped before spelled after _ readable white whiteBehind]
    exact upper_spelled unicode _ spelled readable
  · intro member
    have blank : isWhiteSpace '.' = false := by decide
    rw [List.mem_append, List.mem_append] at member
    rcases member with (inBefore | inside) | inAfter
    · exact absurd (white '.' inBefore) (by rw [blank]; decide)
    · exact (readable_typed _ spelled readable '.' inside).2 rfl
    · exact absurd (whiteBehind '.' inAfter) (by rw [blank]; decide)

theorem retyped_parts (unicode : Uppercase) (debug : Bool) (vals : List UInt32)
    (parts : List (List Char))
    (retyped : List.Forall₂ RetypedPart (vals.map u32ToStr) parts) :
    List.Forall₂ (ReadAs unicode debug) (parts.map trim) vals ∧ ∀ part ∈ parts, '.' ∉ part := by
  induction vals generalizing parts with
  | nil =>
      cases retyped
      exact ⟨List.Forall₂.nil, List.forall_mem_nil _⟩
  | cons val vals ih =>
      cases retyped with
      | cons first others =>
          have part := retyped_part unicode debug val _ first
          have rest := ih _ others
          exact ⟨List.Forall₂.cons part.1 rest.1, List.forall_mem_cons.mpr ⟨part.2, rest.2⟩⟩

theorem trim_pieces (before parts after : List Char)
    (white : ∀ char ∈ before, isWhiteSpace char = true)
    (whiteBehind : ∀ char ∈ after, isWhiteSpace char = true) :
    ((trim (before ++ parts ++ after)).splitOn '.').map trim = (parts.splitOn '.').map trim := by
  have blank : isWhiteSpace '.' = false := by decide
  calc ((trim (before ++ parts ++ after)).splitOn '.').map trim
      = ((before ++ parts ++ after).splitOn '.').map trim := strip_pieces '.' blank _
    _ = ((before ++ parts).splitOn '.').map trim :=
        strip_pieces_behind '.' blank (before ++ parts) after whiteBehind
    _ = (parts.splitOn '.').map trim := strip_pieces_before '.' blank before parts white

theorem retyped_code (unicode : Uppercase) (debug : Bool) (vals : List UInt32)
    (typed : List Char) (some_ : vals ≠ []) (retyped : Retyped (toString vals) typed) :
    fromString unicode debug typed = .ok (some vals) := by
  obtain ⟨before, parts, after, components, white, whiteBehind, rfl⟩ := retyped
  rw [toString_splitOn vals some_] at components
  obtain ⟨read, bare⟩ := retyped_parts unicode debug vals parts components
  have partsSome : parts ≠ [] := by
    rintro rfl
    exact some_ (List.map_eq_nil_iff.mp (List.forall₂_nil_right_iff.mp components))
  rw [fromString]
  apply readAll_pieces
  rw [trim_pieces before _ after white whiteBehind, List.splitOn_intercalate '.' bare partsSome]
  exact read

theorem retyped_code_blanks :
    toString [0, 33, 20] = "0.11.M".toList ∧
    fromString asciiUppercase true " 0 . iL.m\n".toList = .ok (some [0, 33, 20]) := by
  have texts : [(0 : UInt32), 33, 20].map u32ToStr = [['0'], ['1', '1'], ['M']] := by
    simp only [List.map_cons, List.map_nil, u32ToStr_digits]
    norm_num
    decide
  have code : toString [0, 33, 20] = "0.11.M".toList := by
    rw [toString_intercalate, texts]
    rfl
  refine ⟨code, retyped_code asciiUppercase true [0, 33, 20] _ (List.cons_ne_nil _ _) ?_⟩
  rw [Retyped, toString_splitOn _ (List.cons_ne_nil _ _), texts]
  have bare : ∀ char ∈ ([] : List Char), isWhiteSpace char = true := List.forall_mem_nil _
  have space : ∀ char ∈ [' '], isWhiteSpace char = true :=
    List.forall_mem_singleton.mpr (by decide)
  have zero : RetypedPart ['0'] [' ', '0', ' '] :=
    ⟨[' '], ['0'], [' '], .cons (.same '0') .nil, space, space, rfl⟩
  have ones : RetypedPart ['1', '1'] [' ', 'i', 'L'] :=
    ⟨[' '], ['i', 'L'], [], .cons (.one 'i' (by decide)) (.cons (.one 'L' (by decide)) .nil),
      space, bare, rfl⟩
  have letter : RetypedPart ['M'] ['m'] :=
    ⟨[], ['m'], [], .cons (.lower 'M') .nil, bare, bare, rfl⟩
  exact ⟨[], [[' ', '0', ' '], [' ', 'i', 'L'], ['m']], ['\n'],
    .cons zero (.cons ones (.cons letter .nil)), bare,
    List.forall_mem_singleton.mpr (by decide), rfl⟩

end Gday.Cli
