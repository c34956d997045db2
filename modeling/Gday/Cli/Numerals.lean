import Gday.Cli.Base32

/-! # Base-32 numerals

The place value `32_u32.pow(i)` is neither checked nor wrapping, and from the eighth digit on
it does not fit.  A build that checks overflow panics there, any other counts these digits as
nothing.  So `str_to_u32` reads just the strings that do not get as far as an eighth digit. -/
set_option autoImplicit false
namespace Gday.Cli

open Gday.Lib.AsyncStream (Panic)
open Gday.Chat (trim)
open Gday.Lib.Text

/-- Every character is a digit. -/
def Numeral (d : List Char) : Prop := ∀ char ∈ d, char ∈ alphabetText

/-- The digits, the last one first. -/
def digitsOf (d : List Char) : List Nat := d.reverse.map alphabetText.idxOf

/-- The positional value, leading zeros or not. -/
def value (d : List Char) : Nat := Nat.ofDigits 32 (digitsOf d)

/-- It returns the value if there is one in `u32`, and nothing otherwise, in either build. -/
def ReadsNumeral (unicode : Uppercase) (s : List Char) : Prop :=
  ∀ debug, ∃ read, strToU32 unicode debug s = .ok read ∧
    ∀ n : UInt32, read = some n ↔
      Numeral (normalize unicode s) ∧ value (normalize unicode s) = n.toNat

/-- It ends in eight digits, and the last seven of them are no reason to stop. -/
def Overlong (d : List Char) : Prop :=
  ∃ front high low, d = front ++ high :: low ∧ low.length = 7 ∧ Numeral (high :: low) ∧
    value low < 2 ^ 32

/-! ## One turn of the loop -/

theorem alphabetText_spec : ∀ char ∈ alphabetText, char.toNat < 128 ∧
    alphabet.idxOf? (UInt8.ofNat char.toNat) = some (alphabetText.idxOf char) ∧
    alphabetText.idxOf char < 32 := by
  rw [← List.all_iff_forall_prop]
  decide

theorem alphabet_ascii : ∀ byte ∈ alphabet, byte.toNat < 128 ∧
    Char.ofNat byte.toNat ∈ alphabetText := by
  rw [← List.all_iff_forall_prop]
  decide

theorem idxOf?_digit (char : Char) (digit : char ∈ alphabetText) :
    (alphabet.idxOf? (UInt8.ofNat char.toNat)).bind tryU32 = some (alphabetText.idxOf char) := by
  obtain ⟨-, found, small⟩ := alphabetText_spec char digit
  rw [found, Option.bind_some, tryU32, if_pos (by omega)]

/-- The last byte of any other character is none of the alphabet. -/
theorem idxOf?_other (char : Char) (other : char ∉ alphabetText) :
    ∃ byte bytes, (String.utf8EncodeChar char).reverse = byte :: bytes ∧
      alphabet.idxOf? byte = none := by
  by_cases ascii : char.toNat < 128
  · refine ⟨UInt8.ofNat char.toNat, [], by rw [utf8_ascii char ascii]; rfl, ?_⟩
    rw [List.idxOf?_eq_none_iff]
    intro member
    have small : char.toNat % 2 ^ 8 = char.toNat := Nat.mod_eq_of_lt (by omega)
    have same := (alphabet_ascii _ member).2
    rw [UInt8.toNat_ofNat', small, Char.ofNat_toNat] at same
    exact other same
  · obtain ⟨some_, high⟩ := utf8_other char (Nat.le_of_not_lt ascii)
    cases bytes : (String.utf8EncodeChar char).reverse with
    | nil => exact absurd (List.reverse_eq_nil_iff.mp bytes) some_
    | cons byte others =>
        refine ⟨byte, others, rfl, ?_⟩
        rw [List.idxOf?_eq_none_iff]
        intro member
        have low := (alphabet_ascii byte member).1
        have own : byte ∈ String.utf8EncodeChar char :=
          List.mem_reverse.mp (bytes ▸ List.mem_cons_self)
        exact absurd (high byte own) (Nat.not_le_of_lt low)

theorem digitLoop_other (debug : Bool) (char : Char) (rest : List UInt8) (i num : Nat)
    (other : char ∉ alphabetText) :
    digitLoop debug ((String.utf8EncodeChar char).reverse ++ rest) i num = .ok none := by
  obtain ⟨byte, bytes, last, absent⟩ := idxOf?_other char other
  rw [last, List.cons_append, digitLoop, absent, Option.bind_none]

theorem powU32_small (debug : Bool) (i : Nat) (small : i < 7) :
    powU32 debug 32 i = .ok (32 ^ i) := by
  have power : 32 ^ i ≤ 32 ^ 6 := Nat.pow_le_pow_right (by omega) (Nat.le_of_lt_succ small)
  rw [powU32, if_pos (by omega)]

theorem checked_sum (digit place num : Nat) (small : num < 2 ^ 32) :
    (checkedMul digit place).bind (checkedAdd num) =
      if num + digit * place < 2 ^ 32 then some (num + digit * place) else none := by
  rw [checkedMul, tryU32]
  by_cases fits : digit * place < 2 ^ 32
  · rw [if_pos fits, Option.bind_some, checkedAdd, tryU32]
  · rw [if_neg fits, Option.bind_none, if_neg (by omega)]

theorem digitLoop_digit (debug : Bool) (char : Char) (rest : List UInt8) (i num : Nat)
    (digit : char ∈ alphabetText) (place : i < 7) (small : num < 2 ^ 32) :
    digitLoop debug ((String.utf8EncodeChar char).reverse ++ rest) i num =
      if num + alphabetText.idxOf char * 32 ^ i < 2 ^ 32 then
        digitLoop debug rest (i + 1) (num + alphabetText.idxOf char * 32 ^ i)
      else .ok none := by
  have fits : tryU32 i = some i := if_pos (by omega)
  rw [utf8_ascii char (alphabetText_spec char digit).1, List.reverse_singleton,
    List.singleton_append, digitLoop, idxOf?_digit char digit, fits]
  simp only [powU32_small debug i place, checked_sum _ _ num small]
  by_cases sum : num + alphabetText.idxOf char * 32 ^ i < 2 ^ 32
  · rw [if_pos sum, if_pos sum]
  · rw [if_neg sum, if_neg sum]

/-- The slip: the place value of the eighth digit. -/
theorem digitLoop_eighth (char : Char) (rest : List UInt8) (num : Nat)
    (digit : char ∈ alphabetText) :
    digitLoop true ((String.utf8EncodeChar char).reverse ++ rest) 7 num =
      .error .overflow := by
  have place : powU32 true 32 7 = .error .overflow := rfl
  have fits : tryU32 7 = some 7 := rfl
  rw [utf8_ascii char (alphabetText_spec char digit).1, List.reverse_singleton,
    List.singleton_append, digitLoop, idxOf?_digit char digit, fits]
  simp only [place]

/-! ## The loop -/

/-- The characters that are left, the last one first, reach the eighth place. -/
def Reaches (i num : Nat) (left : List Char) : Prop :=
  ∃ low high front, left = low ++ high :: front ∧ low.length + i = 7 ∧
    Numeral (high :: low) ∧ num + 32 ^ i * Nat.ofDigits 32 (low.map alphabetText.idxOf) < 2 ^ 32

theorem numeral_cons (char : Char) (left : List Char) :
    Numeral (char :: left) ↔ char ∈ alphabetText ∧ Numeral left := List.forall_mem_cons

theorem total_cons (i num digit : Nat) (digits : List Nat) :
    num + 32 ^ i * Nat.ofDigits 32 (digit :: digits) =
      num + digit * 32 ^ i + 32 ^ (i + 1) * Nat.ofDigits 32 digits := by
  rw [Nat.ofDigits_cons, Nat.pow_succ]
  ring

theorem reaches_cons (i num : Nat) (char : Char) (left : List Char) (place : i < 7)
    (digit : char ∈ alphabetText) :
    Reaches i num (char :: left) ↔
      Reaches (i + 1) (num + alphabetText.idxOf char * 32 ^ i) left := by
  constructor
  · rintro ⟨low, high, front, split, length, digits, small⟩
    cases low with
    | nil => exact absurd length (by simp only [List.length_nil]; omega)
    | cons first low =>
        obtain ⟨rfl, rfl⟩ := List.cons.inj split
        rw [numeral_cons, numeral_cons] at digits
        rw [List.map_cons, total_cons] at small
        refine ⟨low, high, front, rfl, ?_, ?_, small⟩
        · rw [List.length_cons] at length
          omega
        · exact (numeral_cons high low).mpr ⟨digits.1, digits.2.2⟩
  · rintro ⟨low, high, front, rfl, length, digits, small⟩
    rw [numeral_cons] at digits
    refine ⟨char :: low, high, front, rfl, ?_, ?_, ?_⟩
    · rw [List.length_cons]
      omega
    · rw [numeral_cons, numeral_cons]
      exact ⟨digits.1, digit, digits.2⟩
    · rw [List.map_cons, total_cons]
      exact small

/-- The bytes of the characters that are left. -/
def bytesOf (left : List Char) : List UInt8 :=
  left.flatMap fun char => (String.utf8EncodeChar char).reverse

theorem bytesOf_cons (char : Char) (left : List Char) :
    bytesOf (char :: left) = (String.utf8EncodeChar char).reverse ++ bytesOf left :=
  List.flatMap_cons

/-- Up to the seventh place the sum is exact. -/
theorem digitLoop_low (debug : Bool) (low rest : List Char) (i num : Nat)
    (places : low.length + i ≤ 7) (digits : Numeral low)
    (small : num + 32 ^ i * Nat.ofDigits 32 (low.map alphabetText.idxOf) < 2 ^ 32) :
    digitLoop debug (bytesOf (low ++ rest)) i num =
      digitLoop debug (bytesOf rest) (low.length + i)
        (num + 32 ^ i * Nat.ofDigits 32 (low.map alphabetText.idxOf)) := by
  induction low generalizing i num with
  | nil => rw [List.map_nil, Nat.ofDigits_nil, Nat.mul_zero, List.nil_append, List.length_nil,
      Nat.zero_add, Nat.add_zero]
  | cons char low ih =>
      rw [List.length_cons] at places
      rw [numeral_cons] at digits
      rw [List.map_cons, total_cons] at small ⊢
      have sum : num + alphabetText.idxOf char * 32 ^ i < 2 ^ 32 := by omega
      rw [List.cons_append, bytesOf_cons,
        digitLoop_digit debug char _ i num digits.1 (by omega) (by omega), if_pos sum,
        ih (i + 1) _ (by omega) digits.2 small, List.length_cons,
        Nat.add_assoc low.length 1 i, Nat.add_comm 1 i]

/-- By induction on the characters, which never get to the eighth place. -/
theorem digitLoop_run (debug : Bool) (left : List Char) (i num : Nat) (place : i ≤ 7)
    (small : num < 2 ^ 32) (short : ¬ Reaches i num left) :
    ∃ read, digitLoop debug (bytesOf left) i num = .ok read ∧
      ∀ n, read = some n ↔ Numeral left ∧ n < 2 ^ 32 ∧
        num + 32 ^ i * Nat.ofDigits 32 (left.map alphabetText.idxOf) = n := by
  induction left generalizing i num with
  | nil =>
      refine ⟨some num, rfl, fun n => ?_⟩
      rw [List.map_nil, Nat.ofDigits_nil, Nat.mul_zero, Nat.add_zero, Option.some.injEq]
      constructor
      · rintro rfl
        exact ⟨List.forall_mem_nil _, small, rfl⟩
      · exact fun total => total.2.2
  | cons char left ih =>
      rw [bytesOf_cons]
      by_cases digit : char ∈ alphabetText
      · by_cases eighth : i = 7
        · subst eighth
          refine absurd ⟨[], char, left, rfl, rfl, ?_, ?_⟩ short
          · exact (numeral_cons char []).mpr ⟨digit, List.forall_mem_nil _⟩
          · rw [List.map_nil, Nat.ofDigits_nil, Nat.mul_zero, Nat.add_zero]
            exact small
        · have early : i < 7 := by omega
          rw [reaches_cons i num char left early digit] at short
          rw [List.map_cons, total_cons, numeral_cons,
            digitLoop_digit debug char _ i num digit early small]
          by_cases sum : num + alphabetText.idxOf char * 32 ^ i < 2 ^ 32
          · simp only [if_pos sum, digit, true_and]
            exact ih (i + 1) _ early sum short
          · rw [if_neg sum]
            refine ⟨none, rfl, fun n => ⟨fun none_ => ?_, ?_⟩⟩
            · cases none_
            · rintro ⟨-, fits, total⟩
              omega
      · refine ⟨none, digitLoop_other debug char _ i num digit, fun n => ?_⟩
        rw [numeral_cons]
        constructor
        · intro none_
          cases none_
        · exact fun total => absurd total.1.1 digit

theorem powU32_unchecked (i : Nat) (late : 7 ≤ i) : powU32 false 32 i = .ok 0 := by
  obtain ⟨more, rfl⟩ := Nat.exists_eq_add_of_le late
  have whole : 32 ^ (7 + more) = 2 ^ 32 * (2 ^ 3 * 32 ^ more) := by
    rw [Nat.pow_add]
    ring
  have positive : 0 < 32 ^ more := Nat.pow_pos (by omega)
  rw [powU32, if_neg (by omega), if_neg Bool.false_ne_true, whole, Nat.mul_mod_right]

/-- Without the check every digit from the eighth on is worth nothing. -/
theorem digitLoop_unchecked (left : List Char) (i num : Nat) (late : 7 ≤ i)
    (counted : left.length + i ≤ 2 ^ 32) (small : num < 2 ^ 32) (digits : Numeral left) :
    digitLoop false (bytesOf left) i num = .ok (some num) := by
  induction left generalizing i with
  | nil => rfl
  | cons char left ih =>
      rw [List.length_cons] at counted
      rw [numeral_cons] at digits
      have fits : tryU32 i = some i := if_pos (by omega)
      rw [bytesOf_cons, utf8_ascii char (alphabetText_spec char digits.1).1,
        List.reverse_singleton, List.singleton_append, digitLoop,
        idxOf?_digit char digits.1, fits]
      simp only [powU32_unchecked i late, checked_sum _ _ num small, Nat.mul_zero, Nat.add_zero,
        if_pos small]
      exact ih (i + 1) (Nat.le_succ_of_le late) (by omega) digits.2

/-! ## The whole string -/

theorem numeral_reverse (d : List Char) : Numeral d.reverse ↔ Numeral d := by
  simp only [Numeral, List.mem_reverse]

theorem reaches_reverse (d : List Char) : Reaches 0 0 d.reverse ↔ Overlong d := by
  constructor
  · rintro ⟨low, high, front, split, length, digits, small⟩
    refine ⟨front.reverse, high, low.reverse, ?_, ?_, ?_, ?_⟩
    · rw [← List.reverse_reverse d, split, List.reverse_append, List.reverse_cons,
        List.append_assoc, List.singleton_append]
    · rw [List.length_reverse]
      exact length
    · rw [numeral_cons, numeral_reverse, ← numeral_cons]
      exact digits
    · rw [value, digitsOf, List.reverse_reverse]
      rw [Nat.zero_add, Nat.pow_zero, Nat.one_mul] at small
      exact small
  · rintro ⟨front, high, low, rfl, length, digits, small⟩
    refine ⟨low.reverse, high, front.reverse, ?_, ?_, ?_, ?_⟩
    · rw [List.reverse_append, List.reverse_cons, List.append_assoc, List.singleton_append]
    · rw [List.length_reverse]
      exact length
    · rw [numeral_cons, numeral_reverse, ← numeral_cons]
      exact digits
    · rw [Nat.zero_add, Nat.pow_zero, Nat.one_mul]
      exact small

theorem utf8_reverse (d : List Char) :
    (d.flatMap String.utf8EncodeChar).reverse = bytesOf d.reverse := by
  rw [List.reverse_flatMap]
  rfl

theorem strToU32_overlong (unicode : Uppercase) (s : List Char)
    (overlong : Overlong (normalize unicode s)) :
    strToU32 unicode true s = .error .overflow := by
  obtain ⟨low, high, front, split, length, digits, small⟩ := (reaches_reverse _).mpr overlong
  rw [numeral_cons] at digits
  rw [strToU32, utf8_reverse, split,
    digitLoop_low true low _ 0 0 (Nat.le_of_eq length) digits.2 small, length, bytesOf_cons,
    digitLoop_eighth high _ _ digits.1]
  rfl

/-- The value of the last seven digits is all that is read. -/
theorem strToU32_unchecked (unicode : Uppercase) (s front low : List Char)
    (split : normalize unicode s = front ++ low) (length : low.length = 7)
    (digits : Numeral (front ++ low)) (counted : (front ++ low).length ≤ 2 ^ 32)
    (small : value low < 2 ^ 32) :
    strToU32 unicode false s = .ok (some (UInt32.ofNat (value low))) := by
  have places : low.reverse.length + 0 ≤ 7 := by
    rw [List.length_reverse]
    exact Nat.le_of_eq length
  have both := List.forall_mem_append.mp digits
  have total : 0 + 32 ^ 0 * Nat.ofDigits 32 (low.reverse.map alphabetText.idxOf) = value low := by
    rw [Nat.zero_add, Nat.pow_zero, Nat.one_mul]
    rfl
  rw [List.length_append, length] at counted
  rw [strToU32, utf8_reverse, split, List.reverse_append,
    digitLoop_low false low.reverse _ 0 0 places ((numeral_reverse low).mpr both.2)
      (total ▸ small), total, List.length_reverse, length, Nat.add_zero,
    digitLoop_unchecked front.reverse 7 _ (Nat.le_refl 7) (by rw [List.length_reverse]; omega)
      small ((numeral_reverse front).mpr both.1)]
  rfl

theorem strToU32_reads (unicode : Uppercase) (s : List Char)
    (short : ¬ Overlong (normalize unicode s)) : ReadsNumeral unicode s := by
  intro debug
  obtain ⟨read, loop, exact_⟩ := digitLoop_run debug (normalize unicode s).reverse 0 0
    (Nat.zero_le 7) (by decide) fun reaches => short ((reaches_reverse _).mp reaches)
  refine ⟨read.map UInt32.ofNat, by rw [strToU32, utf8_reverse, loop]; rfl, fun n => ?_⟩
  have whole : ∀ num, read = some num ↔ Numeral (normalize unicode s) ∧ num < 2 ^ 32 ∧
      value (normalize unicode s) = num := by
    intro num
    rw [exact_ num, numeral_reverse, Nat.zero_add, Nat.pow_zero, Nat.one_mul]
    rfl
  rw [Option.map_eq_some_iff]
  constructor
  · rintro ⟨num, some_, rfl⟩
    obtain ⟨digits, fits, total⟩ := (whole num).mp some_
    refine ⟨digits, ?_⟩
    rw [UInt32.toNat_ofNat', Nat.mod_eq_of_lt fits]
    exact total
  · rintro ⟨digits, total⟩
    exact ⟨n.toNat, (whole n.toNat).mpr ⟨digits, n.toNat_lt, total⟩, UInt32.ofNat_toNat⟩

theorem reads_numeral_iff (unicode : Uppercase) (s : List Char) :
    ReadsNumeral unicode s ↔ ¬ Overlong (normalize unicode s) := by
  constructor
  · intro reads overlong
    obtain ⟨read, returned, -⟩ := reads true
    rw [strToU32_overlong unicode s overlong] at returned
    cases returned
  · exact strToU32_reads unicode s

/-- The upper case of ASCII, and every other character as it is. -/
def asciiUppercase : Uppercase := ⟨fun char => [char.toUpper], fun _ _ => rfl⟩

/-- Eight zeros stop a build that checks, and to any other `10000000` is zero. -/
theorem eight_digits :
    strToU32 asciiUppercase true "00000000".toList = .error .overflow ∧
    strToU32 asciiUppercase false "10000000".toList = .ok (some 0) ∧
    ¬ ReadsNumeral asciiUppercase "00000000".toList := by
  have stops : strToU32 asciiUppercase true "00000000".toList = .error .overflow := by decide
  refine ⟨stops, by decide, ?_⟩
  intro reads
  obtain ⟨read, returned, -⟩ := reads true
  rw [stops] at returned
  cases returned

end Gday.Cli
