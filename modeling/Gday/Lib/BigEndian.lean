import Mathlib

/-! # Four-byte big-endian numbers

`toBe` is the byte string that `u32::to_be_bytes` gives and `ofBe` the number that
`u32::from_be_bytes` reads back.  Numbers are natural; `toBe` keeps them modulo
`2 ^ 32`, and both round trips are stated with the bound they need. -/
set_option autoImplicit false
namespace Gday.Lib.BigEndian

def toBe (value : Nat) : List UInt8 :=
  [UInt8.ofNat (value / 16777216), UInt8.ofNat (value / 65536),
    UInt8.ofNat (value / 256), UInt8.ofNat value]

def ofBe (bytes : List UInt8) : Nat :=
  bytes.foldl (fun value byte => 256 * value + byte.toNat) 0

@[simp] theorem toBe_length (value : Nat) : (toBe value).length = 4 := rfl

theorem ofBe_four (b3 b2 b1 b0 : UInt8) :
    ofBe [b3, b2, b1, b0] =
      16777216 * b3.toNat + 65536 * b2.toNat + 256 * b1.toNat + b0.toNat := by
  simp only [ofBe, List.foldl_cons, List.foldl_nil]
  omega

theorem ofBe_toBe (value : Nat) (bound : value < 2 ^ 32) : ofBe (toBe value) = value := by
  rw [toBe, ofBe_four]
  simp only [UInt8.toNat_ofNat']
  omega

theorem ofBe_lt (bytes : List UInt8) (four : bytes.length = 4) : ofBe bytes < 2 ^ 32 := by
  obtain ⟨b3, b2, b1, b0, rfl⟩ := List.length_eq_four.mp four
  rw [ofBe_four]
  have h3 := b3.toNat_lt
  have h2 := b2.toNat_lt
  have h1 := b1.toNat_lt
  have h0 := b0.toNat_lt
  omega

theorem toBe_ofBe (bytes : List UInt8) (four : bytes.length = 4) : toBe (ofBe bytes) = bytes := by
  obtain ⟨b3, b2, b1, b0, rfl⟩ := List.length_eq_four.mp four
  have h3 := b3.toNat_lt
  have h2 := b2.toNat_lt
  have h1 := b1.toNat_lt
  have h0 := b0.toNat_lt
  rw [ofBe_four]
  have byte : ∀ (n : Nat) (b : UInt8), n % 256 = b.toNat → UInt8.ofNat n = b := by
    intro n b same
    apply UInt8.toNat_inj.mp
    simpa [UInt8.toNat_ofNat'] using same
  simp only [toBe, List.cons.injEq, and_true]
  refine ⟨byte _ _ ?_, byte _ _ ?_, byte _ _ ?_, byte _ _ ?_⟩ <;> omega

end Gday.Lib.BigEndian
