import Gday.Lib.Postcard

/-! # What is read can be written again

A codec may read a value from bytes that it would not write, such as a number with leading
zeros.  Written again the value takes no more bytes than it was read from, and it is read again
as it is. -/
set_option autoImplicit false
namespace Gday.Lib.Postcard

section Results

variable {Err Source Value : Type}

theorem ok_of_bind {result : Except Err Source} {next : Source → Except Err Value}
    {value : Value} (run : result >>= next = .ok value) :
    ∃ source, result = .ok source ∧ next source = .ok value := by
  cases result with
  | error error => cases run
  | ok source => exact ⟨source, rfl, run⟩

theorem ok_of_map {result : Except Err Source} {build : Source → Value} {value : Value}
    (run : result.map build = .ok value) : ∃ source, result = .ok source ∧ build source = value := by
  cases result with
  | error error => cases run
  | ok source => exact ⟨source, rfl, Except.ok.inj run⟩

end Results

/-- Whatever is read is kept, and is written in no more bytes than it was read from. -/
def Reencodes {Value : Type} (codec : Codec Value) : Prop :=
  ∀ bytes value rest, codec.read bytes = .ok (value, rest) →
    codec.kept value = value ∧ (codec.write value).length + rest.length ≤ bytes.length

/-! ## Numbers -/

theorem encodeVarint_small (more number : Nat) (small : number < 128) :
    (encodeVarint more number).length = 1 := by
  cases more with
  | zero => rfl
  | succ more =>
      rw [encodeVarint, if_pos small]
      rfl

/-- By induction on the bytes that may still follow. -/
theorem decodeVarint_shortest (last more : Nat) (oneByte : last < 128) (bytes : List UInt8)
    (number : Nat) (rest : List UInt8) (run : decodeVarint last more bytes = .ok (number, rest)) :
    number < (last + 1) * 128 ^ more ∧
      (encodeVarint more number).length + rest.length ≤ bytes.length := by
  induction more generalizing bytes number rest with
  | zero =>
      cases bytes with
      | nil => cases run
      | cons byte bytes =>
          rw [decodeVarint] at run
          by_cases within : byte.toNat ≤ last
          · rw [if_pos within] at run
            cases run
            rw [encodeVarint_small 0 _ (by omega), List.length_cons]
            omega
          · rw [if_neg within] at run
            cases run
  | succ more ih =>
      cases bytes with
      | nil => cases run
      | cons byte bytes =>
          have positive : 0 < (last + 1) * 128 ^ more := by positivity
          rw [decodeVarint] at run
          by_cases single : byte.toNat < 128
          · rw [if_pos single] at run
            cases run
            rw [encodeVarint_small _ _ single, List.length_cons]
            refine ⟨?_, by omega⟩
            calc byte.toNat < 128 * 1 := by omega
              _ ≤ 128 * ((last + 1) * 128 ^ more) := Nat.mul_le_mul_left 128 positive
              _ = (last + 1) * 128 ^ (more + 1) := by ring
          · rw [if_neg single] at run
            obtain ⟨⟨high, behind⟩, read, same⟩ := ok_of_bind run
            cases same
            obtain ⟨bound, short⟩ := ih bytes high rest read
            have byteBound := byte.toNat_lt
            refine ⟨?_, ?_⟩
            · calc byte.toNat - 128 + 128 * high < 128 * (high + 1) := by omega
                _ ≤ 128 * ((last + 1) * 128 ^ more) := Nat.mul_le_mul_left 128 bound
                _ = (last + 1) * 128 ^ (more + 1) := by ring
            · rw [encodeVarint, List.length_cons]
              -- a high part of zero would not be written
              split
              · rw [List.length_singleton]
                omega
              · have quotient : (byte.toNat - 128 + 128 * high) / 128 = high := by omega
                rw [List.length_cons, quotient]
                omega

theorem u16_reencodes : Reencodes u16 := by
  intro bytes value rest run
  obtain ⟨⟨number, behind⟩, read, same⟩ := ok_of_map run
  cases same
  obtain ⟨bound, short⟩ := decodeVarint_shortest 3 2 (by decide) bytes number rest read
  have exact_ : (UInt16.ofNat number).toNat = number := UInt16.toNat_ofNat_of_lt' bound
  refine ⟨rfl, ?_⟩
  rw [u16_write, exact_]
  exact short

theorem u32_reencodes : Reencodes u32 := by
  intro bytes value rest run
  obtain ⟨⟨number, behind⟩, read, same⟩ := ok_of_map run
  cases same
  obtain ⟨bound, short⟩ := decodeVarint_shortest 15 4 (by decide) bytes number rest read
  have exact_ : (UInt32.ofNat number).toNat = number := UInt32.toNat_ofNat_of_lt' bound
  refine ⟨rfl, ?_⟩
  rw [u32_write, exact_]
  exact short

theorem u64_reencodes : Reencodes u64 := by
  intro bytes value rest run
  obtain ⟨⟨number, behind⟩, read, same⟩ := ok_of_map run
  cases same
  obtain ⟨bound, short⟩ := decodeVarint_shortest 1 9 (by decide) bytes number rest read
  have exact_ : (UInt64.ofNat number).toNat = number := UInt64.toNat_ofNat_of_lt' bound
  refine ⟨rfl, ?_⟩
  show (encodeVarint 9 (UInt64.ofNat number).toNat).length + rest.length ≤ bytes.length
  rw [exact_]
  exact short

/-! ## Bytes, truth values and strings -/

theorem octets_reencodes (count : Nat) : Reencodes (octets count) := by
  intro bytes value rest run
  simp only [octets] at run
  by_cases enough : count ≤ bytes.length
  · rw [dif_pos enough] at run
    cases run
    refine ⟨rfl, ?_⟩
    show (bytes.take count).length + (bytes.drop count).length ≤ bytes.length
    rw [← List.length_append, List.take_append_drop]
  · rw [dif_neg enough] at run
    cases run

theorem bool_reencodes : Reencodes bool := by
  intro bytes value rest run
  refine ⟨rfl, ?_⟩
  show ([if value then 1 else 0] : List UInt8).length + rest.length ≤ bytes.length
  rw [List.length_singleton]
  cases bytes with
  | nil => cases run
  | cons byte bytes =>
      simp only [bool] at run
      rw [List.length_cons]
      split at run
      · cases run
        omega
      · split at run
        · cases run
          omega
        · cases run

theorem str_reencodes : Reencodes str := by
  intro bytes value rest run
  refine ⟨rfl, ?_⟩
  obtain ⟨⟨length, behind⟩, read, run⟩ := ok_of_bind run
  obtain ⟨_, short⟩ := u64_reencodes bytes length behind read
  simp only at run
  split at run
  · next enough =>
      split at run
      · cases run
        have sized : (behind.take length.toNat).length = length.toNat :=
          List.length_take_of_le enough
        show (u64.write (UInt64.ofNat (behind.take length.toNat).length) ++
          behind.take length.toNat).length + (behind.drop length.toNat).length ≤ bytes.length
        rw [sized, UInt64.ofNat_toNat, List.length_append, sized, List.length_drop]
        omega
      · cases run
  · cases run

/-! ## Combinations -/

section Combinations

variable {First Second Value Source : Type}

theorem unit_reencodes : Reencodes unit := by
  intro bytes value rest run
  cases run
  exact ⟨rfl, Nat.le_of_eq (Nat.zero_add _)⟩

theorem pair_reencodes {first : Codec First} {second : Codec Second}
    (firsts : Reencodes first) (seconds : Reencodes second) : Reencodes (pair first second) := by
  intro bytes value rest run
  obtain ⟨⟨left, behind⟩, readLeft, run⟩ := ok_of_bind run
  obtain ⟨⟨right, last⟩, readRight, run⟩ := ok_of_bind run
  cases run
  obtain ⟨keptLeft, shortLeft⟩ := firsts bytes left behind readLeft
  obtain ⟨keptRight, shortRight⟩ := seconds behind right rest readRight
  refine ⟨Prod.ext keptLeft keptRight, ?_⟩
  show (first.write left ++ second.write right).length + rest.length ≤ bytes.length
  rw [List.length_append]
  omega

theorem option_reencodes {inner : Codec Value} (inners : Reencodes inner) :
    Reencodes (option inner) := by
  intro bytes value rest run
  cases bytes with
  | nil => cases run
  | cons tag bytes =>
      simp only [option] at run
      by_cases zero : tag = 0
      · rw [if_pos zero] at run
        cases run
        refine ⟨rfl, ?_⟩
        show [(0 : UInt8)].length + rest.length ≤ (tag :: rest).length
        rw [List.length_singleton, List.length_cons]
        omega
      · rw [if_neg zero] at run
        by_cases one : tag = 1
        · rw [if_pos one] at run
          obtain ⟨⟨inside, behind⟩, read, same⟩ := ok_of_map run
          cases same
          obtain ⟨kept, short⟩ := inners bytes inside behind read
          refine ⟨congrArg some kept, ?_⟩
          show (1 :: inner.write inside).length + behind.length ≤ (tag :: bytes).length
          rw [List.length_cons, List.length_cons]
          omega
        · rw [if_neg one] at run
          cases run

/-- By induction on how many are read. -/
theorem readMany_reencodes {inner : Codec Value} (inners : Reencodes inner) (count : Nat)
    (bytes : List UInt8) (values : {values : List Value // values.length = count})
    (rest : List UInt8) (run : readMany inner count bytes = .ok (values, rest)) :
    values.val.map inner.kept = values.val ∧
      (values.val.flatMap inner.write).length + rest.length ≤ bytes.length := by
  induction count generalizing bytes rest with
  | zero =>
      cases run
      exact ⟨rfl, Nat.le_of_eq (Nat.zero_add _)⟩
  | succ count ih =>
      obtain ⟨⟨value, behind⟩, read, run⟩ := ok_of_bind run
      obtain ⟨⟨others, last⟩, readOthers, run⟩ := ok_of_bind run
      cases run
      obtain ⟨kept, short⟩ := inners bytes value behind read
      obtain ⟨keptOthers, shortOthers⟩ := ih behind others rest readOthers
      refine ⟨?_, ?_⟩
      · rw [List.map_cons, kept, keptOthers]
      · rw [List.flatMap_cons, List.length_append]
        omega

theorem vec_reencodes {inner : Codec Value} (inners : Reencodes inner) :
    Reencodes (vec inner) := by
  intro bytes value rest run
  obtain ⟨⟨length, behind⟩, read, run⟩ := ok_of_bind run
  obtain ⟨⟨values, last⟩, readValues, same⟩ := ok_of_map run
  cases same
  obtain ⟨_, short⟩ := u64_reencodes bytes length behind read
  obtain ⟨kept, shortValues⟩ := readMany_reencodes inners _ behind values rest readValues
  refine ⟨Subtype.ext kept, ?_⟩
  show (u64.write (UInt64.ofNat values.val.length) ++ values.val.flatMap inner.write).length +
    rest.length ≤ bytes.length
  rw [values.property, UInt64.ofNat_toNat, List.length_append]
  omega

/-- `parts` takes apart what `build` makes of a source that was read. -/
theorem via_reencodes {codec : Codec Source} {build : Source → Value} {parts : Value → Source}
    (sources : Reencodes codec) (inverse : ∀ source, codec.kept source = source →
      parts (build source) = source) : Reencodes (via codec build parts) := by
  intro bytes value rest run
  obtain ⟨⟨source, behind⟩, read, same⟩ := ok_of_map run
  cases same
  obtain ⟨kept, short⟩ := sources bytes source rest read
  have back := inverse source kept
  refine ⟨?_, ?_⟩
  · show build (codec.kept (parts (build source))) = build source
    rw [back, kept]
  · show (codec.write (parts (build source))).length + rest.length ≤ bytes.length
    rw [back]
    exact short

theorem enumeration_reencodes {count : Nat} (small : count ≤ 128) {payload : Fin count → Type}
    {codecs : ∀ variant, Codec (payload variant)}
    (payloads : ∀ variant, Reencodes (codecs variant)) :
    Reencodes (enumeration small codecs) := by
  intro bytes value rest run
  obtain ⟨⟨tag, behind⟩, read, run⟩ := ok_of_bind run
  obtain ⟨_, short⟩ := u32_reencodes bytes tag behind read
  simp only at run
  split at run
  · next known =>
      obtain ⟨⟨inside, last⟩, readInside, same⟩ := ok_of_bind run
      cases same
      obtain ⟨kept, shortInside⟩ := payloads ⟨tag.toNat, known⟩ behind inside last readInside
      refine ⟨Sigma.ext rfl (heq_of_eq kept), ?_⟩
      show (u32.write (UInt32.ofNat tag.toNat) ++
        (codecs ⟨tag.toNat, known⟩).write inside).length + last.length ≤ bytes.length
      rw [UInt32.ofNat_toNat, List.length_append]
      omega
  · cases run

end Combinations

/-! ## Whole messages -/

/-- What `from_bytes` makes of any bytes, it makes of what is written of it, which is no
longer. -/
theorem Reencodes.fromBytes {Value : Type} {codec : Codec Value} (reencodes : Reencodes codec)
    {bytes : List UInt8} {value : Value} (run : fromBytes codec bytes = .ok value) :
    (codec.write value).length ≤ bytes.length ∧
      Postcard.fromBytes codec (codec.write value) = .ok value := by
  obtain ⟨⟨read, rest⟩, found, rfl⟩ := ok_of_map run
  obtain ⟨kept, short⟩ := reencodes bytes read rest found
  refine ⟨(Nat.le_add_right _ _).trans short, ?_⟩
  rw [fromBytes_write, kept]

end Gday.Lib.Postcard
