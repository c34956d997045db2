import Mathlib

/-! # Self-delimiting binary codecs

The wire format of postcard: little-endian base-128 numbers of bounded length, one byte
before an optional value, raw bytes, and a numbered variant before its payload.  A codec
carries the proof that what it writes is read back, whatever follows; `kept` says what of
a value survives. -/
set_option autoImplicit false
namespace Gday.Lib.Postcard

inductive Error where
  | serializeBufferFull
  | deserializeUnexpectedEnd
  | deserializeBadVarint
  | deserializeBadBool
  | deserializeBadOption
  | deserializeBadUtf8
  | serdeSerCustom
  | serdeDeCustom
  deriving DecidableEq, Repr

structure Codec (Value : Type) where
  write : Value → List UInt8
  read : List UInt8 → Except Error (Value × List UInt8)
  kept : Value → Value
  reads : ∀ value rest, read (write value ++ rest) = .ok (kept value, rest)

/-! ## Numbers -/

/-- At most `more` bytes that announce another one, and one that does not. -/
def encodeVarint : Nat → Nat → List UInt8
  | 0, number => [UInt8.ofNat number]
  | more + 1, number =>
      if number < 128 then [UInt8.ofNat number]
      else UInt8.ofNat (number % 128 + 128) :: encodeVarint more (number / 128)

/-- `last` is the greatest byte that may stand in the last place. -/
def decodeVarint (last : Nat) : Nat → List UInt8 → Except Error (Nat × List UInt8)
  | _, [] => .error .deserializeUnexpectedEnd
  | 0, byte :: rest =>
      if byte.toNat ≤ last then .ok (byte.toNat, rest) else .error .deserializeBadVarint
  | more + 1, byte :: rest =>
      if byte.toNat < 128 then .ok (byte.toNat, rest)
      else do
        let (high, rest) ← decodeVarint last more rest
        return (byte.toNat - 128 + 128 * high, rest)

theorem decodeVarint_encodeVarint (last more number : Nat) (rest : List UInt8)
    (oneByte : last < 128) (bound : number < (last + 1) * 128 ^ more) :
    decodeVarint last more (encodeVarint more number ++ rest) = .ok (number, rest) := by
  induction more generalizing number with
  | zero =>
      have small : (UInt8.ofNat number).toNat = number := by
        rw [UInt8.toNat_ofNat']
        omega
      have within : number ≤ last := by omega
      rw [encodeVarint, List.singleton_append, decodeVarint, small, if_pos within]
  | succ more ih =>
      rw [encodeVarint]
      by_cases single : number < 128
      · have small : (UInt8.ofNat number).toNat = number := by
          rw [UInt8.toNat_ofNat']
          omega
        rw [if_pos single, List.singleton_append, decodeVarint, small, if_pos single]
      · have continued : (UInt8.ofNat (number % 128 + 128)).toNat = number % 128 + 128 := by
          rw [UInt8.toNat_ofNat']
          omega
        have restBound : number / 128 < (last + 1) * 128 ^ more := by
          apply Nat.div_lt_of_lt_mul
          calc number < (last + 1) * 128 ^ (more + 1) := bound
            _ = 128 * ((last + 1) * 128 ^ more) := by ring
        have notSingle : ¬ number % 128 + 128 < 128 := by omega
        have whole : number % 128 + 128 - 128 + 128 * (number / 128) = number := by omega
        rw [if_neg single, List.cons_append, decodeVarint, continued, if_neg notSingle,
          ih _ restBound]
        exact congrArg (fun sum => Except.ok (sum, rest)) whole

/-- `u16` as at most three bytes. -/
def u16 : Codec UInt16 where
  write number := encodeVarint 2 number.toNat
  read bytes := (decodeVarint 3 2 bytes).map fun (number, rest) => (UInt16.ofNat number, rest)
  kept number := number
  reads := by
    intro number rest
    have bound := number.toNat_lt
    rw [decodeVarint_encodeVarint 3 2 _ rest (by decide) (by omega)]
    simp [Except.map]

/-- `u32` as at most five bytes. -/
def u32 : Codec UInt32 where
  write number := encodeVarint 4 number.toNat
  read bytes := (decodeVarint 15 4 bytes).map fun (number, rest) => (UInt32.ofNat number, rest)
  kept number := number
  reads := by
    intro number rest
    have bound := number.toNat_lt
    rw [decodeVarint_encodeVarint 15 4 _ rest (by decide) (by omega)]
    simp [Except.map]

/-- `u64` as at most ten bytes, which is also `usize`. -/
def u64 : Codec UInt64 where
  write number := encodeVarint 9 number.toNat
  read bytes := (decodeVarint 1 9 bytes).map fun (number, rest) => (UInt64.ofNat number, rest)
  kept number := number
  reads := by
    intro number rest
    have bound := number.toNat_lt
    rw [decodeVarint_encodeVarint 1 9 _ rest (by decide) (by omega)]
    simp [Except.map]

theorem u16_write (number : UInt16) : u16.write number = encodeVarint 2 number.toNat := rfl

theorem u32_write (number : UInt32) : u32.write number = encodeVarint 4 number.toNat := rfl

theorem u16_write_length (number : UInt16) :
    (u16.write number).length =
      if number.toNat < 128 then 1 else if number.toNat < 16384 then 2 else 3 := by
  rw [u16_write, encodeVarint]
  by_cases one : number.toNat < 128
  · rw [if_pos one, if_pos one]
    rfl
  · rw [if_neg one, if_neg one, encodeVarint]
    by_cases two : number.toNat < 16384
    · rw [if_pos (Nat.div_lt_of_lt_mul two), if_pos two]
      rfl
    · rw [if_neg (by omega), if_neg two]
      rfl

theorem encodeVarint_length_le (more number : Nat) :
    (encodeVarint more number).length ≤ more + 1 := by
  induction more generalizing number with
  | zero => exact Nat.le_refl _
  | succ more ih =>
      rw [encodeVarint]
      split
      · exact Nat.le_add_left 1 (more + 1)
      · exact Nat.succ_le_succ (ih _)

/-! ## Bytes -/

/-- So many bytes. -/
def Octets (count : Nat) : Type := {bytes : List UInt8 // bytes.length = count}

instance (count : Nat) : DecidableEq (Octets count) :=
  inferInstanceAs (DecidableEq {bytes : List UInt8 // bytes.length = count})

def octets (count : Nat) : Codec (Octets count) where
  write value := value.val
  read bytes :=
    if enough : count ≤ bytes.length then
      .ok (⟨bytes.take count, List.length_take_of_le enough⟩, bytes.drop count)
    else .error .deserializeUnexpectedEnd
  kept value := value
  reads := by
    rintro ⟨bytes, rfl⟩ rest
    rw [dif_pos (by simp)]
    simp

theorem octets_write_length {count : Nat} (value : Octets count) :
    ((octets count).write value).length = count :=
  value.property

/-! ## Truth values and strings -/

def bool : Codec Bool where
  write value := [if value then 1 else 0]
  read
    | [] => .error .deserializeUnexpectedEnd
    | byte :: rest =>
        if byte = 0 then .ok (false, rest)
        else if byte = 1 then .ok (true, rest)
        else .error .deserializeBadBool
  kept value := value
  reads := by
    intro value rest
    cases value <;> rfl

def isUtf8 (bytes : List UInt8) : Prop := (ByteArray.mk bytes.toArray).IsValidUTF8

instance (bytes : List UInt8) : Decidable (isUtf8 bytes) :=
  inferInstanceAs (Decidable (ByteArray.IsValidUTF8 _))

/-- UTF-8 with a `usize` for its length. -/
def Str : Type := {bytes : List UInt8 // bytes.length < 2 ^ 64 ∧ isUtf8 bytes}

def str : Codec Str where
  write value := u64.write (UInt64.ofNat value.val.length) ++ value.val
  read bytes := do
    let (length, rest) ← u64.read bytes
    if enough : length.toNat ≤ rest.length then
      if valid : isUtf8 (rest.take length.toNat) then
        have short : (rest.take length.toNat).length < 2 ^ 64 := by
          rw [List.length_take_of_le enough]
          exact length.toNat_lt
        return (⟨rest.take length.toNat, short, valid⟩, rest.drop length.toNat)
      else .error .deserializeBadUtf8
    else .error .deserializeUnexpectedEnd
  kept value := value
  reads := by
    rintro ⟨bytes, short, valid⟩ rest
    have length : (UInt64.ofNat bytes.length).toNat = bytes.length := by
      rw [UInt64.toNat_ofNat']
      exact Nat.mod_eq_of_lt short
    have number := u64.reads (UInt64.ofNat bytes.length) (bytes ++ rest)
    have kept : u64.kept (UInt64.ofNat bytes.length) = UInt64.ofNat bytes.length := rfl
    rw [List.append_assoc, number, kept]
    simp [bind, Except.bind, length, valid, pure, Except.pure]

/-! ## Combinations -/

section Combinations

variable {First Second Value Source : Type}

def unit : Codec Unit where
  write _ := []
  read bytes := .ok ((), bytes)
  kept value := value
  reads _ _ := rfl

/-- One after the other. -/
def pair (first : Codec First) (second : Codec Second) : Codec (First × Second) where
  write value := first.write value.1 ++ second.write value.2
  read bytes := do
    let (left, rest) ← first.read bytes
    let (right, rest) ← second.read rest
    return ((left, right), rest)
  kept value := (first.kept value.1, second.kept value.2)
  reads := by
    intro value rest
    rw [List.append_assoc, first.reads]
    simp only [bind, Except.bind, second.reads]
    rfl

def option (inner : Codec Value) : Codec (Option Value) where
  write
    | none => [0]
    | some value => 1 :: inner.write value
  read
    | [] => .error .deserializeUnexpectedEnd
    | tag :: rest =>
        if tag = 0 then .ok (none, rest)
        else if tag = 1 then (inner.read rest).map fun (value, rest) => (some value, rest)
        else .error .deserializeBadOption
  kept value := value.map inner.kept
  reads := by
    intro value rest
    cases value with
    | none => rfl
    | some value =>
        simp only [List.cons_append, inner.reads]
        rfl

/-- A list with a `usize` for its length. -/
def Vec (Value : Type) : Type := {values : List Value // values.length < 2 ^ 64}

/-- So many values, one after the other. -/
def readMany (inner : Codec Value) : (count : Nat) → List UInt8 →
    Except Error ({values : List Value // values.length = count} × List UInt8)
  | 0, bytes => .ok (⟨[], rfl⟩, bytes)
  | count + 1, bytes => do
      let (value, rest) ← inner.read bytes
      let (values, rest) ← readMany inner count rest
      return (⟨value :: values.val, congrArg (· + 1) values.property⟩, rest)

theorem readMany_write (inner : Codec Value) (values : List Value) (rest : List UInt8) :
    readMany inner values.length (values.flatMap inner.write ++ rest) =
      .ok (⟨values.map inner.kept, List.length_map _⟩, rest) := by
  induction values with
  | nil => rfl
  | cons value values ih =>
      rw [List.flatMap_cons, List.append_assoc]
      simp only [List.length_cons, readMany, inner.reads, bind, Except.bind]
      rw [ih]
      rfl

def readVec (inner : Codec Value) (count : Nat) (short : count < 2 ^ 64) (bytes : List UInt8) :
    Except Error (Vec Value × List UInt8) :=
  (readMany inner count bytes).map fun (values, rest) =>
    (⟨values.val, values.property.symm ▸ short⟩, rest)

def vec (inner : Codec Value) : Codec (Vec Value) where
  write value := u64.write (UInt64.ofNat value.val.length) ++ value.val.flatMap inner.write
  read bytes := do
    let (length, rest) ← u64.read bytes
    readVec inner length.toNat length.toNat_lt rest
  kept value := ⟨value.val.map inner.kept, (List.length_map inner.kept).symm ▸ value.property⟩
  reads := by
    rintro ⟨values, short⟩ rest
    have length : (UInt64.ofNat values.length).toNat = values.length := by
      rw [UInt64.toNat_ofNat']
      exact Nat.mod_eq_of_lt short
    have number := u64.reads (UInt64.ofNat values.length) (values.flatMap inner.write ++ rest)
    have kept : u64.kept (UInt64.ofNat values.length) = UInt64.ofNat values.length := rfl
    have many : ∀ count within, count = values.length →
        readVec inner count within (values.flatMap inner.write ++ rest) =
          .ok (⟨values.map inner.kept, (List.length_map inner.kept).symm ▸ short⟩, rest) := by
      rintro _ within rfl
      rw [readVec, readMany_write]
      rfl
    rw [List.append_assoc, number, kept]
    exact many _ (UInt64.toNat_lt _) length

theorem vec_kept (inner : Codec Value) (whole : ∀ value, inner.kept value = value)
    (values : Vec Value) : (vec inner).kept values = values := by
  apply Subtype.ext
  calc values.val.map inner.kept = values.val.map id :=
        List.map_congr_left fun value _ => whole value
    _ = values.val := List.map_id _

/-- A codec for values that are made from others: `read` builds what `write` takes apart. -/
def via (codec : Codec Source) (build : Source → Value) (parts : Value → Source) :
    Codec Value where
  write value := codec.write (parts value)
  read bytes := (codec.read bytes).map fun (source, rest) => (build source, rest)
  kept value := build (codec.kept (parts value))
  reads := by
    intro value rest
    rw [codec.reads]
    rfl

/-- Variants numbered from zero, each with a payload of its own. -/
def enumeration {count : Nat} (small : count ≤ 128) {payload : Fin count → Type}
    (codecs : ∀ variant, Codec (payload variant)) : Codec (Sigma payload) where
  write value := u32.write (UInt32.ofNat value.1.val) ++ (codecs value.1).write value.2
  read bytes := do
    let (tag, rest) ← u32.read bytes
    if known : tag.toNat < count then
      let (value, rest) ← (codecs ⟨tag.toNat, known⟩).read rest
      return (⟨⟨tag.toNat, known⟩, value⟩, rest)
    else .error .serdeDeCustom
  kept value := ⟨value.1, (codecs value.1).kept value.2⟩
  reads := by
    rintro ⟨⟨variant, known⟩, value⟩ rest
    have same : (UInt32.ofNat variant).toNat = variant := by
      rw [UInt32.toNat_ofNat']
      omega
    have tag := u32.reads (UInt32.ofNat variant) ((codecs ⟨variant, known⟩).write value ++ rest)
    have kept : u32.kept (UInt32.ofNat variant) = UInt32.ofNat variant := rfl
    have payloadRead : ∀ other, (same : other = variant) → ∀ known' : other < count,
        (do let (value, rest) ← (codecs ⟨other, known'⟩).read
              ((codecs ⟨variant, known⟩).write value ++ rest)
            return (⟨⟨other, known'⟩, value⟩, rest) : Except Error (Sigma payload × List UInt8)) =
          .ok (⟨⟨variant, known⟩, (codecs ⟨variant, known⟩).kept value⟩, rest) := by
      rintro _ rfl known'
      rw [(codecs ⟨_, known'⟩).reads]
      rfl
    rw [List.append_assoc, tag, kept]
    simp only [bind, Except.bind] at payloadRead ⊢
    rw [dif_pos (same.symm ▸ known)]
    exact payloadRead _ same _

theorem enumeration_write_length {count : Nat} (small : count ≤ 128)
    {payload : Fin count → Type} (codecs : ∀ variant, Codec (payload variant))
    (value : Sigma payload) :
    ((enumeration small codecs).write value).length =
      1 + ((codecs value.1).write value.2).length := by
  obtain ⟨⟨variant, known⟩, value⟩ := value
  have same : (UInt32.ofNat variant).toNat = variant := by
    rw [UInt32.toNat_ofNat']
    omega
  have tag : (u32.write (UInt32.ofNat variant)).length = 1 := by
    rw [u32_write, same, encodeVarint, if_pos (by omega)]
    rfl
  rw [enumeration, List.length_append, tag]

theorem option_write_length (inner : Codec Value) (value : Option Value) :
    ((option inner).write value).length =
      1 + (value.map fun inside => (inner.write inside).length).getD 0 := by
  cases value with
  | none => rfl
  | some value => exact Nat.add_comm _ 1

end Combinations

/-! ## Reading looks at no more than it takes -/

section Stable

variable {First Second Value Source : Type}

/-- What was read is read again, whatever follows the bytes it was read from. -/
def Stable (read : List UInt8 → Except Error (Value × List UInt8)) : Prop :=
  ∀ bytes value rest extra, read bytes = .ok (value, rest) →
    read (bytes ++ extra) = .ok (value, rest ++ extra)

theorem Stable.map {read : List UInt8 → Except Error (Source × List UInt8)}
    (stable : Stable read) (build : Source → Value) :
    Stable fun bytes => (read bytes).map fun (source, rest) => (build source, rest) := by
  intro bytes value rest extra found
  cases before : read bytes with
  | error error => simp [before, Except.map] at found
  | ok pair =>
      obtain ⟨source, left⟩ := pair
      simp only [before, Except.map, Except.ok.injEq, Prod.mk.injEq] at found
      obtain ⟨rfl, rfl⟩ := found
      simp only [stable bytes source left extra before]
      rfl

theorem Stable.bind {read : List UInt8 → Except Error (Source × List UInt8)}
    {readNext : Source × List UInt8 → Except Error (Value × List UInt8)} (stable : Stable read)
    (later : ∀ source, Stable fun rest => readNext (source, rest)) :
    Stable (fun bytes => read bytes >>= readNext) := by
  intro bytes value rest extra found
  cases before : read bytes with
  | error error => simp [before, Bind.bind, Except.bind] at found
  | ok pair =>
      obtain ⟨source, left⟩ := pair
      simp only [before, Bind.bind, Except.bind] at found ⊢
      simp only [stable bytes source left extra before]
      exact later source left value rest extra found

theorem Stable.pure (value : Value) : Stable fun bytes => .ok (value, bytes) := by
  intro bytes found rest extra same
  cases same
  rfl

theorem Stable.error (error : Error) :
    Stable fun _ : List UInt8 => (.error error : Except Error (Value × List UInt8)) := by
  intro bytes value rest extra found
  cases found

theorem decodeVarint_stable (last more : Nat) : Stable (decodeVarint last more) := by
  intro bytes value rest extra found
  induction more generalizing bytes value rest with
  | zero =>
      cases bytes with
      | nil => simp [decodeVarint] at found
      | cons byte bytes =>
          rw [decodeVarint] at found
          rw [List.cons_append, decodeVarint]
          by_cases small : byte.toNat ≤ last
          · rw [if_pos small] at found ⊢
            cases found
            rfl
          · simp [if_neg small] at found
  | succ more ih =>
      cases bytes with
      | nil => simp [decodeVarint] at found
      | cons byte bytes =>
          rw [decodeVarint] at found
          rw [List.cons_append, decodeVarint]
          by_cases single : byte.toNat < 128
          · rw [if_pos single] at found ⊢
            cases found
            rfl
          · rw [if_neg single] at found ⊢
            cases before : decodeVarint last more bytes with
            | error error => simp [before, Bind.bind, Except.bind] at found
            | ok pair =>
                obtain ⟨high, left⟩ := pair
                simp only [before, Bind.bind, Except.bind] at found
                cases found
                simp only [ih bytes high _ before, Bind.bind, Except.bind]
                rfl

theorem u64_stable : Stable u64.read := (decodeVarint_stable 1 9).map UInt64.ofNat

theorem u32_stable : Stable u32.read := (decodeVarint_stable 15 4).map UInt32.ofNat

theorem bool_stable : Stable bool.read := by
  intro bytes value rest extra found
  cases bytes with
  | nil => cases found
  | cons byte bytes =>
      simp only [bool, List.cons_append] at found ⊢
      by_cases zero : byte = 0
      · rw [if_pos zero] at found ⊢
        cases found
        rfl
      · rw [if_neg zero] at found ⊢
        by_cases one : byte = 1
        · rw [if_pos one] at found ⊢
          cases found
          rfl
        · rw [if_neg one] at found
          cases found

theorem str_stable : Stable str.read := by
  dsimp only [str]
  apply u64_stable.bind
  intro length bytes value rest extra found
  by_cases enough : length.toNat ≤ bytes.length
  · have more : length.toNat ≤ (bytes ++ extra).length := by
      rw [List.length_append]
      omega
    have front : (bytes ++ extra).take length.toNat = bytes.take length.toNat :=
      List.take_append_of_le_length enough
    have behind : (bytes ++ extra).drop length.toNat = bytes.drop length.toNat ++ extra :=
      List.drop_append_of_le_length enough
    simp only [dif_pos enough] at found
    simp only [dif_pos more, front, behind]
    by_cases valid : isUtf8 (bytes.take length.toNat)
    · simp only [dif_pos valid] at found ⊢
      cases found
      rfl
    · simp only [dif_neg valid] at found
      cases found
  · simp only [dif_neg enough] at found
    cases found

theorem pair_stable {first : Codec First} {second : Codec Second} (firstStable : Stable first.read)
    (secondStable : Stable second.read) : Stable (pair first second).read := by
  dsimp only [pair]
  apply firstStable.bind
  intro left
  dsimp only
  apply secondStable.bind
  intro right
  exact Stable.pure (left, right)

theorem option_stable {inner : Codec Value} (stable : Stable inner.read) :
    Stable (option inner).read := by
  intro bytes value rest extra found
  cases bytes with
  | nil => cases found
  | cons tag bytes =>
      simp only [option, List.cons_append] at found ⊢
      by_cases zero : tag = 0
      · rw [if_pos zero] at found ⊢
        cases found
        rfl
      · rw [if_neg zero] at found ⊢
        by_cases one : tag = 1
        · rw [if_pos one] at found ⊢
          exact stable.map some bytes value rest extra found
        · rw [if_neg one] at found
          cases found

theorem readMany_stable {inner : Codec Value} (stable : Stable inner.read) (count : Nat) :
    Stable (readMany inner count) := by
  induction count with
  | zero => exact Stable.pure _
  | succ count ih =>
      dsimp only [readMany]
      apply stable.bind
      intro value
      dsimp only
      apply ih.bind
      intro values
      exact Stable.pure (⟨value :: values.val, congrArg (· + 1) values.property⟩ :
        {values : List Value // values.length = count + 1})

theorem vec_stable {inner : Codec Value} (stable : Stable inner.read) :
    Stable (vec inner).read := by
  apply u64_stable.bind
  intro length
  exact (readMany_stable stable length.toNat).map fun values =>
    (⟨values.val, values.property.symm ▸ length.toNat_lt⟩ : Vec Value)

theorem enumeration_stable {count : Nat} (small : count ≤ 128) {payload : Fin count → Type}
    {codecs : ∀ variant, Codec (payload variant)}
    (stable : ∀ variant, Stable (codecs variant).read) :
    Stable (enumeration small codecs).read := by
  dsimp only [enumeration]
  apply u32_stable.bind
  intro tag
  dsimp only
  by_cases known : tag.toNat < count
  · simp only [dif_pos known]
    apply (stable ⟨tag.toNat, known⟩).bind
    intro value
    exact Stable.pure (⟨⟨tag.toNat, known⟩, value⟩ : Sigma payload)
  · simp only [dif_neg known]
    exact Stable.error _

end Stable

/-! ## Whole messages -/

section Messages

variable {Value : Type}

/-- `to_slice` into a buffer of this size. -/
def toSlice (codec : Codec Value) (room : Nat) (value : Value) : Except Error (List UInt8) :=
  if (codec.write value).length ≤ room then .ok (codec.write value)
  else .error .serializeBufferFull

/-- `from_bytes`, which ignores what follows the value. -/
def fromBytes (codec : Codec Value) (bytes : List UInt8) : Except Error Value :=
  (codec.read bytes).map Prod.fst

theorem fromBytes_stable {codec : Codec Value} (stable : Stable codec.read)
    (bytes extra : List UInt8) (value : Value) (found : fromBytes codec bytes = .ok value) :
    fromBytes codec (bytes ++ extra) = .ok value := by
  unfold fromBytes at found ⊢
  cases before : codec.read bytes with
  | error error => simp [before, Except.map] at found
  | ok pair =>
      obtain ⟨read, rest⟩ := pair
      simp only [before, Except.map, Except.ok.injEq] at found
      simp only [stable bytes read rest extra before, Except.map, found]

theorem fromBytes_write (codec : Codec Value) (value : Value) :
    fromBytes codec (codec.write value) = .ok (codec.kept value) := by
  have all := codec.reads value []
  rw [List.append_nil] at all
  rw [fromBytes, all]
  rfl

end Messages

end Gday.Lib.Postcard
