import Gday.Lib.Framing
import Gday.Encryption.HelperBuf

/-! # The STREAM cipher of the `aead` crate

`EncryptorLE31` and `DecryptorLE31` count positions from zero and refuse to go on when
the counter is used up; a failed call leaves the position where it was.  The sealing
of one message is a parameter: only its overhead of 16 bytes is built in.

`sealChunks` and `openFrames` say what a whole sequence of calls computes.  They are
what the buffered reader and writer are compared with. -/
set_option autoImplicit false
namespace Gday.Encryption

open Gday.Lib.Framing

abbrev Key := List UInt8
abbrev Nonce := List UInt8

structure StreamAead where
  counterMax : Nat
  sealAt : Key → Nonce → Nat → List UInt8 → List UInt8
  openAt : Key → Nonce → Nat → List UInt8 → Option (List UInt8)
  sealAt_length : ∀ key nonce position plain,
    (sealAt key nonce position plain).length = plain.length + ciphertextOverhead
  openAt_length : ∀ key nonce position sealed plain,
    openAt key nonce position sealed = some plain →
      sealed.length = plain.length + ciphertextOverhead

/-- The state of an encryptor or a decryptor. -/
structure StreamLE31 where
  key : Key
  nonce : Nonce
  position : Nat
  deriving DecidableEq

def StreamLE31.new (key : Key) (nonce : Nonce) : StreamLE31 := ⟨key, nonce, 0⟩

def StreamLE31.advance (stream : StreamLE31) : StreamLE31 :=
  { stream with position := stream.position + 1 }

@[simp] theorem StreamLE31.advance_key (stream : StreamLE31) :
    stream.advance.key = stream.key := rfl

@[simp] theorem StreamLE31.advance_nonce (stream : StreamLE31) :
    stream.advance.nonce = stream.nonce := rfl

@[simp] theorem StreamLE31.advance_position (stream : StreamLE31) :
    stream.advance.position = stream.position + 1 := rfl

namespace StreamAead

variable (aead : StreamAead)

def encryptNextInPlace (stream : StreamLE31) (plain : List UInt8) :
    Option (List UInt8 × StreamLE31) :=
  if stream.position = aead.counterMax then none
  else some (aead.sealAt stream.key stream.nonce stream.position plain, stream.advance)

def decryptNextInPlace (stream : StreamLE31) (sealed : List UInt8) :
    Option (List UInt8 × StreamLE31) :=
  if stream.position = aead.counterMax then none
  else
    match aead.openAt stream.key stream.nonce stream.position sealed with
    | none => none
    | some plain => some (plain, stream.advance)

theorem decryptNextInPlace_eq_some (stream next : StreamLE31) (sealed plain : List UInt8) :
    aead.decryptNextInPlace stream sealed = some (plain, next) ↔
      stream.position ≠ aead.counterMax ∧
        aead.openAt stream.key stream.nonce stream.position sealed = some plain ∧
          next = stream.advance := by
  rw [decryptNextInPlace]
  by_cases spent : stream.position = aead.counterMax
  · simp [spent]
  · rw [if_neg spent]
    cases opened : aead.openAt stream.key stream.nonce stream.position sealed with
    | none => simp
    | some found =>
        simp only [Option.some.injEq, Prod.mk.injEq]
        constructor
        · rintro ⟨same, rest⟩
          exact ⟨spent, same, rest.symm⟩
        · rintro ⟨_, same, rest⟩
          exact ⟨same, rest.symm⟩

theorem decryptNextInPlace_length (stream next : StreamLE31) (sealed plain : List UInt8)
    (opened : aead.decryptNextInPlace stream sealed = some (plain, next)) :
    sealed.length = plain.length + ciphertextOverhead := by
  obtain ⟨_, openedAt, _⟩ := (aead.decryptNextInPlace_eq_some stream next sealed plain).mp opened
  exact aead.openAt_length _ _ _ _ _ openedAt

/-! ## Sequences of messages -/

/-- The messages of successive encryptions, and the encryptor after them. -/
def sealChunks : StreamLE31 → List (List UInt8) → Option (List (List UInt8) × StreamLE31)
  | stream, [] => some ([], stream)
  | stream, chunk :: rest => do
      let (sealed, next) ← aead.encryptNextInPlace stream chunk
      let (others, final) ← sealChunks next rest
      return (sealed :: others, final)

/-- The plaintext that successive decryptions release: a message that fails is
skipped, and the next one is tried at the same position. -/
def openFrames : StreamLE31 → List (List UInt8) → List UInt8 × StreamLE31
  | stream, [] => ([], stream)
  | stream, sealed :: rest =>
      match aead.decryptNextInPlace stream sealed with
      | none => openFrames stream rest
      | some (plain, next) => (plain ++ (openFrames next rest).1, (openFrames next rest).2)

theorem openFrames_append (stream : StreamLE31) (first second : List (List UInt8)) :
    aead.openFrames stream (first ++ second) =
      ((aead.openFrames stream first).1 ++
          (aead.openFrames (aead.openFrames stream first).2 second).1,
        (aead.openFrames (aead.openFrames stream first).2 second).2) := by
  induction first generalizing stream with
  | nil => simp [openFrames]
  | cons sealed rest ih =>
      simp only [List.cons_append, openFrames]
      cases opened : aead.decryptNextInPlace stream sealed with
      | none => exact ih stream
      | some pair =>
          obtain ⟨plain, next⟩ := pair
          simp only [ih next, List.append_assoc]

theorem openFrames_append_snd (stream : StreamLE31) (first second : List (List UInt8)) :
    (aead.openFrames stream (first ++ second)).2 =
      (aead.openFrames (aead.openFrames stream first).2 second).2 := by
  rw [openFrames_append]

theorem sealChunks_nil (stream final : StreamLE31) (sealed : List (List UInt8)) :
    aead.sealChunks stream [] = some (sealed, final) ↔ sealed = [] ∧ final = stream := by
  simp only [sealChunks, Option.some.injEq, Prod.mk.injEq]
  exact and_congr eq_comm eq_comm

theorem sealChunks_cons (stream final : StreamLE31) (chunk : List UInt8)
    (rest sealed : List (List UInt8))
    (run : aead.sealChunks stream (chunk :: rest) = some (sealed, final)) :
    ∃ message next others, aead.encryptNextInPlace stream chunk = some (message, next) ∧
      aead.sealChunks next rest = some (others, final) ∧ sealed = message :: others := by
  simp only [sealChunks] at run
  obtain ⟨⟨message, next⟩, headRun, run⟩ := Option.bind_eq_some_iff.mp run
  obtain ⟨⟨others, last⟩, tailRun, result⟩ := Option.bind_eq_some_iff.mp run
  simp only [Option.pure_def, Option.some.injEq, Prod.mk.injEq] at result
  obtain ⟨rfl, rfl⟩ := result
  exact ⟨message, next, others, headRun, tailRun, rfl⟩

theorem sealChunks_append (stream middle : StreamLE31) (first second sealed : List (List UInt8))
    (run : aead.sealChunks stream first = some (sealed, middle)) :
    aead.sealChunks stream (first ++ second) =
      (aead.sealChunks middle second).map fun pair => (sealed ++ pair.1, pair.2) := by
  induction first generalizing stream sealed with
  | nil =>
      obtain ⟨rfl, rfl⟩ := (aead.sealChunks_nil stream _ sealed).mp run
      simp
  | cons chunk rest ih =>
      obtain ⟨message, next, others, headRun, tailRun, rfl⟩ :=
        aead.sealChunks_cons stream middle chunk rest sealed run
      simp only [List.cons_append, sealChunks, headRun, Option.bind_eq_bind, Option.bind_some,
        ih next others tailRun]
      cases aead.sealChunks middle second with
      | none => rfl
      | some pair => rfl

theorem encryptNextInPlace_eq_some (stream next : StreamLE31) (plain sealed : List UInt8) :
    aead.encryptNextInPlace stream plain = some (sealed, next) ↔
      stream.position ≠ aead.counterMax ∧
        sealed = aead.sealAt stream.key stream.nonce stream.position plain ∧
          next = stream.advance := by
  rw [encryptNextInPlace]
  by_cases spent : stream.position = aead.counterMax
  · simp [spent]
  · rw [if_neg spent]
    simp only [Option.some.injEq, Prod.mk.injEq, ne_eq, spent, not_false_iff, true_and]
    exact and_congr eq_comm eq_comm

theorem sealChunks_lengths (stream final : StreamLE31) (chunks sealed : List (List UInt8))
    (limit : Nat) (run : aead.sealChunks stream chunks = some (sealed, final))
    (small : ∀ chunk ∈ chunks, chunk.length ≤ limit) :
    ∀ message ∈ sealed, message.length ≤ limit + ciphertextOverhead := by
  induction chunks generalizing stream sealed with
  | nil =>
      obtain ⟨rfl, _⟩ := (aead.sealChunks_nil stream final sealed).mp run
      simp
  | cons chunk rest ih =>
      obtain ⟨message, next, others, headRun, tailRun, rfl⟩ :=
        aead.sealChunks_cons stream final chunk rest sealed run
      intro found member
      rcases List.mem_cons.mp member with rfl | member
      · obtain ⟨_, rfl, _⟩ := (aead.encryptNextInPlace_eq_some stream next chunk found).mp headRun
        rw [aead.sealAt_length]
        have := small chunk (List.mem_cons_self ..)
        omega
      · exact ih next others tailRun (fun c m => small c (List.mem_cons_of_mem _ m)) found member

/-- A sequence of encryptions with its results starts with any part of it. -/
theorem sealChunks_front (stream final : StreamLE31) (before after : List (List UInt8 × List UInt8))
    (run : aead.sealChunks stream ((before ++ after).map Prod.fst) =
      some ((before ++ after).map Prod.snd, final)) :
    ∃ middle,
      aead.sealChunks stream (before.map Prod.fst) = some (before.map Prod.snd, middle) := by
  induction before generalizing stream with
  | nil => exact ⟨stream, rfl⟩
  | cons entry rest ih =>
      obtain ⟨message, next, others, headRun, tailRun, messages⟩ :=
        aead.sealChunks_cons stream final entry.1 _ _ run
      simp only [List.cons_append, List.map_cons, List.cons.injEq] at messages
      obtain ⟨messageEq, othersEq⟩ := messages
      rw [← othersEq] at tailRun
      obtain ⟨middle, restRun⟩ := ih next tailRun
      refine ⟨middle, ?_⟩
      simp only [List.map_cons, sealChunks, headRun, messageEq, Option.bind_eq_bind,
        Option.bind_some, restRun]
      rfl

/-! ## Ideal ciphers -/

/-- Opening at a position what was sealed at that position gives the plaintext back. -/
def Invertible : Prop :=
  ∀ key nonce position plain,
    aead.openAt key nonce position (aead.sealAt key nonce position plain) = some plain

theorem openFrames_sealChunks (invertible : aead.Invertible) (stream final : StreamLE31)
    (chunks sealed : List (List UInt8))
    (run : aead.sealChunks stream chunks = some (sealed, final)) :
    aead.openFrames stream sealed = (chunks.flatten, final) := by
  induction chunks generalizing stream sealed with
  | nil =>
      obtain ⟨rfl, rfl⟩ := (aead.sealChunks_nil stream final sealed).mp run
      rfl
  | cons chunk rest ih =>
      obtain ⟨message, next, others, headRun, tailRun, rfl⟩ :=
        aead.sealChunks_cons stream final chunk rest sealed run
      obtain ⟨going, messageEq, nextEq⟩ :=
        (aead.encryptNextInPlace_eq_some stream next chunk message).mp headRun
      have opened : aead.decryptNextInPlace stream message = some (chunk, next) := by
        rw [decryptNextInPlace_eq_some, messageEq]
        exact ⟨going, invertible _ _ _ _, nextEq⟩
      simp only [openFrames, opened, ih next others tailRun, List.flatten_cons]

end StreamAead

/-- The cipher that adds sixteen zero bytes and takes them away again. -/
def paddingAead : StreamAead where
  counterMax := 2 ^ 31 - 1
  sealAt _ _ _ plain := plain ++ List.replicate ciphertextOverhead 0
  openAt _ _ _ sealed :=
    if ciphertextOverhead ≤ sealed.length then
      some (sealed.take (sealed.length - ciphertextOverhead))
    else none
  sealAt_length := by simp
  openAt_length := by
    intro key nonce position sealed plain opened
    by_cases long : ciphertextOverhead ≤ sealed.length
    · rw [if_pos long, Option.some.injEq] at opened
      rw [← opened, List.length_take]
      omega
    · rw [if_neg long] at opened
      cases opened

theorem paddingAead_invertible : paddingAead.Invertible := by
  intro key nonce position plain
  have lengths := paddingAead.sealAt_length key nonce position plain
  show (if ciphertextOverhead ≤ (paddingAead.sealAt key nonce position plain).length then _
    else none) = some plain
  rw [lengths, if_pos (Nat.le_add_left ..), Nat.add_sub_cancel]
  exact congrArg some (List.take_left' rfl)

theorem paddingAead_opens (stream : StreamLE31) (sealed : List UInt8)
    (going : stream.position ≠ paddingAead.counterMax)
    (long : ciphertextOverhead ≤ sealed.length) :
    paddingAead.decryptNextInPlace stream sealed =
      some (sealed.take (sealed.length - ciphertextOverhead), stream.advance) := by
  rw [StreamAead.decryptNextInPlace_eq_some]
  exact ⟨going, if_pos long, rfl⟩

end Gday.Encryption
