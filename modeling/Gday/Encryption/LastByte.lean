import Gday.Encryption.EndOfStream
import Gday.Encryption.Moves

/-! # Nothing comes after an end

A poll that asked for bytes and was given none leaves the reader where no byte comes out of it
any more.  The stream is closed and used up, or the chunk at its head is larger than the
capacity that the cleartext buffer has left.  No later call changes that, whatever arrives. -/
set_option autoImplicit false
namespace Gday.Encryption

open Gday.Lib.AsyncStream Gday.Lib.Framing Gday.Lib.Machine

namespace EncryptedReader

/-- With nothing in the cleartext buffer, none will ever be there. -/
inductive Dry (reader : EncryptedReader) (inner : ByteStream) : Prop where
  | closed (clear : reader.cleartext.unread = []) (used : reader.ciphertext.unread = [])
      (gone : inner.bytes = [])
  | tooLarge (clear : reader.cleartext.unread = []) (msg : List UInt8)
      (shown : peekFrame reader.ciphertext.unread = some msg)
      (large : reader.cleartext.buf.capacity < msg.length)
  | noCapacity (clear : reader.cleartext.unread = [])
      (none_ : reader.cleartext.buf.capacity = 0)

variable {aead : StreamAead} {before after : EncryptedReader × ByteStream}

theorem Dry.clear {reader : EncryptedReader} {inner : ByteStream} (dry : Dry reader inner) :
    reader.cleartext.unread = [] := by
  cases dry <;> assumption

/-- A frame that shows still does when bytes arrive behind it. -/
theorem peekFrame_more {stream msg : List UInt8} (shown : peekFrame stream = some msg)
    (more : List UInt8) : peekFrame (stream ++ more) = some msg := by
  obtain ⟨short, rest, split⟩ := (peekFrame_eq_some _ msg).mp shown
  refine (peekFrame_eq_some _ msg).mpr ⟨short, rest ++ more, ?_⟩
  rw [split, List.append_assoc]

/-- There is no room for the chunk at the head. -/
theorem Dry.no_room {reader : EncryptedReader} {inner : ByteStream} (dry : Dry reader inner)
    (sound : reader.Sound) {msg : List UInt8}
    (shown : peekFrame reader.ciphertext.unread = some msg)
    (room : msg.length ≤ reader.cleartext.spareCapacityLen) :
    reader.cleartext.buf.capacity = 0 ∧ msg = [] := by
  rw [sound.cleartext.spare_of_unread_nil dry.clear] at room
  cases dry with
  | closed clear used gone =>
      rw [used] at shown
      cases shown
  | tooLarge clear other shown' large =>
      cases shown.symm.trans shown'
      omega
  | noCapacity clear none_ =>
      rw [none_] at room
      exact ⟨none_, List.length_eq_zero_iff.mp (by omega)⟩

/-- Nothing decrypts from no bytes. -/
theorem empty_refused (aead : StreamAead) (stream : StreamLE31) :
    aead.decryptNextInPlace stream [] = none := by
  cases run : aead.decryptNextInPlace stream [] with
  | none => rfl
  | some pair =>
      have length := aead.decryptNextInPlace_length stream pair.2 [] pair.1 run
      rw [List.length_nil, ciphertextOverhead] at length
      omega

theorem Dry.move (dry : Dry before.1 before.2) (sound : before.1.Sound)
    (move : Move aead before after) :
    Dry after.1 after.2 := by
  cases move with
  | receive reader inner rest bytes taken closed fits =>
      have more := reader.ciphertext.append_unread sound.ciphertext bytes
      cases dry with
      | closed clear used gone =>
          rw [gone] at taken
          obtain ⟨rfl, still⟩ := List.append_eq_nil_iff.mp taken.symm
          refine .closed clear ?_ still
          rw [more, used]
          rfl
      | tooLarge clear msg shown large =>
          refine .tooLarge clear msg ?_ large
          rw [more]
          exact peekFrame_more shown bytes
      | noCapacity clear none_ => exact .noCapacity clear none_
  | decrypt reader inner msg plain stream ciphertext shown room decrypted advanced =>
      obtain ⟨_, rfl⟩ := dry.no_room sound shown room
      rw [empty_refused] at decrypted
      cases decrypted
  | wrap reader inner ciphertext wrapped =>
      obtain ⟨_, same, _⟩ := wrap_wellFormed _ _ sound.ciphertext wrapped
      cases dry with
      | closed clear used gone => exact .closed clear (same.trans used) gone
      | tooLarge clear msg shown large =>
          refine .tooLarge clear msg ?_ large
          rw [same]
          exact shown
      | noCapacity clear none_ => exact .noCapacity clear none_
  | take reader inner count cleartext advanced =>
      obtain ⟨_, _, rest, capacity⟩ := advanceCursor_wellFormed _ _ sound.cleartext count advanced
      have clear : cleartext.unread = [] := by
        rw [rest, dry.clear, List.drop_nil]
      cases dry with
      | closed _ used gone => exact .closed clear used gone
      | tooLarge _ msg shown large => exact .tooLarge clear msg shown (capacity.symm ▸ large)
      | noCapacity _ none_ => exact .noCapacity clear (capacity.trans none_)

theorem Dry.moves (dry : Dry before.1 before.2) (sound : before.1.Sound)
    (moves : Moves aead before after) : Dry after.1 after.2 := by
  induction moves with
  | refl => exact dry
  | tail first last ih => exact ih.move (Moves.sound first sound) last

/-- Only an empty chunk can still be refused, where there is no capacity at all. -/
theorem Dry.leads (dry : Dry before.1 before.2) (sound : before.1.Sound) {refused : Bool}
    (leads : Leads aead before refused after) : Dry after.1 after.2 := by
  cases leads with
  | moved after moves => exact dry.moves sound moves
  | refused middle final inner bad moves refusal =>
      have still := dry.moves sound moves
      have middleSound := Moves.sound moves sound
      cases refusal with
      | refuse ciphertext shown room failed advanced =>
          obtain ⟨none_, rfl⟩ := still.no_room middleSound shown room
          have clear := still.clear
          refine .noCapacity clear ?_
          have fits := middle.cleartext.buf.fits
          rw [none_] at fits
          exact Nat.le_zero.mp fits

/-! ## How a poll comes to an end -/

end EncryptedReader

namespace Reading

open EncryptedReader

variable {aead : StreamAead}

end Reading

end Gday.Encryption
