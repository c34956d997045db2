import Gday.Encryption.FrameByFrame
import Gday.Encryption.Integrity

/-! # A failure behind valid chunks

`read_if_necessary` reads ahead while it holds cleartext.  If nothing more has come it hands
out what it holds; if the inner reader fails, or a chunk does not decrypt, it returns the
error first.  Whether that hides plaintext depends on what one poll meets. -/
set_option autoImplicit false
namespace Gday.Encryption

open Gday.Lib.AsyncStream Gday.Lib.BigEndian Gday.Lib.Framing Gday.Lib.Machine

namespace StreamAead

/-- The plaintext of chunks that decrypt is what their overhead leaves. -/
theorem openFrames_length (aead : StreamAead) (stream : StreamLE31) (msgs : List (List UInt8))
    (opens : aead.Opens stream msgs) :
    (aead.openFrames stream msgs).1.length =
      (msgs.map fun msg => msg.length - ciphertextOverhead).sum := by
  induction msgs generalizing stream with
  | nil => rfl
  | cons msg msgs ih =>
      obtain ⟨plain, next, decrypted, others⟩ := opens
      have overhead := aead.decryptNextInPlace_length _ _ _ _ decrypted
      simp only [openFrames, decrypted, List.length_append, List.map_cons, List.sum_cons,
        ih next others]
      omega

/-- A chunk is empty when it is no longer than the overhead. -/
theorem opens_overhead (aead : StreamAead) (stream : StreamLE31) (msgs : List (List UInt8))
    (opens : aead.Opens stream msgs) : ∀ msg ∈ msgs, ciphertextOverhead ≤ msg.length := by
  induction msgs generalizing stream with
  | nil => exact fun msg member => absurd member List.not_mem_nil
  | cons first msgs ih =>
      obtain ⟨plain, next, decrypted, others⟩ := opens
      have overhead := aead.decryptNextInPlace_length _ _ _ _ decrypted
      intro msg member
      rcases List.mem_cons.mp member with same | member
      · rw [same]
        omega
      · exact ih next others msg member

theorem openFrames_bare (aead : StreamAead) (stream : StreamLE31) (msgs : List (List UInt8))
    (opens : aead.Opens stream msgs) (bare : ∀ msg ∈ msgs, msg.length = ciphertextOverhead) :
    (aead.openFrames stream msgs).1 = [] := by
  apply List.length_eq_zero_iff.mp
  rw [aead.openFrames_length stream msgs opens, List.sum_eq_zero_iff]
  intro size member
  obtain ⟨msg, among, same⟩ := List.mem_map.mp member
  rw [← same, bare msg among, Nat.sub_self]

end StreamAead

/-! ## Streams that go wrong -/

/-- A frame that does not decrypt, with whatever is behind it, or an inner reader that
fails from then on. -/
inductive LateFailure where
  | badFrame (bad rest : List UInt8)
  | innerError
  deriving DecidableEq, Repr

def LateFailure.bytes : LateFailure → List UInt8
  | .badFrame bad rest => frame bad ++ rest
  | .innerError => []

/-- The chunks before the failure decrypt and are no longer than the buffer; the frame
behind them does not decrypt. -/
structure FailsLate (aead : StreamAead) (start : StreamLE31) (msgs : List (List UInt8))
    (failure : LateFailure) : Prop where
  opens : aead.Opens start msgs
  small : ∀ msg ∈ msgs, msg.length ≤ maxChunkSize
  refused : ∀ bad rest, failure = .badFrame bad rest → bad.length < 2 ^ 32 ∧
    aead.decryptNextInPlace (aead.openFrames start msgs).2 bad = none

/-- The error that a call returned is this failure. -/
def LateFailure.Causes : LateFailure → ErrorKind → Reading → Prop
  | .badFrame _ _, kind, _ => kind = .invalidData
  | .innerError, kind, after => kind = .inner ∧ after.inner.bytes = []

/-- Whatever is called, and however the stream arrives: the first error comes when all
plaintext has been handed out. -/
def HandsOutFirst (aead : StreamAead) (debug : Bool) (sharedKey : Key) (nonce : Nonce)
    (msgs : List (List UInt8)) (failure : LateFailure) (closed : Bool) : Prop :=
  ∀ calls state input kind after,
    RunsWithin (Reading.unfailed aead debug) Reading.Permitted
      ⟨.withNonce sharedKey nonce, ⟨frames msgs ++ failure.bytes, closed⟩, []⟩ calls state →
    state.Permitted input → state.call aead debug input = (.failed kind, after) →
    failure.Causes kind after →
      state.handed = (aead.openFrames (.new sharedKey nonce) msgs).1

/-- Nothing can be hidden: behind the last chunk that is not empty there is no room for the
bad one, or all chunks are empty. -/
def LateFailure.Harmless (msgs : List (List UInt8)) : LateFailure → Prop
  | .badFrame bad _ => ∀ front last empties, msgs = front ++ last :: empties →
      last.length ≠ ciphertextOverhead → (∀ msg ∈ empties, msg.length = ciphertextOverhead) →
        maxChunkSize < bad.length + (last.length - ciphertextOverhead)
  | .innerError => ∀ msg ∈ msgs, msg.length = ciphertextOverhead

theorem FailsLate.short {aead : StreamAead} {start : StreamLE31} {msgs : List (List UInt8)}
    {failure : LateFailure} (fails : FailsLate aead start msgs failure) :
    ∀ msg ∈ msgs, msg.length < 2 ^ 32 := by
  intro msg member
  have small := fails.small msg member
  rw [maxChunkSize] at small
  omega

theorem FailsLate.behind {aead : StreamAead} {start : StreamLE31} {msgs : List (List UInt8)}
    {failure : LateFailure} (fails : FailsLate aead start msgs failure) (msg : List UInt8)
    (shown : peekFrame failure.bytes = some msg) :
    aead.decryptNextInPlace (aead.openFrames start msgs).2 msg = none := by
  cases failure with
  | innerError => cases shown
  | badFrame bad rest =>
      obtain ⟨short, refused⟩ := fails.refused bad rest rfl
      cases (peekFrame_frame bad rest short).symm.trans shown
      exact refused

namespace EncryptedReader

/-! ## What the buffers hold -/

/-- The reader has decrypted `old ++ recent` of the chunks, and its cleartext buffer has the
plaintext of the recent ones, handed out or not. -/
structure Taking (aead : StreamAead) (start : StreamLE31) (tail : List UInt8)
    (old recent left_ : List (List UInt8)) (buffers : EncryptedReader × ByteStream) : Prop where
  sound : buffers.1.Sound
  intact : buffers.1.Intact
  stream : buffers.1.ciphertext.unread ++ buffers.2.bytes = frames left_ ++ tail
  decryptor : buffers.1.decryptor = (aead.openFrames start (old ++ recent)).2
  clear : buffers.1.cleartext.buf.bytes =
    (aead.openFrames (aead.openFrames start old).2 recent).1

def Takes (aead : StreamAead) (start : StreamLE31) (msgs : List (List UInt8))
    (tail : List UInt8) (buffers : EncryptedReader × ByteStream) : Prop :=
  ∃ old recent left_, msgs = old ++ recent ++ left_ ∧
    Taking aead start tail old recent left_ buffers

/-- The frame that shows is the next chunk, or else the first frame of the tail. -/
theorem Taking.shows {aead : StreamAead} {start : StreamLE31} {tail msg : List UInt8}
    {old recent left_ : List (List UInt8)} {buffers : EncryptedReader × ByteStream}
    (taking : Taking aead start tail old recent left_ buffers)
    (short : ∀ other ∈ left_, other.length < 2 ^ 32)
    (shown : peekFrame buffers.1.ciphertext.unread = some msg) :
    (∃ others, left_ = msg :: others) ∨ left_ = [] ∧ peekFrame tail = some msg := by
  have stream := taking.stream
  cases left_ with
  | nil =>
      obtain ⟨msgShort, more, split⟩ := (peekFrame_eq_some _ msg).mp shown
      refine .inr ⟨rfl, (peekFrame_eq_some tail msg).mpr ⟨msgShort, more ++ buffers.2.bytes, ?_⟩⟩
      rw [split, List.append_assoc, frames_nil, List.nil_append] at stream
      exact stream.symm
  | cons first others =>
      rw [frames_cons, List.append_assoc] at stream
      obtain ⟨same, _⟩ := peekFrame_of_split _ _ first msg _ (short first List.mem_cons_self)
        stream shown
      exact .inl ⟨others, by rw [same]⟩

/-- One move of the reader takes what is next, or nothing. -/
theorem Move.takes {aead : StreamAead} {start : StreamLE31} {msgs : List (List UInt8)}
    {tail : List UInt8} {before after : EncryptedReader × ByteStream}
    (move : Move aead before after)
    (short : ∀ msg ∈ msgs, msg.length < 2 ^ 32)
    (behind : ∀ msg, peekFrame tail = some msg →
      aead.decryptNextInPlace (aead.openFrames start msgs).2 msg = none)
    (takes : Takes aead start msgs tail before) : Takes aead start msgs tail after := by
  obtain ⟨old, recent, left_, all, taking⟩ := takes
  have sound := move.sound taking.sound
  cases move with
  | receive reader inner rest bytes taken closed fits =>
      refine ⟨old, recent, left_, all, sound, taking.intact, ?_, taking.decryptor, taking.clear⟩
      rw [← taking.stream, reader.ciphertext.append_unread taking.sound.ciphertext, taken,
        List.append_assoc]
  | decrypt reader inner msg plain stream ciphertext shown room decrypted advanced =>
      have leftShort : ∀ other ∈ left_, other.length < 2 ^ 32 := fun other member =>
        short other (by rw [all]; exact List.mem_append_right _ member)
      have decryptor := taking.decryptor
      rcases taking.shows leftShort shown with ⟨others, next⟩ | ⟨none, first⟩
      · subst next
        have overhead := aead.decryptNextInPlace_length _ _ _ _ decrypted
        obtain ⟨_, _, unread, _⟩ :=
          advanceCursor_wellFormed _ ciphertext taking.sound.ciphertext _ advanced
        refine ⟨old, recent ++ [msg], others, by rw [all]; simp, sound, ?_, ?_, ?_, ?_⟩
        · exact (reader.cleartext.append_capacity plain (by omega)).trans taking.intact
        · obtain ⟨msgShort, more, split⟩ := (peekFrame_eq_some _ msg).mp shown
          have stream := taking.stream
          have gone : ciphertext.unread = more := by
            rw [unread, split]
            exact List.drop_left' (frame_length msg)
          rw [split, frames_cons, List.append_assoc, List.append_assoc] at stream
          rw [← List.append_cancel_left stream]
          exact congrArg (· ++ inner.bytes) gone
        · rw [← List.append_assoc, aead.openFrames_append, ← decryptor]
          simp only [StreamAead.openFrames, decrypted]
          rfl
        · rw [aead.openFrames_append, ← aead.openFrames_append_snd, ← decryptor]
          simp only [StreamAead.openFrames, decrypted, List.append_nil]
          exact congrArg (· ++ plain) taking.clear
      · subst none
        rw [List.append_nil] at all
        rw [all, ← decryptor] at behind
        cases (behind msg first).symm.trans decrypted
  | wrap reader inner ciphertext wrapped =>
      obtain ⟨_, unread, _⟩ := wrap_wellFormed _ ciphertext taking.sound.ciphertext wrapped
      refine ⟨old, recent, left_, all, sound, taking.intact, ?_, taking.decryptor, taking.clear⟩
      rw [← taking.stream]
      exact congrArg (· ++ inner.bytes) unread
  | take reader inner count cleartext advanced =>
      obtain ⟨_, same⟩ := advanceCursor_bounds _ cleartext count advanced
      have intact := same.trans taking.intact
      -- the last byte taken resets the buffer, which starts anew with the next chunk
      rcases advanceCursor_buf _ cleartext count advanced with kept | reset
      · exact ⟨old, recent, left_, all, sound, intact, taking.stream, taking.decryptor,
          (congrArg _ kept).trans taking.clear⟩
      · refine ⟨old ++ recent, [], left_, by rw [all, List.append_nil], sound, intact,
          taking.stream, ?_, congrArg _ reset⟩
        rw [List.append_nil]
        exact taking.decryptor

theorem Moves.takes {aead : StreamAead} {start : StreamLE31} {msgs : List (List UInt8)}
    {tail : List UInt8} {before after : EncryptedReader × ByteStream}
    (moves : Moves aead before after)
    (short : ∀ msg ∈ msgs, msg.length < 2 ^ 32)
    (behind : ∀ msg, peekFrame tail = some msg →
      aead.decryptNextInPlace (aead.openFrames start msgs).2 msg = none)
    (takes : Takes aead start msgs tail before) : Takes aead start msgs tail after := by
  induction moves with
  | refl => exact takes
  | tail moves move ih => exact move.takes short behind ih

/-- Only the bad frame is refused, when every chunk has been taken. -/
theorem Takes.refuses {aead : StreamAead} {start : StreamLE31} {msgs : List (List UInt8)}
    {bad rest other : List UInt8} {middle : EncryptedReader} {after : EncryptedReader × ByteStream}
    (takes : Takes aead start msgs (frame bad ++ rest) (middle, after.2))
    (fails : FailsLate aead start msgs (.badFrame bad rest))
    (refusal : Refusal aead other middle after.1) :
    ∃ old recent, msgs = old ++ recent ∧
      Taking aead start (frame bad ++ rest) old recent [] (middle, after.2) ∧
      bad.length ≤ middle.cleartext.spareCapacityLen ∧
      after.1.cleartext.unread = middle.cleartext.unread ∧
      after.1.ciphertext.unread ++ after.2.bytes = frames [] ++ rest := by
  obtain ⟨old, recent, left_, all, taking⟩ := takes
  obtain ⟨final, inner⟩ := after
  cases refusal with
  | refuse ciphertext shown room wrong advanced =>
      have leftShort : ∀ msg ∈ left_, msg.length < 2 ^ 32 := fun msg member =>
        fails.short msg (by rw [all]; exact List.mem_append_right _ member)
      rcases taking.shows leftShort shown with ⟨others, next⟩ | ⟨none, first⟩
      · have opens := fails.opens
        rw [all, next] at opens
        obtain ⟨plain, stream, decrypted, _⟩ := ((aead.opens_append _ _ _).mp opens).2
        rw [← taking.decryptor] at decrypted
        cases wrong.symm.trans decrypted
      · obtain ⟨badShort, _⟩ := fails.refused bad rest rfl
        cases (peekFrame_frame bad rest badShort).symm.trans first
        subst none
        obtain ⟨_, _, unread, _⟩ :=
          advanceCursor_wellFormed _ ciphertext taking.sound.ciphertext _ advanced
        obtain ⟨_, more, split⟩ := (peekFrame_eq_some _ bad).mp shown
        have stream := taking.stream
        have gone : ciphertext.unread = more := by
          rw [unread, split]
          exact List.drop_left' (frame_length bad)
        rw [split, List.append_assoc, frames_nil, List.nil_append] at stream
        refine ⟨old, recent, by rw [all, List.append_nil], taking, room, rfl, ?_⟩
        rw [frames_nil, List.nil_append, ← List.append_cancel_left stream]
        exact congrArg (· ++ inner.bytes) gone

/-- What was handed out, when `done` is what was taken off the stream. -/
theorem handed_of_left {aead : StreamAead} {sharedKey : Key} {nonce : Nonce} {closed : Bool}
    {done left_ taken : List (List UInt8)} {tail handed : List UInt8} {reader : EncryptedReader}
    {inner : ByteStream}
    (advances : Advances aead (withNonce sharedKey nonce) ⟨frames (done ++ left_) ++ tail, closed⟩
      taken handed reader inner)
    (short : ∀ msg ∈ done, msg.length < 2 ^ 32)
    (behind : reader.ciphertext.unread ++ inner.bytes = frames left_ ++ tail) :
    handed ++ reader.cleartext.unread = (aead.openFrames (.new sharedKey nonce) done).1 := by
  have stream : frames (done ++ left_) ++ tail =
      frames taken ++ (reader.ciphertext.unread ++ inner.bytes) := advances.stream
  rw [behind, frames_append, List.append_assoc] at stream
  have same := frames_cancel done taken _ short advances.short stream
  subst same
  exact advances.plain

/-! ## The first error -/

theorem call_failed_handed (aead : StreamAead) (debug : Bool) (state after : Reading)
    (input : ReaderCall) (kind : ErrorKind)
    (failed : state.call aead debug input = (.failed kind, after)) :
    after.handed = state.handed := by
  cases input with
  | pollRead remaining events =>
      simp only [Reading.call, Prod.mk.injEq] at failed
      obtain ⟨outcome, same⟩ := failed
      rw [← same, outcome]
      exact List.append_nil _
  | pollFillBuf events =>
      simp only [Reading.call, Prod.mk.injEq] at failed
      rw [← failed.2]
  | consume amt =>
      simp only [Reading.call] at failed
      split at failed
      · cases failed
      · cases failed

theorem unfailed_moves {aead : StreamAead} {debug : Bool} {allowed : Reading → ReaderCall → Prop}
    {calls : List ReaderCall} {state final : Reading} (sound : state.reader.Sound)
    (run : RunsWithin (Reading.unfailed aead debug) allowed state calls final) :
    Moves aead state.buffers final.buffers := by
  induction run with
  | nil state => exact .refl
  | cons state next final input rest permitted stepRun later ih =>
      obtain ⟨step, calm⟩ := state.unfailed_step next input stepRun
      obtain ⟨_, _, same⟩ := (Reading.step_eq_some aead debug state next input).mp step
      have leads := state.call_leads aead debug input sound
      rw [calm, same] at leads
      exact leads.moves.trans (ih (leads.moves.sound sound))

theorem start_takes (aead : StreamAead) (sharedKey : Key) (nonce : Nonce)
    (msgs : List (List UInt8)) (tail : List UInt8) (closed : Bool) :
    Takes aead (.new sharedKey nonce) msgs tail
      (withNonce sharedKey nonce, ⟨frames msgs ++ tail, closed⟩) :=
  ⟨[], [], msgs, rfl, withNonce_sound sharedKey nonce, rfl, rfl, rfl, rfl⟩

theorem exists_last {α : Type} (holds : α → Prop) (list : List α)
    (some_ : ∃ item ∈ list, holds item) :
    ∃ front last behind, list = front ++ last :: behind ∧ holds last ∧
      ∀ item ∈ behind, ¬ holds item := by
  induction list with
  | nil =>
      obtain ⟨item, member, _⟩ := some_
      exact absurd member List.not_mem_nil
  | cons first list ih =>
      by_cases later : ∃ item ∈ list, holds item
      · obtain ⟨front, last, behind, split, facts⟩ := ih later
        exact ⟨first :: front, last, behind, by rw [split]; rfl, facts⟩
      · push Not at later
        obtain ⟨item, member, here⟩ := some_
        rcases List.mem_cons.mp member with same | member
        · subst same
          exact ⟨[], item, list, rfl, here, later⟩
        · exact absurd here (later item member)

/-- With no room for the bad frame behind the last plaintext, it fails when all of it has
been taken. -/
theorem Taking.unread_nil {aead : StreamAead} {start : StreamLE31} {old recent : List (List UInt8)}
    {tail bad rest : List UInt8} {buffers : EncryptedReader × ByteStream}
    (taking : Taking aead start tail old recent [] buffers)
    (opens : aead.Opens start (old ++ recent))
    (harmless : (LateFailure.badFrame bad rest).Harmless (old ++ recent))
    (room : bad.length ≤ buffers.1.cleartext.spareCapacityLen) :
    buffers.1.cleartext.unread = [] := by
  by_contra held
  have recentOpens := ((aead.opens_append _ _ _).mp opens).2
  have length := aead.openFrames_length _ recent recentOpens
  rw [← taking.clear] at length
  have some_ : ∃ msg ∈ recent, msg.length ≠ ciphertextOverhead := by
    by_contra bare
    push Not at bare
    exact held (taking.sound.cleartext.unread_eq_nil.mpr
      (taking.clear.trans (aead.openFrames_bare _ recent recentOpens bare)))
  obtain ⟨front, last, empties, split, some_, bare⟩ := exists_last _ recent some_
  push Not at bare
  have tight := harmless (old ++ front) last empties (by rw [split]; simp) some_ bare
  have part : last.length - ciphertextOverhead ≤
      (recent.map fun msg => msg.length - ciphertextOverhead).sum := by
    rw [split, List.map_append, List.map_cons, List.sum_append, List.sum_cons]
    omega
  have spare := buffers.1.cleartext.spare_add_len
  rw [show buffers.1.cleartext.buf.capacity = maxChunkSize from taking.intact, BytesMut.len,
    length] at spare
  omega

theorem handsOutFirst_of_harmless (aead : StreamAead) (debug : Bool) (sharedKey : Key)
    (nonce : Nonce) (msgs : List (List UInt8)) (failure : LateFailure) (closed : Bool)
    (fails : FailsLate aead (.new sharedKey nonce) msgs failure)
    (harmless : failure.Harmless msgs) :
    HandsOutFirst aead debug sharedKey nonce msgs failure closed := by
  intro calls state input kind after run permitted failed causes
  have startSound := withNonce_sound sharedKey nonce
  have moves := unfailed_moves startSound run
  have takes := moves.takes fails.short fails.behind
    (start_takes aead sharedKey nonce msgs failure.bytes closed)
  obtain ⟨taken, handed, advances, handedIs⟩ :=
    Reading.run_advances aead debug calls _ state startSound (Reading.unfailed_run run)
  rw [List.nil_append] at handedIs
  subst handedIs
  have sound := advances.sound
  cases failure with
  | innerError =>
      obtain ⟨old, recent, left_, all, taking⟩ := takes
      have opens := fails.opens
      have within : ∀ msg ∈ old ++ recent, msg ∈ msgs := fun msg member => by
        rw [all]
        exact List.mem_append_left _ member
      rw [aead.openFrames_bare _ msgs opens harmless]
      rw [all] at advances opens
      have handed := handed_of_left advances
        (fun msg member => fails.short msg (within msg member)) taking.stream
      rw [aead.openFrames_bare _ _ ((aead.opens_append _ _ _).mp opens).1
        fun msg member => harmless msg (within msg member)] at handed
      exact (List.append_eq_nil_iff.mp handed).1
  | badFrame bad rest =>
      cases causes
      obtain ⟨badShort, refused⟩ := fails.refused bad rest rfl
      have leads := state.call_leads aead debug input sound
      rw [failed] at leads
      obtain ⟨more, given, further, givenIs⟩ := state.call_advances aead debug input sound
      rw [failed] at further givenIs
      rw [call_failed_handed aead debug state after input _ failed] at givenIs
      have none := List.append_right_eq_self.mp givenIs.symm
      subst none
      have whole := advances.trans further
      rw [List.append_nil] at whole
      obtain ⟨middle, other, later, refusal⟩ := leads.refusal
      obtain ⟨old, recent, all, taking, room, clear, behind⟩ :=
        (later.takes fails.short fails.behind takes).refuses fails refusal
      have unread := taking.unread_nil (by rw [← all]; exact fails.opens)
        (by rw [← all]; exact harmless) room
      rw [show frames msgs ++ (LateFailure.badFrame bad rest).bytes =
          frames (msgs ++ [bad] ++ []) ++ rest by simp [LateFailure.bytes]] at whole
      have short : ∀ msg ∈ msgs ++ [bad], msg.length < 2 ^ 32 := by
        intro msg member
        rcases List.mem_append.mp member with member | member
        · exact fails.short msg member
        · rw [List.mem_singleton.mp member]
          exact badShort
      have nothingHeld : after.reader.cleartext.unread = [] := clear.trans unread
      have handed : state.handed ++ after.reader.cleartext.unread = _ :=
        handed_of_left whole short behind
      rw [nothingHeld, List.append_nil, aead.openFrames_append] at handed
      simp only [StreamAead.openFrames, refused, List.append_nil] at handed
      exact handed

/-! ## Polls that hide plaintext -/

/-- A poll that decrypts the last plaintext and all that is empty behind it goes on with the
last plaintext in its buffer. -/
theorem Fresh.holdsLast {aead : StreamAead} {reader : EncryptedReader} (fresh : reader.Fresh)
    (debug : Bool) (last : List UInt8) (empties : List (List UInt8)) (tail : List UInt8)
    (closed : Bool) (small : last.length ≤ maxChunkSize)
    (bare : ∀ msg ∈ empties, msg.length = ciphertextOverhead)
    (opens : aead.Opens reader.decryptor (last :: empties)) :
    ∃ events next, (∀ more, readIfNecessary aead debug none (events ++ more) reader
        ⟨frames (last :: empties) ++ tail, closed⟩ =
          readLoop aead debug maxChunkSize more next ⟨tail, closed⟩) ∧
      next.Holding ∧ next.decryptor = (aead.openFrames reader.decryptor (last :: empties)).2 ∧
        next.cleartext.buf.len = last.length - ciphertextOverhead := by
  obtain ⟨plain, stream, decrypted, others⟩ := opens
  have overhead := aead.decryptNextInPlace_length _ _ _ _ decrypted
  have holding := fresh.holding
  have room : last.length ≤ reader.cleartext.spareCapacityLen := by
    rw [fresh.sound.cleartext.spare_of_unread_nil fresh.clear]
    exact small.trans fresh.intact.ge
  obtain ⟨middle, first, middleHolding, decryptor, cleartext⟩ := holding.takes debug last
    (frames empties ++ tail) plain stream closed room decrypted
  rw [← decryptor] at others
  obtain ⟨next, later, nextHolding, finalDecryptor, bytes⟩ :=
    middleHolding.takes_empty debug empties tail closed bare others
  refine ⟨.ready (last.length + 3) :: empties.map (fun msg => .ready (msg.length + 3)), next, ?_,
    nextHolding, ?_, ?_⟩
  · intro more
    rw [holding.readIfNecessary, frames_cons, List.append_assoc, List.cons_append, first]
    exact later more
  · simp only [StreamAead.openFrames, decrypted]
    rw [finalDecryptor, decryptor]
  · rw [BytesMut.len, bytes, cleartext]
    have grown := reader.cleartext.append_len plain
    rw [BytesMut.len, BytesMut.len, fresh.sound.cleartext.unread_eq_nil.mp fresh.clear,
      List.length_nil] at grown
    omega

/-- The plaintext before the last chunk that is not empty is not all there is. -/
theorem not_handed_all {aead : StreamAead} {start : StreamLE31} {front empties : List (List UInt8)}
    {last : List UInt8} (opens : aead.Opens start (front ++ last :: empties))
    (some_ : last.length ≠ ciphertextOverhead) :
    (aead.openFrames start front).1 ≠ (aead.openFrames start (front ++ last :: empties)).1 := by
  intro same
  have lengths := congrArg List.length same
  have overhead := aead.opens_overhead start _ opens last (by simp)
  rw [aead.openFrames_length start _ opens,
    aead.openFrames_length start front ((aead.opens_append _ _ _).mp opens).1, List.map_append,
    List.sum_append, List.map_cons, List.sum_cons] at lengths
  omega

/-- Where the failure comes with the last plaintext still held, it comes first. -/
theorem not_handsOutFirst (aead : StreamAead) (debug : Bool) (sharedKey : Key) (nonce : Nonce)
    (front empties : List (List UInt8)) (last : List UInt8) (failure : LateFailure)
    (closed : Bool) (kind : ErrorKind)
    (fails : FailsLate aead (.new sharedKey nonce) (front ++ last :: empties) failure)
    (some_ : last.length ≠ ciphertextOverhead)
    (bare : ∀ msg ∈ empties, msg.length = ciphertextOverhead)
    (ends : ∀ reader : EncryptedReader, reader.Holding →
      reader.cleartext.buf.len = last.length - ciphertextOverhead →
      reader.decryptor =
        (aead.openFrames (.new sharedKey nonce) (front ++ last :: empties)).2 →
      ∃ more final rest, readLoop aead debug maxChunkSize more reader
          ⟨failure.bytes, closed⟩ = (.failed kind, final, rest) ∧
        ∀ handed, failure.Causes kind ⟨final, rest, handed⟩) :
    ¬ HandsOutFirst aead debug sharedKey nonce (front ++ last :: empties) failure closed := by
  intro handsOut
  have opens := (aead.opens_append _ _ _).mp fails.opens
  obtain ⟨calls, state, run, fresh, inner, decryptor⟩ := Reading.takes_frames debug front
    (frames (last :: empties) ++ failure.bytes)
    ⟨withNonce sharedKey nonce, ⟨frames (front ++ last :: empties) ++ failure.bytes, closed⟩, []⟩
    (withNonce_fresh sharedKey nonce) (by rw [frames_append, List.append_assoc])
    (fun msg member => fails.small msg (List.mem_append_left _ member)) opens.1
  obtain ⟨events, next, polls, holding, nextDecryptor, held⟩ := fresh.holdsLast debug last empties
    failure.bytes closed (fails.small last (by simp)) bare (by rw [decryptor]; exact opens.2)
  rw [decryptor] at nextDecryptor
  obtain ⟨more, final, rest, failed, causes⟩ := ends next holding held
    (by rw [aead.openFrames_append_snd, nextDecryptor]; rfl)
  have polled : state.call aead debug (.pollFillBuf (events ++ more)) =
      (.failed kind, ⟨final, rest, state.handed⟩) := by
    simp only [Reading.call, pollFillBuf_eq aead debug _ _ _ fresh.sound, inner, polls, failed]
    rfl
  have permitted : state.Permitted (.pollFillBuf (events ++ more)) := trivial
  have all := handsOut calls state _ kind _ run permitted polled (causes _)
  obtain ⟨taken, handed, advances, handedIs⟩ := Reading.run_advances aead debug calls _ state
    (withNonce_sound sharedKey nonce) (Reading.unfailed_run run)
  rw [List.nil_append] at handedIs
  subst handedIs
  have given := handed_of_left advances
    (fun msg member => fails.short msg (List.mem_append_left _ member))
    (by rw [fresh.sealed, inner]; rfl)
  rw [fresh.clear, List.append_nil] at given
  exact not_handed_all fails.opens some_ (given.symm.trans all)

/-- The first error waits for the plaintext exactly where there is none that it could hide. -/
theorem handsOutFirst_iff (aead : StreamAead) (debug : Bool) (sharedKey : Key) (nonce : Nonce)
    (msgs : List (List UInt8)) (failure : LateFailure) (closed : Bool)
    (fails : FailsLate aead (.new sharedKey nonce) msgs failure) :
    HandsOutFirst aead debug sharedKey nonce msgs failure closed ↔ failure.Harmless msgs := by
  constructor
  · intro handsOut
    cases failure with
    | badFrame bad rest =>
        intro front last empties split some_ bare
        by_contra room
        subst split
        obtain ⟨_, refused⟩ := fails.refused bad rest rfl
        apply not_handsOutFirst aead debug sharedKey nonce front empties last _ closed .invalidData
          fails some_ bare ?_ handsOut
        intro reader holding held decryptor
        have spare := reader.cleartext.spare_add_len
        rw [show reader.cleartext.buf.capacity = maxChunkSize from holding.intact] at spare
        rw [← decryptor] at refused
        obtain ⟨ciphertext, _, _, _, failed⟩ := holding.refuses debug bad rest closed (by omega)
          refused []
        exact ⟨_, _, _, failed, fun handed => rfl⟩
    | innerError =>
        by_contra some_
        rw [LateFailure.Harmless] at some_
        push Not at some_
        obtain ⟨front, last, empties, split, nonempty, bare⟩ := exists_last _ msgs some_
        push Not at bare
        subst split
        apply not_handsOutFirst aead debug sharedKey nonce front empties last _ closed .inner
          fails nonempty bare ?_ handsOut
        intro reader holding held decryptor
        exact ⟨[.error], reader, ⟨[], closed⟩, readLoop_stops [] holding.wantsMore rfl,
          fun handed => ⟨rfl, rfl⟩⟩
  · exact handsOutFirst_of_harmless aead debug sharedKey nonce msgs failure closed fails

/-- A cipher that opens one message only, with one byte in it. -/
def oneByteAead : StreamAead :=
  ledgerAead (oneWriter [] [([97], [97] ++ List.replicate ciphertextOverhead 0)])

/-- One byte, and behind it a frame that is too large to be tried while that byte is held. -/
theorem handsOutFirst_oneByte : HandsOutFirst oneByteAead true [] []
    [[97] ++ List.replicate ciphertextOverhead 0]
    (.badFrame (List.replicate maxChunkSize 97) []) false := by
  have fails : FailsLate oneByteAead (.new [] []) [[97] ++ List.replicate ciphertextOverhead 0]
      (.badFrame (List.replicate maxChunkSize 97) []) := by
    refine ⟨⟨[97], _, rfl, trivial⟩, by simp [maxChunkSize, ciphertextOverhead],
      fun bad rest same => ?_⟩
    cases same
    exact ⟨by rw [List.length_replicate]; decide, rfl⟩
  apply (handsOutFirst_iff oneByteAead true [] [] _ _ false fails).mpr
  intro front last empties split some_ bare
  cases front with
  | nil =>
      cases split
      rw [List.length_replicate]
      decide
  | cons first others =>
      have lengths := congrArg List.length split
      simp at lengths

/-- A chunk with one byte and a frame that does not decrypt, in one read. -/
theorem error_comes_first :
    FailsLate paddingAead (.new [] []) [List.replicate 17 97] (.badFrame [97] []) ∧
      ¬ HandsOutFirst paddingAead true [] [] [List.replicate 17 97] (.badFrame [97] []) false := by
  refine ⟨⟨⟨[97], _, rfl, trivial⟩, by simp [maxChunkSize], fun bad rest same => ?_⟩, ?_⟩
  · cases same
    exact ⟨by decide, rfl⟩
  · intro handsOut
    have handed := handsOut [] _ (.pollFillBuf [.ready 25]) .invalidData _ (.nil _)
      trivial rfl rfl
    exact absurd handed (by decide)

end EncryptedReader
end Gday.Encryption
