import Gday.Encryption.Reading

/-! # The frames ahead

The reader decrypts the frames ahead of it one after another, until one is unfinished, is
refused, or has no room in the cleartext buffer.  Which one that is depends on the bytes alone.
How they arrive decides only whether the ciphertext buffer takes them all: a `Window` counts the
bytes in it. -/
set_option autoImplicit false
namespace Gday.Encryption

open Gday.Lib.AsyncStream Gday.Lib.Framing

/-- Why no further frame is decrypted. -/
inductive Halt where
  | unfinished
  | noRoom (msg : List UInt8)
  | refused
  deriving DecidableEq

/-- The frames that are decrypted where there is room for so many bytes. -/
def StreamAead.openable (aead : StreamAead) :
    Nat → StreamLE31 → List (List UInt8) → List (List UInt8) × Halt
  | _, _, [] => ([], .unfinished)
  | room, stream, msg :: msgs =>
      if room < msg.length then ([], .noRoom msg)
      else
        match aead.decryptNextInPlace stream msg with
        | none => ([], .refused)
        | some (plain, next) =>
            let later := aead.openable (room - plain.length) next msgs
            (msg :: later.1, later.2)

/-- How many bytes at the front of the ciphertext buffer are used up, and how many behind them
are not. -/
structure Window where
  used : Nat
  held : Nat
  deriving DecidableEq, Repr

namespace Window

def spare (window : Window) : Nat := 2 * maxChunkSize - (window.used + window.held)

def receive (window : Window) (count : Nat) : Window :=
  { window with held := window.held + count }

/-- So many bytes are used up; an empty buffer is reset. -/
def advance (window : Window) (size : Nat) : Window :=
  if size = window.held then ⟨0, 0⟩ else ⟨window.used + size, window.held - size⟩

/-- Uses up the frames that have arrived whole. -/
def takeOut : List (List UInt8) → Window → List (List UInt8) × Window
  | [], window => ([], window)
  | msg :: msgs, window =>
      if (frame msg).length ≤ window.held then
        takeOut msgs (window.advance (frame msg).length)
      else (msg :: msgs, window)

/-- The next frame has arrived, and the cleartext has no room for it. -/
def blocked (window : Window) : List (List UInt8) → Halt → Bool
  | [], .noRoom msg => (frame msg).length ≤ window.held
  | _, _ => false

/-- Where the buffer is full, what it holds goes to the front if that is not too much. -/
def makeRoom (window : Window) (blocked : Bool) : Option Window :=
  if window.spare ≠ 0 then some window
  else if blocked = false ∧ window.held ≤ window.used then some ⟨0, window.held⟩
  else none

def settle (window : Window) (msgs : List (List UInt8)) (halt : Halt) :
    Option (List (List UInt8) × Window) :=
  let (left, next) := window.takeOut msgs
  (next.makeRoom (next.blocked left halt)).map (left, ·)

/-- The buffer takes in so many bytes more, in these pieces. -/
def takesIn (halt : Halt) : Nat → (Nat → Nat) → Nat → List (List UInt8) → Window → Bool
  | 0, _, more, _, _ => more = 0
  | rounds + 1, pieces, more, msgs, window =>
      let count := min more (min (pieces 0 + 1) window.spare)
      if more = 0 then true
      else
        match (window.receive count).settle msgs halt with
        | none => false
        | some (left, next) => takesIn halt rounds (fun k => pieces (k + 1)) (more - count) left next

/-- The same from a buffer that may hold frames to be decrypted. -/
def takesAll (window : Window) (halt : Halt) (pieces : Nat → Nat) (more : Nat)
    (msgs : List (List UInt8)) : Bool :=
  match window.settle msgs halt with
  | none => false
  | some (left, next) => takesIn halt more pieces more left next

end Window

def HelperBuf.window (helper : HelperBuf) : Window := ⟨helper.cursor, helper.unread.length⟩

/-! ## The buffer and its window -/

namespace HelperBuf

theorem window_spare (helper : HelperBuf) (wf : helper.WellFormed)
    (capacity : helper.buf.capacity = 2 * maxChunkSize) :
    helper.window.spare = helper.spareCapacityLen := by
  have bound := wf.cursor_le
  rw [Window.spare, window, helper.unread_length, spareCapacityLen, capacity]
  simp only
  omega

theorem append_window (helper : HelperBuf) (wf : helper.WellFormed) (bytes : List UInt8) :
    (helper.append bytes).window = helper.window.receive bytes.length := by
  rw [window, window, Window.receive, helper.append_unread wf, List.length_append]
  rfl

theorem advanceCursor_window (helper next : HelperBuf) (wf : helper.WellFormed) (size : Nat)
    (within : size ≤ helper.unread.length) (advanced : helper.advanceCursor size = .ok next) :
    next.window = helper.window.advance size := by
  have bound := wf.cursor_le
  have length := helper.unread_length
  rw [length] at within
  rw [advanceCursor, if_pos (by omega)] at advanced
  by_cases all : helper.cursor + size = helper.buf.len
  · rw [if_pos all, Except.ok.injEq] at advanced
    subst advanced
    have whole : size = helper.window.held := by
      rw [window, length]
      simp only
      omega
    rw [Window.advance, if_pos whole]
    rfl
  · rw [if_neg all, Except.ok.injEq] at advanced
    subst advanced
    have part : size ≠ helper.window.held := by
      rw [window, length]
      simp only
      omega
    rw [Window.advance, if_neg part]
    simp only [window, unread_length]
    congr 1
    omega

theorem wrap_window (helper next : HelperBuf) (wrapped : helper.wrap = .ok next)
    (unread : next.unread = helper.unread) : next.window = ⟨0, helper.window.held⟩ := by
  have front : next.cursor = 0 := by
    unfold wrap at wrapped
    split at wrapped
    · simp only at wrapped
      split at wrapped
      · rw [Except.ok.injEq] at wrapped
        rw [← wrapped]
      · cases wrapped
    · cases wrapped
  rw [window, window, front, unread]

end HelperBuf

/-! ## What can be decrypted -/

theorem StreamAead.openable_prefix (aead : StreamAead) (room : Nat) (stream : StreamLE31)
    (msgs : List (List UInt8)) : (aead.openable room stream msgs).1 <+: msgs := by
  induction msgs generalizing room stream with
  | nil => exact List.nil_prefix
  | cons msg msgs ih =>
      rw [StreamAead.openable]
      split
      · exact List.nil_prefix
      · split
        · exact List.nil_prefix
        · exact (List.prefix_cons_inj msg).mpr (ih _ _)

/-! ## Decrypting all that has arrived -/

namespace EncryptedReader

/-- The frames that can be decrypted of what has arrived and what is still to come. -/
def framesAhead (aead : StreamAead) (reader : EncryptedReader) (more : List UInt8) :
    List (List UInt8) × Halt :=
  aead.openable reader.cleartext.spareCapacityLen reader.decryptor
    (cutFrames (reader.ciphertext.unread ++ more))

/-- The plaintext there is, with that of the frames ahead. -/
def clearAhead (aead : StreamAead) (reader : EncryptedReader) (more : List UInt8) : List UInt8 :=
  reader.cleartext.unread ++
    (aead.openFrames reader.decryptor (framesAhead aead reader more).1).1

/-- Of the frames ahead `msgs` can be decrypted, and nothing behind them: `clear` is all the
plaintext there will be, and `behind` what stays encrypted. -/
structure Ahead (aead : StreamAead) (reader : EncryptedReader) (more : List UInt8)
    (msgs : List (List UInt8)) (halt : Halt) (clear behind : List UInt8) : Prop where
  sound : reader.Sound
  opens : framesAhead aead reader more = (msgs, halt)
  clear : reader.cleartext.unread ++ (aead.openFrames reader.decryptor msgs).1 = clear
  behind : reader.ciphertext.unread ++ more = frames msgs ++ behind

variable {aead : StreamAead} {reader : EncryptedReader} {more clear behind : List UInt8}
  {msgs : List (List UInt8)} {halt : Halt}

theorem framesAhead_ahead (aead : StreamAead) (reader : EncryptedReader) (sound : reader.Sound)
    (more : List UInt8) :
    ∃ behind, Ahead aead reader more (framesAhead aead reader more).1
      (framesAhead aead reader more).2 (clearAhead aead reader more) behind := by
  obtain ⟨others, front⟩ := aead.openable_prefix reader.cleartext.spareCapacityLen
    reader.decryptor (cutFrames (reader.ciphertext.unread ++ more))
  obtain ⟨_, rest, split⟩ := cutFramesFrom_sound
    (reader.ciphertext.unread ++ more).length (reader.ciphertext.unread ++ more)
  rw [← cutFrames, ← front, frames_append, List.append_assoc] at split
  exact ⟨_, sound, rfl, rfl, split⟩

theorem Ahead.short (ahead : Ahead aead reader more msgs halt clear behind) :
    ∀ msg ∈ msgs, msg.length < 2 ^ 32 := by
  intro msg member
  have among := aead.openable_prefix reader.cleartext.spareCapacityLen reader.decryptor
    (cutFrames (reader.ciphertext.unread ++ more))
  rw [← framesAhead, ahead.opens] at among
  exact cutFrames_short _ msg (among.subset member)

/-- The frame that has no room is the next one. -/
theorem Ahead.noRoom {msg : List UInt8}
    (ahead : Ahead aead reader more [] (.noRoom msg) clear behind) :
    msg.length < 2 ^ 32 ∧ reader.cleartext.spareCapacityLen < msg.length ∧
      ∃ rest, reader.ciphertext.unread ++ more = frame msg ++ rest := by
  have opens := ahead.opens
  rw [framesAhead] at opens
  cases cut : cutFrames (reader.ciphertext.unread ++ more) with
  | nil =>
      rw [cut] at opens
      cases opens
  | cons first others =>
      rw [cut, StreamAead.openable] at opens
      by_cases tight : reader.cleartext.spareCapacityLen < first.length
      · rw [if_pos tight] at opens
        cases opens
        exact ⟨cutFrames_short _ _ (cut ▸ List.mem_cons_self), tight, cutFrames_head cut⟩
      · rw [if_neg tight] at opens
        cases decrypted : aead.decryptNextInPlace reader.decryptor first with
        | none =>
            rw [decrypted] at opens
            cases opens
        | some pair =>
            rw [decrypted] at opens
            cases opens

/-- No frame has arrived whole. -/
theorem Ahead.hidden (ahead : Ahead aead reader more msgs halt clear behind)
    (hidden : peekFrame reader.ciphertext.unread = none) :
    reader.ciphertext.window.takeOut msgs = (msgs, reader.ciphertext.window) ∧
      reader.ciphertext.window.blocked msgs halt = false := by
  cases msgs with
  | nil =>
      refine ⟨rfl, ?_⟩
      cases halt with
      | unfinished => rfl
      | refused => rfl
      | noRoom msg =>
          obtain ⟨short, _, rest, split⟩ := ahead.noRoom
          have part := length_lt_of_peekFrame_none _ _ msg rest short split hidden
          rw [Window.blocked, decide_eq_false_iff_not, frame_length]
          exact Nat.not_le.mpr part
  | cons msg others =>
      have split := ahead.behind
      rw [frames_cons, List.append_assoc] at split
      have part := length_lt_of_peekFrame_none _ _ msg _ (ahead.short msg List.mem_cons_self)
        split hidden
      refine ⟨?_, rfl⟩
      rw [Window.takeOut, if_neg (by rw [frame_length]; exact Nat.not_le.mpr part)]

/-- What is done with the frame that shows. -/
inductive ShownCase (aead : StreamAead) (reader : EncryptedReader) (more msg : List UInt8)
    (halt : Halt) (clear behind : List UInt8) : List (List UInt8) → Prop where
  | noRoom (stops : halt = .noRoom msg)
      (run : decryptChunk aead reader msg = .ok (reader, some .noRoom)) :
      ShownCase aead reader more msg halt clear behind []
  | refused (stops : halt = .refused) (next : EncryptedReader)
      (run : decryptChunk aead reader msg = .ok (next, some .invalid)) :
      ShownCase aead reader more msg halt clear behind []
  | opened (left : List (List UInt8)) (next : EncryptedReader)
      (run : decryptChunk aead reader msg = .ok (next, none))
      (ahead : Ahead aead next more left halt clear behind)
      (window : next.ciphertext.window = reader.ciphertext.window.advance (frame msg).length)
      (shorter : next.ciphertext.unread.length < reader.ciphertext.unread.length) :
      ShownCase aead reader more msg halt clear behind (msg :: left)

theorem Ahead.shown (ahead : Ahead aead reader more msgs halt clear behind) {msg : List UInt8}
    (shown : peekFrame reader.ciphertext.unread = some msg) :
    ShownCase aead reader more msg halt clear behind msgs := by
  obtain ⟨ciphertext, advanced, wf, split, capacity⟩ :=
    advance_shown reader.ciphertext ahead.sound.ciphertext msg shown
  have short := ((peekFrame_eq_some _ msg).mp shown).1
  have lengths := congrArg List.length split
  rw [List.length_append, frame_length] at lengths
  have opens := ahead.opens
  rw [framesAhead, split, List.append_assoc, cutFrames_frame msg _ short,
    StreamAead.openable] at opens
  by_cases tight : reader.cleartext.spareCapacityLen < msg.length
  · rw [if_pos tight] at opens
    cases opens
    exact .noRoom rfl (by rw [decryptChunk, if_pos tight])
  · have room := Nat.le_of_not_lt tight
    have run := decryptChunk_eq aead reader msg room ciphertext advanced
    rw [if_neg tight] at opens
    cases decrypted : aead.decryptNextInPlace reader.decryptor msg with
    | none =>
        rw [decrypted] at opens run
        cases opens
        exact .refused rfl _ run
    | some pair =>
        obtain ⟨plain, stream⟩ := pair
        rw [decrypted] at opens run
        cases opens
        have overhead := aead.decryptNextInPlace_length _ _ _ _ decrypted
        have plainRoom : plain.length ≤ reader.cleartext.spareCapacityLen := by omega
        have kept := reader.cleartext.append_capacity plain plainRoom
        refine .opened _ (reader.opened plain stream ciphertext) run ?_ ?_ ?_
        · have spare : (reader.cleartext.append plain).spareCapacityLen =
              reader.cleartext.spareCapacityLen - plain.length := by
            have before := reader.cleartext.spare_add_len
            have after := (reader.cleartext.append plain).spare_add_len
            have longer : (reader.cleartext.append plain).buf.len =
                reader.cleartext.buf.len + plain.length := List.length_append
            omega
          exact
            { sound :=
                { cleartext := reader.cleartext.append_wellFormed ahead.sound.cleartext plain
                  ciphertext := wf
                  ciphertextCapacity := capacity.trans ahead.sound.ciphertextCapacity
                  cleartextCapacity := kept.trans_le ahead.sound.cleartextCapacity }
              opens := by
                simp only [framesAhead, opened, spare]
              clear := by
                rw [← ahead.clear]
                simp only [opened, StreamAead.openFrames, decrypted,
                  reader.cleartext.append_unread ahead.sound.cleartext, List.append_assoc]
              behind := by
                have whole := ahead.behind
                rw [split, frames_cons, List.append_assoc, List.append_assoc] at whole
                exact List.append_cancel_left whole }
        · have moved := reader.ciphertext.advanceCursor_window ciphertext ahead.sound.ciphertext
            (msg.length + 4) (by omega) advanced
          rw [frame_length]
          exact moved
        · show ciphertext.unread.length < _
          omega

theorem Ahead.decryptChunks (rounds : Nat)
    (ahead : Ahead aead reader more msgs halt clear behind)
    (enough : reader.ciphertext.unread.length ≤ rounds) :
    (∃ next, decryptChunks aead rounds reader = .ok (next, .invalid) ∧ halt = .refused) ∨
      ∃ left next chunkEnd, decryptChunks aead rounds reader = .ok (next, chunkEnd) ∧
        chunkEnd ≠ .invalid ∧ Ahead aead next more left halt clear behind ∧
        reader.ciphertext.window.takeOut msgs = (left, next.ciphertext.window) ∧
          next.ciphertext.window.blocked left halt = decide (chunkEnd = .noRoom) := by
  induction rounds generalizing reader msgs with
  | zero =>
      have empty : reader.ciphertext.unread = [] := List.length_eq_zero_iff.mp (by omega)
      obtain ⟨stays, free⟩ := ahead.hidden (by rw [empty]; rfl)
      exact .inr ⟨msgs, reader, .drained, rfl, by simp, ahead, stays, by rw [free]; rfl⟩
  | succ rounds ih =>
      rw [EncryptedReader.decryptChunks, peekCipherChunk_eq _ ahead.sound.ciphertext]
      cases shown : peekFrame reader.ciphertext.unread with
      | none =>
          obtain ⟨stays, free⟩ := ahead.hidden shown
          exact .inr ⟨msgs, reader, .drained, rfl, by simp, ahead, stays, by rw [free]; rfl⟩
      | some msg =>
          have within : (frame msg).length ≤ reader.ciphertext.window.held := by
            obtain ⟨_, rest, split⟩ := (peekFrame_eq_some _ msg).mp shown
            rw [HelperBuf.window, split, List.length_append]
            exact Nat.le_add_right ..
          cases ahead.shown shown with
          | noRoom stops run =>
              subst stops
              refine .inr ⟨[], reader, .noRoom, by simp only [run], by simp, ahead, rfl, ?_⟩
              exact decide_eq_true within
          | refused stops next run => exact .inl ⟨next, by simp only [run], stops⟩
          | opened left next run later window shorter =>
              simp only [run]
              rw [Window.takeOut, if_pos within, ← window]
              exact ih later (by omega)

/-- What `decrypt_all_full_chunks` leaves. -/
inductive SettleCase (aead : StreamAead) (more : List UInt8) (halt : Halt)
    (clear behind : List UInt8) :
    Option (List (List UInt8) × Window) → Except Panic (EncryptedReader × Except ErrorKind Unit) →
      Prop where
  | refused (settled : Option (List (List UInt8) × Window)) (next : EncryptedReader)
      (stops : halt = .refused) :
      SettleCase aead more halt clear behind settled (.ok (next, .error .invalidData))
  | full (left : List (List UInt8)) (next : EncryptedReader)
      (ahead : Ahead aead next more left halt clear behind)
      (spare : next.ciphertext.spareCapacityLen = 0) :
      SettleCase aead more halt clear behind none (.ok (next, .ok ()))
  | panics (panic : Panic) : SettleCase aead more halt clear behind none (.error panic)
  | settled (left : List (List UInt8)) (next : EncryptedReader)
      (ahead : Ahead aead next more left halt clear behind)
      (spare : next.ciphertext.spareCapacityLen ≠ 0) :
      SettleCase aead more halt clear behind (some (left, next.ciphertext.window))
        (.ok (next, .ok ()))

theorem Ahead.decryptAllFullChunks (ahead : Ahead aead reader more msgs halt clear behind) :
    SettleCase aead more halt clear behind (reader.ciphertext.window.settle msgs halt)
      (decryptAllFullChunks aead reader) := by
  have enough : reader.ciphertext.unread.length ≤ reader.ciphertext.buf.len := by
    rw [HelperBuf.unread_length]
    omega
  rw [EncryptedReader.decryptAllFullChunks]
  rcases ahead.decryptChunks _ enough with
    ⟨next, run, stops⟩ | ⟨left, next, chunkEnd, run, valid, later, taken, blocked⟩
  · simp only [run]
    exact .refused _ next stops
  · have wf := later.sound.ciphertext
    have spareEq := next.ciphertext.window_spare wf later.sound.ciphertextCapacity
    rw [Window.settle, taken]
    simp only [run, blocked, Window.makeRoom, spareEq]
    cases chunkEnd with
    | invalid => exact absurd rfl valid
    | noRoom =>
        by_cases full : next.ciphertext.spareCapacityLen = 0
        · simp only [full, ne_eq, not_true_eq_false, if_false, decide_true, Bool.true_eq_false,
            false_and, Option.map_none]
          exact .full left next later full
        · simp only [ne_eq, full, not_false_eq_true, if_true, Option.map_some]
          exact .settled left next later full
    | drained =>
        by_cases full : next.ciphertext.spareCapacityLen = 0
        · by_cases room : next.ciphertext.unread.length ≤ next.ciphertext.cursor
          · obtain ⟨wrapped, wrapRun, wrappedWf, unread, capacity, bytes⟩ :=
              next.ciphertext.wrap_spec wf room
            have front := next.ciphertext.wrap_window wrapped wrapRun unread
            have held : next.ciphertext.window.held ≤ next.ciphertext.window.used := room
            simp only [full, ne_eq, not_true_eq_false, if_false, if_true, reduceCtorEq,
              decide_false, held, and_self, Option.map_some, wrapRun, ← front]
            refine .settled left { next with ciphertext := wrapped } ?_ ?_
            · exact
                { sound :=
                    { cleartext := later.sound.cleartext
                      ciphertext := wrappedWf
                      ciphertextCapacity := capacity.trans later.sound.ciphertextCapacity
                      cleartextCapacity := later.sound.cleartextCapacity }
                  opens := by
                    rw [framesAhead, unread]
                    exact later.opens
                  clear := later.clear
                  behind := by
                    rw [unread]
                    exact later.behind }
            · have sum := wrapped.spare_add_len
              have oldSum := next.ciphertext.spare_add_len
              have oldLength := next.ciphertext.unread_length
              have size := later.sound.ciphertextCapacity
              rw [BytesMut.len, bytes, capacity] at sum
              rw [maxChunkSize] at size
              show wrapped.spareCapacityLen ≠ 0
              omega
          · have beyond := Nat.lt_of_not_le room
            have held : ¬next.ciphertext.window.held ≤ next.ciphertext.window.used := room
            simp only [full, ne_eq, not_true_eq_false, if_false, if_true, held, and_false,
              Option.map_none, next.ciphertext.wrap_error wf beyond]
            exact .panics _
        · simp only [ne_eq, full, not_false_eq_true, if_true, if_false, Option.map_some]
          exact .settled left next later full

/-- Bytes that arrive are no longer to come. -/
theorem Ahead.receive {bytes rest : List UInt8}
    (ahead : Ahead aead reader (bytes ++ rest) msgs halt clear behind)
    (fits : bytes.length ≤ reader.ciphertext.spareCapacityLen) :
    Ahead aead { reader with ciphertext := reader.ciphertext.append bytes } rest msgs halt clear
      behind where
  sound := append_sound reader ahead.sound bytes fits
  opens := by
    rw [framesAhead, reader.ciphertext.append_unread ahead.sound.ciphertext, List.append_assoc]
    exact ahead.opens
  clear := ahead.clear
  behind := by
    rw [reader.ciphertext.append_unread ahead.sound.ciphertext, List.append_assoc]
    exact ahead.behind

/-- Where nothing is to come, and what is there was tried. -/
theorem Ahead.ended (ahead : Ahead aead reader [] msgs halt clear behind)
    (settled : reader.Settled) :
    halt ≠ .refused ∧ reader.cleartext.unread = clear ∧ reader.ciphertext.unread = behind := by
  have opens := ahead.opens
  have plain := ahead.clear
  have rest := ahead.behind
  rw [framesAhead, List.append_nil] at opens
  rw [List.append_nil] at rest
  have nothing : msgs = [] ∧ halt ≠ .refused := by
    rcases settled with ⟨hidden, _⟩ | ⟨msg, shown, tight⟩
    · rw [cutFrames_hidden hidden] at opens
      cases opens
      exact ⟨rfl, by simp⟩
    · obtain ⟨short, later, split⟩ := (peekFrame_eq_some _ msg).mp shown
      rw [split, cutFrames_frame msg later short, StreamAead.openable, if_pos tight] at opens
      cases opens
      exact ⟨rfl, by simp⟩
  obtain ⟨rfl, valid⟩ := nothing
  refine ⟨valid, ?_, rest⟩
  rw [← plain]
  exact (List.append_nil _).symm

/-- What decrypting the buffered frames gives, and where it fails. -/
theorem decryptAllFullChunks_clear {next : EncryptedReader} (sound : reader.Sound)
    (run : EncryptedReader.decryptAllFullChunks aead reader = .ok (next, .ok ())) :
    (framesAhead aead reader []).2 ≠ .refused ∧
      next.cleartext.unread = clearAhead aead reader [] := by
  obtain ⟨behind, ahead⟩ := framesAhead_ahead aead reader sound []
  have settles := ahead.decryptAllFullChunks
  have decrypts := decryptAllFullChunks_cases aead reader sound
  rw [run] at settles decrypts
  cases decrypts with
  | settled msgs _ advances opens capacity settled =>
      generalize Window.settle _ _ _ = window at settles
      cases settles with
      | full left _ later spare =>
          obtain ⟨valid, clear, _⟩ := later.ended settled
          exact ⟨valid, clear⟩
      | settled left _ later spare =>
          obtain ⟨valid, clear, _⟩ := later.ended settled
          exact ⟨valid, clear⟩

theorem decryptAllFullChunks_refused {next : EncryptedReader} {kind : ErrorKind}
    (sound : reader.Sound)
    (run : EncryptedReader.decryptAllFullChunks aead reader = .ok (next, .error kind)) :
    (framesAhead aead reader []).2 = .refused := by
  obtain ⟨behind, ahead⟩ := framesAhead_ahead aead reader sound []
  have settles := ahead.decryptAllFullChunks
  rw [run] at settles
  generalize Window.settle _ _ _ = window at settles
  cases settles with
  | refused settled _ stops => exact stops

/-- What there will be to hand out where nothing more can be decrypted. -/
theorem Ahead.clear_le (ahead : Ahead aead reader more msgs halt clear behind) :
    reader.cleartext.unread.length ≤ clear.length := by
  rw [← ahead.clear, List.length_append]
  exact Nat.le_add_right ..

end EncryptedReader
end Gday.Encryption
