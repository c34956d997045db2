import Gday.Lib.Transition

/-! # Two programs and the streams between them

A program writes to its own stream, flushes it, and reads from the other one.  A `Pipe` is
such a stream without loss: it may be bounded, its reader may be given whatever was written,
and can count on what was flushed.  What simulates a pipe can take its place in a system of
two programs. -/
set_option autoImplicit false
namespace Gday.Lib.Duplex

open Gday.Lib.Transition

inductive Io where
  | write (bytes : List UInt8)
  | flush
  | read (bytes : List UInt8)
  deriving DecidableEq, Repr

/-- The stream of an action, by the side that writes to it. -/
def Io.stream (side : Bool) : Io → Bool
  | .write _ => side
  | .flush => side
  | .read _ => !side

def Io.isRead : Io → Bool
  | .read _ => true
  | _ => false

/-- What an action adds to its stream. -/
def Io.wrote : Io → List UInt8
  | .write bytes => bytes
  | .flush => []
  | .read _ => []

/-- What an action takes from its stream. -/
def Io.took : Io → List UInt8
  | .write _ => []
  | .flush => []
  | .read bytes => bytes

def wroteBy : Option Io → List UInt8
  | none => []
  | some act => act.wrote

def tookBy : Option Io → List UInt8
  | none => []
  | some act => act.took

theorem Io.isRead_iff (act : Io) (side : Bool) : act.isRead = true ↔ act.stream side ≠ side := by
  cases act <;> simp [Io.isRead, Io.stream]

/-- Two sides that act on one stream are its writer and its reader. -/
theorem Io.ends_of_stream {act another : Io} {side other : Bool} (apart : other ≠ side)
    (same : another.stream other = act.stream side) : act.isRead ≠ another.isRead := by
  cases act <;> cases another <;> cases side <;> cases other <;>
    simp_all [Io.stream, Io.isRead]

/-! ## Pipes -/

/-- `written` is all that was ever written; the reader has taken the first `taken` bytes. -/
@[ext] structure Pipe where
  written : List UInt8
  flushed : Nat
  taken : Nat
  flushed_le : flushed ≤ written.length
  taken_le : taken ≤ written.length

namespace Pipe

def empty : Pipe := ⟨[], 0, 0, Nat.le_refl 0, Nat.le_refl 0⟩

/-- What the reader has not been given yet. -/
def queue (pipe : Pipe) : List UInt8 := pipe.written.drop pipe.taken

theorem queue_length (pipe : Pipe) : pipe.queue.length = pipe.written.length - pipe.taken :=
  List.length_drop

/-- What the reader has been given. -/
def given (pipe : Pipe) : List UInt8 := pipe.written.take pipe.taken

theorem given_queue (pipe : Pipe) : pipe.given ++ pipe.queue = pipe.written :=
  List.take_append_drop ..

theorem given_start (pipe : Pipe) : pipe.given <+: pipe.written := List.take_prefix ..

def write (pipe : Pipe) (bytes : List UInt8) : Pipe where
  written := pipe.written ++ bytes
  flushed := pipe.flushed
  taken := pipe.taken
  flushed_le := Nat.le_trans pipe.flushed_le (by simp)
  taken_le := Nat.le_trans pipe.taken_le (by simp)

def flush (pipe : Pipe) : Pipe where
  written := pipe.written
  flushed := pipe.written.length
  taken := pipe.taken
  flushed_le := Nat.le_refl _
  taken_le := pipe.taken_le

theorem read_within (pipe : Pipe) {bytes : List UInt8} (there : bytes <+: pipe.queue) :
    pipe.taken + bytes.length ≤ pipe.written.length := by
  have short := there.length_le
  have within := pipe.taken_le
  rw [queue_length] at short
  omega

def read (pipe : Pipe) (bytes : List UInt8) (there : bytes <+: pipe.queue) : Pipe where
  written := pipe.written
  flushed := pipe.flushed
  taken := pipe.taken + bytes.length
  flushed_le := pipe.flushed_le
  taken_le := pipe.read_within there

theorem write_queue (pipe : Pipe) (bytes : List UInt8) :
    (pipe.write bytes).queue = pipe.queue ++ bytes :=
  List.drop_append_of_le_length pipe.taken_le

theorem flush_queue (pipe : Pipe) : pipe.flush.queue = pipe.queue := rfl

theorem read_queue (pipe : Pipe) {bytes : List UInt8} (there : bytes <+: pipe.queue) :
    pipe.queue = bytes ++ (pipe.read bytes there).queue := by
  have after : (pipe.read bytes there).queue = pipe.queue.drop bytes.length :=
    (List.drop_drop ..).symm
  obtain ⟨rest, split⟩ := there
  rw [after, ← split, List.drop_left]

theorem write_given (pipe : Pipe) (bytes : List UInt8) : (pipe.write bytes).given = pipe.given :=
  List.take_append_of_le_length pipe.taken_le

theorem flush_given (pipe : Pipe) : pipe.flush.given = pipe.given := rfl

theorem read_given (pipe : Pipe) {bytes : List UInt8} (there : bytes <+: pipe.queue) :
    (pipe.read bytes there).given = pipe.given ++ bytes := by
  have split := pipe.read_queue there
  have before := pipe.given_queue
  have after := (pipe.read bytes there).given_queue
  have same : (pipe.read bytes there).written = pipe.written := rfl
  rw [same, ← before, split, ← List.append_assoc] at after
  exact List.append_cancel_right after

def flushedBy (pipe : Pipe) : Option Io → Nat
  | some .flush => pipe.written.length
  | _ => pipe.flushed

/-- A pipe without a capacity takes any number of bytes. -/
def Fits (capacity : Option Nat) (length : Nat) : Prop := ∀ bound ∈ capacity, length ≤ bound

theorem Fits.less {capacity : Option Nat} {length shorter : Nat} (fits : Fits capacity length)
    (less : shorter ≤ length) : Fits capacity shorter :=
  fun bound given => Nat.le_trans less (fits bound given)

inductive Step (capacity : Option Nat) : Pipe → Option Io → Pipe → Prop where
  | write (pipe : Pipe) (bytes : List UInt8)
      (room : Fits capacity (pipe.queue.length + bytes.length)) :
      Step capacity pipe (some (.write bytes)) (pipe.write bytes)
  | flush (pipe : Pipe) : Step capacity pipe (some .flush) pipe.flush
  | read (pipe : Pipe) (bytes : List UInt8) (there : bytes <+: pipe.queue) :
      Step capacity pipe (some (.read bytes)) (pipe.read bytes there)

def lts (capacity : Option Nat) : Lts Pipe Io := ⟨Step capacity⟩

end Pipe

/-! ## Systems -/

/-- The programs of both sides, and the stream that each side writes to. -/
structure System (Program Channel : Type) where
  programs : Bool → Program
  channels : Bool → Channel

namespace System

variable {Program Channel : Type}

/-- A side changes its program, and the stream that it acted on. -/
def move (system : System Program Channel) (side : Bool) (act : Io) (program : Program)
    (channel : Channel) : System Program Channel :=
  ⟨Function.update system.programs side program,
    Function.update system.channels (act.stream side) channel⟩

/-- A side changes its program only. -/
def advance (system : System Program Channel) (side : Bool) (program : Program) :
    System Program Channel :=
  { system with programs := Function.update system.programs side program }

theorem move_program (system : System Program Channel) (side : Bool) (act : Io)
    (program : Program) (channel : Channel) :
    (system.move side act program channel).programs side = program := Function.update_self ..

theorem move_program_other (system : System Program Channel) {side which : Bool}
    (other : which ≠ side) (act : Io) (program : Program) (channel : Channel) :
    (system.move side act program channel).programs which = system.programs which :=
  Function.update_of_ne other ..

theorem move_channel (system : System Program Channel) (side : Bool) (act : Io)
    (program : Program) (channel : Channel) :
    (system.move side act program channel).channels (act.stream side) = channel :=
  Function.update_self ..

theorem move_channel_other (system : System Program Channel) {side which : Bool} {act : Io}
    (elsewhere : which ≠ act.stream side) (program : Program) (channel : Channel) :
    (system.move side act program channel).channels which = system.channels which :=
  Function.update_of_ne elsewhere ..

theorem advance_program (system : System Program Channel) (side : Bool) (program : Program) :
    (system.advance side program).programs side = program := Function.update_self ..

theorem advance_program_other (system : System Program Channel) {side which : Bool}
    (other : which ≠ side) (program : Program) :
    (system.advance side program).programs which = system.programs which :=
  Function.update_of_ne other ..

inductive Step (program : Lts Program Io) (channel : Lts Channel Io) :
    System Program Channel → Option (Bool × Io) → System Program Channel → Prop where
  | act (system : System Program Channel) (side : Bool) (act : Io) (next : Program)
      (after : Channel) (own : program.Step (system.programs side) (some act) next)
      (its : channel.Step (system.channels (act.stream side)) (some act) after) :
      Step program channel system (some (side, act)) (system.move side act next after)
  | compute (system : System Program Channel) (side : Bool) (next : Program)
      (own : program.Step (system.programs side) none next) :
      Step program channel system none (system.advance side next)
  | transmit (system : System Program Channel) (side : Bool) (after : Channel)
      (its : channel.Step (system.channels side) none after) :
      Step program channel system none
        { system with channels := Function.update system.channels side after }

def lts (program : Lts Program Io) (channel : Lts Channel Io) :
    Lts (System Program Channel) (Bool × Io) := ⟨Step program channel⟩

/-- The same programs over streams that are related. -/
def Over {View : Type} (related : Channel → View → Prop) (system : System Program Channel)
    (view : System Program View) : Prop :=
  system.programs = view.programs ∧ ∀ side, related (system.channels side) (view.channels side)

theorem Over.update {View : Type} {related : Channel → View → Prop}
    {channels : Bool → Channel} {views : Bool → View}
    (all : ∀ side, related (channels side) (views side)) (side : Bool) {after : Channel}
    {view : View} (relates : related after view) (other : Bool) :
    related (Function.update channels side after other)
      (Function.update views side view other) := by
  by_cases same : other = side
  · subst same
    rw [Function.update_self, Function.update_self]
    exact relates
  · rw [Function.update_of_ne same, Function.update_of_ne same]
    exact all other

/-- Whatever the programs are, they do nothing over the first streams that they could not do
over the second ones. -/
theorem simulates (program : Lts Program Io) {View : Type} {concrete : Lts Channel Io}
    {abstract_ : Lts View Io} {related : Channel → View → Prop}
    (streams : Simulates concrete abstract_ related) :
    Simulates (lts program concrete) (lts program abstract_) (Over related) := by
  constructor
  · rintro system view next ⟨programs, streams_⟩ step
    cases step with
    | compute side next own =>
        rw [programs] at own
        exact ⟨_, .inr (.compute view side next own), by rw [advance, advance, programs], streams_⟩
    | transmit side after its =>
        obtain ⟨last, moved, relates⟩ := streams.silent _ _ _ (streams_ side) its
        rcases moved with rfl | moved
        · refine ⟨view, .inl rfl, programs, fun other => ?_⟩
          have updated := Over.update streams_ side relates other
          rw [Function.update_eq_self] at updated
          exact updated
        · exact ⟨_, .inr (.transmit view side last moved), programs,
            Over.update streams_ side relates⟩
  · rintro system view next ⟨side, act⟩ ⟨programs, streams_⟩ step
    cases step with
    | act _ _ next after own its =>
        rw [programs] at own
        obtain ⟨last, moved, relates⟩ := streams.seen _ _ _ _ (streams_ (act.stream side)) its
        refine ⟨view.move side act next last, .act view side act next last own moved, ?_⟩
        exact ⟨by rw [move, move, programs], Over.update streams_ _ relates⟩

/-! ## Systems over pipes -/

/-- A step of one side. -/
inductive By (program : Lts Program Io) (capacity : Option Nat) (side : Bool)
    (system : System Program Pipe) : System Program Pipe → Prop where
  | act (act : Io) (next : Program) (after : Pipe)
      (own : program.Step (system.programs side) (some act) next)
      (its : Pipe.Step capacity (system.channels (act.stream side)) (some act) after) :
      By program capacity side system (system.move side act next after)
  | compute (next : Program) (own : program.Step (system.programs side) none next) :
      By program capacity side system (system.advance side next)

theorem moves_iff {program : Lts Program Io} {capacity : Option Nat}
    {system next : System Program Pipe} :
    (lts program (Pipe.lts capacity)).Moves system next ↔
      ∃ side, By program capacity side system next := by
  constructor
  · rintro ⟨label, step⟩
    cases step with
    | act side act next after own its => exact ⟨side, .act act next after own its⟩
    | compute side next own => exact ⟨side, .compute next own⟩
    | transmit side after its => cases its
  · rintro ⟨side, step⟩
    cases step with
    | act act next after own its => exact ⟨_, .act system side act next after own its⟩
    | compute next own => exact ⟨_, .compute system side next own⟩

theorem By.programs_other {program : Lts Program Io} {capacity : Option Nat} {side other : Bool}
    {system next : System Program Pipe} (step : By program capacity side system next)
    (differ : other ≠ side) : next.programs other = system.programs other := by
  cases step with
  | act act next after own its => exact system.move_program_other differ act next after
  | compute next own => exact system.advance_program_other differ next

theorem By.own {program : Lts Program Io} {capacity : Option Nat} {side : Bool}
    {system next : System Program Pipe} (step : By program capacity side system next) :
    program.Moves (system.programs side) (next.programs side) := by
  cases step with
  | act act after channel own its =>
      refine ⟨some act, ?_⟩
      rw [move_program]
      exact own
  | compute after own =>
      refine ⟨none, ?_⟩
      rw [advance_program]
      exact own

end System

/-! ## Both ends at once -/

theorem Pipe.Step.written {capacity : Option Nat} {pipe after : Pipe} {act : Io}
    (step : Pipe.Step capacity pipe (some act) after) :
    after.written = pipe.written ++ act.wrote := by
  cases step with
  | write => rfl
  | flush => exact (List.append_nil _).symm
  | read => exact (List.append_nil _).symm

theorem Pipe.Step.given {capacity : Option Nat} {pipe after : Pipe} {act : Io}
    (step : Pipe.Step capacity pipe (some act) after) : after.given = pipe.given ++ act.took := by
  cases step with
  | write bytes room => exact (pipe.write_given bytes).trans (List.append_nil _).symm
  | flush => exact (List.append_nil _).symm
  | read bytes there => exact pipe.read_given there

theorem Pipe.Step.flushed {capacity : Option Nat} {pipe after : Pipe} {act : Io}
    (step : Pipe.Step capacity pipe (some act) after) :
    after.flushed = pipe.flushedBy (some act) := by
  cases step with
  | _ => rfl

theorem Pipe.Step.unwritten {capacity : Option Nat} {pipe after : Pipe} {act : Io}
    (step : Pipe.Step capacity pipe (some act) after) (isRead : act.isRead = true) :
    after.written = pipe.written := by
  cases step with
  | read => rfl
  | write => cases isRead
  | flush => cases isRead

theorem Pipe.Step.untaken {capacity : Option Nat} {pipe after : Pipe} {act : Io}
    (step : Pipe.Step capacity pipe (some act) after) (noRead : act.isRead = false) :
    after.taken = pipe.taken := by
  cases step with
  | read => cases noRead
  | write => rfl
  | flush => rfl

theorem Pipe.Step.crosses {capacity : Option Nat} {pipe one other : Pipe} {act : Io}
    {given : List UInt8} (reads : Pipe.Step capacity pipe (some (.read given)) one)
    (writes : Pipe.Step capacity pipe (some act) other) (noRead : act.isRead = false) :
    ∃ last, Pipe.Step capacity one (some act) last ∧
      Pipe.Step capacity other (some (.read given)) last := by
  cases reads with
  | read _ there =>
      cases writes with
      | write bytes room =>
          have split := pipe.read_queue there
          have still : given <+: (pipe.write bytes).queue := by
            rw [write_queue]
            exact there.trans (List.prefix_append ..)
          have shorter : (pipe.read given there).queue.length ≤ pipe.queue.length := by
            rw [split, List.length_append]
            omega
          exact ⟨_, .write _ bytes (room.less (by omega)), .read _ given still⟩
      | flush => exact ⟨_, .flush _, .read pipe.flush given there⟩
      | read => cases noRead

/-- A reader does not get in the way of the writer, nor the writer in its way. -/
theorem Pipe.Step.ends {capacity : Option Nat} {pipe one other : Pipe} {act another : Io}
    (first : Pipe.Step capacity pipe (some act) one)
    (second : Pipe.Step capacity pipe (some another) other) (ends : act.isRead ≠ another.isRead) :
    ∃ last, Pipe.Step capacity one (some another) last ∧
      Pipe.Step capacity other (some act) last := by
  cases reads : act.isRead with
  | true =>
      have noRead : another.isRead = false := by
        rw [reads] at ends
        exact Bool.eq_false_of_not_eq_true fun also => ends also.symm
      cases act with
      | read given => exact first.crosses second noRead
      | write bytes => cases reads
      | flush => cases reads
  | false =>
      cases another with
      | read given =>
          obtain ⟨last, one, other⟩ := second.crosses first reads
          exact ⟨last, other, one⟩
      | write bytes => exact absurd reads ends
      | flush => exact absurd reads ends

namespace System

variable {Program : Type}

/-- What a step makes of the side's own stream, and takes from the other one. -/
structure Effect (side : Bool) (label : Option Io) (system next : System Program Pipe) : Prop where
  written : (next.channels side).written = (system.channels side).written ++ wroteBy label
  unwritten : (next.channels (!side)).written = (system.channels (!side)).written
  given : (next.channels (!side)).given = (system.channels (!side)).given ++ tookBy label
  ungiven : (next.channels side).given = (system.channels side).given
  flushed : (next.channels side).flushed = (system.channels side).flushedBy label
  unflushed : (next.channels (!side)).flushed = (system.channels (!side)).flushed

theorem move_effect {capacity : Option Nat} (system : System Program Pipe) (side : Bool) {act : Io}
    (next : Program) {after : Pipe}
    (its : Pipe.Step capacity (system.channels (act.stream side)) (some act) after) :
    Effect side (some act) system (system.move side act next after) := by
  have there := system.move_channel side act next after
  have written := its.written
  have given := its.given
  have flushed := its.flushed
  rw [← there] at written given flushed
  cases act with
  | read bytes =>
      have elsewhere : side ≠ Io.stream side (.read bytes) := (Bool.not_ne_self side).symm
      have own := system.move_channel_other elsewhere next after
      refine ⟨?_, written.trans (List.append_nil _), given, ?_, ?_, flushed⟩
      · rw [own]
        exact (List.append_nil _).symm
      · rw [own]
      · rw [own]
        rfl
  | write bytes =>
      have elsewhere : (!side) ≠ Io.stream side (.write bytes) := Bool.not_ne_self side
      have other := system.move_channel_other elsewhere next after
      refine ⟨written, ?_, ?_, given.trans (List.append_nil _), flushed, ?_⟩
      · rw [other]
      · rw [other]
        exact (List.append_nil _).symm
      · rw [other]
  | flush =>
      have elsewhere : (!side) ≠ Io.stream side .flush := Bool.not_ne_self side
      have other := system.move_channel_other elsewhere next after
      refine ⟨written, ?_, ?_, given.trans (List.append_nil _), flushed, ?_⟩
      · rw [other]
      · rw [other]
        exact (List.append_nil _).symm
      · rw [other]

theorem By.effect {program : Lts Program Io} {capacity : Option Nat} {side : Bool}
    {system next : System Program Pipe} (step : By program capacity side system next) :
    ∃ label, program.Step (system.programs side) label (next.programs side) ∧
      Effect side label system next := by
  cases step with
  | compute after own =>
      refine ⟨none, ?_, (List.append_nil _).symm, rfl, (List.append_nil _).symm, rfl, rfl, rfl⟩
      rw [advance_program]
      exact own
  | act act after channel own its =>
      refine ⟨some act, ?_, system.move_effect side after its⟩
      rw [move_program]
      exact own

theorem By.act_of {program : Lts Program Io} {capacity : Option Nat} {side : Bool}
    {system last : System Program Pipe} {act : Io} {before next : Program} {channel after : Pipe}
    (own : program.Step before (some act) next)
    (its : Pipe.Step capacity channel (some act) after) (here : system.programs side = before)
    (there : system.channels (act.stream side) = channel)
    (result : system.move side act next after = last) : By program capacity side system last := by
  subst here there result
  exact .act act next after own its

theorem By.compute_of {program : Lts Program Io} {capacity : Option Nat} {side : Bool}
    {system last : System Program Pipe} {before next : Program}
    (own : program.Step before none next) (here : system.programs side = before)
    (result : system.advance side next = last) : By program capacity side system last := by
  subst here result
  exact .compute next own

theorem move_comm (system : System Program Pipe) {side other : Bool} (apart : other ≠ side)
    {act another : Io} (streams : another.stream other ≠ act.stream side) (next next' : Program)
    (after after' : Pipe) :
    (system.move other another next' after').move side act next after =
      (system.move side act next after).move other another next' after' := by
  unfold move
  rw [Function.update_comm apart, Function.update_comm streams]

/-- At one stream only what the last move made of it counts. -/
theorem move_move (system : System Program Pipe) {side other : Bool} (apart : other ≠ side)
    {act another : Io} (same : another.stream other = act.stream side) (next next' : Program)
    (after after' last : Pipe) :
    (system.move other another next' after').move side act next last =
      (system.move side act next after).move other another next' last := by
  unfold move
  simp only [same, Function.update_idem]
  rw [Function.update_comm apart]

/-- Both sides may go first: they act on different streams, or at the two ends of one. -/
theorem By.crosses {program : Lts Program Io} {capacity : Option Nat} {side other : Bool}
    (apart : other ≠ side) {system one another : System Program Pipe}
    (first : By program capacity side system one)
    (second : By program capacity other system another) :
    ∃ last, By program capacity other one last ∧ By program capacity side another last := by
  have keepsOther := first.programs_other apart
  have keepsSide := second.programs_other apart.symm
  cases first with
  | compute next own =>
      cases second with
      | compute next' own' =>
          refine ⟨_, .compute_of own' keepsOther rfl, .compute_of own keepsSide ?_⟩
          rw [advance, advance, Function.update_comm apart]
          rfl
      | act act' next' after' own' its' =>
          refine ⟨_, .act_of own' its' keepsOther rfl rfl, .compute_of own keepsSide ?_⟩
          rw [advance, move, Function.update_comm apart]
          rfl
  | act act next after own its =>
      cases second with
      | compute next' own' =>
          refine ⟨_, .compute_of own' keepsOther rfl, .act_of own its keepsSide rfl ?_⟩
          rw [advance, move, Function.update_comm apart]
          rfl
      | act act' next' after' own' its' =>
          by_cases same : act'.stream other = act.stream side
          · rw [same] at its'
            obtain ⟨last, one, another⟩ := its.ends its' (Io.ends_of_stream apart same)
            exact ⟨_, .act_of own' one keepsOther
                (by rw [same]; exact move_channel ..) rfl,
              .act_of own another keepsSide (by rw [← same]; exact move_channel ..)
                (system.move_move apart same next next' after after' last)⟩
          · exact ⟨_, .act_of own' its' keepsOther (move_channel_other _ same ..) rfl,
              .act_of own its keepsSide (move_channel_other _ (Ne.symm same) ..)
                (system.move_comm apart same next next' after after')⟩

end System
end Gday.Lib.Duplex
