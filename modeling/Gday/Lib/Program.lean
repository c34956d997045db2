import Gday.Lib.Duplex
import Gday.Lib.SegmentedStream

/-! # Sequential programs over two pipes

A `Prog` writes, flushes and waits for a number of bytes; the environment decides how much of
a write is taken and of a read given at a time.  Two of them over two pipes end in one state,
whatever it decides, if they end at all. -/
set_option autoImplicit false
namespace Gday.Lib.Program

open Relation Gday.Lib.Transition Gday.Lib.Duplex Gday.Lib.SegmentedStream

/-- A read goes on with all that it was given. -/
inductive Prog (Result : Type) where
  | done (result : Result)
  | write (bytes : List UInt8) (next : Prog Result)
  | flush (next : Prog Result)
  | read (missing : Nat) (got : List UInt8) (next : List UInt8 → Prog Result)

namespace Prog

variable {Result : Type}

inductive Step : Prog Result → Option Io → Prog Result → Prop where
  | write (sent rest : List UInt8) (next : Prog Result) (some_ : sent ≠ []) :
      Step (.write (sent ++ rest) next) (some (.write sent)) (.write rest next)
  | written (next : Prog Result) : Step (.write [] next) none next
  | flush (next : Prog Result) : Step (.flush next) (some .flush) next
  | read (missing : Nat) (got given : List UInt8) (next : List UInt8 → Prog Result)
      (some_ : given ≠ []) (within : given.length ≤ missing) :
      Step (.read missing got next) (some (.read given))
        (.read (missing - given.length) (got ++ given) next)
  | filled (got : List UInt8) (next : List UInt8 → Prog Result) :
      Step (.read 0 got next) none (next got)

def lts (Result : Type) : Lts (Prog Result) Io := ⟨Step⟩

theorem write_acts {bytes : List UInt8} {next after : Prog Result} {act : Io}
    (step : Step (.write bytes next) (some act) after) :
    ∃ sent rest, sent ≠ [] ∧ bytes = sent ++ rest ∧ act = .write sent ∧
      after = .write rest next := by
  generalize start : Prog.write bytes next = prog at step
  cases step with
  | write sent rest _ some_ =>
      cases start
      exact ⟨sent, rest, some_, rfl, rfl, rfl⟩
  | flush => cases start
  | read => cases start

theorem write_computes {bytes : List UInt8} {next after : Prog Result}
    (step : Step (.write bytes next) none after) : bytes = [] ∧ after = next := by
  cases step
  exact ⟨rfl, rfl⟩

/-- A program alone, with a stream to read that comes to an end: its result, all it sends, and
what it leaves of the stream. -/
def run : Prog Result → Segments → Result × List UInt8 × Segments
  | .done result, stream => (result, [], stream)
  | .write bytes next, stream =>
      let (result, sent, rest) := next.run stream
      (result, bytes ++ sent, rest)
  | .flush next, stream => next.run stream
  | .read missing got next, stream =>
      let (bytes, rest) := takeUpTo missing stream
      (next (got ++ bytes)).run rest

/-! ## Programs end -/

theorem acc_write (next : Prog Result) (ends : Acc (fun after before => (lts Result).Moves before
    after) next) (bytes : List UInt8) :
    Acc (fun after before => (lts Result).Moves before after) (.write bytes next) := by
  induction length : bytes.length using Nat.strongRecOn generalizing bytes with
  | ind count ih =>
      refine ⟨_, ?_⟩
      rintro after ⟨label, step⟩
      cases step with
      | write sent rest next some_ =>
          have positive := List.length_pos_iff.mpr some_
          rw [List.length_append] at length
          exact ih rest.length (by omega) rest rfl
      | written => exact ends

theorem acc_read (next : List UInt8 → Prog Result)
    (ends : ∀ bytes, Acc (fun after before => (lts Result).Moves before after) (next bytes))
    (missing : Nat) (got : List UInt8) :
    Acc (fun after before => (lts Result).Moves before after) (.read missing got next) := by
  induction missing using Nat.strongRecOn generalizing got with
  | ind missing ih =>
      refine ⟨_, ?_⟩
      rintro after ⟨label, step⟩
      cases step with
      | read _ _ given _ some_ within =>
          have positive := List.length_pos_iff.mpr some_
          exact ih _ (by omega) _
      | filled => exact ends got

theorem acc (prog : Prog Result) :
    Acc (fun after before => (lts Result).Moves before after) prog := by
  induction prog with
  | done result =>
      refine ⟨_, ?_⟩
      rintro after ⟨label, step⟩
      cases step
  | write bytes next ih => exact acc_write next ih bytes
  | flush next ih =>
      refine ⟨_, ?_⟩
      rintro after ⟨label, step⟩
      cases step
      exact ih
  | read missing got next ih => exact acc_read next ih missing got

/-! ## One side in two ways -/

/-- A program acts on the pipe `before.2`. -/
def Acts (capacity : Option Nat) (act : Io) (before after : Prog Result × Pipe) : Prop :=
  Step before.1 (some act) after.1 ∧ Pipe.Step capacity before.2 (some act) after.2

/-- More of a write was taken, or more of a read given, the second time. -/
def Further (capacity : Option Nat) (side : Bool) (act : Io) (less more : Prog Result × Pipe) :
    Prop :=
  ∃ rest, rest.stream side = act.stream side ∧ Acts capacity rest less more

theorem further_write {capacity : Option Nat} {side : Bool} {pipe : Pipe} {sent more : List UInt8}
    {rest : List UInt8} {next : Prog Result} (some_ : more ≠ [])
    (room : Pipe.Fits capacity (pipe.queue.length + (sent ++ more).length)) :
    Further capacity side (.write sent) (.write (more ++ rest) next, pipe.write sent)
      (.write rest next, pipe.write (sent ++ more)) := by
  refine ⟨.write more, rfl, .write more rest next some_, ?_⟩
  have both : (pipe.write sent).write more = pipe.write (sent ++ more) := by
    ext1
    · exact List.append_assoc ..
    · rfl
    · rfl
  rw [← both]
  refine .write _ more (room.less ?_)
  rw [Pipe.write_queue, List.length_append, List.length_append]
  omega

theorem further_read {capacity : Option Nat} {side : Bool} {pipe : Pipe}
    {given more got : List UInt8} {missing : Nat} {next : List UInt8 → Prog Result}
    (some_ : more ≠ []) (within : (given ++ more).length ≤ missing)
    (there : given <+: pipe.queue) (thereMore : given ++ more <+: pipe.queue) :
    Further capacity side (.read given)
      (.read (missing - given.length) (got ++ given) next, pipe.read given there)
      (.read (missing - (given ++ more).length) (got ++ (given ++ more)) next,
        pipe.read (given ++ more) thereMore) := by
  have behind : more <+: (pipe.read given there).queue := by
    have split := pipe.read_queue there
    rw [split] at thereMore
    exact (List.prefix_append_right_inj given).mp thereMore
  rw [List.length_append] at within
  refine ⟨.read more, rfl, ?_, ?_⟩
  · have step := Step.read (missing - given.length) (got ++ given) more next some_ (by omega)
    rw [Nat.sub_sub, List.append_assoc, ← List.length_append] at step
    exact step
  · have both : (pipe.read given there).read more behind = pipe.read (given ++ more) thereMore := by
      ext1
      · rfl
      · rfl
      · show pipe.taken + given.length + more.length = pipe.taken + (given ++ more).length
        rw [List.length_append, Nat.add_assoc]
    rw [← both]
    exact .read _ more behind

theorem same_stream {prog one other : Prog Result} {act another : Io}
    (first : Step prog (some act) one) (second : Step prog (some another) other) (side : Bool) :
    act.stream side = another.stream side := by
  cases prog with
  | done result => cases first
  | write bytes next =>
      obtain ⟨_, _, _, _, rfl, _⟩ := write_acts first
      obtain ⟨_, _, _, _, rfl, _⟩ := write_acts second
      rfl
  | flush next =>
      cases first
      cases second
      rfl
  | read missing got next =>
      cases first
      cases second
      rfl

/-- A side that acts in two ways is at one place, and one of the ways goes further. -/
theorem acts_twice {capacity : Option Nat} {side : Bool} {act another : Io}
    {start one other : Prog Result × Pipe} (first : Acts capacity act start one)
    (second : Acts capacity another start other) :
    one = other ∨ Further capacity side act one other ∨
      Further capacity side another other one := by
  obtain ⟨prog, pipe⟩ := start
  obtain ⟨prog1, pipe1⟩ := one
  obtain ⟨prog2, pipe2⟩ := other
  obtain ⟨own, its⟩ := first
  obtain ⟨own', its'⟩ := second
  dsimp only at own own' its its'
  cases prog with
  | done result => cases own
  | write bytes next =>
      obtain ⟨sent, rest, some_, rfl, rfl, rfl⟩ := write_acts own
      obtain ⟨sent', rest', some', split, rfl, rfl⟩ := write_acts own'
      cases its with
      | write _ room =>
          cases its' with
          | write _ room' =>
              rcases List.append_eq_append_iff.mp split with
                ⟨more, rfl, rfl⟩ | ⟨more, rfl, rfl⟩
              · by_cases none_ : more = []
                · subst none_
                  left
                  rw [List.append_nil, List.nil_append]
                · exact .inr (.inl (further_write none_ room'))
              · by_cases none_ : more = []
                · subst none_
                  left
                  rw [List.append_nil, List.nil_append]
                · exact .inr (.inr (further_write none_ room))
  | flush next =>
      cases own
      cases own'
      cases its
      cases its'
      exact .inl rfl
  | read missing got next =>
      cases own with
      | read _ _ given _ some_ within =>
          cases own' with
          | read _ _ given' _ some' within' =>
              cases its with
              | read _ there =>
                  cases its' with
                  | read _ there' =>
                      rcases List.prefix_or_prefix_of_prefix there there' with
                        ⟨more, rfl⟩ | ⟨more, rfl⟩
                      · by_cases none_ : more = []
                        · subst none_
                          left
                          simp only [List.append_nil]
                        · exact .inr (.inl (further_read none_ within' there there'))
                      · by_cases none_ : more = []
                        · subst none_
                          left
                          simp only [List.append_nil]
                        · exact .inr (.inr (further_read none_ within there' there))

theorem acts_or_computes {prog next after : Prog Result} {act : Io}
    (own : Step prog (some act) next) : ¬ Step prog none after := by
  intro other
  cases other with
  | written => cases (write_acts own) with
    | intro sent found =>
        obtain ⟨rest, some_, split, _⟩ := found
        exact some_ (List.append_eq_nil_iff.mp split.symm).1
  | filled got next =>
      cases own with
      | read _ _ given _ some_ within =>
          exact some_ (List.length_eq_zero_iff.mp (Nat.le_zero.mp within))

theorem computes_once {prog one other : Prog Result} (first : Step prog none one)
    (second : Step prog none other) : one = other := by
  cases first with
  | written => exact (write_computes second).2.symm
  | filled got next =>
      cases second
      rfl

end Prog

/-! ## Two programs -/

abbrev Pair (Result : Type) := System (Prog Result) Pipe

namespace Pair

variable {Result : Type} {capacity : Option Nat}

/-- A step of one of the programs. -/
def Goes (capacity : Option Nat) (system next : Pair Result) : Prop :=
  (System.lts (Prog.lts Result) (Pipe.lts capacity)).Moves system next

theorem goes_iff {system next : Pair Result} :
    Goes capacity system next ↔ ∃ side, System.By (Prog.lts Result) capacity side system next :=
  System.moves_iff

theorem goes_further {side : Bool} {act another : Io} {start : Pair Result}
    {one other : Prog Result × Pipe} (streams : act.stream side = another.stream side)
    (further : Prog.Further capacity side act one other) :
    Goes capacity (start.move side act one.1 one.2) (start.move side another other.1 other.2) := by
  obtain ⟨rest, same, own, its⟩ := further
  refine goes_iff.mpr ⟨side, .act_of own its (System.move_program ..) ?_ ?_⟩
  · rw [same]
    exact System.move_channel ..
  · unfold System.move
    simp only [same, streams, Function.update_idem]

theorem own_diamond {side : Bool} {start one other : Pair Result}
    (first : System.By (Prog.lts Result) capacity side start one)
    (second : System.By (Prog.lts Result) capacity side start other) :
    ∃ last, ReflGen (Goes capacity) one last ∧ ReflTransGen (Goes capacity) other last := by
  cases first with
  | compute next own =>
      cases second with
      | compute next' own' =>
          rw [Prog.computes_once own own']
          exact ⟨_, .refl, .refl⟩
      | act act' next' after' own' its' => exact absurd own (Prog.acts_or_computes own')
  | act act next after own its =>
      cases second with
      | compute next' own' => exact absurd own' (Prog.acts_or_computes own)
      | act act' next' after' own' its' =>
          have same := Prog.same_stream own own' side
          rw [← same] at its'
          have one : Prog.Acts capacity act (start.programs side, start.channels (act.stream side))
            (next, after) := ⟨own, its⟩
          have other : Prog.Acts capacity act'
            (start.programs side, start.channels (act.stream side)) (next', after') := ⟨own', its'⟩
          rcases Prog.acts_twice one other with equal | further | further
          · obtain ⟨rfl, rfl⟩ := Prod.mk.inj equal
            unfold System.move
            rw [same]
            exact ⟨_, .refl, .refl⟩
          · exact ⟨_, .single (goes_further same further), .refl⟩
          · exact ⟨_, .refl, .single (goes_further same.symm further)⟩

theorem diamond {start one other : Pair Result} (first : Goes capacity start one)
    (second : Goes capacity start other) :
    ∃ last, ReflGen (Goes capacity) one last ∧ ReflTransGen (Goes capacity) other last := by
  obtain ⟨side, first⟩ := goes_iff.mp first
  obtain ⟨side', second⟩ := goes_iff.mp second
  by_cases same : side' = side
  · subst same
    exact own_diamond first second
  · obtain ⟨last, one, other⟩ := first.crosses same second
    exact ⟨last, .single (goes_iff.mpr ⟨side', one⟩), .single (goes_iff.mpr ⟨side, other⟩)⟩

/-- No run goes on forever. -/
theorem ends (system : Pair Result) :
    Acc (fun after before => Goes capacity before after) system := by
  have both := Acc.prod_gameAdd ((system.programs true).acc) ((system.programs false).acc)
  have image := InvImage.accessible (fun system : Pair Result =>
    (system.programs true, system.programs false)) both
  refine Subrelation.accessible ?_ image
  intro after before goes
  obtain ⟨side, step⟩ := goes_iff.mp goes
  have own := step.own
  have others := step.programs_other (Bool.not_ne_self side)
  cases side with
  | true =>
      have same : after.programs false = before.programs false := others
      show Prod.GameAdd _ _ (after.programs true, after.programs false)
        (before.programs true, before.programs false)
      rw [same]
      exact .fst own
  | false =>
      have same : after.programs true = before.programs true := others
      show Prod.GameAdd _ _ (after.programs true, after.programs false)
        (before.programs true, before.programs false)
      rw [same]
      exact .snd own

theorem finite (run : Nat → Pair Result) :
    ∃ time, ¬ Goes capacity (run time) (run (time + 1)) := by
  by_contra endless
  push Not at endless
  have stays : ∀ system, Acc (fun after before => Goes capacity before after) system →
      ∀ time, run time ≠ system := by
    intro system ends
    induction ends with
    | intro system _ ih =>
        rintro time rfl
        exact ih _ (endless time) (time + 1) rfl
  exact stays _ (ends (run 0)) 0 rfl

/-! ## The one end -/

/-- Every run from `start` can only end in `final`, and does. -/
structure Completes (capacity : Option Nat) (start final : Pair Result) : Prop where
  reached : ReflTransGen (Goes capacity) start final
  toFinal : ∀ state, ReflTransGen (Goes capacity) start state →
    ReflTransGen (Goes capacity) state final
  last : ∀ next, ¬ Goes capacity final next
  finite : ∀ run : Nat → Pair Result, ∃ time, ¬ Goes capacity (run time) (run (time + 1))

/-- One run to a state in which both programs stand still is enough. -/
theorem completes {start final : Pair Result} (run : ReflTransGen (Goes capacity) start final)
    (last : ∀ next, ¬ Goes capacity final next) : Completes capacity start final where
  reached := run
  toFinal := by
    intro state reached
    obtain ⟨meet, fromState, fromFinal⟩ :=
      church_rosser (fun _ _ _ first second => diamond first second) reached run
    rcases ReflTransGen.cases_head fromFinal with rfl | ⟨next, goes, _⟩
    · exact fromState
    · exact absurd goes (last next)
  last := last
  finite := finite

theorem Completes.goes {start final : Pair Result} (completes : Completes capacity start final)
    {state : Pair Result} (reached : ReflTransGen (Goes capacity) start state)
    (before : state ≠ final) : ∃ next, Goes capacity state next := by
  rcases ReflTransGen.cases_head (completes.toFinal state reached) with equal | ⟨next, goes, _⟩
  · exact absurd equal before
  · exact ⟨next, goes⟩

theorem done_stays {side : Bool} {result : Result} {system final : Pair Result}
    (run : ReflTransGen (Goes capacity) system final)
    (done : system.programs side = .done result) : final.programs side = .done result := by
  induction run with
  | refl => exact done
  | tail _ goes ih =>
      obtain ⟨side', step⟩ := goes_iff.mp goes
      by_cases same : side = side'
      · subst same
        obtain ⟨label, own⟩ := step.own
        rw [ih] at own
        cases own
      · rw [step.programs_other same]
        exact ih

theorem done_last {system : Pair Result} {results : Bool → Result}
    (done : ∀ side, system.programs side = .done (results side)) (next : Pair Result) :
    ¬ Goes capacity system next := by
  intro goes
  obtain ⟨side, step⟩ := goes_iff.mp goes
  obtain ⟨label, own⟩ := step.own
  rw [done] at own
  cases own

end Pair

/-! ## Flushing in time -/

/-- Whatever is written is flushed before the program waits or ends; `dirty` says that
something may not be flushed yet. -/
def Prog.Flushes {Result : Type} : Prog Result → Bool → Prop
  | .done _, dirty => dirty = false
  | .write _ next, _ => next.Flushes true
  | .flush next, _ => next.Flushes false
  | .read _ _ next, dirty => dirty = false ∧ ∀ bytes, (next bytes).Flushes false

namespace Pair

variable {Result : Type} {capacity : Option Nat}

/-- What a program that is not dirty has written is flushed. -/
def InTime (system : Pair Result) : Prop :=
  ∀ side, ∃ dirty, (system.programs side).Flushes dirty ∧
    (dirty = false → (system.channels side).flushed = (system.channels side).written.length)

/-- What a stream cannot hold back: a read of what was flushed, or of a full pipe. -/
def Sure (capacity : Option Nat) (pipe : Pipe) : Io → Prop
  | .read bytes =>
      pipe.taken + bytes.length ≤ pipe.flushed ∨ ∃ bound ∈ capacity, bound ≤ pipe.queue.length
  | _ => True

theorem InTime.own {side : Bool} {system next : Pair Result}
    (step : System.By (Prog.lts Result) capacity side system next) {dirty : Bool}
    (flushes : (system.programs side).Flushes dirty)
    (clean : dirty = false →
      (system.channels side).flushed = (system.channels side).written.length) :
    ∃ dirty, (next.programs side).Flushes dirty ∧
      (dirty = false → (next.channels side).flushed = (next.channels side).written.length) := by
  cases step with
  | compute after own =>
      rw [System.advance_program]
      generalize system.programs side = prog at own flushes
      cases own with
      | written => exact ⟨true, flushes, fun same => absurd same.symm Bool.false_ne_true⟩
      | filled got next => exact ⟨false, flushes.2 got, fun _ => clean flushes.1⟩
  | act act after channel own its =>
      rw [System.move_program]
      generalize system.programs side = prog at own flushes
      cases own with
      | write sent rest next some_ =>
          exact ⟨true, flushes, fun same => absurd same.symm Bool.false_ne_true⟩
      | flush =>
          refine ⟨false, flushes, fun _ => ?_⟩
          have there := system.move_channel side .flush after channel
          rw [show Io.flush.stream side = side from rfl] at there
          rw [there]
          cases its
          rfl
      | read missing got given next some_ within =>
          refine ⟨false, ⟨rfl, flushes.2⟩, fun _ => ?_⟩
          have apart : side ≠ Io.stream side (.read given) := (Bool.not_ne_self side).symm
          rw [System.move_channel_other _ apart]
          exact clean flushes.1

/-- The reader at the other end changes nothing of what was written or flushed. -/
theorem InTime.others {side which : Bool} (apart : which ≠ side) {system next : Pair Result}
    (step : System.By (Prog.lts Result) capacity side system next) :
    (next.channels which).flushed = (system.channels which).flushed ∧
      (next.channels which).written = (system.channels which).written := by
  cases step with
  | compute after own => exact ⟨rfl, rfl⟩
  | act act after channel own its =>
      by_cases there : which = act.stream side
      · subst there
        rw [System.move_channel]
        cases act with
        | write bytes => exact absurd rfl apart
        | flush => exact absurd rfl apart
        | read given =>
            cases its
            exact ⟨rfl, rfl⟩
      · rw [System.move_channel_other _ there]
        exact ⟨rfl, rfl⟩

theorem InTime.step {system next : Pair Result} (inTime : InTime system)
    (goes : Goes capacity system next) : InTime next := by
  obtain ⟨side, step⟩ := goes_iff.mp goes
  intro which
  obtain ⟨dirty, flushes, clean⟩ := inTime which
  by_cases same : which = side
  · subst same
    exact InTime.own step flushes clean
  · obtain ⟨flushed, written⟩ := InTime.others same step
    rw [step.programs_other same, flushed, written]
    exact ⟨dirty, flushes, clean⟩

theorem start_inTime {system : Pair Result}
    (flushes : ∀ side, (system.programs side).Flushes false)
    (clean : ∀ side, (system.channels side).flushed = (system.channels side).written.length) :
    InTime system := fun side => ⟨false, flushes side, fun _ => clean side⟩

/-- A step that no stream can hold back. -/
def GoesSurely (capacity : Option Nat) (system : Pair Result) : Prop :=
  ∃ label next, (System.lts (Prog.lts Result) (Pipe.lts capacity)).Step system label next ∧
    ∀ side act, label = some (side, act) → Sure capacity (system.channels (act.stream side)) act

theorem goesSurely_act {system : Pair Result} {side : Bool} {act : Io} {prog next : Prog Result}
    {after : Pipe} (here : system.programs side = prog) (own : prog.Step (some act) next)
    (its : Pipe.Step capacity (system.channels (act.stream side)) (some act) after)
    (sure : Sure capacity (system.channels (act.stream side)) act) :
    GoesSurely capacity system := by
  refine ⟨_, _, .act system side act next after (here ▸ own) its, ?_⟩
  intro side' act' label
  cases label
  exact sure

theorem goesSurely_compute {system : Pair Result} {side : Bool} {prog next : Prog Result}
    (here : system.programs side = prog) (own : prog.Step none next) :
    GoesSurely capacity system := by
  refine ⟨_, _, .compute system side next (here ▸ own), ?_⟩
  intro side' act' label
  cases label

/-- A writer that was not in time goes on, unless its pipe is full. -/
theorem dirty_goes {side : Bool} {system : Pair Result}
    (flushes : (system.programs side).Flushes true) :
    GoesSurely capacity system ∨
      ∃ bound ∈ capacity, bound ≤ (system.channels side).queue.length := by
  cases here : system.programs side with
  | done result =>
      rw [here] at flushes
      cases flushes
  | read missing got next =>
      rw [here] at flushes
      cases flushes.1
  | flush next => exact .inl (goesSurely_act here (.flush next) (.flush _) trivial)
  | write bytes next =>
      cases bytes with
      | nil => exact .inl (goesSurely_compute here (.written next))
      | cons byte bytes =>
          by_cases room : Pipe.Fits capacity ((system.channels side).queue.length + 1)
          · have own := Prog.Step.write [byte] bytes next (List.cons_ne_nil byte [])
            exact .inl (goesSurely_act here own (.write _ [byte] room) trivial)
          · unfold Pipe.Fits at room
            push Not at room
            obtain ⟨bound, given, less⟩ := room
            exact .inr ⟨bound, given, by omega⟩

theorem InTime.reads {system : Pair Result} (inTime : InTime system) {side : Bool}
    {missing : Nat} {got given : List UInt8} {next : List UInt8 → Prog Result}
    (here : system.programs side = .read missing got next) (some_ : given ≠ [])
    (within : given.length ≤ missing) (there : given <+: (system.channels (!side)).queue) :
    GoesSurely capacity system := by
  obtain ⟨byte, rest, rfl⟩ := List.exists_cons_of_ne_nil some_
  have own := Prog.Step.read missing got [byte] next (List.cons_ne_nil byte [])
    (Nat.le_trans (Nat.le_add_left 1 rest.length) within)
  have first : [byte] <+: (system.channels (!side)).queue :=
    (List.prefix_append [byte] rest).trans there
  have one : Sure capacity (system.channels (!side)) (.read [byte]) →
      GoesSurely capacity system := goesSurely_act here own (.read _ [byte] first)
  obtain ⟨dirty, flushes, clean⟩ := inTime (!side)
  by_cases covered : (system.channels (!side)).taken + 1 ≤ (system.channels (!side)).flushed
  · exact one (.inl covered)
  · cases dirty with
    | false =>
        have flushed := clean rfl
        have length := first.length_le
        rw [Pipe.queue_length, List.length_singleton] at length
        omega
    | true =>
        rcases dirty_goes flushes with goes | full
        · exact goes
        · exact one (.inr full)

/-- Whoever can go on can do so without counting on anything that was not flushed. -/
theorem InTime.surely {system : Pair Result} (inTime : InTime system)
    (goes : ∃ next, Goes capacity system next) : GoesSurely capacity system := by
  obtain ⟨next, goes⟩ := goes
  obtain ⟨side, step⟩ := goes_iff.mp goes
  cases step with
  | compute after own => exact goesSurely_compute rfl own
  | act act after channel own its =>
      cases act with
      | write bytes => exact goesSurely_act rfl own its trivial
      | flush => exact goesSurely_act rfl own its trivial
      | read given =>
          generalize here : system.programs side = prog at own
          cases own with
          | read missing got given next some_ within =>
              cases its with
              | read _ there =>
                  exact inTime.reads here some_ within there

theorem InTime.run {system next : Pair Result} (inTime : InTime system)
    (run : ReflTransGen (Goes capacity) system next) : InTime next := by
  induction run with
  | refl => exact inTime
  | tail _ goes ih => exact ih.step goes

/-! ## A run to the end -/

/-- Both pipes are drained; `one` is the program of this side. -/
structure At (side : Bool) (one other : Prog Result) (system : Pair Result) : Prop where
  own : system.programs side = one
  others : system.programs (!side) = other
  drained : ∀ which, (system.channels which).queue = []

def Reaches (capacity : Option Nat) (side : Bool) (one other one' other' : Prog Result) : Prop :=
  ∀ system, At side one other system →
    ∃ after, ReflTransGen (Goes capacity) system after ∧ At side one' other' after

section Reaches

variable {side : Bool} {one other one' other' one'' other'' : Prog Result}

theorem At.swap {system : Pair Result} (at_ : At side one other system) :
    At (!side) other one system :=
  ⟨at_.others, (Bool.not_not side).symm ▸ at_.own, at_.drained⟩

theorem Reaches.refl : Reaches capacity side one other one other :=
  fun system at_ => ⟨system, .refl, at_⟩

theorem Reaches.trans (first : Reaches capacity side one other one' other')
    (second : Reaches capacity side one' other' one'' other'') :
    Reaches capacity side one other one'' other'' := by
  intro system at_
  obtain ⟨middle, run, there⟩ := first system at_
  obtain ⟨after, later, last⟩ := second middle there
  exact ⟨after, run.trans later, last⟩

theorem Reaches.swap (reaches : Reaches capacity (!side) one other one' other') :
    Reaches capacity side other one other' one' := by
  intro system at_
  obtain ⟨after, run, last⟩ := reaches system at_.swap
  have swapped := last.swap
  rw [Bool.not_not] at swapped
  exact ⟨after, run, swapped⟩

theorem reaches_compute (own : one.Step none one') :
    Reaches capacity side one other one' other := by
  intro system at_
  have step : System.By (Prog.lts Result) capacity side system (system.advance side one') :=
    .compute_of own at_.own rfl
  exact ⟨_, .single (goes_iff.mpr ⟨side, step⟩), System.advance_program ..,
    (step.programs_other (Bool.not_ne_self side)).trans at_.others, at_.drained⟩

theorem reaches_written : Reaches capacity side (.write [] one) other one other :=
  reaches_compute (.written one)

theorem reaches_filled (got : List UInt8) (next : List UInt8 → Prog Result) :
    Reaches capacity side (.read 0 got next) other (next got) other :=
  reaches_compute (.filled got next)

theorem reaches_flush : Reaches capacity side (.flush one) other one other := by
  intro system at_
  have step : System.By (Prog.lts Result) capacity side system
      (system.move side .flush one (system.channels side).flush) :=
    .act_of (.flush one) (.flush _) at_.own rfl rfl
  refine ⟨_, .single (goes_iff.mpr ⟨side, step⟩), System.move_program ..,
    (step.programs_other (Bool.not_ne_self side)).trans at_.others, ?_⟩
  intro which
  by_cases same : which = side
  · subst same
    exact (congrArg Pipe.queue (system.move_channel which .flush one _)).trans
      (at_.drained which)
  · rw [System.move_channel_other _ same]
    exact at_.drained which

/-- One byte goes through the pipe, which has room for it. -/
theorem reaches_byte (some_ : Pipe.Fits capacity 1) (byte : UInt8) (rest got : List UInt8)
    (missing : Nat) (next : List UInt8 → Prog Result) :
    Reaches capacity side (.write (byte :: rest) one) (.read (missing + 1) got next)
      (.write rest one) (.read missing (got ++ [byte]) next) := by
  intro system at_
  have empty := at_.drained side
  have room : Pipe.Fits capacity ((system.channels side).queue.length + [byte].length) := by
    rw [empty]
    exact some_
  have full : ((system.channels side).write [byte]).queue = [byte] := by
    rw [Pipe.write_queue, empty]
    rfl
  have there : [byte] <+: ((system.channels side).write [byte]).queue := by rw [full]
  have writes : System.By (Prog.lts Result) capacity side system _ :=
    .act_of (.write [byte] rest one (List.cons_ne_nil byte [])) (.write _ [byte] room) at_.own rfl
      rfl
  have others := (writes.programs_other (Bool.not_ne_self side)).trans at_.others
  have same : Io.stream (!side) (.read [byte]) = side := Bool.not_not side
  have reads : System.By (Prog.lts Result) capacity (!side) _ _ := .act_of
    (.read (missing + 1) got [byte] next (List.cons_ne_nil byte []) (Nat.le_add_left 1 missing))
    (.read _ [byte] there) others
    (by rw [same]; exact System.move_channel system side (.write [byte]) _ _) rfl
  refine ⟨_, .tail (.single (goes_iff.mpr ⟨side, writes⟩)) (goes_iff.mpr ⟨!side, reads⟩),
    (reads.programs_other (Bool.not_ne_self side).symm).trans (System.move_program ..),
    System.move_program .., ?_⟩
  intro which
  by_cases here : which = Io.stream (!side) (.read [byte])
  · have taken := Pipe.read_queue _ there
    rw [full] at taken
    rw [here, System.move_channel]
    exact (List.append_right_eq_self.mp taken.symm)
  · rw [System.move_channel_other _ here]
    rw [same] at here
    rw [System.move_channel_other _ here]
    exact at_.drained which

/-- What a program writes first is what the other one reads first. -/
theorem reaches_hand (some_ : Pipe.Fits capacity 1) (bytes rest got : List UInt8) (missing : Nat)
    (next : List UInt8 → Prog Result) :
    Reaches capacity side (.write (bytes ++ rest) one) (.read (bytes.length + missing) got next)
      (.write rest one) (.read missing (got ++ bytes) next) := by
  induction bytes generalizing got with
  | nil =>
      rw [List.append_nil, List.length_nil, Nat.zero_add]
      exact .refl
  | cons byte bytes ih =>
      have first := @reaches_byte _ capacity side one some_ byte (bytes ++ rest) got
        (bytes.length + missing) next
      have others := ih (got ++ [byte])
      rw [List.append_assoc] at others
      rw [List.length_cons, Nat.add_right_comm]
      exact first.trans others

/-- The last read of a write, which asks for all that is left of it. -/
theorem reaches_last (some_ : Pipe.Fits capacity 1) (bytes : List UInt8)
    (next : List UInt8 → Prog Result) :
    Reaches capacity side (.write bytes one) (.read bytes.length [] next) one (next bytes) := by
  have hand := @reaches_hand _ capacity side one some_ bytes [] [] 0 next
  rw [List.append_nil, Nat.add_zero, List.nil_append] at hand
  exact (hand.trans reaches_written).trans (Reaches.swap (reaches_filled bytes next))

end Reaches

/-! ## What one side has left for the other -/

theorem queue_grows {side : Bool} {system next : Pair Result}
    (step : System.By (Prog.lts Result) capacity side system next) :
    (system.channels side).queue <+: (next.channels side).queue := by
  cases step with
  | compute after own => exact List.prefix_refl _
  | act act after channel own its =>
      cases act with
      | write bytes =>
          have there := system.move_channel side (.write bytes) after channel
          rw [show Io.stream side (.write bytes) = side from rfl] at there its
          rw [there]
          cases its
          rw [Pipe.write_queue]
          exact List.prefix_append ..
      | flush =>
          have there := system.move_channel side .flush after channel
          rw [show Io.stream side .flush = side from rfl] at there its
          rw [there]
          cases its
          exact List.prefix_refl _
      | read given =>
          have apart : side ≠ Io.stream side (.read given) := (Bool.not_ne_self side).symm
          rw [System.move_channel_other _ apart]

/-- A side that is done does not step. -/
theorem other_steps {side which : Bool} {result : Result} {system next : Pair Result}
    (done : system.programs side = .done result)
    (step : System.By (Prog.lts Result) capacity which system next) : which = !side := by
  by_contra same
  have equal : which = side := by
    cases which <;> cases side <;> simp_all
  subst equal
  obtain ⟨label, own⟩ := step.own
  rw [done] at own
  cases own

/-- A side that is done has taken all that there is for it. -/
theorem done_drained {side : Bool} {result : Result} {system final : Pair Result}
    (run : ReflTransGen (Goes capacity) system final)
    (done : system.programs (!side) = .done result)
    (drained : (final.channels side).queue = []) : (system.channels side).queue = [] := by
  induction run using ReflTransGen.head_induction_on with
  | refl => exact drained
  | head goes run ih =>
      have later := ih (done_stays (.single goes) done)
      obtain ⟨which, step⟩ := goes_iff.mp goes
      have own := other_steps done step
      rw [Bool.not_not] at own
      subst own
      have grows := queue_grows step
      rw [later] at grows
      exact List.prefix_nil.mp grows

/-- A side that is done has left all that the other one still waits for. -/
theorem done_supplies {side : Bool} {result result' : Result} {system final : Pair Result}
    {missing : Nat} {got : List UInt8} {next : List UInt8 → Prog Result}
    (run : ReflTransGen (Goes capacity) system final)
    (done : system.programs side = .done result)
    (reads : system.programs (!side) = .read missing got next)
    (last : final.programs (!side) = .done result') :
    missing ≤ (system.channels side).queue.length := by
  induction run using ReflTransGen.head_induction_on generalizing missing got with
  | refl =>
      rw [last] at reads
      cases reads
  | @head before between goes run ih =>
      obtain ⟨which, step⟩ := goes_iff.mp goes
      have still := done_stays (.single goes) done
      have reader := other_steps done step
      subst reader
      cases step with
      | compute after own =>
          rw [reads] at own
          cases own
          exact Nat.zero_le _
      | act act after channel own its =>
          rw [reads] at own
          cases own with
          | read _ _ given _ some_ within =>
              have there := System.move_channel before (!side) (.read given)
                (Prog.read (missing - given.length) (got ++ given) next) channel
              have same : Io.stream (!side) (.read given) = side := Bool.not_not side
              have later := ih still (System.move_program ..)
              rw [same] at there its
              rw [there] at later
              cases its with
              | read _ prefix_ =>
                  have split := Pipe.read_queue _ prefix_
                  rw [split, List.length_append]
                  omega

/-- Two programs over empty pipes. -/
def start (one other : Prog Result) : Pair Result where
  programs side := if side then one else other
  channels _ := .empty

theorem start_at (one other : Prog Result) : At true one other (start one other) :=
  ⟨rfl, rfl, fun _ => rfl⟩

theorem Reaches.completes {one other : Prog Result} {result result' : Result}
    (reaches : Reaches capacity true one other (.done result) (.done result')) :
    ∃ final, Completes capacity (start one other) final ∧
      At true (.done result) (.done result') final := by
  obtain ⟨final, run, at_⟩ := reaches _ (start_at one other)
  have done : ∀ side, final.programs side = .done (if side then result else result') := by
    intro side
    cases side with
    | true => exact at_.own
    | false => exact at_.others
  exact ⟨final, Pair.completes run (done_last done), at_⟩

end Pair
end Gday.Lib.Program
