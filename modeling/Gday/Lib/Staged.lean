import Gday.Lib.Program

/-! # A program, and what comes after it

Each side goes on with another protocol once its program is done, also while the other side
is still in its own.  Where the programs complete, every state is one of the programs and one
of the protocol, side by side: neither gets a byte that was meant for the other. -/
set_option autoImplicit false
namespace Gday.Lib.Staged

open Relation Gday.Lib.Transition Gday.Lib.Duplex Gday.Lib.Program

inductive Stage (Result After : Type) where
  | first (prog : Prog Result)
  | second (state : After)

section Definitions

variable {Result After : Type} (after : Lts After Io) (goOn : Result → After)

inductive Stage.Step : Stage Result After → Option Io → Stage Result After → Prop where
  | first (prog next : Prog Result) (label : Option Io) (own : prog.Step label next) :
      Step (.first prog) label (.first next)
  | ended (result : Result) : Step (.first (.done result)) none (.second (goOn result))
  | second (state next : After) (label : Option Io) (own : after.Step state label next) :
      Step (.second state) label (.second next)

def Stage.lts : Lts (Stage Result After) Io := ⟨Stage.Step after goOn⟩

def startStaged (one other : Prog Result) : System (Stage Result After) Pipe where
  programs side := .first (if side then one else other)
  channels _ := .empty

/-- Where the second protocol starts from. -/
def startAfter (results : Bool → Result) : System After Pipe where
  programs side := goOn (results side)
  channels _ := .empty

end Definitions

/-! ## Pipes in two parts -/

structure Joined (whole first second : Pipe) : Prop where
  written : whole.written = first.written ++ second.written
  taken : whole.taken = first.taken + second.taken
  flushed : first.flushed + second.flushed ≤ whole.flushed

section Joined

variable {whole first second after : Pipe} {capacity : Option Nat} {act : Io}

theorem Joined.queue (joined : Joined whole first second)
    (apart : second.taken = 0 ∨ first.queue = []) : whole.queue = first.queue ++ second.queue := by
  unfold Pipe.queue at *
  rw [joined.written, joined.taken]
  rcases apart with none_ | drained
  · rw [none_, Nat.add_zero, List.drop_zero, List.drop_append_of_le_length first.taken_le]
  · have all : first.taken = first.written.length :=
      Nat.le_antisymm first.taken_le (List.drop_eq_nil_iff.mp drained)
    rw [drained, List.nil_append, all, List.drop_length_add_append]

/-- The first part acts, and the second one has not begun at this end. -/
theorem Joined.actsFirst (joined : Joined whole first second)
    (step : Pipe.Step capacity whole (some act) after)
    (writes : act.isRead = false → second.written = [])
    (reads : ∀ given, act = .read given → second.taken = 0 ∧ given <+: first.queue) :
    ∃ next, Pipe.Step capacity first (some act) next ∧ Joined after next second := by
  cases step with
  | write bytes room =>
      have unwritten := writes rfl
      have none_ : second.taken = 0 := by
        have within := second.taken_le
        rw [unwritten] at within
        exact Nat.le_zero.mp within
      rw [joined.queue (.inl none_), List.length_append] at room
      refine ⟨_, .write first bytes (room.less (by omega)), ?_, joined.taken, joined.flushed⟩
      show whole.written ++ bytes = first.written ++ bytes ++ second.written
      rw [joined.written, unwritten, List.append_nil, List.append_nil]
  | flush =>
      refine ⟨_, .flush first, joined.written, joined.taken, ?_⟩
      show first.written.length + second.flushed ≤ whole.written.length
      rw [joined.written, List.length_append]
      exact Nat.add_le_add_left second.flushed_le _
  | read given there =>
      obtain ⟨none_, prefix_⟩ := reads given rfl
      refine ⟨_, .read first given prefix_, joined.written, ?_, joined.flushed⟩
      show whole.taken + given.length = first.taken + given.length + second.taken
      rw [joined.taken, none_]
      omega

/-- The second part acts, and the first one is over at this end. -/
theorem Joined.actsSecond (joined : Joined whole first second)
    (apart : second.taken = 0 ∨ first.queue = [])
    (step : Pipe.Step capacity whole (some act) after)
    (reads : act.isRead = true → first.queue = []) :
    ∃ next, Pipe.Step capacity second (some act) next ∧ Joined after first next := by
  have queue := joined.queue apart
  cases step with
  | write bytes room =>
      rw [queue, List.length_append] at room
      refine ⟨_, .write second bytes (room.less (by omega)), ?_, joined.taken, joined.flushed⟩
      show whole.written ++ bytes = first.written ++ (second.written ++ bytes)
      rw [joined.written, List.append_assoc]
  | flush =>
      refine ⟨_, .flush second, joined.written, joined.taken, ?_⟩
      show first.flushed + second.written.length ≤ whole.written.length
      rw [joined.written, List.length_append]
      exact Nat.add_le_add_right first.flushed_le _
  | read given there =>
      have drained := reads rfl
      rw [drained, List.nil_append] at queue
      refine ⟨_, .read second given (queue ▸ there), joined.written, ?_, joined.flushed⟩
      show whole.taken + given.length = first.taken + (second.taken + given.length)
      rw [joined.taken, Nat.add_assoc]

end Joined

/-! ## States in two parts -/

section Splits

variable {Result After : Type} {after : Lts After Io} {goOn : Result → After}
  {results : Bool → Result} {capacity : Option Nat}

def SideSplits (goOn : Result → After) (result : Result) :
    Stage Result After → Prog Result → After → Prop
  | .first own, prog, state => prog = own ∧ state = goOn result
  | .second own, prog, state => prog = .done result ∧ state = own

structure Splits (goOn : Result → After) (results : Bool → Result)
    (whole : System (Stage Result After) Pipe) (first : Pair Result) (second : System After Pipe) :
    Prop where
  sides : ∀ side, SideSplits goOn (results side) (whole.programs side) (first.programs side)
    (second.programs side)
  joined : ∀ side, Joined (whole.channels side) (first.channels side) (second.channels side)
  idle : ∀ side prog, whole.programs side = .first prog →
    (second.channels side).written = [] ∧ (second.channels (!side)).taken = 0

theorem start_splits (one other : Prog Result) :
    Splits goOn results (startStaged one other) (Pair.start one other)
      (startAfter goOn results) where
  sides _ := ⟨rfl, rfl⟩
  joined _ := ⟨rfl, rfl, Nat.le_refl 0⟩
  idle _ _ _ := ⟨rfl, rfl⟩

/-- Programs that complete, with empty pipes at the end. -/
structure Completing (capacity : Option Nat) (results : Bool → Result) (start : Pair Result) :
    Prop where
  completes : ∃ final, Pair.Completes capacity start final ∧
    (∀ side, final.programs side = .done (results side)) ∧
    ∀ side, (final.channels side).queue = []

variable {start : Pair Result} (completing : Completing capacity results start)
  {whole next : System (Stage Result After) Pipe} {first : Pair Result}
  {second : System After Pipe}
  (reached : ReflTransGen (Pair.Goes capacity) start first)
  (splits : Splits goOn results whole first second)

include completing reached in
theorem Completing.result {side : Bool} {result : Result}
    (done : first.programs side = .done result) : result = results side := by
  obtain ⟨final, completes, finished, _⟩ := completing.completes
  have last := Pair.done_stays (completes.toFinal first reached) done
  rw [finished side] at last
  cases last
  rfl

include completing reached in
theorem Completing.drained {side : Bool} {result : Result}
    (done : first.programs (!side) = .done result) : (first.channels side).queue = [] := by
  obtain ⟨final, completes, _, drained⟩ := completing.completes
  exact Pair.done_drained (completes.toFinal first reached) done (drained side)

include completing reached in
theorem Completing.supplies {side : Bool} {result : Result} {missing : Nat} {got : List UInt8}
    {next : List UInt8 → Prog Result} (done : first.programs side = .done result)
    (reads : first.programs (!side) = .read missing got next) :
    missing ≤ (first.channels side).queue.length := by
  obtain ⟨final, completes, finished, _⟩ := completing.completes
  exact Pair.done_supplies (completes.toFinal first reached) done reads (finished _)

include completing reached splits in
/-- At each pipe the second part has not begun to read, or the first one is over. -/
theorem Splits.apart (side : Bool) :
    (second.channels side).taken = 0 ∨ (first.channels side).queue = [] := by
  have reader := splits.sides (!side)
  cases here : whole.programs (!side) with
  | first prog =>
      have idle := (splits.idle (!side) prog here).2
      rw [Bool.not_not] at idle
      exact .inl idle
  | second state =>
      rw [here] at reader
      exact .inr (completing.drained reached reader.1)

include completing reached splits in
/-- What a program is given is from its own part: the other side has left enough of it. -/
theorem Splits.readsFirst {side : Bool} {missing : Nat} {got given : List UInt8}
    {next : List UInt8 → Prog Result} (here : whole.programs side = .first (.read missing got next))
    (within : given.length ≤ missing) (there : given <+: (whole.channels (!side)).queue) :
    given <+: (first.channels (!side)).queue := by
  have queue := (splits.joined (!side)).queue (.inl (splits.idle side _ here).2)
  have reader := splits.sides side
  rw [here] at reader
  rw [queue] at there
  cases other : whole.programs (!side) with
  | first prog =>
      have unwritten := (splits.idle (!side) prog other).1
      have empty : (second.channels (!side)).queue = [] := by
        unfold Pipe.queue
        rw [unwritten, List.drop_nil]
      rw [empty, List.append_nil] at there
      exact there
  | second state =>
      have writer := splits.sides (!side)
      rw [other] at writer
      have enough := completing.supplies reached writer.1
        ((congrArg first.programs (Bool.not_not side)).trans reader.1)
      exact List.prefix_of_prefix_length_le there (List.prefix_append ..) (by omega)

include completing reached splits in
/-- A side in its program acts: so does the program. -/
theorem Splits.actsFirst {side : Bool} {prog after_ : Prog Result} {act : Io} {channel : Pipe}
    (here : whole.programs side = .first prog) (own : prog.Step (some act) after_)
    (its : Pipe.Step capacity (whole.channels (act.stream side)) (some act) channel) :
    ∃ next, System.By (Prog.lts Result) capacity side first next ∧
      Splits goOn results (whole.move side act (.first after_) channel) next second := by
  have mine := splits.sides side
  have idle := splits.idle side prog here
  rw [here] at mine
  have writes : act.isRead = false → (second.channels (act.stream side)).written = [] := by
    intro noRead
    cases act with
    | read given => cases noRead
    | write bytes => exact idle.1
    | flush => exact idle.1
  have reads : ∀ given, act = .read given → (second.channels (act.stream side)).taken = 0 ∧
      given <+: (first.channels (act.stream side)).queue := by
    rintro given rfl
    refine ⟨idle.2, ?_⟩
    cases own with
    | read missing got given next some_ within =>
        cases its with
        | read _ there => exact splits.readsFirst completing reached here within there
  obtain ⟨channel', step, joined⟩ :=
    (splits.joined (act.stream side)).actsFirst its writes reads
  refine ⟨first.move side act after_ channel', .act_of own step mine.1 rfl rfl, ?_, ?_, ?_⟩
  · intro which
    by_cases same : which = side
    · subst same
      rw [System.move_program, System.move_program]
      exact ⟨rfl, mine.2⟩
    · rw [System.move_program_other _ same, System.move_program_other _ same]
      exact splits.sides which
  · intro which
    by_cases same : which = act.stream side
    · subst same
      rw [System.move_channel, System.move_channel]
      exact joined
    · rw [System.move_channel_other _ same, System.move_channel_other _ same]
      exact splits.joined which
  · intro which prog' still
    by_cases same : which = side
    · subst same
      exact idle
    · rw [System.move_program_other _ same] at still
      exact splits.idle which prog' still

include splits in
theorem Splits.computesFirst {side : Bool} {prog after_ : Prog Result}
    (here : whole.programs side = .first prog) (own : prog.Step none after_) :
    ∃ next, System.By (Prog.lts Result) capacity side first next ∧
      Splits goOn results (whole.advance side (.first after_)) next second := by
  have mine := splits.sides side
  rw [here] at mine
  refine ⟨first.advance side after_, .compute_of own mine.1 rfl, ?_, splits.joined, ?_⟩
  · intro which
    by_cases same : which = side
    · subst same
      rw [System.advance_program, System.advance_program]
      exact ⟨rfl, mine.2⟩
    · rw [System.advance_program_other _ same, System.advance_program_other _ same]
      exact splits.sides which
  · intro which prog' still
    by_cases same : which = side
    · subst same
      exact splits.idle which prog here
    · rw [System.advance_program_other _ same] at still
      exact splits.idle which prog' still

include completing reached splits in
/-- A program that is done gives way to what comes after it. -/
theorem Splits.ends {side : Bool} {result : Result}
    (here : whole.programs side = .first (.done result)) :
    Splits goOn results (whole.advance side (.second (goOn result))) first second := by
  have mine := splits.sides side
  rw [here] at mine
  have known := completing.result reached mine.1
  subst known
  refine ⟨?_, splits.joined, ?_⟩
  · intro which
    by_cases same : which = side
    · subst same
      rw [System.advance_program]
      exact mine
    · rw [System.advance_program_other _ same]
      exact splits.sides which
  · intro which prog' still
    by_cases same : which = side
    · subst same
      exact splits.idle which _ here
    · rw [System.advance_program_other _ same] at still
      exact splits.idle which prog' still

include splits in
theorem Splits.computesSecond {side : Bool} {state after_ : After}
    (here : whole.programs side = .second state) (own : after.Step state none after_) :
    ∃ next, System.By after capacity side second next ∧
      Splits goOn results (whole.advance side (.second after_)) first next := by
  have mine := splits.sides side
  rw [here] at mine
  refine ⟨second.advance side after_, .compute_of own mine.2 rfl, ?_, splits.joined, ?_⟩
  · intro which
    by_cases same : which = side
    · subst same
      rw [System.advance_program, System.advance_program]
      exact ⟨mine.1, rfl⟩
    · rw [System.advance_program_other _ same, System.advance_program_other _ same]
      exact splits.sides which
  · intro which prog' still
    by_cases same : which = side
    · subst same
      rw [System.advance_program] at still
      cases still
    · rw [System.advance_program_other _ same] at still
      exact splits.idle which prog' still

include completing reached splits in
/-- A side behind its program acts: so does what comes after it. -/
theorem Splits.actsSecond {side : Bool} {state after_ : After} {act : Io} {channel : Pipe}
    (here : whole.programs side = .second state) (own : after.Step state (some act) after_)
    (its : Pipe.Step capacity (whole.channels (act.stream side)) (some act) channel) :
    ∃ next, System.By after capacity side second next ∧
      Splits goOn results (whole.move side act (.second after_) channel) first next := by
  have mine := splits.sides side
  rw [here] at mine
  have drained : act.isRead = true → (first.channels (act.stream side)).queue = [] := by
    intro isRead
    cases act with
    | read given =>
        have done : first.programs (!!side) = .done (results side) := by
          rw [Bool.not_not]
          exact mine.1
        exact completing.drained reached done
    | write bytes => cases isRead
    | flush => cases isRead
  obtain ⟨channel', step, joined⟩ := (splits.joined (act.stream side)).actsSecond
    (splits.apart completing reached _) its drained
  refine ⟨second.move side act after_ channel', .act_of own step mine.2 rfl rfl, ?_, ?_, ?_⟩
  · intro which
    by_cases same : which = side
    · subst same
      rw [System.move_program, System.move_program]
      exact ⟨mine.1, rfl⟩
    · rw [System.move_program_other _ same, System.move_program_other _ same]
      exact splits.sides which
  · intro which
    by_cases same : which = act.stream side
    · subst same
      rw [System.move_channel, System.move_channel]
      exact joined
    · rw [System.move_channel_other _ same, System.move_channel_other _ same]
      exact splits.joined which
  · intro which prog' still
    by_cases same : which = side
    · subst same
      rw [System.move_program] at still
      cases still
    · rw [System.move_program_other _ same] at still
      obtain ⟨unwritten, untaken⟩ := splits.idle which prog' still
      refine ⟨?_, ?_⟩
      · by_cases there : which = act.stream side
        · have isRead := (act.isRead_iff side).mpr (there ▸ same)
          rw [there, System.move_channel, step.unwritten isRead, ← there]
          exact unwritten
        · rw [System.move_channel_other _ there]
          exact unwritten
      · by_cases there : (!which) = act.stream side
        · have own : (!which) = side := by
            cases which <;> cases side <;> simp_all
          have noRead : act.isRead = false := by
            rw [← Bool.not_eq_true, act.isRead_iff side, ← there, own]
            exact fun differ => differ rfl
          rw [there, System.move_channel, step.untaken noRead, ← there]
          exact untaken
        · rw [System.move_channel_other _ there]
          exact untaken

include completing reached splits in
/-- Every step is one of the programs, or one of what comes after them, or the hand-over. -/
theorem Splits.step {side : Bool}
    (step : System.By (Stage.lts after goOn) capacity side whole next) :
    ∃ first' second', ReflTransGen (Pair.Goes capacity) first first' ∧
      ReflTransGen (System.lts after (Pipe.lts capacity)).Moves second second' ∧
      Splits goOn results next first' second' := by
  cases step with
  | compute stage own =>
      generalize here : whole.programs side = start at own
      cases own with
      | first prog after_ _ own =>
          obtain ⟨first', goes, splits'⟩ := splits.computesFirst here own
          exact ⟨first', second, .single (Pair.goes_iff.mpr ⟨side, goes⟩), .refl, splits'⟩
      | ended result => exact ⟨first, second, .refl, .refl, splits.ends completing reached here⟩
      | second state after_ _ own =>
          obtain ⟨second', goes, splits'⟩ := splits.computesSecond here own
          exact ⟨first, second', .refl, .single (System.moves_iff.mpr ⟨side, goes⟩), splits'⟩
  | act act stage channel own its =>
      generalize here : whole.programs side = start at own
      cases own with
      | first prog after_ _ own =>
          obtain ⟨first', goes, splits'⟩ := splits.actsFirst completing reached here own its
          exact ⟨first', second, .single (Pair.goes_iff.mpr ⟨side, goes⟩), .refl, splits'⟩
      | second state after_ _ own =>
          obtain ⟨second', goes, splits'⟩ := splits.actsSecond completing reached here own its
          exact ⟨first, second', .refl, .single (System.moves_iff.mpr ⟨side, goes⟩), splits'⟩

/-! ### Going on -/

/-- A side that is in its program has a step that no stream can hold back. -/
def GoesFirst (after : Lts After Io) (goOn : Result → After) (capacity : Option Nat)
    (whole : System (Stage Result After) Pipe) : Prop :=
  ∃ side prog label next, whole.programs side = .first prog ∧
    Stage.Step after goOn (.first prog) label next ∧
    ∀ act, label = some act →
      (∃ channel, Pipe.Step capacity (whole.channels (act.stream side)) (some act) channel) ∧
        Pair.Sure capacity (whole.channels (act.stream side)) act

include splits in
/-- What a program can do at a stream of its own it can do at the one that there is. -/
theorem Splits.permits {side : Bool} {prog : Prog Result} {act : Io} {channel : Pipe}
    (here : whole.programs side = .first prog)
    (its : Pipe.Step capacity (first.channels (act.stream side)) (some act) channel)
    (sure : Pair.Sure capacity (first.channels (act.stream side)) act) :
    (∃ channel, Pipe.Step capacity (whole.channels (act.stream side)) (some act) channel) ∧
      Pair.Sure capacity (whole.channels (act.stream side)) act := by
  obtain ⟨unwritten, untaken⟩ := splits.idle side prog here
  have joined := splits.joined (act.stream side)
  cases its with
  | flush => exact ⟨⟨_, .flush _⟩, trivial⟩
  | write bytes room =>
      have empty : (second.channels side).queue = [] := by
        unfold Pipe.queue
        rw [unwritten, List.drop_nil]
      have none_ : (second.channels side).taken = 0 := by
        have within := (second.channels side).taken_le
        rw [unwritten] at within
        exact Nat.le_zero.mp within
      have queue := (splits.joined side).queue (.inl none_)
      rw [empty, List.append_nil] at queue
      exact ⟨⟨_, .write _ bytes (queue ▸ room)⟩, trivial⟩
  | read given there =>
      have queue := (splits.joined (!side)).queue (.inl untaken)
      have start : (first.channels (!side)).queue <+: (whole.channels (!side)).queue := by
        rw [queue]
        exact List.prefix_append ..
      refine ⟨⟨_, .read _ given (there.trans start)⟩, ?_⟩
      rcases sure with flushed | ⟨bound, given_, full⟩
      · have more := joined.flushed
        have taken := joined.taken
        have untaken : (second.channels (Io.stream side (.read given))).taken = 0 := untaken
        left
        omega
      · exact .inr ⟨bound, given_, Nat.le_trans full start.length_le⟩

include completing reached splits in
/-- As long as a side is in its program, one that is can go on. -/
theorem Splits.goes (inTime : Pair.InTime first) {side : Bool} {prog : Prog Result}
    (here : whole.programs side = .first prog) : GoesFirst after goOn capacity whole := by
  obtain ⟨final, completes, finished, _⟩ := completing.completes
  by_cases last : first = final
  · have mine := splits.sides side
    rw [here, last, finished side] at mine
    obtain ⟨rfl, _⟩ := mine
    exact ⟨side, _, none, _, here, .ended _, fun act some_ => nomatch some_⟩
  · obtain ⟨label, next, step, sure⟩ := inTime.surely (completes.goes reached last)
    cases step with
    | transmit which channel its => cases its
    | compute which prog' own =>
        have mine := splits.sides which
        cases stage : whole.programs which with
        | first prog =>
            rw [stage] at mine
            rw [mine.1] at own
            exact ⟨which, prog, none, _, stage, .first _ _ _ own, fun act some_ => nomatch some_⟩
        | second state =>
            rw [stage] at mine
            rw [mine.1] at own
            cases own
    | act which act prog' channel own its =>
        have mine := splits.sides which
        cases stage : whole.programs which with
        | first prog =>
            rw [stage] at mine
            rw [mine.1] at own
            refine ⟨which, prog, some act, _, stage, .first _ _ _ own, fun act' same => ?_⟩
            cases same
            exact splits.permits stage its (sure which act rfl)
        | second state =>
            rw [stage] at mine
            rw [mine.1] at own
            cases own

end Splits

/-- Every state of the whole is a state of the programs and one of what comes after them, as if
each of the two had streams of its own. -/
theorem Completing.splits {Result After : Type} {after : Lts After Io} {goOn : Result → After}
    {results : Bool → Result} {capacity : Option Nat} {one other : Prog Result}
    (completing : Completing capacity results (Pair.start one other))
    {state : System (Stage Result After) Pipe}
    (reached : ReflTransGen (System.lts (Stage.lts after goOn) (Pipe.lts capacity)).Moves
      (startStaged one other) state) :
    ∃ first second, ReflTransGen (Pair.Goes capacity) (Pair.start one other) first ∧
      ReflTransGen (System.lts after (Pipe.lts capacity)).Moves (startAfter goOn results) second ∧
      Splits goOn results state first second := by
  induction reached with
  | refl => exact ⟨_, _, .refl, .refl, start_splits one other⟩
  | tail _ moves ih =>
      obtain ⟨first, second, reachedFirst, reachedSecond, splits⟩ := ih
      obtain ⟨side, step⟩ := System.moves_iff.mp moves
      obtain ⟨first', second', further, furtherSecond, splits'⟩ :=
        splits.step completing reachedFirst step
      exact ⟨first', second', reachedFirst.trans further, reachedSecond.trans furtherSecond,
        splits'⟩
end Gday.Lib.Staged
