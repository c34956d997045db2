import Mathlib

/-! # Unix paths, read without looking at a file system

A path is a string of characters; its components are what `std::path` makes of it.  Two
paths that have the same components compare equal and lead to the same place.  Only a call that
creates or opens a file may still tell them apart: it is refused where the string ends in a
separator or a dot.  `resolve` says where a path leads when `..` takes away the name before it,
and `within_iff` when every step along a path stays below a given folder. -/
set_option autoImplicit false
namespace Gday.Lib.LexicalPath

abbrev Path := List Char

inductive Component where
  | rootDir
  | curDir
  | parentDir
  | normal (name : List Char)
  deriving DecidableEq, Repr

/-- The pieces between the separators; there is always at least one. -/
def pieces : Path → List (List Char)
  | [] => [[]]
  | char :: rest =>
      if char = '/' then [] :: pieces rest
      else
        match pieces rest with
        | [] => [[char]]
        | piece :: others => (char :: piece) :: others

def pieceComponent (piece : List Char) : Option Component :=
  if piece = [] ∨ piece = ['.'] then none
  else if piece = ['.', '.'] then some .parentDir
  else some (.normal piece)

/-- The components behind the root and a leading dot. -/
def segments (path : Path) : List Component := (pieces path).filterMap pieceComponent

def isAbsolute (path : Path) : Bool := path.head? == some '/'

/-- `Path::components`: a dot counts only where a relative path starts with it. -/
def components (path : Path) : List Component :=
  if isAbsolute path then .rootDir :: segments path
  else if (pieces path).head? = some ['.'] then .curDir :: segments path
  else segments path

/-- `Path::join`: an absolute path replaces the base. -/
def join (base path : Path) : Path :=
  if isAbsolute path then path
  else if base.getLast?.all (· == '/') then base ++ path
  else base ++ '/' :: path

/-- The components of `Path::parent`, which the root and the empty path do not have. -/
def parent (comps : List Component) : Option (List Component) :=
  match comps.getLast? with
  | none => none
  | some .rootDir => none
  | some _ => some comps.dropLast

/-- `Path::strip_prefix`. -/
def stripPrefix (base path : List Component) : Option (List Component) :=
  if base <+: path then some (path.drop base.length) else none

theorem pieces_ne_nil (path : Path) : pieces path ≠ [] := by
  cases path with
  | nil => simp [pieces]
  | cons char rest =>
      rw [pieces]
      by_cases separator : char = '/'
      · simp [separator]
      · rw [if_neg separator]
        cases pieces rest <;> simp

/-- A separator cuts the pieces in two. -/
theorem pieces_append (first second : Path) :
    pieces (first ++ '/' :: second) = pieces first ++ pieces second := by
  induction first with
  | nil => simp [pieces]
  | cons char rest ih =>
      rw [List.cons_append, pieces, pieces, ih]
      by_cases separator : char = '/'
      · simp [separator]
      · rw [if_neg separator, if_neg separator]
        cases rest_ : pieces rest with
        | nil => exact absurd rest_ (pieces_ne_nil rest)
        | cons piece others => rfl

theorem segments_no_root (path : Path) : Component.rootDir ∉ segments path := by
  intro member
  obtain ⟨piece, _, same⟩ := List.mem_filterMap.mp member
  rw [pieceComponent] at same
  by_cases skipped : piece = [] ∨ piece = ['.']
  · simp [skipped] at same
  · by_cases up : piece = ['.', '.']
    · simp [up] at same
    · simp [skipped, up] at same

/-- What joining to a folder gives: the folder's name and the segments of the path. -/
theorem components_join (name : List Char) (path : Path) (relative : isAbsolute path = false)
    (whole : pieces name = [name]) (isName : pieceComponent name = some (.normal name))
    (nonempty : name ≠ []) :
    components (join (name ++ ['/']) path) = .normal name :: segments path := by
  have joined : join (name ++ ['/']) path = name ++ '/' :: path := by
    rw [join, relative]
    simp
  have split : pieces (name ++ '/' :: path) = name :: pieces path := by
    rw [pieces_append, whole]
    rfl
  have notAbsolute : isAbsolute (name ++ '/' :: path) = false := by
    cases name with
    | nil => exact absurd rfl nonempty
    | cons char rest =>
        by_contra absolute
        rw [Bool.not_eq_false, isAbsolute, List.cons_append, List.head?_cons, beq_iff_eq,
          Option.some.injEq] at absolute
        rw [absolute, pieces, if_pos rfl] at whole
        have lengths := congrArg List.length whole
        have some_ := List.length_pos_iff.mpr (pieces_ne_nil rest)
        simp only [List.length_cons, List.length_nil] at lengths
        omega
  have notDot : (pieces (name ++ '/' :: path)).head? ≠ some ['.'] := by
    rw [split, List.head?_cons]
    intro dot
    rw [Option.some.inj dot, pieceComponent] at isName
    simp at isName
  rw [joined, components, notAbsolute, if_neg (by simp), if_neg notDot, segments, split,
    List.filterMap_cons, isName]
  rfl

/-! ## Where a path leads -/

/-- A place: so many levels above the root or the start, then these names down. -/
structure Location where
  absolute : Bool
  above : Nat
  names : List (List Char)
  deriving DecidableEq, Repr

def Location.enter (location : Location) : Component → Location
  | .rootDir => ⟨true, 0, []⟩
  | .curDir => location
  | .parentDir =>
      if location.names = [] then
        if location.absolute then location else { location with above := location.above + 1 }
      else { location with names := location.names.dropLast }
  | .normal name => { location with names := location.names ++ [name] }

def resolve (comps : List Component) : Location := comps.foldl Location.enter ⟨false, 0, []⟩

/-- At or below the folder of this name. -/
def Inside (folder : List Char) (location : Location) : Prop :=
  location.absolute = false ∧ location.above = 0 ∧ [folder] <+: location.names

instance (folder : List Char) (location : Location) : Decidable (Inside folder location) :=
  inferInstanceAs (Decidable (_ ∧ _ ∧ _))

def isNormal : Component → Bool
  | .normal _ => true
  | _ => false

/-- No prefix of the components goes up more often than down. -/
def Balanced (comps : List Component) : Prop :=
  ∀ start ∈ comps.inits, start.count .parentDir ≤ start.countP isNormal

instance (comps : List Component) : Decidable (Balanced comps) :=
  inferInstanceAs (Decidable (∀ start ∈ comps.inits, _))

theorem resolve_snoc (comps : List Component) (last : Component) :
    resolve (comps ++ [last]) = (resolve comps).enter last := by
  rw [resolve, List.foldl_append]
  rfl

/-- From the root nothing leads back to where one started. -/
theorem resolve_root (comps : List Component) : (resolve (.rootDir :: comps)).absolute = true := by
  induction comps using List.reverseRecOn with
  | nil => rfl
  | append_singleton comps last ih =>
      rw [← List.cons_append, resolve_snoc]
      cases last with
      | rootDir => rfl
      | curDir => exact ih
      | parentDir =>
          by_cases top : (resolve (.rootDir :: comps)).names = []
          · rw [Location.enter, if_pos top, if_pos ih]
            exact ih
          · rw [Location.enter, if_neg top]
            exact ih
      | normal name => exact ih

theorem inits_snoc_forall (comps : List Component) (last : Component)
    (holds : List Component → Prop) :
    (∀ start ∈ (comps ++ [last]).inits, holds start) ↔
      (∀ start ∈ comps.inits, holds start) ∧ holds (comps ++ [last]) := by
  simp only [List.mem_inits, List.prefix_concat_iff]
  constructor
  · intro all
    exact ⟨fun start shorter => all start (Or.inr shorter), all _ (Or.inl rfl)⟩
  · rintro ⟨shorter, whole⟩ start (rfl | isShorter)
    · exact whole
    · exact shorter start isShorter

/-- Where balanced components lead: below the folder, as deep as they are unmatched. -/
theorem Balanced.resolve {comps : List Component} (balanced : Balanced comps)
    (noRoot : Component.rootDir ∉ comps) (folder : List Char) :
    ∃ names, resolve (.normal folder :: comps) = ⟨false, 0, folder :: names⟩ ∧
      names.length + comps.count .parentDir = comps.countP isNormal := by
  induction comps using List.reverseRecOn with
  | nil => exact ⟨[], rfl, rfl⟩
  | append_singleton comps last ih =>
      obtain ⟨shorter, whole⟩ := (inits_snoc_forall comps last _).mp balanced
      obtain ⟨names, start, depth⟩ :=
        ih shorter (fun member => noRoot (List.mem_append_left _ member))
      rw [← List.cons_append, resolve_snoc, start]
      cases last with
      | rootDir => exact absurd (List.mem_append_right _ (List.mem_singleton.mpr rfl)) noRoot
      | curDir =>
          refine ⟨names, rfl, ?_⟩
          rw [List.count_append, List.countP_append]
          exact depth
      | parentDir =>
          rw [List.count_append, List.countP_append] at whole ⊢
          have oneMore : [Component.parentDir].count .parentDir = 1 := rfl
          have noMore : [Component.parentDir].countP isNormal = 0 := rfl
          rw [oneMore, noMore] at whole ⊢
          have some_ : names ≠ [] := by
            intro none
            rw [none, List.length_nil] at depth
            omega
          refine ⟨names.dropLast, ?_, ?_⟩
          · rw [Location.enter, if_neg (List.cons_ne_nil _ _), List.dropLast_cons_of_ne_nil some_]
          · have positive := List.length_pos_iff.mpr some_
            rw [List.length_dropLast]
            omega
      | normal name =>
          refine ⟨names ++ [name], rfl, ?_⟩
          rw [List.count_append, List.countP_append, List.length_append]
          have noMore : [Component.normal name].count .parentDir = 0 := by
            rw [List.count_eq_zero]
            simp
          have oneMore : [Component.normal name].countP isNormal = 1 := rfl
          rw [noMore, oneMore, List.length_singleton]
          omega

/-- Every step of the way below the folder stays there exactly where the components are
balanced. -/
theorem within_iff (comps : List Component) (noRoot : Component.rootDir ∉ comps)
    (folder : List Char) :
    (∀ start ∈ comps.inits, Inside folder (resolve (.normal folder :: start))) ↔
      Balanced comps := by
  constructor
  · intro inside
    induction comps using List.reverseRecOn with
    | nil =>
        intro start member
        rw [List.mem_inits, List.prefix_nil] at member
        rw [member]
        exact Nat.le_refl _
    | append_singleton comps last ih =>
        obtain ⟨shorter, whole⟩ := (inits_snoc_forall comps last _).mp inside
        have restNoRoot : Component.rootDir ∉ comps :=
          fun member => noRoot (List.mem_append_left _ member)
        have balanced := ih restNoRoot shorter
        refine (inits_snoc_forall comps last _).mpr ⟨balanced, ?_⟩
        obtain ⟨names, start, depth⟩ := balanced.resolve restNoRoot folder
        rw [← List.cons_append, resolve_snoc, start] at whole
        rw [List.count_append, List.countP_append]
        cases last with
        | rootDir => exact absurd (List.mem_append_right _ (List.mem_singleton.mpr rfl)) noRoot
        | curDir =>
            have noMore : [Component.curDir].count .parentDir = 0 := rfl
            rw [noMore]
            omega
        | normal name =>
            have noMore : [Component.normal name].count .parentDir = 0 := by
              rw [List.count_eq_zero]
              simp
            rw [noMore]
            omega
        | parentDir =>
            have oneMore : [Component.parentDir].count .parentDir = 1 := rfl
            have some_ : names ≠ [] := by
              intro same
              subst same
              obtain ⟨_, _, below⟩ := whole
              rw [Location.enter, if_neg (List.cons_ne_nil _ _)] at below
              exact absurd below (by simp)
            have positive := List.length_pos_iff.mpr some_
            rw [oneMore]
            omega
  · intro balanced start member
    have startPrefix := List.mem_inits start comps |>.mp member
    have startBalanced : Balanced start := by
      intro shorter isShorter
      exact balanced shorter ((List.mem_inits shorter comps).mpr
        (((List.mem_inits shorter start).mp isShorter).trans startPrefix))
    obtain ⟨names, ends, _⟩ := startBalanced.resolve
      (fun root => noRoot (startPrefix.subset root)) folder
    rw [ends]
    exact ⟨rfl, rfl, ⟨names, rfl⟩⟩

/-! ## Paths of names -/

/-- What an entry of a directory can be called. -/
def IsName (name : List Char) : Prop :=
  name ≠ [] ∧ '/' ∉ name ∧ name ≠ ['.'] ∧ name ≠ ['.', '.']

instance (name : List Char) : Decidable (IsName name) :=
  inferInstanceAs (Decidable (_ ∧ _ ∧ _ ∧ _))

def Component.text : Component → List Char
  | .rootDir => []
  | .curDir => ['.']
  | .parentDir => ['.', '.']
  | .normal name => name

/-- The path with these components. -/
def render : List Component → Path
  | [] => []
  | [.rootDir] => ['/']
  | [last] => last.text
  | first :: rest => first.text ++ '/' :: render rest

theorem pieces_of_notMem (name : List Char) (plain : '/' ∉ name) : pieces name = [name] := by
  induction name with
  | nil => rfl
  | cons char rest ih =>
      have head : char ≠ '/' := fun same => plain (by rw [same]; exact List.mem_cons_self)
      rw [pieces, if_neg head, ih fun member => plain (List.mem_cons_of_mem _ member)]

theorem IsName.component {name : List Char} (valid : IsName name) :
    pieceComponent name = some (.normal name) := by
  obtain ⟨some_, -, notDot, notDots⟩ := valid
  rw [pieceComponent, if_neg (by rintro (none | dot); exacts [some_ none, notDot dot]),
    if_neg notDots]

theorem pieces_render (names : List (List Char)) (valid : ∀ name ∈ names, IsName name)
    (some_ : names ≠ []) : pieces (render (names.map .normal)) = names := by
  induction names with
  | nil => exact absurd rfl some_
  | cons name names ih =>
      have plain := pieces_of_notMem name (valid name List.mem_cons_self).2.1
      cases names with
      | nil => exact plain
      | cons next rest =>
          have later := ih (fun other member => valid other (List.mem_cons_of_mem _ member))
            (List.cons_ne_nil _ _)
          have text : render (Component.normal name :: (next :: rest).map Component.normal) =
              name ++ '/' :: render ((next :: rest).map Component.normal) := rfl
          rw [List.map_cons, text, pieces_append, plain, later]
          rfl

theorem segments_render (names : List (List Char)) (valid : ∀ name ∈ names, IsName name) :
    segments (render (names.map .normal)) = names.map .normal := by
  cases names with
  | nil => rfl
  | cons name rest =>
      rw [segments, pieces_render _ valid (List.cons_ne_nil _ _)]
      generalize name :: rest = all at valid
      induction all with
      | nil => rfl
      | cons name all ih =>
          rw [List.filterMap_cons, (valid name List.mem_cons_self).component]
          exact congrArg (Component.normal name :: ·)
            (ih fun other member => valid other (List.mem_cons_of_mem _ member))

theorem isAbsolute_render (names : List (List Char)) (valid : ∀ name ∈ names, IsName name) :
    isAbsolute (render (names.map .normal)) = false := by
  have notFirst : ∀ (name rest : List Char), IsName name → isAbsolute (name ++ rest) = false := by
    intro name rest ok
    cases name with
    | nil => exact absurd rfl ok.1
    | cons char name =>
        have head : char ≠ '/' := fun same => ok.2.1 (by rw [same]; exact List.mem_cons_self)
        simp [isAbsolute, head]
  cases names with
  | nil => rfl
  | cons name names =>
      have ok := valid name List.mem_cons_self
      cases names with
      | nil =>
          have only := notFirst name [] ok
          rwa [List.append_nil] at only
      | cons next rest => exact notFirst name _ ok

/-- The components of a relative path of names are the names. -/
theorem components_render (names : List (List Char)) (valid : ∀ name ∈ names, IsName name) :
    components (render (names.map .normal)) = names.map .normal := by
  have notDot : (pieces (render (names.map .normal))).head? ≠ some ['.'] := by
    cases names with
    | nil => exact fun dot => absurd (Option.some.inj dot) (by simp)
    | cons name rest =>
        rw [pieces_render _ valid (List.cons_ne_nil _ _)]
        intro dot
        exact (valid name List.mem_cons_self).2.2.1 (Option.some.inj dot)
  rw [components, isAbsolute_render names valid, if_neg (by simp), if_neg notDot,
    segments_render names valid]

theorem components_render_absolute (names : List (List Char))
    (valid : ∀ name ∈ names, IsName name) :
    components (render (.rootDir :: names.map .normal)) = .rootDir :: names.map .normal := by
  have text : render (.rootDir :: names.map .normal) = '/' :: render (names.map .normal) := by
    cases names with
    | nil => rfl
    | cons name rest => rfl
  have absolute : isAbsolute ('/' :: render (names.map .normal)) = true := rfl
  have same : segments ('/' :: render (names.map .normal)) =
      segments (render (names.map .normal)) := by
    rw [segments, segments, ← List.nil_append ('/' :: render (names.map .normal)), pieces_append]
    rfl
  rw [text, components, absolute, if_pos rfl, same, segments_render names valid]

end Gday.Lib.LexicalPath
