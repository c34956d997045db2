import Gday.Lib.LexicalPath

/-! # A tree of files, directories and links

A place is the list of names that leads to it from the root.  `canonicalize` follows a
path component by component and a link wherever it meets one, so often at most as the
system allows; what it finds is a place that is not a link, and finding that place again
changes nothing. -/
set_option autoImplicit false
namespace Gday.Lib.Files

open Gday.Lib.LexicalPath (Component IsName)

abbrev Place := List (List Char)

inductive Node where
  | file (size : UInt64) (openable : Bool)
  | dir
  | link (target : List Component)
  | other
  deriving DecidableEq

def Node.isLink : Node → Bool
  | .link _ => true
  | _ => false

def Node.isOpenable : Node → Bool
  | .file _ openable => openable
  | _ => false

theorem mem_of_lookup {Key Value : Type} [BEq Key] [LawfulBEq Key] {entries : List (Key × Value)}
    {key : Key} {value : Value} (found : entries.lookup key = some value) :
    (key, value) ∈ entries := by
  obtain ⟨before, after, all, -⟩ := List.lookup_eq_some_iff.mp found
  rw [all]
  exact List.mem_append_right before List.mem_cons_self

/-- What there is, with the directory that relative paths start from and the number of links
that one path may go through. -/
structure FileTree where
  nodes : List (Place × Node)
  names : ∀ entry ∈ nodes, ∀ name ∈ entry.1, IsName name
  root : nodes.lookup [] = some .dir
  parents : ∀ place name, nodes.lookup (place ++ [name]) ≠ none → nodes.lookup place = some .dir
  workDir : Place
  working : nodes.lookup workDir = some .dir
  linkLimit : Nat

/-- What reading each directory delivers: an error, or its entries, each of them a name or an
error, and no name twice. -/
structure Listing where
  entries : Place → Option (List (Option (List Char)))
  once : ∀ place listed, entries place = some listed → listed.reduceOption.Nodup

/-- The same entries, in an order that may be another one. -/
def Listing.Reorders (first second : Listing) : Prop :=
  ∀ place, Option.Rel List.Perm (first.entries place) (second.entries place)

/-- How far a path leads before its first link. -/
inductive Resolution where
  | found (place : Place)
  | missing
  | linked (place : Place) (rest : List Component)
  deriving DecidableEq

/-- The path that has this place. -/
def canonical (place : Place) : List Component := .rootDir :: place.map .normal

namespace FileTree

def node (tree : FileTree) (place : Place) : Option Node := tree.nodes.lookup place

def walk (tree : FileTree) : Place → List Component → Resolution
  | place, [] => .found place
  | _, .rootDir :: rest => tree.walk [] rest
  | place, .curDir :: rest => tree.walk place rest
  | place, .parentDir :: rest => tree.walk place.dropLast rest
  | place, .normal name :: rest =>
      match tree.node (place ++ [name]) with
      | none => .missing
      | some .dir => tree.walk (place ++ [name]) rest
      | some (.link target) => .linked place (target ++ rest)
      | some _ => if rest = [] then .found (place ++ [name]) else .missing

def resolve (tree : FileTree) : Nat → Place → List Component → Option Place
  | 0, place, comps =>
      match tree.walk place comps with
      | .found found => some found
      | _ => none
  | limit + 1, place, comps =>
      match tree.walk place comps with
      | .found found => some found
      | .missing => none
      | .linked next rest => tree.resolve limit next rest

/-- `std::fs::canonicalize`, none where it fails. -/
def canonicalize (tree : FileTree) (path : List Component) : Option Place :=
  if path = [] then none else tree.resolve tree.linkLimit tree.workDir path

/-- A regular file that can be opened. -/
def Openable (tree : FileTree) (place : Place) : Prop :=
  ∃ size, tree.node place = some (.file size true)

instance (tree : FileTree) (place : Place) : Decidable (tree.Openable place) :=
  decidable_of_iff ((tree.node place).any Node.isOpenable = true) (by
    rw [Openable]
    cases tree.node place with
    | none => simp
    | some node =>
        cases node with
        | file size openable => cases openable <;> simp [Node.isOpenable]
        | dir => simp [Node.isOpenable]
        | link target => simp [Node.isOpenable]
        | other => simp [Node.isOpenable])

/-- The length of a regular file. -/
def fileSize (tree : FileTree) (place : Place) : Nat :=
  match tree.node place with
  | some (.file size _) => size.toNat
  | _ => 0

/-! ## Places -/

variable (tree : FileTree)

theorem mem_places (place : Place) :
    place ∈ tree.nodes.map Prod.fst ↔ tree.node place ≠ none := by
  rw [List.mem_map]
  constructor
  · rintro ⟨entry, member, same⟩ missing
    have unlike := List.lookup_eq_none_iff.mp missing entry member
    exact bne_iff_ne.mp unlike same.symm
  · intro there
    obtain ⟨node, found⟩ := Option.ne_none_iff_exists'.mp there
    exact ⟨(place, node), mem_of_lookup found, rfl⟩

theorem finite : {place | tree.node place ≠ none}.Finite := by
  apply Set.Finite.subset (tree.nodes.map Prod.fst).finite_toSet
  intro place there
  exact (tree.mem_places place).mpr there

theorem dir_above {place : Place} {name : List Char} (there : tree.node (place ++ [name]) ≠ none) :
    tree.node place = some .dir := tree.parents place name there

theorem dir_dropLast {place : Place} (dir : tree.node place = some .dir) :
    tree.node place.dropLast = some .dir := by
  induction place using List.reverseRecOn with
  | nil => exact dir
  | append_singleton place name ih =>
      rw [List.dropLast_concat]
      exact tree.dir_above (by rw [dir]; exact Option.some_ne_none _)

/-- What lies above a place that is there is a directory. -/
theorem dir_of_prefix (place below : Place) (there : tree.node (place ++ below) ≠ none)
    (proper : below ≠ []) : tree.node place = some .dir := by
  induction below using List.reverseRecOn with
  | nil => exact absurd rfl proper
  | append_singleton below name ih =>
      rw [← List.append_assoc] at there
      have above := tree.dir_above there
      cases below with
      | nil => rwa [List.append_nil] at above
      | cons first rest =>
          exact ih (by rw [above]; exact Option.some_ne_none _) (List.cons_ne_nil _ _)

theorem names_of_node {place : Place} (there : tree.node place ≠ none) :
    ∀ name ∈ place, IsName name := by
  obtain ⟨node, found⟩ := Option.ne_none_iff_exists'.mp there
  exact tree.names (place, node) (mem_of_lookup found)

/-! ## What a path leads to -/

theorem walk_found (place : Place) (comps : List Component) (found : Place)
    (dir : tree.node place = some .dir) (walked : tree.walk place comps = .found found) :
    ∃ node, tree.node found = some node ∧ node.isLink = false := by
  induction comps generalizing place with
  | nil =>
      rw [walk, Resolution.found.injEq] at walked
      exact ⟨.dir, by rw [← walked]; exact dir, rfl⟩
  | cons comp rest ih =>
      cases comp with
      | rootDir => exact ih [] tree.root walked
      | curDir => exact ih place dir walked
      | parentDir => exact ih place.dropLast (tree.dir_dropLast dir) walked
      | normal name =>
          rw [walk] at walked
          cases next : tree.node (place ++ [name]) with
          | none =>
              rw [next] at walked
              cases walked
          | some node =>
              rw [next] at walked
              have last : ∀ node, node.isLink = false → tree.node (place ++ [name]) = some node →
                  (if rest = [] then Resolution.found (place ++ [name]) else .missing) =
                    .found found →
                  ∃ node, tree.node found = some node ∧ node.isLink = false := by
                intro node notLink there ends
                split at ends
                · rw [Resolution.found.injEq] at ends
                  exact ⟨node, by rw [← ends]; exact there, notLink⟩
                · cases ends
              cases node with
              | dir => exact ih _ next walked
              | link target => cases walked
              | file size openable => exact last _ rfl next walked
              | other => exact last _ rfl next walked

theorem walk_linked (place next : Place) (comps rest : List Component)
    (dir : tree.node place = some .dir) (walked : tree.walk place comps = .linked next rest) :
    tree.node next = some .dir := by
  induction comps generalizing place with
  | nil => cases walked
  | cons comp others ih =>
      cases comp with
      | rootDir => exact ih [] tree.root walked
      | curDir => exact ih place dir walked
      | parentDir => exact ih place.dropLast (tree.dir_dropLast dir) walked
      | normal name =>
          rw [walk] at walked
          have last : (if others = [] then Resolution.found (place ++ [name]) else .missing) ≠
              .linked next rest := by
            split <;> exact nofun
          cases there : tree.node (place ++ [name]) with
          | none =>
              rw [there] at walked
              cases walked
          | some node =>
              rw [there] at walked
              cases node with
              | dir => exact ih _ there walked
              | link target =>
                  rw [Resolution.linked.injEq] at walked
                  rw [← walked.1]
                  exact dir
              | file size openable => exact absurd walked last
              | other => exact absurd walked last

theorem resolve_found (limit : Nat) (place : Place) (comps : List Component) (found : Place)
    (dir : tree.node place = some .dir) (resolved : tree.resolve limit place comps = some found) :
    ∃ node, tree.node found = some node ∧ node.isLink = false := by
  induction limit generalizing place comps with
  | zero =>
      rw [resolve] at resolved
      cases walked : tree.walk place comps with
      | found other =>
          rw [walked, Option.some.injEq] at resolved
          exact tree.walk_found place comps found dir (by rw [walked, resolved])
      | missing =>
          rw [walked] at resolved
          cases resolved
      | linked next rest =>
          rw [walked] at resolved
          cases resolved
  | succ limit ih =>
      rw [resolve] at resolved
      cases walked : tree.walk place comps with
      | found other =>
          rw [walked, Option.some.injEq] at resolved
          exact tree.walk_found place comps found dir (by rw [walked, resolved])
      | missing =>
          rw [walked] at resolved
          cases resolved
      | linked next rest =>
          rw [walked] at resolved
          exact ih next rest (tree.walk_linked place next comps rest dir walked) resolved

/-- What is found is there and is not a link. -/
theorem canonicalize_found {path : List Component} {place : Place}
    (found : tree.canonicalize path = some place) :
    ∃ node, tree.node place = some node ∧ node.isLink = false := by
  rw [canonicalize] at found
  split at found
  · cases found
  · exact tree.resolve_found _ _ path place tree.working found

theorem there_of_canonicalize {path : List Component} {place : Place}
    (found : tree.canonicalize path = some place) : tree.node place ≠ none := by
  obtain ⟨node, there, -⟩ := tree.canonicalize_found found
  rw [there]
  exact Option.some_ne_none node

theorem there_of_openable {place : Place} (openable : tree.Openable place) :
    tree.node place ≠ none := by
  obtain ⟨size, file⟩ := openable
  rw [file]
  exact Option.some_ne_none _

/-- Names that lead down to a directory are walked through. -/
theorem walk_names (place below : Place) (rest : List Component)
    (dir : tree.node (place ++ below) = some .dir) :
    tree.walk place (below.map .normal ++ rest) = tree.walk (place ++ below) rest := by
  induction below generalizing place with
  | nil => rw [List.map_nil, List.nil_append, List.append_nil]
  | cons name below ih =>
      have split : place ++ name :: below = place ++ [name] ++ below := by
        rw [List.append_assoc, List.singleton_append]
      have first : tree.node (place ++ [name]) = some .dir := by
        cases below with
        | nil => exact dir
        | cons next below =>
            apply tree.dir_of_prefix _ (next :: below) _ (List.cons_ne_nil _ _)
            rw [← split, dir]
            exact Option.some_ne_none _
      rw [split] at dir
      rw [List.map_cons, List.cons_append, walk, first, split]
      exact ih _ dir

theorem resolve_of_walk (limit : Nat) (place found : Place) (comps : List Component)
    (walked : tree.walk place comps = .found found) :
    tree.resolve limit place comps = some found := by
  cases limit <;> rw [resolve, walked]

/-- A place that is no link is found under its own path. -/
theorem canonicalize_canonical (place : Place) (node : Node)
    (there : tree.node place = some node) (notLink : node.isLink = false) :
    tree.canonicalize (canonical place) = some place := by
  rw [canonicalize, canonical, if_neg (List.cons_ne_nil _ _)]
  apply tree.resolve_of_walk
  rw [walk]
  induction place using List.reverseRecOn with
  | nil => rfl
  | append_singleton place name ih =>
      have above := tree.dir_above (by rw [there]; exact Option.some_ne_none _)
      have through := tree.walk_names [] place [.normal name] above
      rw [List.nil_append] at through
      rw [List.map_append, List.map_singleton, through, walk, there]
      cases node with
      | dir => rfl
      | link target => cases notLink
      | file size openable => rfl
      | other => rfl

end FileTree

theorem canonical_snoc (place : Place) (name : List Char) :
    canonical place ++ [.normal name] = canonical (place ++ [name]) := by
  rw [canonical, canonical, List.map_append, List.cons_append, List.map_singleton]

theorem canonical_injective {first second : Place} (same : canonical first = canonical second) :
    first = second := by
  have names := (List.cons.inj same).2
  exact List.map_injective_iff.mpr (fun _ _ => Component.normal.inj) names

theorem canonical_prefix_iff (first second : Place) :
    canonical first <+: canonical second ↔ first <+: second := by
  rw [canonical, canonical, List.cons_prefix_cons]
  simp only [true_and]
  constructor
  · intro isPrefix
    rw [List.prefix_iff_eq_take, ← List.map_take, List.length_map] at isPrefix
    rw [List.prefix_iff_eq_take]
    exact List.map_injective_iff.mpr (fun _ _ => Component.normal.inj) isPrefix
  · exact fun isPrefix => isPrefix.map _

/-! ## Given trees -/

/-- What a list of nodes must be for a tree. -/
def IsTree (nodes : List (Place × Node)) : Prop :=
  (∀ entry ∈ nodes, ∀ name ∈ entry.1, IsName name) ∧ nodes.lookup [] = some .dir ∧
    ∀ entry ∈ nodes, entry.1 = [] ∨ nodes.lookup entry.1.dropLast = some .dir

instance (nodes : List (Place × Node)) : Decidable (IsTree nodes) :=
  inferInstanceAs (Decidable (_ ∧ _ ∧ _))

theorem IsTree.parents {nodes : List (Place × Node)} (isTree : IsTree nodes) (place : Place)
    (name : List Char) (there : nodes.lookup (place ++ [name]) ≠ none) :
    nodes.lookup place = some .dir := by
  obtain ⟨node, found⟩ := Option.ne_none_iff_exists'.mp there
  rcases isTree.2.2 (place ++ [name], node) (mem_of_lookup found) with top | above
  · exact absurd top (List.append_ne_nil_of_right_ne_nil _ (List.cons_ne_nil _ _))
  · rwa [List.dropLast_concat] at above

/-- The tree of these nodes, where one works in the root. -/
def FileTree.ofNodes (nodes : List (Place × Node)) (isTree : IsTree nodes) (linkLimit : Nat) :
    FileTree where
  nodes := nodes
  names := isTree.1
  root := isTree.2.1
  parents := isTree.parents
  workDir := []
  working := isTree.2.1
  linkLimit := linkLimit

theorem reduceOption_map_some {Value : Type} (values : List Value) :
    (values.map some).reduceOption = values := by
  rw [List.reduceOption, List.filterMap_map]
  exact List.filterMap_some

/-- The listing that has these names for these directories and cannot read any other. -/
def Listing.ofNames (names : List (Place × List (List Char)))
    (once : ∀ entry ∈ names, entry.2.Nodup) : Listing where
  entries place := (names.lookup place).map fun listed => listed.map some
  once := by
    intro place listed there
    obtain ⟨held, found, same⟩ := Option.map_eq_some_iff.mp there
    rw [← same, reduceOption_map_some]
    exact once (place, held) (mem_of_lookup found)

/-- The names that a directory has. -/
def FileTree.namesIn (tree : FileTree) (place : Place) : List (List Char) :=
  ((tree.nodes.map Prod.fst).filterMap fun other =>
    if other.dropLast = place then other.getLast? else none).dedup

theorem FileTree.mem_namesIn (tree : FileTree) (place : Place) (name : List Char) :
    name ∈ tree.namesIn place ↔ tree.node (place ++ [name]) ≠ none := by
  rw [namesIn, List.mem_dedup, List.mem_filterMap]
  constructor
  · rintro ⟨other, member, named⟩
    split at named
    next inside =>
      have whole := List.dropLast_append_getLast? name named
      rw [inside] at whole
      rw [whole]
      exact (tree.mem_places other).mp member
    next => cases named
  · intro there
    refine ⟨place ++ [name], (tree.mem_places _).mpr there, ?_⟩
    rw [List.dropLast_concat, if_pos rfl, List.getLast?_concat]

/-- Reads every directory in full. -/
def Listing.full (tree : FileTree) : Listing where
  entries place :=
    if tree.node place = some .dir then some ((tree.namesIn place).map some) else none
  once := by
    intro place listed there
    split at there
    · rw [Option.some.injEq] at there
      rw [← there, reduceOption_map_some]
      exact List.nodup_dedup _
    · cases there

/-! ## Orders of the entries -/

/-- Every directory with the entry first that `first` names for it. -/
def Listing.withFirst (listing : Listing) (first : Place → Option (List Char)) : Listing where
  entries place := (listing.entries place).map fun listed =>
    if first place ∈ listed then first place :: listed.erase (first place) else listed
  once := by
    intro place listed there
    obtain ⟨before, held, same⟩ := Option.map_eq_some_iff.mp there
    have once := listing.once place before held
    split at same
    next member =>
      rw [← same]
      exact ((List.perm_cons_erase member).symm.filterMap id).nodup_iff.mpr once
    next =>
      rw [← same]
      exact once

theorem Listing.reorders_withFirst (listing : Listing) (first : Place → Option (List Char)) :
    listing.Reorders (listing.withFirst first) := by
  intro place
  simp only [withFirst]
  cases listing.entries place with
  | none => exact .none
  | some listed =>
      refine .some ?_
      by_cases member : first place ∈ listed
      · simp only [if_pos member]
        exact List.perm_cons_erase member
      · simp only [if_neg member]
        exact .refl _

theorem Listing.Reorders.entries {listing other : Listing} (same : listing.Reorders other)
    (place : Place) :
    listing.entries place = none ∧ other.entries place = none ∨
      ∃ one two, listing.entries place = some one ∧ other.entries place = some two ∧
        one.Perm two := by
  have related := same place
  generalize listing.entries place = one at related ⊢
  generalize other.entries place = two at related ⊢
  cases related with
  | none => exact Or.inl ⟨rfl, rfl⟩
  | some perm => exact Or.inr ⟨_, _, rfl, rfl, perm⟩

/-! ## Steps that never lead back -/

section Acyclic

variable {State : Type} {step : State → State → Prop} {start : State}

/-- Where finitely many states are reached and none again from itself, what passes from all
the next states to a state holds at the start. -/
theorem acyclic_induction (finite : {state | Relation.ReflTransGen step start state}.Finite)
    (acyclic : ∀ state, Relation.ReflTransGen step start state →
      ¬ Relation.TransGen step state state)
    {holds : State → Prop}
    (back : ∀ state, Relation.ReflTransGen step start state →
      (∀ next, step state next → holds next) → holds state) : holds start := by
  have : Finite {state // Relation.ReflTransGen step start state} := finite
  let later (one other : {state // Relation.ReflTransGen step start state}) : Prop :=
    Relation.TransGen step other.1 one.1
  have : IsTrans _ later := ⟨fun _ _ _ first second => second.trans first⟩
  have : Std.Irrefl later := ⟨fun state around => acyclic state.1 state.2 around⟩
  have wellFounded : WellFounded later := Finite.wellFounded_of_trans_of_irrefl later
  have all : ∀ state : {state // Relation.ReflTransGen step start state}, holds state.1 := by
    intro state
    induction state using wellFounded.induction with
    | _ state ih =>
        apply back state.1 state.2
        intro next stepped
        exact ih ⟨next, state.2.tail stepped⟩ (.single stepped)
  exact all ⟨start, .refl⟩

end Acyclic

end Gday.Lib.Files
