import Uv.Library.BinarySearch

namespace Uv.Auth

open Library List Option

/-!
# The trie of the URL cache

The states of the trie lie in one list and refer to each other by index.  A state
keeps its children sorted by label and finds them by binary search.  A lookup stops
at the first state with a value, so that the shortest stored path wins.

A trie is related to the paths of its states: the root has the empty path, and a
child has the path of its parent followed by its label.  Whatever a walk from the
root reaches then has the path that was walked, and two paths never share a state.
-/

variable {T : Type}

structure TrieState (T : Type) where
  children : List (String × Nat)
  value : Option T
  deriving Repr

instance : Inhabited (TrieState T) := ⟨⟨[], none⟩⟩

def TrieState.index (state : TrieState T) (component : String) : Except Nat Nat :=
  binarySearchBy (fun child => compare child.1 component) state.children

def TrieState.get (state : TrieState T) (component : String) : Option Nat :=
  match state.index component with
  | .ok i => state.children[i]?.map Prod.snd
  | .error _ => none

structure UrlTrie (T : Type) where
  states : List (TrieState T)
  deriving Repr

namespace UrlTrie

variable (trie : UrlTrie T) (index : Nat)

/-- The state at an index.  No index outside the list arises. -/
def state : TrieState T := trie.states.getD index default

def alloc : UrlTrie T × Nat :=
  (⟨trie.states ++ [default]⟩, trie.states.length)

def new : UrlTrie T := (alloc ⟨[]⟩).1

/-- The loop of a lookup, from a state on. -/
def getFrom (trie : UrlTrie T) : Nat -> List String -> Option T
  | index, [] => (trie.state index).value
  | index, component :: components =>
    match (trie.state index).get component with
    | none => none
    | some next =>
      match (trie.state next).value with
      | some value => some value
      | none => getFrom trie next components

variable (components : List String)

def get : Option T := trie.getFrom 0 components

def update (change : TrieState T -> TrieState T) : UrlTrie T :=
  ⟨trie.states.modify index change⟩

/-- A new child of a state, at the given place among the others. -/
def addChild (parent place : Nat) (component : String) : UrlTrie T × Nat :=
  let (grown, child) := trie.alloc
  (grown.update parent fun state =>
    { state with children := state.children.insertIdx place (component, child) }, child)

/-- The loop of an insertion: walk along the components and add what is missing. -/
def descend (trie : UrlTrie T) : Nat -> List String -> UrlTrie T × Nat
  | index, [] => (trie, index)
  | index, component :: components =>
    match (trie.state index).index component with
    | .ok i => descend trie ((trie.state index).children.getD i default).2 components
    | .error i =>
      let (grown, child) := trie.addChild index i component
      descend grown child components

def insert (value : T) : UrlTrie T :=
  let (grown, index) := trie.descend 0 components
  grown.update index fun state => { state with value := some value }

/-! ## Walks -/

variable (path : List String)

/-- The state that a path leads to. -/
def follow : Option Nat :=
  path.foldlM (fun index component => (trie.state index).get component) index

lemma follow_concat (component : String) :
    trie.follow index (path ++ [component]) =
      (trie.follow index path).bind fun next => (trie.state next).get component := by
  simp [follow, foldlM_append]

/-- The value at the end of a path. -/
def valueFrom : Option T :=
  (trie.follow index path).bind fun next => (trie.state next).value

lemma valueFrom_cons (component : String) (path : List String) :
    trie.valueFrom index (component :: path) =
      ((trie.state index).get component).bind fun next => trie.valueFrom next path := by
  rw [valueFrom, follow, foldlM_cons]
  cases (trie.state index).get component with
  | none => rfl
  | some next => rfl

/-- The path is the shortest one, other than the empty one, at which something is
stored among its own beginnings. -/
structure Shortest (stored : List String -> Option T) (path : List String) (value : T) : Prop where
  nonempty : path ≠ []
  found : stored path = some value
  least : ∀ shorter, shorter ≠ [] -> shorter <+: path -> shorter ≠ path ->
    stored shorter = none

lemma not_shortest_nil {stored : List String -> Option T} {value : T} :
    ¬ ∃ path, path <+: [] /\ Shortest stored path value := by
  rintro ⟨path, before, shortest⟩
  exact shortest.nonempty (prefix_nil.mp before)

variable {component : String}

/-- Either the first component alone is found, or the search goes on below it. -/
lemma exists_shortest_cons {stored : List String -> Option T} {rest : List String} {value : T} :
    (∃ path, path <+: component :: rest /\ Shortest stored path value) <->
      stored [component] = some value \/ stored [component] = none /\
        ∃ path, path <+: rest /\ Shortest (fun tail => stored (component :: tail)) path value := by
  constructor
  · rintro ⟨path, before, shortest⟩
    rcases prefix_cons_iff.mp before with rfl | ⟨tail, rfl, tailBefore⟩
    · exact absurd rfl shortest.nonempty
    · cases tail with
      | nil => exact .inl shortest.found
      | cons second tail =>
        refine .inr ⟨shortest.least [component] (by simp) (by simp) (by simp),
          second :: tail, tailBefore, by simp, shortest.found, ?_⟩
        intro shorter _ shorterBefore different
        exact shortest.least (component :: shorter) (by simp)
          (cons_prefix_cons.mpr ⟨rfl, shorterBefore⟩)
          fun equal => different (cons.inj equal).2
  · rintro (found | ⟨missing, path, before, shortest⟩)
    · refine ⟨[component], by simp, by simp, found, fun shorter nonempty before different => ?_⟩
      rcases prefix_cons_iff.mp before with rfl | ⟨tail, rfl, tailBefore⟩
      · exact absurd rfl nonempty
      · exact absurd (by rw [prefix_nil.mp tailBefore]) different
    · refine ⟨component :: path, cons_prefix_cons.mpr ⟨rfl, before⟩, by simp,
        shortest.found, fun shorter nonempty shorterBefore different => ?_⟩
      rcases prefix_cons_iff.mp shorterBefore with rfl | ⟨tail, rfl, tailBefore⟩
      · exact absurd rfl nonempty
      · cases tail with
        | nil => exact missing
        | cons second tail =>
          exact shortest.least (second :: tail) (by simp) tailBefore
            fun equal => different (by rw [equal])

lemma getFrom_eq_some_iff (trie : UrlTrie T) (value : T) : ∀ {components : List String}
    {index : Nat}, (components = [] -> (trie.state index).value = none) ->
      (trie.getFrom index components = some value <->
        ∃ path, path <+: components /\ Shortest (trie.valueFrom index) path value)
  | [], index, empty => by
    rw [getFrom, empty rfl]
    exact iff_of_false (Option.some_ne_none _).symm not_shortest_nil
  | component :: rest, index, _ => by
    rw [exists_shortest_cons, getFrom]
    simp only [valueFrom_cons]
    cases (trie.state index).get component with
    | none =>
      refine iff_of_false (Option.some_ne_none _).symm ?_
      rintro (found | ⟨_, path, _, shortest⟩)
      · cases found
      · cases shortest.found
    | some next =>
      change _ <-> (trie.state next).value = some value \/ (trie.state next).value = none /\
        ∃ path, path <+: rest /\ Shortest (trie.valueFrom next) path value
      cases stored : (trie.state next).value with
      | some first => simp [stored]
      | none =>
        simp only [stored]
        rw [getFrom_eq_some_iff trie value fun _ => stored]
        simp

/-! ## The paths of the states -/

section

variable {state : TrieState T}
  (sorted : state.children.Pairwise fun first second => first.1 < second.1)

include sorted

lemma separated (component : String) :
    Separated (fun child : String × Nat => compare child.1 component) state.children := by
  refine sorted.imp fun {first second} less => ?_
  rcases lt_or_ge first.1 component with below | reached
  · exact .inl (compare_lt_iff_lt.mpr below)
  · exact .inr (compare_gt_iff_gt.mpr (lt_of_le_of_lt reached less))

lemma next_unique {next next' : Nat}
    (mem : (component, next) ∈ state.children) (mem' : (component, next') ∈ state.children) :
    next = next' := by
  have labels : (state.children.map Prod.fst).Nodup :=
    pairwise_map.mpr (sorted.imp fun less => less.ne)
  exact (Prod.mk.inj (inj_on_of_nodup_map labels mem mem' rfl)).2

/-- Binary search finds a label just when it is there. -/
lemma get_eq_some_iff {next : Nat} :
    state.get component = some next <-> (component, next) ∈ state.children := by
  rw [TrieState.get]
  cases found : state.index component with
  | ok i =>
    rcases map_eq_some_iff.mp (binarySearchBy_ok found) with ⟨⟨label, child⟩, at_, equal⟩
    cases compare_eq_iff_eq.mp equal
    dsimp only
    rw [at_, map_some, some.injEq]
    have mem := mem_of_getElem? at_
    exact ⟨fun same => same ▸ mem, fun mem' => next_unique sorted mem mem'⟩
  | error i =>
    have point := binarySearchBy_error (separated sorted component) found
    refine iff_of_false (some_ne_none _).symm fun mem => ?_
    rw [<- take_append_drop i state.children, mem_append] at mem
    have same : compare component component = .eq := compare_eq_iff_eq.mpr rfl
    rcases mem with mem | mem
    · exact absurd (same.symm.trans (point.below _ mem)) (by decide)
    · exact absurd (same.symm.trans (point.above _ mem)) (by decide)

end

/-- The states have the given paths, and each keeps its children sorted. -/
structure Shape (trie : UrlTrie T) (paths : List (List String)) : Prop where
  length : paths.length = trie.states.length
  sorted : ∀ index, (trie.state index).children.Pairwise fun first second => first.1 < second.1
  walk : ∀ path index, trie.follow 0 path = some index <-> paths[index]? = some path

lemma state_new : (new : UrlTrie T).state index = default := by
  cases index with
  | zero => rfl
  | succ index => rfl

lemma follow_nil (trie : UrlTrie T) (index : Nat) : trie.follow index [] = some index := rfl

variable {trie : UrlTrie T} {paths : List (List String)}

/-- Extend a claim about walks from the empty path to all paths, one step at a time. -/
lemma walk_of_steps (root : ∀ index, index = 0 <-> paths[index]? = some [])
    (steps : ∀ path component next, paths[next]? = some (path ++ [component]) <->
      ∃ index, paths[index]? = some path /\ (trie.state index).get component = some next) :
    ∀ path index, trie.follow 0 path = some index <-> paths[index]? = some path := by
  intro path
  induction path using reverseRecOn with
  | nil =>
    intro index
    rw [follow_nil, some.injEq, eq_comm]
    exact root index
  | append_singleton path component ih =>
    intro next
    rw [follow_concat, bind_eq_some_iff, steps]
    simp only [ih]

lemma shape_new : (new : UrlTrie T).Shape [[]] where
  length := rfl
  sorted index := by
    rw [state_new]
    exact List.Pairwise.nil
  walk := by
    apply walk_of_steps
    · intro index
      cases index <;> simp
    · intro path component next
      refine iff_of_false (by cases next <;> simp) ?_
      rintro ⟨index, _, reached⟩
      rw [state_new] at reached
      cases reached

variable {index : Nat}

namespace Shape

variable {trie : UrlTrie T} {paths : List (List String)} (shape : trie.Shape paths)

include shape

lemma root : paths[0]? = some [] := (shape.walk [] 0).mp rfl

/-- A child has the path of its parent followed by its label. -/
lemma step (path : List String) (component : String) (next : Nat) :
    paths[next]? = some (path ++ [component]) <->
      ∃ index, paths[index]? = some path /\ (trie.state index).get component = some next := by
  rw [<- shape.walk, follow_concat, bind_eq_some_iff]
  simp only [shape.walk]

lemma lt_of_path {path : List String} (known : paths[index]? = some path) :
    index < trie.states.length := by
  rw [<- shape.length]
  exact (List.getElem?_eq_some_iff.mp known).1

end Shape

/-! ## Insertion -/

lemma state_alloc (trie : UrlTrie T) (index : Nat) :
    trie.alloc.1.state index = trie.state index := by
  simp only [alloc, state, getD_eq_getElem?_getD, getElem?_append]
  split
  · rfl
  next outside =>
    rw [getElem?_eq_none (Nat.le_of_not_lt outside)]
    cases index - trie.states.length <;> rfl

lemma state_update (inside : index < trie.states.length)
    (change : TrieState T -> TrieState T) (other : Nat) :
    (trie.update index change).state other =
      if other = index then change (trie.state index) else trie.state other := by
  simp only [update, state, getD_eq_getElem?_getD, getElem?_modify]
  split
  next same =>
    subst same
    rw [getElem?_eq_getElem inside]
    simp
  next different =>
    rw [if_neg (Ne.symm different)]
    cases trie.states[other]? <;> rfl

lemma state_addChild {parent : Nat} (inside : parent < trie.states.length)
    (place : Nat) (component : String) (index : Nat) :
    (trie.addChild parent place component).1.state index =
      if index = parent then
        { trie.state parent with children :=
            (trie.state parent).children.insertIdx place (component, trie.states.length) }
      else trie.state index := by
  have grown : parent < trie.alloc.1.states.length := by
    rw [alloc, length_append]
    exact Nat.lt_add_right _ inside
  change (trie.alloc.1.update parent _).state index = _
  rw [state_update grown, state_alloc, state_alloc]

lemma state_length (trie : UrlTrie T) : trie.state trie.states.length = default := by
  rw [state, getD_eq_getElem?_getD, getElem?_eq_none le_rfl]
  rfl

namespace Shape

variable {trie : UrlTrie T} {paths : List (List String)} {parent place : Nat}
  {base : List String} {component : String}

/-- The state of a path without a child for the component gets one. -/
lemma addChild (shape : trie.Shape paths) (known : paths[parent]? = some base)
    (missing : (trie.state parent).index component = .error place) :
    (trie.addChild parent place component).1.Shape (paths ++ [base ++ [component]]) := by
  have inside := shape.lt_of_path known
  have point := binarySearchBy_error (separated (shape.sorted parent) component) missing
  have states := state_addChild inside place component
  have sorted : ∀ index, ((trie.addChild parent place component).1.state index).children.Pairwise
      fun first second => first.1 < second.1 := by
    intro index
    rw [states]
    split
    · refine point.pairwise_insertIdx (shape.sorted parent) ?_ ?_
      · exact fun element below => compare_lt_iff_lt.mp below
      · exact fun element above => compare_gt_iff_gt.mp above
    · exact shape.sorted index
  have children : ∀ index label next,
      ((trie.addChild parent place component).1.state index).get label = some next <->
        (trie.state index).get label = some next \/
          index = parent /\ label = component /\ next = trie.states.length := by
    intro index label next
    rw [get_eq_some_iff (sorted index), get_eq_some_iff (shape.sorted index), states]
    split
    next same =>
      rw [mem_insertIdx point.inside, Prod.mk.injEq, or_comm, same]
      simp
    next different => simp [different]
  have known' : ∀ index path, (paths ++ [base ++ [component]])[index]? = some path <->
      paths[index]? = some path \/ index = trie.states.length /\ path = base ++ [component] := by
    intro index path
    rw [<- shape.length, getElem?_append]
    rcases Nat.lt_trichotomy index paths.length with less | rfl | greater
    · simp [less, Nat.ne_of_lt less]
    · simp [eq_comm]
    · rw [if_neg (Nat.not_lt_of_gt greater), getElem?_eq_none (Nat.le_of_lt greater)]
      have outside : [base ++ [component]][index - paths.length]? = none :=
        getElem?_eq_none (by simp; omega)
      simp [outside, Nat.ne_of_gt greater]
  refine ⟨?_, sorted, walk_of_steps ?_ ?_⟩
  · simp [UrlTrie.addChild, alloc, update, shape.length]
  · intro index
    rw [known', <- shape.walk, follow_nil, some.injEq, eq_comm]
    exact (or_iff_left fun new => by simp at new).symm
  · intro path label next
    rw [known', shape.step]
    simp only [known', children]
    constructor
    · rintro (⟨index, found, reached⟩ | ⟨rfl, equal⟩)
      · exact ⟨index, .inl found, .inl reached⟩
      · rcases append_inj' equal rfl with ⟨rfl, last⟩
        exact ⟨parent, .inl known, .inr ⟨rfl, (cons.inj last).1, rfl⟩⟩
    · rintro ⟨index, found | ⟨rfl, _⟩, reached | ⟨rfl, rfl, rfl⟩⟩
      · exact .inl ⟨index, found, reached⟩
      · rw [known, some.injEq] at found
        exact .inr ⟨rfl, by rw [found]⟩
      · rw [state_length] at reached
        cases reached
      · exact absurd inside (Nat.lt_irrefl _)

/-- The walk of an insertion: only new states without a value are added. -/
lemma descend : ∀ {components : List String} {trie : UrlTrie T} {paths : List (List String)}
    {index : Nat} {base : List String}, trie.Shape paths -> paths[index]? = some base ->
    ∃ more, (trie.descend index components).1.Shape (paths ++ more) /\
      (paths ++ more)[(trie.descend index components).2]? = some (base ++ components) /\
      ∀ other, ((trie.descend index components).1.state other).value = (trie.state other).value
  | [], trie, paths, index, base, shape, known => by
    refine ⟨[], ?_, ?_, fun _ => rfl⟩
    · rwa [List.append_nil]
    · rwa [List.append_nil, List.append_nil]
  | component :: components, trie, paths, index, base, shape, known => by
    rw [UrlTrie.descend]
    cases found : (trie.state index).index component with
    | ok i =>
      rcases Option.map_eq_some_iff.mp (binarySearchBy_ok found) with ⟨⟨label, next⟩, mem, equal⟩
      cases compare_eq_iff_eq.mp equal
      have reached : (trie.state index).get label = some next :=
        (get_eq_some_iff (shape.sorted index)).mpr (mem_of_getElem? mem)
      have below := (shape.step base label next).mpr ⟨index, known, reached⟩
      rcases descend shape below with ⟨more, shape', known', values⟩
      rw [append_assoc] at known'
      dsimp only
      rw [getD_eq_getElem?_getD, mem]
      exact ⟨more, shape', known', values⟩
    | error i =>
      have grown := shape.addChild known found
      have below : (paths ++ [base ++ [component]])[trie.states.length]? =
          some (base ++ [component]) := by
        rw [<- shape.length]
        simp
      rcases descend grown below with ⟨more, shape', known', values⟩
      rw [append_assoc] at shape'
      rw [append_assoc, append_assoc] at known'
      refine ⟨[base ++ [component]] ++ more, shape', known', fun other => ?_⟩
      refine (values other).trans ?_
      rw [state_addChild (shape.lt_of_path known)]
      split
      next same => rw [same]
      next => rfl

end Shape

/-- What is stored at a path. -/
def stored (trie : UrlTrie T) (path : List String) : Option T := trie.valueFrom 0 path

lemma follow_congr {trie' : UrlTrie T}
    (same : ∀ index, (trie'.state index).children = (trie.state index).children)
    (index : Nat) (path : List String) : trie'.follow index path = trie.follow index path := by
  have get : ∀ index component, (trie'.state index).get component =
      (trie.state index).get component := by
    intro index component
    rw [TrieState.get, TrieState.get, TrieState.index, TrieState.index, same]
  simp only [follow, get]

lemma value_of_length_le (outside : trie.states.length <= index) :
    (trie.state index).value = none := by
  rw [state, getD_eq_getElem?_getD, getElem?_eq_none outside]
  rfl

/-- More states without values do not change what is stored. -/
lemma stored_of_extended {trie' : UrlTrie T} {more : List (List String)}
    (shape : trie.Shape paths) (shape' : trie'.Shape (paths ++ more)) (path : List String) :
    ((trie'.follow 0 path).bind fun index => (trie.state index).value) = trie.stored path := by
  rw [stored, valueFrom]
  cases reached : trie.follow 0 path with
  | some index =>
    have known := (shape.walk path index).mp reached
    have known' : (paths ++ more)[index]? = some path := by
      rw [List.getElem?_append_left (List.getElem?_eq_some_iff.mp known).1, known]
    rw [(shape'.walk path index).mpr known']
  | none =>
    cases reached' : trie'.follow 0 path with
    | none => rfl
    | some index =>
      have known' := (shape'.walk path index).mp reached'
      apply value_of_length_le
      rw [<- shape.length]
      by_contra inside
      rw [List.getElem?_append_left (Nat.lt_of_not_le inside)] at known'
      cases reached.symm.trans ((shape.walk path index).mpr known')

/-- An insertion stores the value at its path and changes nothing else. -/
lemma Shape.insert (shape : trie.Shape paths) (components : List String) (value : T) :
    ∃ more, (trie.insert components value).Shape (paths ++ more) /\
      ∀ path, (trie.insert components value).stored path =
        if path = components then some value else trie.stored path := by
  rcases descend shape shape.root with ⟨more, grown, known, values⟩
  rw [nil_append] at known
  have states := state_update (grown.lt_of_path known)
    fun state => { state with value := some value }
  have children : ∀ index, ((trie.insert components value).state index).children =
      ((trie.descend 0 components).1.state index).children := by
    intro index
    rw [UrlTrie.insert, states]
    split
    next same => rw [same]
    next => rfl
  refine ⟨more, ?_, fun path => ?_⟩
  · refine ⟨?_, fun index => ?_, fun path index => ?_⟩
    · rw [grown.length]
      exact (length_modify _ _ _).symm
    · rw [children]
      exact grown.sorted index
    · rw [follow_congr children]
      exact grown.walk path index
  · have target : ∀ index, (trie.descend 0 components).1.follow 0 path = some index ->
        (index = (trie.descend 0 components).2 <-> path = components) := by
      intro index reached
      constructor
      · rintro rfl
        have equal := (grown.walk _ _).mp reached
        rw [known, some.injEq] at equal
        exact equal.symm
      · rintro rfl
        rw [(grown.walk _ _).mpr known, some.injEq] at reached
        exact reached.symm
    rw [<- stored_of_extended shape grown path, stored, valueFrom, follow_congr children]
    cases reached : (trie.descend 0 components).1.follow 0 path with
    | none =>
      rw [if_neg]
      · rfl
      · rintro rfl
        rw [(grown.walk _ _).mpr known] at reached
        cases reached
    | some index =>
      change ((trie.insert components value).state index).value = _
      rw [UrlTrie.insert, states, if_congr (target index reached) rfl rfl]
      split
      · rfl
      · exact values index

lemma stored_new : (new : UrlTrie T).stored path = none := by
  rw [stored, valueFrom]
  cases (new : UrlTrie T).follow 0 path with
  | none => rfl
  | some index =>
    change ((new : UrlTrie T).state index).value = none
    rw [state_new]
    rfl

end UrlTrie

end Uv.Auth
