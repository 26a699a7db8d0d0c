import Mathlib

/-!
# The derivation chain of a failing package

The search goes from a package to its dependents until it meets the root.  It keeps no record of
the packages it has seen, so it may follow a cycle of dependents forever.
-/

namespace Uv.Resolver

open Option

structure Dependency (Id Range : Type) where
  (dependent dependency : Id)
  dependencyVersions : Option Range

/-- The solver state as the search reads it.  The root has no name. -/
structure State (Id Name Version Range : Type) where
  (nameNoRoot extra group : Id -> Option Name)
  contains : Range -> Version -> Bool
  dependencies : Id -> List (Dependency Id Range)
  solution : Id -> Option Version

structure DerivationStep (Name Version Range : Type) where
  name : Name
  (extra group : Option Name)
  version : Option Version
  /-- The recorded range, of which the source keeps the encoded versions. -/
  range : Range

namespace State

variable {Id Name Version Range : Type} [DecidableEq Id] (state : State Id Name Version Range)

variable (here : Id × Version)

variable (d : Dependency Id Range)

/-- The range and the chosen version of the dependent, for a dependency that is not skipped. -/
def followed : Option (Range × Version) :=
  if here.1 ≠ d.dependency then none
  else
    match d.dependencyVersions with
    | none => none
    | some range =>
      if !state.contains range here.2 then none
      else (state.solution d.dependent).map fun version => (range, version)

abbrev Named (id : Id) : Prop := (state.nameNoRoot id).isSome

/-- The root is reached by following dependents; a dependent without a name is the root. -/
inductive ReachesRoot : Id × Version -> Prop
  | intro {here d step} (mem : d ∈ state.dependencies here.1)
    (next : state.followed here d = some step)
    (above : state.Named d.dependent -> ReachesRoot (d.dependent, step.2)) : ReachesRoot here

def Leads : Prop :=
  ∃ step, state.followed here d = some step /\
    (state.Named d.dependent -> state.ReachesRoot (d.dependent, step.2))

/-- Some dependency followed to `next` has none before it in the list that leads to the root. -/
def ExploresIn (here next : Id × Version) : List (Dependency Id Range) -> Prop
  | [] => False
  | d :: left =>
    (∃ step, state.followed here d = some step /\ next = (d.dependent, step.2)) \/
      ¬ state.Leads here d /\ ExploresIn here next left

/-- The search from `here` goes on to the named package `next`. -/
def Explores (next here : Id × Version) : Prop :=
  state.Named next.1 /\ state.ExploresIn here next (state.dependencies here.1)

variable {state} {here : Id × Version} {d : Dependency Id Range} {step : Range × Version}
  {left : List (Dependency Id Range)}

lemma reachesRoot_iff :
    state.ReachesRoot here <-> ∃ d ∈ state.dependencies here.1, state.Leads here d :=
  ⟨fun ⟨mem, next, above⟩ => ⟨_, mem, _, next, above⟩,
    fun ⟨_, mem, _, next, above⟩ => ⟨mem, next, above⟩⟩

lemma leads_iff (next : state.followed here d = some step) :
    state.Leads here d <-> (state.Named d.dependent -> state.ReachesRoot (d.dependent, step.2)) := by
  refine ⟨fun ⟨other, same, above⟩ => ?_, fun above => ⟨step, next, above⟩⟩
  cases next.symm.trans same
  exact above

/-- A package is explored in the version that the solution has for it. -/
lemma Explores.solution {next : Id × Version} (explores : state.Explores next here) :
    state.solution next.1 = some next.2 := by
  rcases explores with ⟨_, explored⟩
  generalize state.dependencies here.1 = left at explored
  induction left with
  | nil => exact explored.elim
  | cons d left ih =>
    rcases explored with ⟨step, followed, rfl⟩ | ⟨_, later⟩
    · rw [State.followed] at followed
      split_ifs at followed
      split at followed
      · cases followed
      · split_ifs at followed
        rcases map_eq_some_iff.mp followed with ⟨version, chosen, rfl⟩
        exact chosen
    · exact ih later

/-- The search goes only to packages from which it ends, and its answer is right. -/
def Ends (state : State Id Name Version Range) (here : Id × Version)
    (left : List (Dependency Id Range)) (found : Bool) : Prop :=
  (∀ next, state.Named next.1 -> state.ExploresIn here next left -> Acc state.Explores next) /\
  (found <-> ∃ d ∈ left, state.Leads here d)

lemma Ends.cons {found : Bool} (head : ∀ step, state.followed here d = some step ->
      state.Named d.dependent -> Acc state.Explores (d.dependent, step.2))
    (stop : state.Leads here d -> found) (rest : ¬ state.Leads here d -> state.Ends here left found) :
    state.Ends here (d :: left) found := by
  constructor
  · rintro next known (⟨step, same, rfl⟩ | ⟨no, later⟩)
    · exact head step same known
    · exact (rest no).1 next known later
  · by_cases leads : state.Leads here d
    · exact iff_of_true (stop leads) ⟨d, List.mem_cons_self, leads⟩
    · rw [(rest leads).2, List.exists_mem_cons_iff, or_iff_right leads]

lemma acc_of_ends {found : Bool} (ends : state.Ends here (state.dependencies here.1) found) :
    Acc state.Explores here :=
  .intro here fun next explored => ends.1 next explored.1 explored.2

/-! ## The search -/

abbrev Path (Name Version Range : Type) := List (DerivationStep Name Version Range)

variable (state) [DecidableEq Name]

/-- The path with the dependent, which is left out if it is a proxy; none for the root. -/
def extend (d : Dependency Id Range) (step : Range × Version) (path : Path Name Version Range) :
    Option (Path Name Version Range) :=
  if state.nameNoRoot d.dependent = state.nameNoRoot d.dependency then some path
  else (state.nameNoRoot d.dependent).map fun name =>
    path ++ [⟨name, state.extra d.dependent, state.group d.dependent, some step.2, step.1⟩]

/-- The loop over the dependencies that are left; nothing is returned when the fuel runs out. -/
def findPath : Nat -> Id × Version -> List (Dependency Id Range) -> Path Name Version Range ->
    Option (Option (Path Name Version Range))
  | 0, _, _, _ => none
  | _ + 1, _, [], _ => some none
  | fuel + 1, here, d :: left, path =>
    match state.followed here d with
    | none => findPath fuel here left path
    | some step =>
      match state.extend d step path with
      | none => some (some path)
      | some longer => do
        let found <- findPath fuel (d.dependent, step.2) (state.dependencies d.dependent) longer
        -- Backtrack if the path didn't lead to the root.
        if found.isSome then some found else findPath fuel here left path

def fromState (fuel : Nat) (here : Id × Version) : Option (Option (Path Name Version Range)) :=
  (state.findPath fuel here (state.dependencies here.1) []).map fun path => path.map List.reverse

variable {state} {fuel : Nat} {path : Path Name Version Range}
  {answer : Option (Path Name Version Range)}

/-- Only the root ends the search, as the package it starts from has a name. -/
lemma isSome_extend (path : Path Name Version Range) (named : state.Named here.1)
    (next : state.followed here d = some step) :
    (state.extend d step path).isSome = (state.nameNoRoot d.dependent).isSome := by
  have own : here.1 = d.dependency := by
    by_contra other
    rw [followed, if_pos other] at next
    cases next
  rw [extend]
  split
  next same => rw [same, <- own, named, isSome_some]
  next => rw [isSome_map]

lemma findPath_spec (result : state.findPath fuel here left path = some answer)
    (named : state.Named here.1) : state.Ends here left answer.isSome := by
  induction fuel generalizing here left path answer with
  | zero => cases result
  | succ fuel ih =>
    cases left with
    | nil =>
      cases result
      exact ⟨fun _ _ no => no.elim, by simp⟩
    | cons d left =>
      cases next : state.followed here d with
      | none =>
        simp only [findPath, next] at result
        have no : ∀ step, state.followed here d ≠ some step := by simp [next]
        exact .cons (fun step same => absurd same (no step))
          (fun ⟨step, same, _⟩ => absurd same (no step)) fun _ => ih result named
      | some step =>
        have kind := isSome_extend path named next
        cases extended : state.extend d step path with
        | none =>
          simp only [findPath, next, extended] at result kind
          cases result
          have top : ¬ state.Named d.dependent := by simp [Named, <- kind]
          exact .cons (fun _ _ known => absurd known top) (fun _ => rfl)
            fun no => absurd ((leads_iff next).mpr fun known => absurd known top) no
        | some longer =>
          simp only [findPath, next, extended] at result kind
          rcases bind_eq_some_iff.mp result with ⟨found, above, result⟩
          have ends := ih above kind.symm
          have leads : found.isSome <-> state.Leads here d :=
            (ends.2.trans (@reachesRoot_iff _ _ _ _ _ state (d.dependent, step.2)).symm).trans
              ((forall_prop_of_true kind.symm).symm.trans (leads_iff next).symm)
          refine .cons (fun other same _ => ?_) (fun lead => ?_) fun no => ?_
          · cases next.symm.trans same
            exact acc_of_ends ends
          · rw [if_pos (leads.mpr lead)] at result
            cases result
            exact leads.mpr lead
          · rw [if_neg fun found => no (leads.mp found)] at result
            exact ih result named

lemma findPath_mono {more : Nat} (result : state.findPath fuel here left path = some answer)
    (le : fuel <= more) : state.findPath more here left path = some answer := by
  induction fuel generalizing here left path answer more with
  | zero => cases result
  | succ fuel ih =>
    cases more with
    | zero => cases le
    | succ more =>
      have le := Nat.le_of_succ_le_succ le
      cases left with
      | nil => exact result
      | cons d left =>
        cases next : state.followed here d with
        | none =>
          simp only [findPath, next] at result ⊢
          exact ih result le
        | some step =>
          cases extended : state.extend d step path with
          | none => simpa only [findPath, next, extended] using result
          | some longer =>
            simp only [findPath, next, extended] at result ⊢
            rcases bind_eq_some_iff.mp result with ⟨found, above, result⟩
            refine bind_eq_some_iff.mpr ⟨found, ih above le, ?_⟩
            split at result
            next lucky => rw [if_pos lucky, result]
            next lost => rw [if_neg lost, ih result le]

lemma findPath_ends (named : state.Named here.1) (ends : ∀ next path, state.Named next.1 ->
      state.ExploresIn here next left ->
      ∃ fuel answer, state.findPath fuel next (state.dependencies next.1) path = some answer) :
    ∃ fuel answer, state.findPath fuel here left path = some answer := by
  induction left with
  | nil => exact ⟨1, none, rfl⟩
  | cons d left ih =>
    have skip : ¬ state.Leads here d ->
        ∃ fuel answer, state.findPath fuel here left path = some answer :=
      fun no => ih fun other path known later => ends other path known (.inr ⟨no, later⟩)
    cases next : state.followed here d with
    | none =>
      rcases skip (fun ⟨_, same, _⟩ => by cases next.symm.trans same) with ⟨fuel, answer, result⟩
      exact ⟨fuel + 1, answer, by simp only [findPath, next, result]⟩
    | some step =>
      have kind := isSome_extend path named next
      cases extended : state.extend d step path with
      | none => exact ⟨1, some path, by simp only [findPath, next, extended]⟩
      | some longer =>
        rw [extended] at kind
        rcases ends (d.dependent, step.2) longer kind.symm (.inl ⟨step, next, rfl⟩) with
          ⟨fuel, found, above⟩
        by_cases lucky : found.isSome
        · refine ⟨fuel + 1, found, ?_⟩
          simp only [findPath, next, extended]
          exact bind_eq_some_iff.mpr ⟨found, above, if_pos lucky⟩
        · rcases skip fun lead => lucky ((findPath_spec above kind.symm).2.mpr
            (reachesRoot_iff.mp ((leads_iff next).mp lead kind.symm))) with ⟨fuel', answer, rest⟩
          refine ⟨max fuel fuel' + 1, answer, ?_⟩
          simp only [findPath, next, extended]
          refine bind_eq_some_iff.mpr ⟨found, findPath_mono above (Nat.le_max_left ..), ?_⟩
          rw [if_neg lucky, findPath_mono rest (Nat.le_max_right ..)]

lemma fromState_of_acc (named : state.Named here.1) (acc : Acc state.Explores here) :
    ∃ fuel chain, state.fromState fuel here = some chain /\
      (state.ReachesRoot here -> chain.isSome = true) := by
  have ends : ∀ here, Acc state.Explores here -> state.Named here.1 -> ∀ path,
      ∃ fuel answer, state.findPath fuel here (state.dependencies here.1) path = some answer := by
    intro here acc
    induction acc with
    | intro here _ ih =>
      exact fun named path => findPath_ends named fun next path known explored =>
        ih next ⟨known, explored⟩ known path
  rcases ends here acc named [] with ⟨fuel, answer, result⟩
  refine ⟨fuel, answer.map List.reverse, congrArg (Option.map _) result, fun reaches => ?_⟩
  rw [Option.isSome_map]
  exact (findPath_spec result named).2.mpr (reachesRoot_iff.mp reaches)

/-- The search ends, with a chain if the root can be reached, exactly if no endless sequence of
explored dependents starts at the package.  The callers have seen that it has a name. -/
theorem fromState_iff (state : State Id Name Version Range)
    (failing : {here : Id × Version // state.Named here.1}) :
    (∃ fuel chain, state.fromState fuel failing.1 = some chain /\
      (state.ReachesRoot failing.1 -> chain.isSome = true)) <->
    Acc state.Explores failing.1 := by
  constructor
  · rintro ⟨fuel, chain, result, _⟩
    rcases Option.map_eq_some_iff.mp result with ⟨answer, result, _⟩
    exact acc_of_ends (findPath_spec result failing.2)
  · exact fromState_of_acc failing.2

/-- Among finitely many packages the search ends if explored dependents form no cycle. -/
lemma fromState_of_acyclic [Finite Id] (named : state.Named here.1)
    (acyclic : ∀ next, ¬ Relation.TransGen state.Explores next next) :
    ∃ fuel chain, state.fromState fuel here = some chain /\
      (state.ReachesRoot here -> chain.isSome = true) := by
  let chosen : Set (Id × Version) := {next | state.solution next.1 = some next.2}
  have finite : chosen.Finite := by
    refine Set.Finite.of_injOn (f := Prod.fst) (t := Set.univ) (fun _ _ => trivial) ?_ Set.finite_univ
    intro next first other second same
    exact Prod.ext same (Option.some.inj (first.symm.trans (same ▸ second)))
  have strict : IsStrictOrder (Id × Version) (Relation.TransGen state.Explores) :=
    { irrefl := acyclic, trans := fun _ _ _ => .trans }
  have within : ∀ next : chosen, Acc state.Explores next.1 := by
    intro next
    induction finite.wellFoundedOn (r := Relation.TransGen state.Explores) |>.apply next with
    | intro next _ ih =>
      exact .intro _ fun other explored => ih ⟨other, explored.solution⟩ (.single explored)
  exact fromState_of_acc named (.intro here fun next explored => within ⟨next, explored.solution⟩)

/-- Two packages that need each other; the edge from the root to the first is recorded last. -/
def cyclic : State Nat Nat Nat Unit where
  nameNoRoot id := if id = 0 then none else some id
  extra _ := none
  group _ := none
  contains _ _ := true
  dependencies id :=
    if id = 1 then [⟨2, 1, some ()⟩, ⟨0, 1, some ()⟩] else if id = 2 then [⟨1, 2, some ()⟩] else []
  solution _ := some 0

theorem fromState_cyclic :
    cyclic.Named 1 /\ cyclic.ReachesRoot (1, 0) /\
      ∀ fuel, cyclic.fromState fuel (1, 0) = none := by
  have loop : ∀ here, Acc cyclic.Explores here -> here ≠ (1, 0) /\ here ≠ (2, 0) := by
    intro here acc
    induction acc with
    | intro here _ ih =>
      constructor
      · rintro rfl
        exact (ih (2, 0) ⟨rfl, .inl ⟨((), 0), rfl, rfl⟩⟩).2 rfl
      · rintro rfl
        exact (ih (1, 0) ⟨rfl, .inl ⟨((), 0), rfl, rfl⟩⟩).1 rfl
  refine ⟨rfl, ⟨.tail _ (.head _), rfl, fun known => by cases known⟩, fun fuel => ?_⟩
  refine map_eq_none_iff.mpr (eq_none_iff_forall_ne_some.mpr fun answer result => ?_)
  exact (loop (1, 0) (acc_of_ends (findPath_spec result rfl))).1 rfl

end State

end Uv.Resolver
