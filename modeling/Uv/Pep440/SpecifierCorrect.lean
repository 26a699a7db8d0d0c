import Uv.Library.IntervalModel
import Uv.Pep440.SpecifierOperators

namespace Uv.Pep440

open Library

/-!
# Specifiers that were read from text

Parsing promises what the operators need: the version of a specifier can be
written down, it has no local part when the operator forbids one, and it is bare
before a wildcard.  The interval set of a specifier then contains exactly the
versions that satisfy it, and the set of a list is the intersection.
-/

/-! ## What parsing promises -/

variable {version : Version}

namespace VersionSpecifier

/-- A specifier whose version can be written down, and fits its operator. -/
structure Accepted (spec : VersionSpecifier) : Prop where
  parsed : spec.version.Parsed Grammar.Components.limit
  bare : spec.operator = .equalStar \/ spec.operator = .notEqualStar ->
    spec.version.Bare
  noLocal : spec.operator.isLocalCompatible = false ->
    spec.version.localVersion = .empty

variable {operator : Operator} {spec : VersionSpecifier}

lemma fromVersion_accepted (parsed : version.Parsed Grammar.Components.limit)
    (bare : operator = .equalStar \/ operator = .notEqualStar -> version.Bare)
    (done : fromVersion operator version = .ok spec) : spec.Accepted := by
  unfold fromVersion at done
  split at done
  · cases done
  next allowed =>
    split at done
    · cases done
    · cases done
      refine ⟨parsed, bare, fun incompatible => ?_⟩
      rw [incompatible, Bool.not_false, Bool.and_true, Version.isLocal, Bool.not_eq_true',
        Bool.not_eq_false] at allowed
      exact localVersion_of_isEmpty allowed

lemma fromPattern_accepted {pattern : VersionPattern}
    (plain : ¬ (operator = .equalStar \/ operator = .notEqualStar))
    (parsed : pattern.version.Parsed Grammar.Components.limit)
    (bare : pattern.wildcard -> pattern.version.Bare)
    (done : fromPattern operator pattern = .ok spec) : spec.Accepted := by
  unfold fromPattern at done
  split at done
  next wild =>
    split at done
    · exact fromVersion_accepted parsed (fun _ => bare wild) done
    · cases done
  · exact fromVersion_accepted parsed (fun star => absurd star plain) done

lemma mapError_eq_ok {ε ε' α : Type} {first : Except ε α} {wrap : ε -> ε'} {value : α}
    (done : first.mapError wrap = .ok value) : first = .ok value := by
  cases first with
  | error err => cases done
  | ok found =>
    cases done
    rfl

/-- The text of an operator does not name a star operator. -/
lemma operator_fromStr_plain {text : String} (done : Operator.fromStr text = .ok operator) :
    ¬ (operator = .equalStar \/ operator = .notEqualStar) := by
  unfold Operator.fromStr at done
  split at done <;> cases done <;> decide

lemma fromStr_accepted {eatWhile : EatWhile} {text : String}
    (done : fromStr eatWhile text = .ok spec) : spec.Accepted := by
  unfold fromStr at done
  simp only at done
  split at done
  · cases done
  · rcases of_bind_ok done with ⟨operator, readOperator, done⟩
    split at done
    · cases done
    · rcases of_bind_ok done with ⟨pattern, readPattern, done⟩
      rcases of_bind_ok done with ⟨built, build, done⟩
      split at done
      · cases done
      · cases done
        rcases VersionPattern.fromStr_parsed (mapError_eq_ok readPattern) with ⟨parsed, bare⟩
        exact fromPattern_accepted (operator_fromStr_plain (mapError_eq_ok readOperator)) parsed
          bare (mapError_eq_ok build)

/-! ## All operators -/

/-- For a specifier and a version that can be written down, the conversion does
not panic, and the set contains the version exactly when the specifier does. -/
lemma Accepted.toRanges_contains (alg : RangeAlgebra Version Version.cmp)
    (accepted : spec.Accepted) (parsed : version.Parsed Grammar.Components.limit) :
    ∃ ranges, spec.toRanges alg = some ranges /\
      alg.contains ranges version = spec.contains version := by
  rcases spec with ⟨operator, this, compatible⟩
  have own := accepted.parsed
  simp only at own
  have equalCase : ∃ ranges, equalRanges alg this = some ranges /\
      alg.contains ranges version = (comparable this version).eq this := by
    rcases own.localVersion with ⟨segments, spelled⟩
    unfold equalRanges
    rw [spelled]
    cases segments with
    | nil => exact ⟨_, rfl, Bool.eq_iff_iff.mpr (equal_iff alg parsed spelled)⟩
    | cons segment rest =>
      have hasLocal : this.localVersion.isEmpty = false := by
        rw [spelled]
        rfl
      refine ⟨_, rfl, Bool.eq_iff_iff.mpr ?_⟩
      rw [comparable_of_local hasLocal, contains_exactly alg, Version.eq_iff, Version.eq_iff,
        eq_comm]
  cases operator with
  | equal => exact equalCase
  | exactEqual => exact ⟨_, rfl, Bool.eq_iff_iff.mpr (contains_exactly alg version)⟩
  | notEqual =>
    rcases equalCase with ⟨ranges, converted, same⟩
    refine ⟨alg.complement ranges, ?_, ?_⟩
    · simp only [toRanges, converted, Option.map_some]
    · rw [alg.contains_complement, same, contains, Bool.not_inj_iff, Bool.eq_iff_iff,
        Version.eq_iff, Version.eq_iff, eq_comm]
  | tildeEqual =>
    exact ⟨_, rfl, Bool.eq_iff_iff.mpr
      (tilde_iff alg own parsed (accepted.noLocal rfl) (compatible rfl))⟩
  | lessThan =>
    exact ⟨_, rfl, Bool.eq_iff_iff.mpr (lessThan_iff alg own parsed (accepted.noLocal rfl))⟩
  | lessThanEqual =>
    exact ⟨_, rfl, Bool.eq_iff_iff.mpr (lessThanEqual_iff alg (accepted.noLocal rfl))⟩
  | greaterThan =>
    exact ⟨_, rfl, Bool.eq_iff_iff.mpr (greaterThan_iff alg own parsed (accepted.noLocal rfl))⟩
  | greaterThanEqual =>
    exact ⟨_, rfl, Bool.eq_iff_iff.mpr (greaterThanEqual_iff alg (accepted.noLocal rfl))⟩
  | equalStar =>
    exact ⟨_, rfl, Bool.eq_iff_iff.mpr
      (star_iff alg own parsed (accepted.noLocal rfl) (accepted.bare (.inl rfl)))⟩
  | notEqualStar =>
    have star := Bool.eq_iff_iff.mpr
      (star_iff alg own parsed (accepted.noLocal rfl) (accepted.bare (.inr rfl)))
    refine ⟨_, rfl, ?_⟩
    rw [alg.contains_complement, star, Bool.not_and]
    rfl

end VersionSpecifier

/-! ## Lists of specifiers -/

namespace VersionSpecifiers

variable (alg : RangeAlgebra Version Version.cmp)

/-- One pass of the loop intersects with the ranges of one specifier. -/
lemma foldlM_contains
    (parsed : version.Parsed Grammar.Components.limit) (list : List VersionSpecifier) :
    (∀ spec ∈ list, spec.Accepted) -> ∀ range : alg.Ranges, ∃ ranges,
        list.foldlM (fun range spec =>
          (spec.toRanges alg).map (alg.intersection range)) range = some ranges /\
          alg.contains ranges version =
            (alg.contains range version &&
              list.all fun spec => spec.contains version) := by
  induction list with
  | nil =>
    intro _ range
    exact ⟨range, rfl, (Bool.and_true _).symm⟩
  | cons spec rest ih =>
    intro accepted range
    rcases (accepted spec List.mem_cons_self).toRanges_contains alg parsed with
      ⟨own, converted, same⟩
    rcases ih (List.forall_mem_cons.mp accepted).2
      (alg.intersection range own) with ⟨ranges, folded, membership⟩
    refine ⟨ranges, ?_, ?_⟩
    · rw [List.foldlM_cons, converted]
      exact folded
    · rw [membership, alg.contains_intersection, same, List.all_cons, Bool.and_assoc]

lemma toRanges_contains
    (parsed : version.Parsed Grammar.Components.limit) (list : VersionSpecifiers)
    (accepted : ∀ spec ∈ list.specifiers, spec.Accepted) :
    ∃ ranges, list.toRanges alg = some ranges /\
      alg.contains ranges version = list.contains version := by
  rcases foldlM_contains alg parsed list.specifiers accepted alg.full with
    ⟨ranges, folded, membership⟩
  refine ⟨ranges, folded, ?_⟩
  rw [membership, alg.contains_full, Bool.true_and, contains]

end VersionSpecifiers

/-- A version that was read from text is in the interval set of a specifier that
was read from text exactly when it satisfies the specifier, and it is in the set
of a list exactly when it satisfies all specifiers of the list. -/
theorem VersionSpecifier.mem_toRanges_iff_contains
    (alg : RangeAlgebra Version Version.cmp) (eatWhile : EatWhile) {candidate : String}
    {version : Version} (readVersion : Version.fromStr candidate = .ok version) :
    (∀ text spec, VersionSpecifier.fromStr eatWhile text = .ok spec ->
      ∃ ranges, spec.toRanges alg = some ranges /\
        (alg.contains ranges version = true <-> spec.contains version = true)) /\
      ∀ list : VersionSpecifiers,
        (∀ spec ∈ list.specifiers,
          ∃ text, VersionSpecifier.fromStr eatWhile text = .ok spec) ->
        ∃ ranges, list.toRanges alg = some ranges /\ (alg.contains ranges version = true <->
            ∀ spec ∈ list.specifiers, spec.contains version = true) := by
  have parsed := Version.fromStr_parsed readVersion
  constructor
  · intro text spec readSpecifier
    rcases (fromStr_accepted readSpecifier).toRanges_contains alg parsed with
      ⟨ranges, converted, same⟩
    exact ⟨ranges, converted, by rw [same]⟩
  · intro list readAll
    have accepted : ∀ spec ∈ list.specifiers, spec.Accepted := by
      intro spec mem
      rcases readAll spec mem with ⟨text, readSpecifier⟩
      exact fromStr_accepted readSpecifier
    rcases list.toRanges_contains alg parsed accepted with ⟨ranges, converted, same⟩
    refine ⟨ranges, converted, ?_⟩
    rw [same, VersionSpecifiers.contains, List.all_eq_true]

lemma zeroRelease_ne_nil : ([0] : List UInt64) ≠ [] :=
  List.cons_ne_nil 0 []

instance : Inhabited Version := ⟨Version.new [0] zeroRelease_ne_nil⟩

/-- Interval sets of versions, as sorted cuts. -/
noncomputable def Version.cutSets : RangeAlgebra Version Version.cmp :=
  CutSet.algebra Version.cmp_orderedBy_splitKey

/-- The longest leading run of characters of a kind. -/
def takeRun : EatWhile := fun kind text =>
  (String.ofList (text.toList.takeWhile kind), String.ofList (text.toList.dropWhile kind))

/-- `>1.0a1` contains `1.0.post1` with a local part. -/
theorem VersionSpecifier.mem_toRanges_local_post : ∃ version spec,
    Version.fromStr "1!1.0.post1+ubuntu.1" = .ok version /\
      VersionSpecifier.fromStr takeRun "> 1!1.0a1" = .ok spec /\
      (∃ ranges, spec.toRanges Version.cutSets = some ranges /\
        Version.cutSets.contains ranges version = true) /\
      ∃ ranges, VersionSpecifiers.toRanges Version.cutSets ⟨[spec]⟩ = some ranges /\
        Version.cutSets.contains ranges version = true := by
  have evaluated : ((Version.fromStr "1!1.0.post1+ubuntu.1").toOption.bind fun version =>
      (VersionSpecifier.fromStr takeRun "> 1!1.0a1").toOption.map fun spec =>
        spec.contains version) = some true := by decide
  cases readVersion : Version.fromStr "1!1.0.post1+ubuntu.1" with
  | error err =>
    rw [readVersion] at evaluated
    cases evaluated
  | ok version =>
    cases readSpecifier : VersionSpecifier.fromStr takeRun "> 1!1.0a1" with
    | error err =>
      rw [readVersion, readSpecifier] at evaluated
      cases evaluated
    | ok spec =>
      rw [readVersion, readSpecifier] at evaluated
      have satisfied : spec.contains version = true := Option.some.inj evaluated
      rcases mem_toRanges_iff_contains Version.cutSets takeRun readVersion with ⟨one, list⟩
      rcases one _ spec readSpecifier with ⟨ranges, converted, same⟩
      rcases list ⟨[spec]⟩ (fun given mem =>
        ⟨_, (List.mem_singleton.mp mem).symm ▸ readSpecifier⟩) with
        ⟨ranges', converted', same'⟩
      refine ⟨version, spec, rfl, rfl,
        ⟨ranges, converted, same.mpr satisfied⟩, ranges', converted', same'.mpr ?_⟩
      intro given mem
      rw [List.mem_singleton.mp mem]
      exact satisfied

end Uv.Pep440
