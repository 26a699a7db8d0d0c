import Uv.Marker.Expression
import Uv.Pep440.ReleaseBounds

namespace Uv.Marker

open Pep440 Library List Version VersionSpecifier

/-!
# `python_version` in terms of `python_full_version`

An interpreter `major.minor.patch` has the `python_version` `major.minor`.  A
comparison of `python_version` is rewritten to one of `python_full_version`, so
that both share one variable.  Here the rewritten comparison is evaluated at
`major.minor.patch` and the original one at `major.minor`.
-/

/-! ## Releases against two and three numbers -/

section

variable (release : List UInt64) (major minor patch : UInt64)

/-- Only zeros follow the second number. -/
def hasTwoNumbers : Bool := (release.drop 2).all (· == 0)

lemma hasTwoNumbers_iff : hasTwoNumbers release <-> releaseKey (release.drop 2) <= releaseKey [] := by
  rw [hasTwoNumbers]
  induction release.drop 2 with
  | nil => simp
  | cons number rest ih =>
    rw [all_cons, Bool.and_eq_true, ih, releaseKey_cons_le_nil_iff, beq_iff_eq, <- UInt64.toNat_inj]
    rfl

lemma releaseKey_lt_two :
    releaseKey release < releaseKey [major, minor] <->
      (release.getD 0 0).toNat < major.toNat \/
        (release.getD 0 0).toNat = major.toNat /\ (release.getD 1 0).toNat < minor.toNat := by
  rw [releaseKey_eq_cons_cons release, releaseKey_cons_lt_iff, releaseKey_cons_lt_iff]
  have bottom : ¬ releaseKey (release.drop 2) < releaseKey [] := not_lt.mpr (releaseKey_nil_le _)
  simp only [bottom, and_false, or_false]

lemma two_lt_releaseKey :
    releaseKey [major, minor] < releaseKey release <->
      major.toNat < (release.getD 0 0).toNat \/
        major.toNat = (release.getD 0 0).toNat /\ (minor.toNat < (release.getD 1 0).toNat \/
          minor.toNat = (release.getD 1 0).toNat /\ hasTwoNumbers release = false) := by
  rw [releaseKey_eq_cons_cons release, releaseKey_cons_lt_iff, releaseKey_cons_lt_iff,
    <- Bool.not_eq_true, hasTwoNumbers_iff, not_le]
  exact Iff.rfl

lemma releaseKey_le_three (two : hasTwoNumbers release) :
    releaseKey release <= releaseKey [major, minor, patch] <->
      (release.getD 0 0).toNat < major.toNat \/
        (release.getD 0 0).toNat = major.toNat /\ (release.getD 1 0).toNat <= minor.toNat := by
  have rest : releaseKey (release.drop 2) <= releaseKey [patch] :=
    ((hasTwoNumbers_iff release).mp two).trans (releaseKey_nil_le _)
  rw [releaseKey_eq_cons_cons release, releaseKey_cons_le_iff, releaseKey_cons_le_iff]
  simp only [rest, and_true]
  omega

lemma second_fits {release : List UInt64} (fits : ∀ number ∈ release, number.toNat < 2 ^ 64 - 1) :
    (release.getD 1 0).toNat < 2 ^ 64 - 1 := by
  rw [getD_eq_getElem?_getD]
  cases found : release[1]? with
  | none => decide
  | some number => exact fits number (mem_of_getElem? found)

end

/-! ## The rewritten specifier -/

section

variable (release : List UInt64) (major minor patch : UInt64)

lemma three_lt_releaseKey (two : hasTwoNumbers release) :
    releaseKey [major, minor, patch] < releaseKey release <->
      major.toNat < (release.getD 0 0).toNat \/
        major.toNat = (release.getD 0 0).toNat /\ minor.toNat < (release.getD 1 0).toNat := by
  refine not_le.symm.trans ((not_congr (releaseKey_le_three release major minor patch two)).trans ?_)
  omega

/-- `major.minor` is the release, up to zeros. -/
lemma two_eq_releaseKey :
    releaseKey [major, minor] = releaseKey release <->
      (release.getD 0 0).toNat = major.toNat /\ (release.getD 1 0).toNat = minor.toNat /\
        hasTwoNumbers release := by
  have below := not_lt.symm.trans (not_congr (releaseKey_lt_two release major minor))
  have above := not_lt.symm.trans (not_congr (two_lt_releaseKey release major minor))
  rw [le_antisymm_iff]
  refine (and_congr below above).trans ?_
  cases hasTwoNumbers release <;> simp <;> omega

lemma inRange_equalStar_one {number : UInt64} (fits : number.toNat < 2 ^ 64 - 1) :
    InRange .equalStar [number] [major, minor, patch] <-> number = major := by
  have next := succ_toNat fits
  rw [InRange, releaseKey_le_three _ _ _ _ rfl, three_lt_releaseKey _ _ _ _ rfl, <- UInt64.toNat_inj]
  simp only [bumpLast, getD_cons_zero, getD_cons_succ, getD_nil, next]
  simp
  omega

variable {first second : UInt64}

lemma inRange_equalStar_two (fits : second.toNat < 2 ^ 64 - 1) :
    InRange .equalStar [first, second] [major, minor, patch] <->
      first = major /\ second = minor := by
  have next := succ_toNat fits
  rw [InRange, releaseKey_le_three _ _ _ _ rfl, three_lt_releaseKey _ _ _ _ rfl, <- UInt64.toNat_inj,
    <- UInt64.toNat_inj]
  simp only [bumpLast, getD_cons_zero, getD_cons_succ, next]
  omega

/-- The versions below the next release of two numbers. -/
lemma inRange_lessThan_next (fits : second.toNat < 2 ^ 64 - 1) :
    InRange .lessThan [first, second + 1] [major, minor, patch] <->
      major.toNat < first.toNat \/ major.toNat = first.toNat /\ minor.toNat <= second.toNat := by
  have next := succ_toNat fits
  refine (three_lt_releaseKey [first, second + 1] _ _ _ rfl).trans ?_
  simp only [getD_cons_zero, getD_cons_succ, next]
  omega

lemma inRange_greaterThanEqual_next (fits : second.toNat < 2 ^ 64 - 1) :
    InRange .greaterThanEqual [first, second + 1] [major, minor, patch] <->
      first.toNat < major.toNat \/ first.toNat = major.toNat /\ second.toNat < minor.toNat := by
  have complement := not_congr (@inRange_lessThan_next major minor patch first second fits)
  refine (not_lt.symm.trans complement).trans ?_
  omega

/-- The meaning of a specifier, or of the constant that it is. -/
def Holds (result : Except Bool VersionSpecifier) (other : List UInt64) : Prop :=
  match result with
  | .ok spec => InRange spec.operator spec.version.release other
  | .error constant => constant = true

lemma holds_new {operator : Operator} {numbers other : List UInt64} {nonempty : numbers ≠ []}
    {compatible : operator = .tildeEqual -> 2 <= (Version.new numbers nonempty).release.length} :
    Holds (.ok ⟨operator, .new numbers nonempty, compatible⟩) other <->
      InRange operator numbers other := by
  rw [Holds, release_new]

/-- Operators whose version is read without the zeros at its end. -/
def isPlain : Operator -> Bool
  | .equalStar | .notEqualStar | .tildeEqual => false
  | _ => true

/-- The release decides which of the two tables is used. -/
lemma plainToFullVersion_eq (spec : VersionSpecifier) :
    plainToFullVersion spec =
      if hasTwoNumbers spec.version.release then
        majorMinorToFullVersion spec (spec.version.release.getD 0 0)
          (spec.version.release.getD 1 0)
      else
        longReleaseToFullVersion spec (spec.version.release.getD 0 0)
          (spec.version.release.getD 1 0) := by
  have nonempty : spec.version.release ≠ [] := spec.version.nonempty
  rw [plainToFullVersion, spec.version.onlyReleaseTrimmed_spec.2, hasTwoNumbers]
  rcases trimmedRelease_cases nonempty with ⟨two, ⟨trimmed, zero⟩ | ⟨trimmed, _⟩⟩ | ⟨long, three⟩
  · rw [trimmed, two, zero]
    rfl
  · rw [trimmed, two]
    rfl
  · rw [long]
    rcases shape : trimmedRelease spec.version.release with _ | ⟨_, _ | ⟨_, _ | ⟨_, _⟩⟩⟩
    · simp [shape] at three
    · simp [shape] at three
    · simp [shape] at three
    · rcases release : spec.version.release with _ | ⟨_, _ | ⟨_, _⟩⟩
      · simp [release] at long
      · simp [release] at long
      · rfl

section

variable {spec : VersionSpecifier} (plain : isPlain spec.operator = true)
  (fits : (spec.version.release.getD 1 0).toNat < 2 ^ 64 - 1)

include plain fits

lemma majorMinor_holds (two : hasTwoNumbers spec.version.release) :
    Holds (majorMinorToFullVersion spec (spec.version.release.getD 0 0)
        (spec.version.release.getD 1 0)) [major, minor, patch] <->
      Accepts spec.operator spec.version.release [major, minor] := by
  have above := releaseKey_lt_two spec.version.release major minor
  have below := two_lt_releaseKey spec.version.release major minor
  rw [two, Bool.true_eq_false, and_false, or_false] at below
  have full := releaseKey_le_three spec.version.release major minor patch two
  have fullBelow := three_lt_releaseKey spec.version.release major minor patch two
  have equal : InRange .equalStar
      [spec.version.release.getD 0 0, spec.version.release.getD 1 0]
      [major, minor, patch] <-> releaseKey [major, minor] = releaseKey spec.version.release := by
    rw [inRange_equalStar_two major minor patch fits, two_eq_releaseKey, <- UInt64.toNat_inj,
      <- UInt64.toNat_inj]
    exact and_congr_right fun _ => (and_iff_left two).symm
  rw [majorMinorToFullVersion]
  cases operator : spec.operator with
  | equal | exactEqual => exact holds_new.trans equal
  | notEqual => exact holds_new.trans (not_congr equal)
  | greaterThan =>
    exact (holds_new.trans (inRange_greaterThanEqual_next major minor patch fits)).trans above.symm
  | lessThanEqual =>
    refine (holds_new.trans (inRange_lessThan_next major minor patch fits)).trans ?_
    refine Iff.trans ?_ ((not_congr above).symm.trans not_lt)
    omega
  | lessThan =>
    dsimp only
    split
    next zero =>
      rw [zero.1, zero.2] at below
      refine iff_of_false Bool.false_ne_true fun less => ?_
      exact absurd (below.mp less) (by simp)
    · rw [Holds, operator]
      exact fullBelow.trans below.symm
  | greaterThanEqual =>
    dsimp only
    split
    next zero =>
      rw [zero.1, zero.2] at below
      refine iff_of_true rfl (le_of_not_gt fun less => ?_)
      exact absurd (below.mp less) (by simp)
    · rw [Holds, operator]
      refine (full.trans ?_).trans ((not_congr below).symm.trans not_lt)
      omega
  | equalStar | notEqualStar | tildeEqual =>
    rw [operator] at plain; cases plain

lemma longRelease_holds (two : hasTwoNumbers spec.version.release = false) :
    Holds (longReleaseToFullVersion spec (spec.version.release.getD 0 0)
        (spec.version.release.getD 1 0)) [major, minor, patch] <->
      Accepts spec.operator spec.version.release [major, minor] := by
  have above := releaseKey_lt_two spec.version.release major minor
  have below := two_lt_releaseKey spec.version.release major minor
  rw [two, eq_self, and_true] at below
  have differs : releaseKey [major, minor] ≠ releaseKey spec.version.release := fun equal =>
    Bool.false_ne_true (two.symm.trans ((two_eq_releaseKey _ major minor).mp equal).2.2)
  have less : InRange .lessThan
      [spec.version.release.getD 0 0, spec.version.release.getD 1 0 + 1]
      [major, minor, patch] <-> releaseKey [major, minor] < releaseKey spec.version.release := by
    rw [inRange_lessThan_next major minor patch fits]
    refine Iff.trans ?_ below.symm
    omega
  have more : InRange .greaterThanEqual
      [spec.version.release.getD 0 0, spec.version.release.getD 1 0 + 1]
      [major, minor, patch] <-> releaseKey spec.version.release < releaseKey [major, minor] :=
    (inRange_greaterThanEqual_next major minor patch fits).trans above.symm
  -- No release of two numbers is equal to the longer one.
  have strict : releaseKey [major, minor] <= releaseKey spec.version.release <->
      releaseKey [major, minor] < releaseKey spec.version.release :=
    ⟨fun le => lt_of_le_of_ne le differs, fun lt => le_of_lt lt⟩
  have strict' : releaseKey spec.version.release <= releaseKey [major, minor] <->
      releaseKey spec.version.release < releaseKey [major, minor] :=
    ⟨fun le => lt_of_le_of_ne le differs.symm, fun lt => le_of_lt lt⟩
  rw [longReleaseToFullVersion]
  cases operator : spec.operator with
  | equal | exactEqual => exact iff_of_false Bool.false_ne_true differs
  | notEqual => exact iff_of_true rfl differs
  | greaterThan => exact holds_new.trans more
  | greaterThanEqual => exact (holds_new.trans more).trans strict'.symm
  | lessThan => exact holds_new.trans less
  | lessThanEqual => exact (holds_new.trans less).trans strict.symm
  | equalStar | notEqualStar | tildeEqual =>
    rw [operator] at plain; cases plain

end

lemma accepts_tildeEqual_two (first second : UInt64) :
    Accepts .tildeEqual [first, second] [major, minor] <->
      first.toNat = major.toNat /\ second.toNat <= minor.toNat := by
  have below := not_congr (two_lt_releaseKey [first, second] major minor)
  rw [Accepts]
  refine (and_congr_right fun _ => not_lt.symm.trans below).trans ?_
  simp only [length_cons, length_nil, take_succ_cons, take_zero, zip_cons_cons,
    zip_nil_left, all_cons, all_nil, Bool.and_true, beq_iff_eq, getD_cons_zero,
    getD_cons_succ, <- UInt64.toNat_inj, hasTwoNumbers, drop_succ_cons, drop_nil,
    Bool.true_eq_false, and_false, or_false, Nat.reduceAdd, Nat.reduceSub]
  omega

lemma accepts_tildeEqual_more (first second third : UInt64) (rest : List UInt64) :
    Accepts .tildeEqual (first :: second :: third :: rest) [major, minor] <->
      first = major /\ second = minor /\ (third :: rest).all (· == 0) := by
  have below : ¬ releaseKey [major, minor] < releaseKey (first :: second :: third :: rest) <->
      ¬ (major.toNat < first.toNat \/ major.toNat = first.toNat /\ (minor.toNat < second.toNat \/
        minor.toNat = second.toNat /\ (third :: rest).all (· == 0) = false)) :=
    not_congr (two_lt_releaseKey (first :: second :: third :: rest) major minor)
  have agrees : ((first :: second :: third :: rest).take
      ((first :: second :: third :: rest).length - 1)).zip [major, minor] =
        [(first, major), (second, minor)] := by
    simp
  rw [Accepts, agrees]
  refine (and_congr_right fun _ => not_lt.symm.trans below).trans ?_
  rw [all_cons, all_cons, all_nil, Bool.and_true, Bool.and_eq_true, beq_iff_eq,
    beq_iff_eq, <- UInt64.toNat_inj, <- UInt64.toNat_inj]
  cases (third :: rest).all (· == 0) <;>
    simp only [eq_self, Bool.true_eq_false, Bool.false_eq_true, and_true, and_false, or_false,
      iff_false] <;>
    omega

lemma inRange_tildeEqual_two (fits : first.toNat < 2 ^ 64 - 1) :
    InRange .tildeEqual [first, second] [major, minor, patch] <->
      first.toNat = major.toNat /\ second.toNat <= minor.toNat := by
  have next := succ_toNat fits
  refine (and_congr (releaseKey_le_three _ major minor patch rfl)
    (three_lt_releaseKey [first + 1] major minor patch rfl)).trans ?_
  simp only [getD_cons_zero, getD_cons_succ, getD_nil, next, UInt64.toNat_zero,
    Nat.not_lt_zero, and_false, or_false]
  omega

variable {spec : VersionSpecifier}
  (fits : ∀ number ∈ spec.version.release, number.toNat < 2 ^ 64 - 1)

include fits

lemma plain_holds (plain : isPlain spec.operator) :
    Holds (plainToFullVersion spec) [major, minor, patch] <->
      Accepts spec.operator spec.version.release [major, minor] := by
  have second := second_fits fits
  rw [plainToFullVersion_eq]
  split
  next two => exact majorMinor_holds major minor patch plain second two
  next long =>
    exact longRelease_holds major minor patch plain second (Bool.eq_false_iff.mpr long)

/-- Only a wildcard behind more than two numbers has no meaning for `major.minor`. -/
lemma star_holds :
    (∃ result, starToFullVersion spec = .ok result /\
        result.operator = spec.operator /\ hasTwoNumbers spec.version.release /\
        (InRange .equalStar result.version.release [major, minor, patch] <->
          Accepts .equalStar spec.version.release [major, minor])) \/
      starToFullVersion spec = .error false /\
        hasTwoNumbers spec.version.release = false /\
        ¬ Accepts .equalStar spec.version.release [major, minor] := by
  rw [starToFullVersion]
  rcases shape : spec.version.release with _ | ⟨first, _ | ⟨second, rest⟩⟩
  · exact absurd shape spec.version.nonempty
  · refine .inl ⟨spec, rfl, rfl, rfl, ?_⟩
    rw [shape, inRange_equalStar_one major minor patch (fits first (by rw [shape]; simp)),
      accepts_equalStar_one]
  · dsimp only
    split
    next zeros =>
      refine .inl ⟨_, rfl, rfl, zeros, ?_⟩
      rw [release_new, accepts_equalStar_more,
        inRange_equalStar_two major minor patch (fits second (by rw [shape]; simp))]
      exact and_congr_right fun _ => (and_iff_left zeros).symm
    next long =>
      refine .inr ⟨rfl, Bool.eq_false_iff.mpr long, ?_⟩
      rw [accepts_equalStar_more]
      exact fun both => long both.2.2

lemma tilde_holds (operator : spec.operator = .tildeEqual) :
    Holds (tildeToFullVersion spec) [major, minor, patch] <->
      Accepts .tildeEqual spec.version.release [major, minor] := by
  have enough := spec.compatible operator
  rw [tildeToFullVersion]
  rcases shape : spec.version.release with _ | ⟨first, _ | ⟨second, _ | ⟨third, rest⟩⟩⟩
  · simp [shape] at enough
  · simp [shape] at enough
  · rw [Holds, operator, shape, accepts_tildeEqual_two]
    exact inRange_tildeEqual_two major minor patch (fits first (by rw [shape]; simp))
  · rw [accepts_tildeEqual_more]
    dsimp only
    split
    next zeros =>
      refine (holds_new.trans (inRange_equalStar_two major minor patch
        (fits second (by rw [shape]; simp)))).trans ?_
      exact and_congr_right fun _ => (and_iff_left zeros).symm
    next long => exact iff_of_false Bool.false_ne_true fun both => long both.2.2

/-- At `major.minor.patch` the rewritten comparison is the original one at `major.minor`,
exactly unless `!=` meets a wildcard behind more than two numbers. -/
lemma rewritten_holds_iff :
    ((Holds (pythonVersionToFullVersion spec) [major, minor, patch] <->
        Accepts spec.operator spec.version.release [major, minor]) <->
      ¬ (spec.operator = .notEqualStar /\ hasTwoNumbers spec.version.release = false)) := by
  have plain : ∀ operator, spec.operator = operator -> isPlain operator ->
      (Holds (plainToFullVersion spec) [major, minor, patch] <->
        Accepts operator spec.version.release [major, minor]) := by
    rintro _ rfl plain
    exact plain_holds major minor patch fits plain
  rw [pythonVersionToFullVersion]
  cases operator : spec.operator with
  | equalStar =>
    refine iff_of_true ?_ nofun
    dsimp only
    rcases star_holds major minor patch fits with
      ⟨result, same, kept, _, holds⟩ | ⟨same, _, rejects⟩
    · rw [same, Holds, kept, operator]
      exact holds
    · rw [same]
      exact iff_of_false Bool.false_ne_true rejects
  | notEqualStar =>
    dsimp only
    rcases star_holds major minor patch fits with
      ⟨result, same, kept, two, holds⟩ | ⟨same, long, rejects⟩
    · rw [same, Holds, kept, operator]
      refine iff_of_true (not_congr holds) fun lost => ?_
      exact Bool.false_ne_true (lost.2.symm.trans two)
    · rw [same]
      refine iff_of_false (fun agrees => ?_) (fun short => short ⟨rfl, long⟩)
      exact Bool.false_ne_true (agrees.mpr rejects)
  | tildeEqual => exact iff_of_true (tilde_holds major minor patch fits operator) nofun
  | equal | exactEqual | notEqual | lessThan | lessThanEqual | greaterThan | greaterThanEqual =>
    exact iff_of_true (plain _ operator rfl) nofun

end

/-! ## Comparisons of `python_version` -/

variable {key : MarkerValueVersion} {markerOperator : MarkerOperator}

/-- The specifier that a comparison is read as has only numbers that can be increased. -/
lemma parseVersionExpr_fits {value : String} {spec : VersionSpecifier}
    (parsed : parseVersionExpr key markerOperator value = some (.version key spec)) :
    ∀ number ∈ spec.version.release, number.toNat < 2 ^ 64 - 1 := by
  unfold parseVersionExpr at parsed
  cases accepted : VersionPattern.fromStr value with
  | error err => rw [accepted] at parsed; exact absurd parsed nofun
  | ok pattern =>
    cases known : markerOperator.toPep440Operator with
    | none => rw [accepted, known] at parsed; exact absurd parsed nofun
    | some operator =>
      rw [accepted, known] at parsed
      have plain : ¬ (operator = .equalStar \/ operator = .notEqualStar) := by
        cases markerOperator <;> cases known <;> decide
      cases built : fromPattern operator pattern with
      | error err => simp only [built] at parsed; exact absurd parsed nofun
      | ok result =>
        simp only [built, Option.some.injEq, MarkerExpression.version.injEq, true_and] at parsed
        subst parsed
        rcases VersionPattern.fromStr_parsed accepted with ⟨numbers, bare⟩
        exact (fromPattern_accepted plain numbers bare built).parsed.release

/-- The rewritten specifier has only a release when the original one does. -/
lemma rewritten_releaseOnly {spec result : VersionSpecifier} (only : spec.version.ReleaseOnly)
    (rewritten : pythonVersionToFullVersion spec = .ok result) :
    result.version.ReleaseOnly := by
  have either : result = spec \/
      ∃ numbers nonempty, result.version = .new numbers nonempty := by
    unfold pythonVersionToFullVersion starToFullVersion tildeToFullVersion plainToFullVersion
      majorMinorToFullVersion longReleaseToFullVersion at rewritten
    repeat' split at rewritten
    all_goals cases rewritten
    all_goals first | exact .inl rfl | exact .inr ⟨_, cons_ne_nil _ _, rfl⟩
  rcases either with rfl | ⟨numbers, nonempty, same⟩
  · exact only
  · rw [same]
    exact new_releaseOnly _ _

section

variable {sets : IntervalSets} {env : MarkerEnvironment} {extras : ExtrasEnvironment}
  {major minor patch : UInt64}
  (only : env.pythonFullVersion.version.ReleaseOnly)
  (release : env.pythonFullVersion.version.release = [major, minor, patch])

include only release

/-- A comparison of `python_version` evaluates to the rewritten one. -/
lemma evaluate_pythonVersion_iff (spec : VersionSpecifier) :
    (Tree.expression (.version .pythonVersion spec) : Tree sets).evaluate env extras <->
      Holds (pythonVersionToFullVersion spec.onlyRelease) [major, minor, patch] := by
  rw [Tree.expression]
  cases rewritten : pythonVersionToFullVersion spec.onlyRelease with
  | error constant => exact Iff.rfl
  | ok result =>
    have resultOnly := rewritten_releaseOnly spec.version.onlyRelease_spec.1 rewritten
    dsimp only
    rw [(Tree.versionNode_decides rfl _).evaluate_eq rfl]
    change sets.versions.mem _ ⟨env.pythonFullVersion.version, .exact⟩ <-> _
    rw [RangeAlgebra.mem, <- sets.versions.contains_eq, specifierRange,
      contains_range_iff _ only result.version.onlyRelease_spec.1, release,
      VersionSpecifier.onlyRelease, result.version.onlyRelease_spec.2]
    exact Iff.rfl

end

/-- A comparison of `python_version` in an environment `major.minor.patch` is what its
specifier says of `major.minor`, unless it is `!=` with a wildcard behind more than two
numbers: that one is never satisfied. -/
theorem pythonVersion_evaluate_iff {sets : IntervalSets} {markerOperator : MarkerOperator}
    {value : String} {spec : VersionSpecifier} {env : MarkerEnvironment}
    {extras : ExtrasEnvironment} {major minor patch : UInt64}
    (parsed : parseVersionExpr .pythonVersion markerOperator value =
      some (.version .pythonVersion spec)) (only : env.pythonFullVersion.version.ReleaseOnly)
    (release : env.pythonFullVersion.version.release = [major, minor, patch]) :
    ((Tree.expression (.version .pythonVersion spec) : Tree sets).evaluate env extras =
        spec.onlyRelease.contains (.new [major, minor] (List.cons_ne_nil _ _))) <->
      ¬ (spec.operator = .notEqualStar /\ hasTwoNumbers spec.version.release = false) := by
  have sameRelease : spec.onlyRelease.version.release = spec.version.release :=
    spec.version.onlyRelease_spec.2
  have fits : ∀ number ∈ spec.onlyRelease.version.release,
      number.toNat < 2 ^ 64 - 1 := sameRelease ▸ parseVersionExpr_fits parsed
  rw [Bool.eq_iff_iff, evaluate_pythonVersion_iff only release,
    contains_iff_accepts _ spec.version.onlyRelease_spec.1 (new_releaseOnly _ _),
    release_new, rewritten_holds_iff major minor patch fits, sameRelease]
  exact Iff.rfl

/-- `python_version <= '3.9.2'` holds with Python 3.9.1. -/
theorem pythonVersion_evaluate_below :
    ∃ spec,
      parseVersionExpr .pythonVersion .lessEqual "3.9.2" = some (.version .pythonVersion spec) /\
      (Tree.expression (.version .pythonVersion spec) : Tree .cutSets).evaluate
          (linuxEnvironment (.new [3, 9, 1] (by decide))) (.extras []) =
        spec.onlyRelease.contains (.new [3, 9] (by decide)) := by
  refine ⟨⟨.lessThanEqual, .new [3, 9, 2] (by decide), nofun⟩, rfl, ?_⟩
  exact (@pythonVersion_evaluate_iff .cutSets .lessEqual "3.9.2" _ _ (.extras []) 3 9 1 rfl
    (new_releaseOnly _ (by decide)) (release_new _ (by decide))).mpr nofun

/-- `python_version != '3.9.1.*'` does not hold with Python 3.9.0, but 3.9 is not 3.9.1. -/
theorem pythonVersion_evaluate_star :
    ∃ spec,
      parseVersionExpr .pythonVersion .notEqual "3.9.1.*" = some (.version .pythonVersion spec) /\
      (Tree.expression (.version .pythonVersion spec) : Tree .cutSets).evaluate
          (linuxEnvironment (.new [3, 9, 0] (by decide))) (.extras []) = false /\
      spec.onlyRelease.contains (.new [3, 9] (by decide)) = true := by
  refine ⟨⟨.notEqualStar, .new [3, 9, 1] (by decide), fun impossible => by cases impossible⟩, rfl, rfl, by decide⟩

/-! ## Lists of versions -/

/-- The range of one listed version.  A version with more than two numbers has none. -/
lemma equalsVersion_rewritten (version : Version) :
    pythonVersionToFullVersion (.equalsVersion version.onlyRelease) =
      if hasTwoNumbers version.release then
        .ok (.equalsStarVersion (.new [version.release.getD 0 0, version.release.getD 1 0]
          (List.cons_ne_nil _ _)))
      else .error false := by
  have sameRelease : version.onlyRelease.release = version.release := version.onlyRelease_spec.2
  change plainToFullVersion (.equalsVersion version.onlyRelease) = _
  rw [plainToFullVersion_eq, equalsVersion, sameRelease]
  rfl

section

variable (sets : IntervalSets)

/-- The versions `major.minor.*` for a listed version `major.minor`. -/
def listedRange (version : Version) : sets.versions.Ranges :=
  (VersionSpecifier.equalsStarVersion (.new [version.release.getD 0 0, version.release.getD 1 0]
    (List.cons_ne_nil _ _))).releaseSpecifierToRange sets.versions true

/-- One version with more than two numbers makes the whole list `false`. -/
lemma pythonVersionsRange_eq (versions : List Version) (operator : ContainerOperator) :
    pythonVersionsRange sets versions operator =
      if versions.all fun version => hasTwoNumbers version.release then
        let range := sets.versions.fromIter
          ((versions.map (listedRange sets)).flatMap sets.versions.segments)
        .ok (if operator = .notIn then sets.versions.complement range else range)
      else .error false := by
  have loop : ∀ versions : List Version,
      (versions.mapM fun version => do
        let spec <- pythonVersionToFullVersion (.equalsVersion version.onlyRelease)
        return spec.releaseSpecifierToRange sets.versions true) =
      if versions.all fun version => hasTwoNumbers version.release then
        (.ok (versions.map (listedRange sets)) : Except Bool _)
      else .error false := by
    intro versions
    induction versions with
    | nil => rfl
    | cons version versions ih =>
      rw [mapM_cons, equalsVersion_rewritten, ih, all_cons]
      cases hasTwoNumbers version.release with
      | false => rfl
      | true =>
        cases versions.all fun version => hasTwoNumbers version.release <;> rfl
  rw [pythonVersionsRange, loop]
  split <;> rfl

variable {sets}

/-- The release starts with the two numbers. -/
def StartsWith (version : Version) (major minor : UInt64) : Prop :=
  version.release.getD 0 0 = major /\ version.release.getD 1 0 = minor

lemma contains_listedRange_iff {version full : Version} {major minor patch : UInt64}
    (fits : ∀ number ∈ version.release, number.toNat < 2 ^ 64 - 1) (only : full.ReleaseOnly)
    (release : full.release = [major, minor, patch]) :
    sets.versions.contains (listedRange sets version) full <-> StartsWith version major minor := by
  have plain := new_releaseOnly [version.release.getD 0 0, version.release.getD 1 0]
    (cons_ne_nil _ _)
  refine (contains_range_iff _ only plain sets.versions).trans ?_
  rw [release]
  refine Iff.trans ?_ (inRange_equalStar_two major minor patch (second_fits fits))
  rw [equalsStarVersion, release_new]

lemma contains_listed_iff {versions : List Version} {full : Version} {major minor patch : UInt64}
    (fits : ∀ version ∈ versions, ∀ number ∈ version.release, number.toNat < 2 ^ 64 - 1)
    (only : full.ReleaseOnly) (release : full.release = [major, minor, patch]) :
    sets.versions.contains (sets.versions.fromIter
        ((versions.map (listedRange sets)).flatMap sets.versions.segments)) full <->
      ∃ version ∈ versions, StartsWith version major minor := by
  rw [sets.versions.contains_eq, sets.versions.mem_fromIter, covers, any_flatMap, any_map, any_eq_true]
  refine exists_congr fun version => and_congr_right fun mem => ?_
  rw [Function.comp_apply, <- covers, <- sets.versions.contains_eq]
  exact contains_listedRange_iff (fits version mem) only release

/-- Some listed version equals `major.minor`. -/
def isListed (versions : List Version) (major minor : UInt64) : Bool :=
  versions.any fun version => version.eq (.new [major, minor] (pair_ne_nil major minor))

lemma startsWith_of_eq {version : Version} {major minor : UInt64}
    (same : version.eq (.new [major, minor] (pair_ne_nil major minor))) :
    StartsWith version major minor := by
  have keys : releaseKey version.release = releaseKey [major, minor] := by
    have keys := congrArg (fun key => (ofLex (ofLex (ofLex key).1).1).2) ((Version.eq_iff _ _).mp same)
    rwa [<- release_new [major, minor] (pair_ne_nil major minor)]
  have numbers := (two_eq_releaseKey version.release major minor).mp keys.symm
  exact ⟨UInt64.toNat_inj.mp numbers.1, UInt64.toNat_inj.mp numbers.2.1⟩

end

/-- Every word of the list is read as a version. -/
lemma parseVersionInExpr_fits
    {value : String} {versions : List Version} {operator : ContainerOperator}
    (parsed : parseVersionInExpr key markerOperator value =
      some (.versionIn key versions operator)) :
    ∀ version ∈ versions, ∀ number ∈ version.release, number.toNat < 2 ^ 64 - 1 := by
  rw [parseVersionInExpr] at parsed
  rcases Option.bind_eq_some_iff.mp parsed with ⟨_, _, parsed⟩
  rcases Option.bind_eq_some_iff.mp parsed with ⟨read, loop, parsed⟩
  cases parsed
  intro version mem
  have every : ∀ words : List (List Char), ∀ read : List Version,
      (words.mapM fun word => (fromStr (String.ofList word)).toOption) = some read ->
      ∀ version ∈ read, version.Parsed Grammar.Components.limit := by
    intro words
    induction words with
    | nil =>
      intro read loop version mem
      cases loop
      cases mem
    | cons word words ih =>
      intro read loop version mem
      rw [mapM_cons] at loop
      rcases Option.bind_eq_some_iff.mp loop with ⟨first, accepted, loop⟩
      rcases Option.bind_eq_some_iff.mp loop with ⟨rest, loopRest, done⟩
      cases done
      rcases mem_cons.mp mem with rfl | mem
      · cases outcome : fromStr (String.ofList word) with
        | error err => rw [outcome] at accepted; exact absurd accepted nofun
        | ok result =>
          rw [outcome] at accepted
          cases accepted
          exact fromStr_parsed outcome
      · exact ih rest loopRest version mem
  exact (every _ _ loop version mem).release

/-- A list of versions for `python_version`, in an environment `major.minor.patch`, is a
test whether some release is `major.minor`, unless a listed version has more than two numbers.
Then neither `in` nor `not in` is satisfied.  So it is no test whether `major.minor` is listed
if only versions like `major.minor.post1` are. -/
theorem pythonVersionIn_evaluate_iff {sets : IntervalSets} {markerOperator : MarkerOperator}
    {value : String} {versions : List Version} {operator : ContainerOperator}
    {env : MarkerEnvironment} {extras : ExtrasEnvironment} {major minor patch : UInt64}
    (parsed : parseVersionInExpr .pythonVersion markerOperator value =
      some (.versionIn .pythonVersion versions operator))
    (only : env.pythonFullVersion.version.ReleaseOnly)
    (release : env.pythonFullVersion.version.release = [major, minor, patch]) :
    ((Tree.expression (.versionIn .pythonVersion versions operator) : Tree sets).evaluate env extras =
        match operator with
        | .isIn => isListed versions major minor
        | .notIn => !isListed versions major minor) <->
      if ∀ version ∈ versions, hasTwoNumbers version.release = true then
        (∃ version ∈ versions, StartsWith version major minor) -> isListed versions major minor = true
      else
        match operator with
        | .isIn => isListed versions major minor = false
        | .notIn => isListed versions major minor = true := by
  have fits := parseVersionInExpr_fits parsed
  rw [Tree.expression, pythonVersionsRange_eq]
  by_cases all : (versions.all fun version => hasTwoNumbers version.release) = true
  · rw [if_pos all, if_pos (all_eq_true.mp all)]
    have mem := @contains_listed_iff sets versions _ major minor patch fits only release
    have listed : isListed versions major minor -> ∃ version ∈ versions, StartsWith version major minor := by
      intro listed
      rcases any_eq_true.mp listed with ⟨version, given, same⟩
      exact ⟨version, given, startsWith_of_eq same⟩
    dsimp only
    rw [(Tree.versionNode_decides rfl _).evaluate_eq rfl]
    change (sets.versions.mem _ ⟨env.pythonFullVersion.version, .exact⟩ = _) <-> _
    rw [RangeAlgebra.mem, <- sets.versions.contains_eq, <- mem]
    rw [<- mem] at listed
    cases operator with
    | isIn =>
      rw [if_neg (by decide), Bool.eq_iff_iff]
      exact ⟨Iff.mp, fun found => ⟨found, listed⟩⟩
    | notIn =>
      rw [if_pos rfl, sets.versions.contains_complement, Bool.not_inj_iff, Bool.eq_iff_iff]
      exact ⟨Iff.mp, fun found => ⟨found, listed⟩⟩
  · rw [if_neg all, if_neg fun two => all (all_eq_true.mpr two)]
    change (false = _) <-> _
    cases operator with
    | isIn => exact eq_comm
    | notIn => exact eq_comm.trans Bool.not_eq_eq_eq_not

/-- `python_version in '3.8 3.9'` holds with Python 3.9.1. -/
theorem pythonVersionIn_evaluate_listed :
    ∃ versions, parseVersionInExpr .pythonVersion .isIn "3.8 3.9" =
        some (.versionIn .pythonVersion versions .isIn) /\
      (Tree.expression (.versionIn .pythonVersion versions .isIn) : Tree .cutSets).evaluate
          (linuxEnvironment (.new [3, 9, 1] (by decide))) (.extras []) =
        isListed versions 3 9 := by
  refine ⟨[.new [3, 8] (by decide), .new [3, 9] (by decide)], rfl, ?_⟩
  refine (@pythonVersionIn_evaluate_iff .cutSets .isIn "3.8 3.9"
    [.new [3, 8] (by decide), .new [3, 9] (by decide)] .isIn
    (linuxEnvironment (.new [3, 9, 1] (by decide))) (.extras []) 3 9 1 rfl
    (new_releaseOnly _ (by decide)) (release_new _ (by decide))).mpr ?_
  rw [if_pos (by decide)]
  exact fun _ => by decide

/-- `python_version in '3.8 3.9.1'` does not hold with Python 3.8.0, although 3.8 is listed. -/
theorem pythonVersionIn_evaluate_lost :
    ∃ versions, parseVersionInExpr .pythonVersion .isIn "3.8 3.9.1" =
        some (.versionIn .pythonVersion versions .isIn) /\
      (Tree.expression (.versionIn .pythonVersion versions .isIn) : Tree .cutSets).evaluate
          (linuxEnvironment (.new [3, 8, 0] (by decide))) (.extras []) = false /\
      isListed versions 3 8 = true :=
  ⟨[.new [3, 8] (by decide), .new [3, 9, 1] (by decide)], rfl, rfl, by decide⟩

end Uv.Marker
