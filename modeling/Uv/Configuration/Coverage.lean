import Uv.Configuration.RangeCounts
import Uv.Library.Coordinates
import Uv.Pep440.Canonical

namespace Uv.Configuration

open Library Pep440 List Version

/-!
# How many specifiers exclude a version

The bounds of all exclusions cut the versions into pieces.  A segment tree counts,
for every piece, the exclusions that contain it.  An exclusion is redundant if all
its pieces are counted twice at least.  In terms of positions the counts are exact,
so the pieces and the tree do not show in what the operations promise.
-/

structure VersionRangeCoverage where
  endpoints : List Version
  counts : RangeCounts

namespace VersionRangeCoverage

/-- The version of a bound, as an endpoint. -/
def endpoint : Bound Version -> List Version
  | .included version => [version]
  | .excluded version => [version]
  | .unbounded => []

/-- Map inclusive and exclusive bounds to a half-open interval of coordinates. -/
def coordinates (coverage : VersionRangeCoverage) (bounds : Segment Version) : Nat × Nat :=
  let endpoint := partitionPoint Version.cmp coverage.endpoints
  let start := match bounds.lower with
    | .included version => 2 * endpoint version + 1
    | .excluded version => 2 * endpoint version + 2
    | .unbounded => 0
  let stop := match bounds.upper with
    | .included version => 2 * endpoint version + 2
    | .excluded version => 2 * endpoint version + 1
    | .unbounded => 2 * coverage.endpoints.length + 1
  (start, stop)

section

variable (alg : RangeAlgebra Version Version.cmp)

/-- One pass of the loop over the segments of an exclusion. -/
def updateSegment (delta : Int) (coverage : VersionRangeCoverage) (bounds : Segment Version) :
    Option VersionRangeCoverage :=
  let (start, stop) := coverage.coordinates bounds
  if start < stop then
    (coverage.counts.add exactAdd start stop delta).map fun counts => { coverage with counts := counts }
  else some coverage

variable (coverage : VersionRangeCoverage) (exclusion : alg.Ranges)

def update (delta : Int) :
    Option VersionRangeCoverage :=
  (alg.segments exclusion).foldlM (updateSegment delta) coverage

def remove :
    Option VersionRangeCoverage :=
  coverage.update alg exclusion (-1)

/-- The endpoints of all exclusions, sorted and without repetitions. -/
def endpointsOf (exclusions : List alg.Ranges) : List Version :=
  let endpoints := exclusions.flatMap fun exclusion =>
    (alg.segments exclusion).flatMap fun bounds =>
      endpoint bounds.lower ++ endpoint bounds.upper
  dedupBy (fun left right => left.cmp right == .eq)
    (endpoints.mergeSort fun left right => (left.cmp right).isLE)

def new (exclusions : List alg.Ranges) : Option VersionRangeCoverage :=
  let endpoints := endpointsOf alg exclusions
  -- each endpoint and each gap between endpoints is a coordinate of its own
  let counts := RangeCounts.new (2 * endpoints.length + 1)
  exclusions.foldlM (fun coverage exclusion => coverage.update alg exclusion 1)
    ⟨endpoints, counts⟩

/-- Every excluded version is also excluded by another specifier. -/
def isRedundant : Option Bool :=
  (alg.segments exclusion).allM fun bounds =>
    let (start, stop) := coverage.coordinates bounds
    if stop <= start then some true
    else (coverage.counts.minimumOf exactAdd start stop).map fun least => decide (2 <= least)

end

/-! ## Counts of positions -/

/-- The tree holds the given count for each position. -/
structure Tracks (coverage : VersionRangeCoverage) (count : Position Version -> Int) : Prop where
  increasing : Increasing Version.cmp coverage.endpoints
  len : coverage.counts.len = 2 * coverage.endpoints.length + 1
  counted : ∃ bound values, coverage.counts.Counts bound values /\ ∀ spot,
    values (coordinate Version.cmp coverage.endpoints spot) = count spot

/-- The version of a cut is among the endpoints. -/
def Lists (coverage : VersionRangeCoverage) (cut : Cut Version) : Prop :=
  ∃ endpoint ∈ coverage.endpoints, endpoint.splitKey = cut.value.splitKey

variable {coverage : VersionRangeCoverage} {bounds : Segment Version}

lemma coordinates_spec (increasing : Increasing Version.cmp coverage.endpoints)
    (mem : ∀ cut ∈ bounds.cuts, coverage.Lists cut) (spot : Position Version) :
    (coverage.coordinates bounds).1 <= coordinate Version.cmp coverage.endpoints spot /\
      coordinate Version.cmp coverage.endpoints spot < (coverage.coordinates bounds).2 <->
      bounds.admits Version.cmp spot := by
  rcases bounds with ⟨lower, upper⟩
  have passes := fun cut mem' => cutCoordinate_le_iff cmp_orderedBy_splitKey cut spot
    coverage.endpoints increasing (mem cut mem')
  have lowers : (coverage.coordinates ⟨lower, upper⟩).1 <=
      coordinate cmp coverage.endpoints spot <->
        lower.admitsAbove cmp spot := by
    cases lower with
    | included version => exact passes ⟨version, false⟩ (mem_append_left _ mem_cons_self)
    | excluded version => exact passes ⟨version, true⟩ (mem_append_left _ mem_cons_self)
    | unbounded => exact iff_of_true (Nat.zero_le _) rfl
  have uppers : coordinate cmp coverage.endpoints spot <
      (coverage.coordinates ⟨lower, upper⟩).2 <->
        upper.admitsBelow cmp spot := by
    cases upper with
    | included version =>
      have below := Cut.admitsBelow_upper cmp_orderedBy_splitKey
        (⟨version, true⟩ : Cut Version) spot
      have cut := passes ⟨version, true⟩ (mem_append_right _ mem_cons_self)
      rw [<- not_le, show (Bound.included version).admitsBelow cmp spot = _ from below,
        Bool.not_eq_true', <- Bool.not_eq_true]
      exact not_congr cut
    | excluded version =>
      have below := Cut.admitsBelow_upper cmp_orderedBy_splitKey
        (⟨version, false⟩ : Cut Version) spot
      have cut := passes ⟨version, false⟩ (mem_append_right _ mem_cons_self)
      rw [<- not_le, show (Bound.excluded version).admitsBelow cmp spot = _ from below,
        Bool.not_eq_true', <- Bool.not_eq_true]
      exact not_congr cut
    | unbounded => exact iff_of_true (coordinate_lt coverage.endpoints spot) rfl
  rw [Segment.admits, Bool.and_eq_true, lowers, uppers]

/-- One more for the positions of a segment. -/
def counted (delta : Int) (segments : List (Segment Version)) (spot : Position Version) : Int :=
  delta * (segments.countP fun bounds => bounds.admits Version.cmp spot)

variable {count : Position Version -> Int}

lemma updateSegment_spec (tracks : coverage.Tracks count) (delta : Int)
    (mem : ∀ cut ∈ bounds.cuts, coverage.Lists cut) :
    ∃ coverage', updateSegment delta coverage bounds = some coverage' /\
      coverage'.endpoints = coverage.endpoints /\ coverage'.Tracks fun spot =>
        count spot + if bounds.admits Version.cmp spot then delta else 0 := by
  have spec := coordinates_spec tracks.increasing mem
  rcases tracks.counted with ⟨bound, values, holds, same⟩
  unfold updateSegment
  generalize coverage.coordinates bounds = pair at spec
  rcases pair with ⟨start, stop⟩
  simp only at spec ⊢
  split
  · rcases RangeCounts.add_spec holds start stop delta (RangeCounts.fits_exactAdd _) with ⟨counts, added, len, raised⟩
    rw [added]
    refine ⟨_, rfl, rfl, tracks.increasing, len.trans tracks.len, _, _, raised, fun spot => ?_⟩
    rw [RangeCounts.raised, same, if_congr (spec spot) rfl rfl]
    split
    · rfl
    · exact (add_zero _).symm
  next empty =>
    refine ⟨coverage, rfl, rfl, tracks.increasing, tracks.len, bound, values, holds, fun spot => ?_⟩
    have outside : ¬ bounds.admits cmp spot := by
      rw [<- spec spot]
      omega
    rw [if_neg outside, add_zero, same]

/-- A loop whose steps count the positions of one item each. -/
lemma foldlM_tracks {I : Type} {step : VersionRangeCoverage -> I -> Option VersionRangeCoverage}
    {cuts : I -> List (Cut Version)} {holds : I -> Position Version -> Bool} {delta : Int}
    (one : ∀ {coverage : VersionRangeCoverage} {count : Position Version -> Int} (item : I),
      coverage.Tracks count -> (∀ cut ∈ cuts item, coverage.Lists cut) ->
      ∃ coverage', step coverage item = some coverage' /\
        coverage'.endpoints = coverage.endpoints /\ coverage'.Tracks fun spot =>
          count spot + if holds item spot then delta else 0) (items : List I) :
    ∀ {coverage : VersionRangeCoverage} {count : Position Version -> Int},
      coverage.Tracks count ->
      (∀ item ∈ items, ∀ cut ∈ cuts item, coverage.Lists cut) ->
      ∃ coverage', items.foldlM step coverage = some coverage' /\
        coverage'.endpoints = coverage.endpoints /\ coverage'.Tracks fun spot =>
          count spot + delta * (items.countP fun item => holds item spot) := by
  induction items with
  | nil =>
    intro coverage count tracks _
    refine ⟨coverage, rfl, rfl, ?_⟩
    simp only [countP_nil, Nat.cast_zero, mul_zero, add_zero]
    exact tracks
  | cons item rest ih =>
    intro coverage count tracks mem
    rcases one item tracks (mem item mem_cons_self) with
      ⟨coverage', updated, endpoints, tracks'⟩
    have later : ∀ item ∈ rest, ∀ cut ∈ cuts item, coverage'.Lists cut := by
      intro item found cut mem'
      unfold Lists
      rw [endpoints]
      exact mem item (mem_cons_of_mem _ found) cut mem'
    rcases ih tracks' later with ⟨coverage'', updated', endpoints', tracks''⟩
    refine ⟨coverage'', ?_, endpoints'.trans endpoints, ?_⟩
    · rw [foldlM_cons, updated]
      exact updated'
    · have sum : (fun spot =>
          count spot + delta * ((item :: rest).countP fun item => holds item spot)) =
          fun spot => count spot + (if holds item spot then delta else 0) +
            delta * (rest.countP fun item => holds item spot) := by
        funext spot
        rw [countP_cons]
        split
        · rw [Nat.cast_add, Nat.cast_one]
          ring
        · rw [add_zero, add_zero]
      rw [sum]
      exact tracks''

section

variable {alg : RangeAlgebra Version Version.cmp}

/-- A position lies in one segment at most. -/
lemma countP_segments (ranges : alg.Ranges) (spot : Position Version) :
    (alg.segments ranges).countP (fun bounds => bounds.admits Version.cmp spot) =
      if alg.mem ranges spot then 1 else 0 := by
  have positions := Position.compare_orderedBy cmp_orderedBy_splitKey
  have sorted := alg.segments_sorted ranges
  unfold RangeAlgebra.mem covers
  generalize alg.segments ranges = segments at sorted
  induction segments with
  | nil => rfl
  | cons bounds rest ih =>
    rcases pairwise_cons.mp sorted with ⟨first, later⟩
    rw [countP_cons, any_cons, ih later]
    by_cases here : bounds.admits cmp spot
    · have nowhere : rest.any (fun bounds => bounds.admits cmp spot) = false := by
        rw [any_eq_false]
        intro other mem admitted
        rcases first other mem with ⟨gap, below, above⟩
        exact lt_asymm ((positions.lt_iff _ _).mp (below spot here))
          ((positions.lt_iff _ _).mp (above spot admitted))
      rw [nowhere, here]
      rfl
    · rw [Bool.not_eq_true] at here
      rw [here]
      rfl

/-- All bounds of the set are among the endpoints. -/
def ListsAll (alg : RangeAlgebra Version Version.cmp) (coverage : VersionRangeCoverage)
    (ranges : alg.Ranges) : Prop :=
  ∀ cut ∈ alg.cuts ranges, coverage.Lists cut

variable {exclusion : alg.Ranges}

lemma update_spec (tracks : coverage.Tracks count)
    (mem : coverage.ListsAll alg exclusion) (delta : Int) :
    ∃ coverage', coverage.update alg exclusion delta = some coverage' /\
      coverage'.endpoints = coverage.endpoints /\
      coverage'.Tracks fun spot =>
        count spot + if alg.mem exclusion spot then delta else 0 := by
  rcases foldlM_tracks (fun bounds tracks => updateSegment_spec tracks delta)
    (alg.segments exclusion) tracks
    (fun bounds found cut mem' => mem cut (RangeAlgebra.mem_cuts found mem')) with
    ⟨coverage', updated, endpoints, tracks'⟩
  refine ⟨coverage', updated, endpoints, ?_⟩
  have same : (fun spot => count spot +
      counted delta (alg.segments exclusion) spot) = fun spot =>
        count spot + if alg.mem exclusion spot then delta else 0 := by
    funext spot
    rw [counted, countP_segments]
    split
    · rw [Nat.cast_one, mul_one]
    · rw [Nat.cast_zero, mul_zero]
  rw [<- same]
  exact tracks'

/-- The number of exclusions with the position. -/
def covering (alg : RangeAlgebra Version Version.cmp) (exclusions : List alg.Ranges)
    (spot : Position Version) : Nat :=
  exclusions.countP fun exclusion => alg.mem exclusion spot

variable (exclusions : List alg.Ranges)

lemma updateAll_spec :
    ∀ {coverage : VersionRangeCoverage} {count : Position Version -> Int},
      coverage.Tracks count ->
      (∀ exclusion ∈ exclusions, coverage.ListsAll alg exclusion) ->
      ∃ coverage',
        exclusions.foldlM (fun coverage exclusion => coverage.update alg exclusion 1) coverage =
          some coverage' /\
        coverage'.endpoints = coverage.endpoints /\
        coverage'.Tracks fun spot => count spot + covering alg exclusions spot := by
  intro coverage count tracks mem
  rcases foldlM_tracks (fun exclusion tracks mem => update_spec tracks mem 1) exclusions tracks
    mem with ⟨coverage', updated, endpoints, tracks'⟩
  refine ⟨coverage', updated, endpoints, ?_⟩
  simp only [one_mul] at tracks'
  exact tracks'

lemma mem_endpoint {cut : Cut Version} (mem : cut ∈ bounds.cuts) :
    cut.value ∈ endpoint bounds.lower ++ endpoint bounds.upper := by
  rcases bounds with ⟨lower, upper⟩
  rcases mem_append.mp mem with low | high
  · apply mem_append_left
    cases lower with
    | included version | excluded version =>
      exact mem_singleton.mpr (congrArg Cut.value (mem_singleton.mp low))
    | unbounded => cases low
  · apply mem_append_right
    cases upper with
    | included version | excluded version =>
      exact mem_singleton.mpr (congrArg Cut.value (mem_singleton.mp high))
    | unbounded => cases high

lemma endpointsOf_spec :
    Increasing Version.cmp (endpointsOf alg exclusions) /\
      ∀ exclusion ∈ exclusions, ∀ cut ∈ alg.cuts exclusion,
        ∃ endpoint ∈ endpointsOf alg exclusions, endpoint.splitKey = cut.value.splitKey := by
  rcases dedupBy_spec cmp_orderedBy_splitKey _
    (cmp_orderedBy_splitKey.pairwise_mergeSort (exclusions.flatMap fun exclusion =>
      (alg.segments exclusion).flatMap fun bounds =>
        endpoint bounds.lower ++ endpoint bounds.upper)) with ⟨increasing, _, represented⟩
  refine ⟨increasing, fun exclusion found cut mem => ?_⟩
  apply represented
  rw [mem_mergeSort, mem_flatMap]
  rcases mem_flatMap.mp mem with ⟨bounds, segment, cutOf⟩
  exact ⟨exclusion, found, mem_flatMap.mpr ⟨bounds, segment, mem_endpoint cutOf⟩⟩

/-- At first all exclusions are counted. -/
lemma new_spec :
    ∃ coverage, new alg exclusions = some coverage /\
      (∀ exclusion ∈ exclusions, coverage.ListsAll alg exclusion) /\
      coverage.Tracks fun spot => covering alg exclusions spot := by
  rcases endpointsOf_spec exclusions with ⟨increasing, mem⟩
  have start : Tracks ⟨endpointsOf alg exclusions,
      RangeCounts.new (2 * (endpointsOf alg exclusions).length + 1)⟩ fun _ => 0 :=
    ⟨increasing, rfl, _, _, RangeCounts.counts_new (Nat.succ_pos _), fun _ => rfl⟩
  rcases updateAll_spec exclusions start mem with ⟨coverage, built, endpoints, tracks⟩
  refine ⟨coverage, built, fun exclusion found cut mem' => ?_, ?_⟩
  · unfold Lists
    rw [endpoints]
    exact mem exclusion found cut mem'
  · simp only [zero_add] at tracks
    exact tracks

lemma allM_some {α : Type} {test : α -> Option Bool} (list : List α)
    (known : ∀ item ∈ list, ∃ answer, test item = some answer) :
    ∃ answer, list.allM test = some answer /\
      (answer <-> ∀ item ∈ list, test item = some true) := by
  induction list with
  | nil =>
    exact ⟨true, rfl, iff_of_true rfl fun item mem => by cases mem⟩
  | cons item rest ih =>
    rcases known item mem_cons_self with ⟨answer, tested⟩
    rcases ih (forall_mem_cons.mp known).2 with
      ⟨others, found, spec⟩
    cases answer with
    | false =>
      refine ⟨false, ?_, iff_of_false Bool.false_ne_true fun all => ?_⟩
      · rw [allM, tested]
        rfl
      · have wrong := all item mem_cons_self
        rw [tested] at wrong
        cases wrong
    | true =>
      refine ⟨others, ?_, ?_⟩
      · rw [allM, tested]
        exact found
      · rw [spec, forall_mem_cons, tested, and_iff_right rfl]

/-- Redundant means counted twice wherever the exclusion applies. -/
lemma isRedundant_spec (tracks : coverage.Tracks count) (mem : coverage.ListsAll alg exclusion) :
    ∃ answer, coverage.isRedundant alg exclusion = some answer /\
      (answer <-> ∀ spot, alg.mem exclusion spot -> 2 <= count spot) := by
  rcases tracks.counted with ⟨bound, values, holds, same⟩
  -- one segment
  have one : ∀ bounds ∈ alg.segments exclusion, ∃ answer,
      (let (start, stop) := coverage.coordinates bounds
        if stop <= start then some true
        else (coverage.counts.minimumOf exactAdd start stop).map fun least => decide (2 <= least)) =
          some answer /\
        (answer <-> ∀ spot, bounds.admits cmp spot -> 2 <= count spot) := by
    intro bounds found
    have spec := coordinates_spec tracks.increasing
      fun cut mem' => mem cut (RangeAlgebra.mem_cuts found mem')
    generalize coverage.coordinates bounds = pair at spec
    rcases pair with ⟨start, stop⟩
    simp only at spec ⊢
    split
    next empty =>
      refine ⟨true, rfl, iff_of_true rfl fun spot admitted => ?_⟩
      have inside := (spec spot).mpr admitted
      omega
    · rcases RangeCounts.minimumOf_spec holds (RangeCounts.fits_exactAdd _) start stop with ⟨value, asked, least⟩
      rw [asked]
      refine ⟨_, rfl, ?_⟩
      rw [decide_eq_true_iff, least.le_iff (by decide), tracks.len]
      constructor
      · intro all spot admitted
        have inside := (spec spot).mpr admitted
        rw [<- same]
        exact all _ ⟨coordinate_lt _ _, inside⟩
      · rintro all number ⟨small, asked⟩
        rcases exists_coordinate cmp_orderedBy_splitKey tracks.increasing small with
          ⟨spot, rfl⟩
        rw [same]
        exact all spot ((spec spot).mp asked)
  rcases allM_some (alg.segments exclusion) (fun bounds found =>
    (one bounds found).imp fun answer parts => parts.1) with ⟨answer, found, all⟩
  refine ⟨answer, found, all.trans ?_⟩
  have member : ∀ spot, alg.mem exclusion spot <->
      ∃ bounds ∈ alg.segments exclusion,
        bounds.admits cmp spot := fun spot => any_eq_true
  constructor
  · intro each spot inside
    rcases (member spot).mp inside with ⟨bounds, mem', admitted⟩
    rcases one bounds mem' with ⟨answer, computed, spec⟩
    have positive := each bounds mem'
    rw [computed] at positive
    exact spec.mp (Option.some.inj positive) spot admitted
  · intro each bounds mem'
    rcases one bounds mem' with ⟨answer, computed, spec⟩
    rw [computed, spec.mpr fun spot admitted =>
      each spot ((member spot).mpr ⟨bounds, mem', admitted⟩)]

end

end VersionRangeCoverage

end Uv.Configuration
