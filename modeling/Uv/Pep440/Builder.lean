import Uv.Pep440.Packing

namespace Uv.Pep440

open Option VersionSmall

/-!
# Builders do not depend on the representation

Each builder of a version tries the packed word first and falls back to the
full record.  The getters of its result are those of the same change made on
the full record throughout.  A builder call is recorded as data, so that the
statement covers every sequence of calls: the run on the representation that
the code chooses and the run on the full record stay in step, and they panic on
the same calls.
-/

variable {value : Option UInt64}

namespace VersionSmall

variable {small changed : VersionSmall}

/-- A suffix setter acts on the record as `change`, once this is known for each
of the three things it can do. -/
lemma SuffixUpdate.makeFull_eq {owns : UInt64 -> Prop}
    {value : Option (UInt64 × UInt64)} (update : SuffixUpdate small changed owns value)
    (change : VersionFull -> VersionFull)
    (foreign : ∀ release kind number, value = none -> ¬ owns kind ->
      decode release kind number = change (decode release kind number))
    (removed : ∀ release kind number, value = none -> kind = suffixNone \/ owns kind ->
      decode release suffixNone 0 = change (decode release kind number))
    (installed : ∀ release kind number newKind newNumber,
      value = some (newKind, newNumber) -> kind = suffixNone \/ owns kind ->
      decode release newKind newNumber = change (decode release kind number)) :
    VersionInner.makeFull (.small changed) = change (VersionInner.makeFull (.small small)) := by
  rw [makeFull_eq_decode, makeFull_eq_decode]
  cases update with
  | unchanged same notOwned =>
    rw [same]
    exact foreign _ _ _ rfl notOwned
  | removed same owned kindEq numberEq =>
    rw [same.release_eq, kindEq, numberEq]
    exact removed _ _ _ rfl owned
  | installed kind number same owned kindEq numberEq =>
    rw [same.release_eq, kindEq, numberEq]
    exact installed _ _ _ _ _ rfl owned

/-- The four setters of a numbered suffix.  `change` is the field that the kind
`own` stands for; the hypotheses compare the decoded records. -/
lemma setSuffixNumber_makeFull {own : UInt64} (change : Option UInt64 -> VersionFull -> VersionFull)
    (ownFits : own <= suffixMax) (set : setSuffixNumber own small value = some changed)
    (foreign : ∀ release kind number, kind ≠ own ->
      decode release kind number = change none (decode release kind number))
    (removed : ∀ release number,
      decode release suffixNone 0 = change none (decode release own number))
    (installed : ∀ release number newNumber,
      decode release own newNumber = change (some newNumber) (decode release suffixNone number))
    (replaced : ∀ release number newNumber,
      decode release own newNumber = change (some newNumber) (decode release own number)) :
    VersionInner.makeFull (.small changed) =
      change value (VersionInner.makeFull (.small small)) := by
  refine (setSuffixNumber_update ownFits set).makeFull_eq (change value) ?_ ?_ ?_
  · intro release kind number absent notOwn
    rw [map_eq_none_iff.mp absent]
    exact foreign release kind number notOwn
  · intro release kind number absent owned
    rw [map_eq_none_iff.mp absent]
    by_cases same : kind = own
    · exact same ▸ removed release number
    · rw [owned.resolve_right same]
      -- Without a suffix the number is not part of the record.
      exact foreign release suffixNone 0 fun eq => same ((owned.resolve_right same).trans eq)
  · intro release kind number newKind newNumber present owned
    obtain ⟨_, rfl, pair⟩ := map_eq_some_iff.mp present
    cases pair
    rcases owned with rfl | rfl
    · exact installed release number newNumber
    · exact replaced release number newNumber

lemma setPost_makeFull (set : small.setPost value = some changed) :
    VersionInner.makeFull (.small changed) =
      { VersionInner.makeFull (.small small) with post := value } :=
  setSuffixNumber_makeFull (fun value record => { record with post := value }) (by decide) set
    (fun _ _ _ notOwn => by simp [decode, notOwn]) (fun _ _ => rfl) (fun _ _ _ => rfl)
    (fun _ _ _ => rfl)

lemma setDev_makeFull (set : small.setDev value = some changed) :
    VersionInner.makeFull (.small changed) =
      { VersionInner.makeFull (.small small) with dev := value } :=
  setSuffixNumber_makeFull (fun value record => { record with dev := value }) (by decide) set
    (fun _ _ _ notOwn => by simp [decode, notOwn]) (fun _ _ => rfl) (fun _ _ _ => rfl)
    (fun _ _ _ => rfl)

lemma setMin_makeFull (set : small.setMin value = some changed) :
    VersionInner.makeFull (.small changed) =
      { VersionInner.makeFull (.small small) with min := value } :=
  setSuffixNumber_makeFull (fun value record => { record with min := value }) (by decide) set
    (fun _ _ _ notOwn => by simp [decode, notOwn]) (fun _ _ => rfl) (fun _ _ _ => rfl)
    (fun _ _ _ => rfl)

lemma setMax_makeFull (set : small.setMax value = some changed) :
    VersionInner.makeFull (.small changed) =
      { VersionInner.makeFull (.small small) with max := value } :=
  setSuffixNumber_makeFull (fun value record => { record with max := value }) (by decide) set
    (fun _ _ _ notOwn => by simp [decode, notOwn]) (fun _ _ => rfl) (fun _ _ _ => rfl)
    (fun _ _ _ => rfl)

lemma setPre_makeFull {value : Option Prerelease} (set : small.setPre value = some changed) :
    VersionInner.makeFull (.small changed) =
      { VersionInner.makeFull (.small small) with pre := value } := by
  refine (setPre_update set).makeFull_eq (fun record => { record with pre := value }) ?_ ?_ ?_
  · intro release kind number absent notOwn
    simp only [not_or] at notOwn
    simp [map_eq_none_iff.mp absent, decode, notOwn.1, notOwn.2.1, notOwn.2.2]
  · rintro release kind number absent (rfl | rfl | rfl | rfl) <;>
      rw [map_eq_none_iff.mp absent] <;> rfl
  · rintro release kind number newKind newNumber present owned
    obtain ⟨⟨preKind, preNumber⟩, rfl, pair⟩ := map_eq_some_iff.mp present
    cases pair
    rcases owned with rfl | rfl | rfl | rfl <;> cases preKind <;> rfl

lemma setLocal_makeFull {value : LocalVersion} (set : small.setLocal value = some changed) :
    VersionInner.makeFull (.small changed) =
      { VersionInner.makeFull (.small small) with localVersion := value } := by
  obtain ⟨admissible, update⟩ := setLocal_update set
  refine update.makeFull_eq (fun record => { record with localVersion := value }) ?_ ?_ ?_
  · intro release kind number absent notOwn
    rcases admissible with rfl | rfl
    · simp at absent
    · simp [decode, notOwn]
  · intro release kind number absent owned
    rcases admissible with rfl | rfl
    · simp at absent
    · rcases owned with rfl | rfl <;> rfl
  · intro release kind number newKind newNumber present owned
    rcases admissible with rfl | rfl
    · cases present
      rcases owned with rfl | rfl <;> rfl
    · simp [LocalVersion.empty] at present

end VersionSmall

/-! ## Single builders -/

/-- The bounds that the crate stores in `min` and `max`: none, or number zero. -/
def BoundValue (value : Option UInt64) : Prop :=
  value = none \/ value = some 0

variable {inner : VersionInner}

namespace VersionInner

/-- The packing invariant.  The full record is unrestricted. -/
def Packed : VersionInner -> Prop
  | .small word => word.Packed
  | .full _ => True

section

variable (inner)

lemma epoch_eq : inner.epoch = inner.makeFull.epoch := by
  cases inner <;> rfl

lemma release_eq : inner.release = inner.makeFull.release := by
  cases inner <;> rfl

lemma pre_eq : inner.pre = inner.makeFull.pre := by
  cases inner <;> rfl

lemma post_eq : inner.post = inner.makeFull.post := by
  cases inner <;> rfl

lemma dev_eq : inner.dev = inner.makeFull.dev := by
  cases inner <;> rfl

lemma localVersion_eq :
    inner.localVersion = inner.makeFull.localVersion := by
  cases inner <;> rfl

lemma min_eq : inner.min = inner.makeFull.min := by
  cases inner <;> rfl

lemma max_eq : inner.max = inner.makeFull.max := by
  cases inner <;> rfl

end

/-- Whatever the packed setter decides, the builder changes the record by
`change` and keeps the invariant. -/
lemma setOrMakeFull_spec {set : VersionSmall -> Option VersionSmall}
    {change : VersionFull -> VersionFull} (packed : inner.Packed)
    (agrees : ∀ word changed : VersionSmall, word.Packed -> set word = some changed ->
      changed.Packed /\ makeFull (.small changed) = change (makeFull (.small word))) :
    (inner.setOrMakeFull set change).Packed /\
      (inner.setOrMakeFull set change).makeFull = change inner.makeFull := by
  cases inner with
  | full record => exact ⟨trivial, rfl⟩
  | small word =>
    cases result : set word with
    | none =>
      have fell : setOrMakeFull (.small word) set change =
          .full (change (makeFull (.small word))) := by
        simp only [setOrMakeFull, result]
      rw [fell]
      exact ⟨trivial, rfl⟩
    | some changed =>
      have kept : setOrMakeFull (.small word) set change = .small changed := by
        simp only [setOrMakeFull, result]
      rw [kept]
      exact agrees word changed packed result

lemma pushRelease_spec (packed : inner.Packed) (n : UInt64) :
    (inner.pushRelease n).Packed /\ (inner.pushRelease n).makeFull =
      { inner.makeFull with release := inner.makeFull.release ++ [n] } := by
  refine setOrMakeFull_spec packed fun word changed wordPacked pushed => ?_
  obtain ⟨sameKind, sameNumber⟩ := pushRelease_suffix wordPacked pushed
  refine ⟨pushRelease_packed wordPacked pushed, ?_⟩
  rw [makeFull_eq_decode, makeFull_eq_decode, sameKind, sameNumber,
    pushRelease_release wordPacked pushed]
  rfl

lemma clearRelease_spec (packed : inner.Packed) :
    inner.clearRelease.Packed /\
      inner.clearRelease.makeFull = { inner.makeFull with release := [] } := by
  cases inner with
  | full record => exact ⟨trivial, rfl⟩
  | small word =>
    obtain ⟨noneLeft, sameKind, sameNumber⟩ := VersionSmall.clearRelease_spec word
    have empty : word.clearRelease.release = [] := by
      simp only [VersionSmall.release, noneLeft]
    refine ⟨VersionSmall.clearRelease_packed packed, ?_⟩
    change makeFull (.small word.clearRelease) = _
    rw [VersionSmall.makeFull_eq_decode, VersionSmall.makeFull_eq_decode, sameKind, sameNumber,
      empty]
    rfl

/-- Pushing a whole list, by induction on the numbers still to be pushed. -/
lemma foldl_pushRelease_spec (numbers : List UInt64) :
    ∀ {inner : VersionInner}, inner.Packed ->
      (numbers.foldl pushRelease inner).Packed /\ (numbers.foldl pushRelease inner).makeFull =
        { inner.makeFull with release := inner.makeFull.release ++ numbers } := by
  induction numbers with
  | nil =>
    intro inner packed
    exact ⟨packed, by simp⟩
  | cons n rest ih =>
    intro inner packed
    obtain ⟨pushedPacked, pushedFull⟩ := pushRelease_spec packed n
    obtain ⟨restPacked, restFull⟩ := ih pushedPacked
    refine ⟨restPacked, ?_⟩
    rw [List.foldl_cons, restFull, pushedFull]
    simp

lemma withEpoch_spec (packed : inner.Packed) (value : UInt64) :
    (inner.withEpoch value).Packed /\
      (inner.withEpoch value).makeFull = { inner.makeFull with epoch := value } := by
  refine setOrMakeFull_spec packed fun word changed wordPacked set => ?_
  unfold setEpoch at set
  split at set
  · contradiction
  next zero =>
    obtain rfl := some.inj set
    have zero : value = 0 := by simpa using zero
    exact ⟨wordPacked, by rw [zero]; rfl⟩

lemma withPre_spec (packed : inner.Packed) (value : Option Prerelease) :
    (inner.withPre value).Packed /\
      (inner.withPre value).makeFull = { inner.makeFull with pre := value } := by
  refine setOrMakeFull_spec packed fun word changed wordPacked set =>
    ⟨(setPre_update set).packed wordPacked ?_, setPre_makeFull set⟩
  intro kind number present
  obtain ⟨pre, _, pair⟩ := map_eq_some_iff.mp present
  cases pair
  cases pre.kind <;> exact ⟨by decide, fun bare => absurd bare (by decide)⟩

/-- The suffix number setters at a kind that carries its number. -/
lemma setSuffixNumber_packed {word changed : VersionSmall} {own : UInt64}
    (packed : word.Packed) (ownFits : own <= VersionSmall.suffixMax)
    (set : VersionSmall.setSuffixNumber own word value = some changed)
    (admissible : ∀ number, value = some number ->
      own = VersionSmall.suffixMin \/ own = VersionSmall.suffixNone \/
        own = VersionSmall.suffixLocal \/ own = VersionSmall.suffixMax -> number = 0) :
    changed.Packed := by
  refine (setSuffixNumber_update ownFits set).packed packed ?_
  intro kind number present
  obtain ⟨_, valueEq, pair⟩ := map_eq_some_iff.mp present
  cases pair
  exact ⟨ownFits, admissible number valueEq⟩

section

variable (packed : inner.Packed)

include packed

lemma withPost_spec (value : Option UInt64) :
    (inner.withPost value).Packed /\
      (inner.withPost value).makeFull = { inner.makeFull with post := value } :=
  setOrMakeFull_spec packed fun _ _ wordPacked set =>
    ⟨setSuffixNumber_packed wordPacked (by decide) set fun _ _ bare => absurd bare (by decide),
      setPost_makeFull set⟩

lemma withDev_spec (value : Option UInt64) :
    (inner.withDev value).Packed /\
      (inner.withDev value).makeFull = { inner.makeFull with dev := value } :=
  setOrMakeFull_spec packed fun _ _ wordPacked set =>
    ⟨setSuffixNumber_packed wordPacked (by decide) set fun _ _ bare => absurd bare (by decide),
      setDev_makeFull set⟩

lemma withMin_spec (bound : BoundValue value) :
    (inner.withMin value).Packed /\
      (inner.withMin value).makeFull = { inner.makeFull with min := value } :=
  setOrMakeFull_spec packed fun _ _ wordPacked set =>
    ⟨setSuffixNumber_packed wordPacked (by decide) set fun number present _ => by
        rcases bound with rfl | rfl <;> cases present
        rfl,
      setMin_makeFull set⟩

lemma withMax_spec (bound : BoundValue value) :
    (inner.withMax value).Packed /\
      (inner.withMax value).makeFull = { inner.makeFull with max := value } :=
  setOrMakeFull_spec packed fun _ _ wordPacked set =>
    ⟨setSuffixNumber_packed wordPacked (by decide) set fun number present _ => by
        rcases bound with rfl | rfl <;> cases present
        rfl,
      setMax_makeFull set⟩

lemma setLocal_spec (value : LocalVersion) :
    (inner.setOrMakeFull (·.setLocal value)
        fun record => { record with localVersion := value }).Packed /\
      (inner.setOrMakeFull (·.setLocal value)
        fun record => { record with localVersion := value }).makeFull =
        { inner.makeFull with localVersion := value } := by
  refine setOrMakeFull_spec packed fun word changed wordPacked set =>
    ⟨(setLocal_update set).2.packed wordPacked ?_, setLocal_makeFull set⟩
  intro kind number present
  split at present
  · cases present
    exact ⟨by decide, fun _ => rfl⟩
  · contradiction

lemma withoutLocal_spec :
    inner.withoutLocal.Packed /\
      inner.withoutLocal.makeFull = { inner.makeFull with localVersion := .empty } :=
  setLocal_spec packed .empty

lemma withLocalSegments_spec (value : List LocalSegment) :
    (inner.withLocalSegments value).Packed /\ (inner.withLocalSegments value).makeFull =
      { inner.makeFull with localVersion := .segments value } := by
  cases value with
  | nil => exact withoutLocal_spec packed
  | cons head tail => exact ⟨trivial, rfl⟩

lemma withLocal_spec (value : LocalVersion) :
    (inner.withLocal value).Packed /\
      (inner.withLocal value).makeFull = { inner.makeFull with localVersion := value } := by
  cases value with
  | segments list => exact withLocalSegments_spec packed list
  | max => exact setLocal_spec packed .max

end

end VersionInner

/-! ## Sequences of builder calls -/

/-- A builder call with its arguments.  The two sentinel setters take the
values that the crate passes to them. -/
inductive Builder where
  | pushRelease (n : UInt64)
  | clearRelease
  | withRelease (numbers : List UInt64)
  | withEpoch (value : UInt64)
  | withPre (value : Option Prerelease)
  | withPost (value : Option UInt64)
  | withDev (value : Option UInt64)
  | withLocalSegments (value : List LocalSegment)
  | withLocal (value : LocalVersion)
  | withoutLocal
  | withMin (value : { value : Option UInt64 // BoundValue value })
  | withMax (value : { value : Option UInt64 // BoundValue value })
  | onlyRelease
  | onlyMinorRelease
  | onlyReleaseTrimmed
  | onlyReleaseAtPrecision (precision : Nat)
  | withoutTrailingZeros
  | bump (command : BumpCommand)

/-- One builder call.  There is no result when the source panics, or when it
returns no version. -/
def VersionInner.apply (inner : VersionInner) : Builder -> Option VersionInner
  | .pushRelease n => some (inner.pushRelease n)
  | .clearRelease => some inner.clearRelease
  | .withRelease numbers => inner.withRelease numbers
  | .withEpoch value => some (inner.withEpoch value)
  | .withPre value => some (inner.withPre value)
  | .withPost value => some (inner.withPost value)
  | .withDev value => some (inner.withDev value)
  | .withLocalSegments value => some (inner.withLocalSegments value)
  | .withLocal value => some (inner.withLocal value)
  | .withoutLocal => some inner.withoutLocal
  | .withMin value => some (inner.withMin value.val)
  | .withMax value => some (inner.withMax value.val)
  | .onlyRelease => inner.onlyRelease
  | .onlyMinorRelease => inner.onlyMinorRelease
  | .onlyReleaseTrimmed => inner.onlyReleaseTrimmed
  | .onlyReleaseAtPrecision precision => inner.onlyReleaseAtPrecision precision
  | .withoutTrailingZeros => inner.withoutTrailingZeros
  | .bump command => some (inner.bump command)

namespace VersionFull

/-- A record with only release numbers, or nothing when there are none. -/
def new (numbers : List UInt64) : Option VersionFull :=
  if numbers.isEmpty then none
  else
    some
      { epoch := 0, release := numbers, pre := none, post := none, dev := none,
        localVersion := .empty, min := none, max := none }

variable (record : VersionFull)

/-- Replace the release numbers of a record, unless there are none. -/
def withRelease (numbers : List UInt64) : Option VersionFull :=
  if numbers.isEmpty then none else some { record with release := numbers }

def onlyReleaseTrimmed : Option VersionFull :=
  match rposition (· != 0) record.release with
  | some lastNonZero =>
    if lastNonZero + 1 = record.release.length /\ record.epoch = 0 /\ record.pre.isNone /\
        record.post.isNone /\ record.dev.isNone /\ record.localVersion.isEmpty /\
        record.min.isNone /\ record.max.isNone then
      some record
    else new (record.release.take (lastNonZero + 1))
  | none => new [0]

def onlyReleaseAtPrecision (precision : Nat) : Option VersionFull :=
  (new ((record.release ++ List.replicate precision 0).take precision)).map
    fun fresh => { fresh with epoch := record.epoch }

/-- One builder call when only the full representation exists: each call sets
its own field. -/
def apply : Builder -> Option VersionFull
  | .pushRelease n => some { record with release := record.release ++ [n] }
  | .clearRelease => some { record with release := [] }
  | .withRelease numbers => record.withRelease numbers
  | .withEpoch value => some { record with epoch := value }
  | .withPre value => some { record with pre := value }
  | .withPost value => some { record with post := value }
  | .withDev value => some { record with dev := value }
  | .withLocalSegments value => some { record with localVersion := .segments value }
  | .withLocal value => some { record with localVersion := value }
  | .withoutLocal => some { record with localVersion := .empty }
  | .withMin value => some { record with min := value.val }
  | .withMax value => some { record with max := value.val }
  | .onlyRelease => new record.release
  | .onlyMinorRelease => new (record.release.take 2)
  | .onlyReleaseTrimmed => record.onlyReleaseTrimmed
  | .onlyReleaseAtPrecision precision => record.onlyReleaseAtPrecision precision
  | .withoutTrailingZeros => record.withRelease (popTrailingZeros record.release)
  | .bump command => some (record.bump command)

end VersionFull

variable (numbers : List UInt64) (calls : List Builder)

/-- A run of builder calls on a new version, on the representation that the
code chooses. -/
def VersionInner.run : Option VersionInner :=
  (VersionInner.new numbers).bind fun inner => calls.foldlM VersionInner.apply inner

/-- The same run on the full record throughout. -/
def VersionFull.run : Option VersionFull :=
  (VersionFull.new numbers).bind fun record => calls.foldlM VersionFull.apply record

/-! ## The two runs stay in step -/

/-- A result on the chosen representation stands for a result on the record:
both are missing, or the getters agree and the packing invariant holds. -/
def Simulates (result : Option VersionInner) (record : Option VersionFull) : Prop :=
  result.map VersionInner.makeFull = record /\ ∀ inner, result = some inner -> inner.Packed

lemma Simulates.some {record : VersionFull}
    (spec : inner.Packed /\ inner.makeFull = record) : Simulates (some inner) (some record) := by
  refine ⟨congrArg Option.some spec.2, ?_⟩
  rintro other ⟨⟩
  exact spec.1

lemma Simulates.bind {result : Option VersionInner} {record : Option VersionFull}
    {step : VersionInner -> Option VersionInner} {stepFull : VersionFull -> Option VersionFull}
    (simulates : Simulates result record) (next : ∀ inner : VersionInner, inner.Packed ->
      Simulates (step inner) (stepFull inner.makeFull)) :
    Simulates (result.bind step) (record.bind stepFull) := by
  obtain ⟨rfl, packed⟩ := simulates
  cases result with
  | none => exact ⟨rfl, fun _ present => by cases present⟩
  | some inner => exact next inner (packed inner rfl)

lemma VersionInner.withRelease_simulates (packed : inner.Packed) (numbers : List UInt64) :
    Simulates (inner.withRelease numbers) (inner.makeFull.withRelease numbers) := by
  obtain ⟨clearPacked, clearFull⟩ := clearRelease_spec packed
  obtain ⟨pushedPacked, pushedFull⟩ := foldl_pushRelease_spec numbers clearPacked
  have release : (numbers.foldl pushRelease inner.clearRelease).release = numbers := by
    rw [release_eq, pushedFull, clearFull]
    rfl
  unfold VersionInner.withRelease VersionFull.withRelease
  simp only [release]
  split
  · exact ⟨rfl, fun _ present => by cases present⟩
  · refine Simulates.some ⟨pushedPacked, ?_⟩
    rw [pushedFull, clearFull]
    rfl

lemma VersionSmall.new_packed : VersionSmall.new.Packed := by
  refine ⟨?_, ?_, ?_, ?_, ?_, ?_, ?_⟩ <;> decide

lemma VersionInner.new_simulates :
    Simulates (VersionInner.new numbers) (VersionFull.new numbers) := by
  have fresh := @withRelease_simulates (.small .new) new_packed numbers
  exact fresh

/-- Trimming keeps the version only when it is already trimmed; the test reads
nothing but getters. -/
lemma VersionInner.onlyReleaseTrimmed_simulates (packed : inner.Packed) :
    Simulates inner.onlyReleaseTrimmed inner.makeFull.onlyReleaseTrimmed := by
  unfold VersionInner.onlyReleaseTrimmed VersionFull.onlyReleaseTrimmed
  simp only [release_eq, epoch_eq, pre_eq, post_eq, dev_eq, localVersion_eq, min_eq, max_eq]
  cases rposition (· != 0) inner.makeFull.release with
  | none => exact new_simulates _
  | some lastNonZero =>
    simp only
    split
    · exact Simulates.some ⟨packed, rfl⟩
    · exact new_simulates _

lemma VersionInner.onlyReleaseAtPrecision_simulates (inner : VersionInner) (precision : Nat) :
    Simulates (inner.onlyReleaseAtPrecision precision)
      (inner.makeFull.onlyReleaseAtPrecision precision) := by
  unfold VersionInner.onlyReleaseAtPrecision VersionFull.onlyReleaseAtPrecision
  simp only [release_eq, epoch_eq]
  split
  next empty =>
    rw [VersionFull.new, if_pos empty]
    exact ⟨rfl, fun _ present => by cases present⟩
  next =>
    rw [map_eq_bind, map_eq_bind]
    exact (new_simulates _).bind fun fresh freshPacked =>
      Simulates.some (withEpoch_spec freshPacked _)

/-- One builder call keeps the two runs in step. -/
lemma VersionInner.apply_simulates (packed : inner.Packed)
    (call : Builder) : Simulates (inner.apply call) (inner.makeFull.apply call) := by
  cases call with
  | pushRelease n => exact Simulates.some (pushRelease_spec packed n)
  | clearRelease => exact Simulates.some (clearRelease_spec packed)
  | withRelease numbers => exact withRelease_simulates packed numbers
  | withEpoch value => exact Simulates.some (withEpoch_spec packed value)
  | withPre value => exact Simulates.some (withPre_spec packed value)
  | withPost value => exact Simulates.some (withPost_spec packed value)
  | withDev value => exact Simulates.some (withDev_spec packed value)
  | withLocalSegments value => exact Simulates.some (withLocalSegments_spec packed value)
  | withLocal value => exact Simulates.some (withLocal_spec packed value)
  | withoutLocal => exact Simulates.some (withoutLocal_spec packed)
  | withMin value => exact Simulates.some (withMin_spec packed value.property)
  | withMax value => exact Simulates.some (withMax_spec packed value.property)
  | onlyRelease =>
    rw [VersionInner.apply, VersionInner.onlyRelease, release_eq]
    exact new_simulates _
  | onlyMinorRelease =>
    rw [VersionInner.apply, VersionInner.onlyMinorRelease, release_eq]
    exact new_simulates _
  | onlyReleaseTrimmed => exact onlyReleaseTrimmed_simulates packed
  | onlyReleaseAtPrecision precision => exact onlyReleaseAtPrecision_simulates inner precision
  | withoutTrailingZeros =>
    rw [VersionInner.apply, VersionInner.withoutTrailingZeros, release_eq]
    exact withRelease_simulates packed _
  | bump command => exact Simulates.some ⟨trivial, rfl⟩

/-- Every sequence of builder calls keeps the two runs in step, by induction on
the calls still to be made. -/
lemma VersionInner.foldlM_simulates :
    ∀ {inner : VersionInner}, inner.Packed ->
      Simulates (calls.foldlM VersionInner.apply inner)
        (calls.foldlM VersionFull.apply inner.makeFull) := by
  induction calls with
  | nil =>
    intro inner packed
    exact Simulates.some ⟨packed, rfl⟩
  | cons call rest ih =>
    intro inner packed
    exact (apply_simulates packed call).bind fun _ nextPacked => ih nextPacked

lemma VersionInner.run_simulates :
    Simulates (VersionInner.run numbers calls) (VersionFull.run numbers calls) :=
  (new_simulates numbers).bind fun _ packed => foldlM_simulates calls packed

end Uv.Pep440
