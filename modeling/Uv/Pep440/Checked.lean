import Uv.Pep440.Order

namespace Uv.Pep440

open Library VersionInner

/-!
# Versions with their invariants

Outside `version.rs` a version is never seen without a release number, and its
word is always packed.  `Version` carries both facts.  Its builders are the
ones of `VersionInner`; a builder that panics on an empty release takes the
evidence that there is a number, so a call that would panic cannot be written.
What a builder does to the getters is a rewrite rule on `Version.record`.
-/

structure Version where
  inner : VersionInner
  packed : inner.Packed
  nonempty : inner.release ≠ []

lemma BoundValue.zero : BoundValue (some 0) := .inr rfl

lemma BoundValue.absent : BoundValue none := .inl rfl

/-- The record after replacing the release. -/
lemma VersionInner.replaceRelease_spec {inner : VersionInner} (packed : inner.Packed)
    (numbers : List UInt64) :
    (numbers.foldl pushRelease inner.clearRelease).Packed /\
      (numbers.foldl pushRelease inner.clearRelease).makeFull =
        { inner.makeFull with release := numbers } := by
  obtain ⟨clearPacked, clearFull⟩ := clearRelease_spec packed
  obtain ⟨pushedPacked, pushedFull⟩ := foldl_pushRelease_spec numbers clearPacked
  exact ⟨pushedPacked, by rw [pushedFull, clearFull]; rfl⟩

namespace Version

variable (version : Version)

/-- The getters of a version, as one record. -/
def record : VersionFull := version.inner.makeFull

def epoch (version : Version) : UInt64 := version.inner.epoch
def release (version : Version) : List UInt64 := version.inner.release
def pre (version : Version) : Option Prerelease := version.inner.pre
def post (version : Version) : Option UInt64 := version.inner.post
def dev (version : Version) : Option UInt64 := version.inner.dev
def localVersion (version : Version) : LocalVersion := version.inner.localVersion
def min (version : Version) : Option UInt64 := version.inner.min
def max (version : Version) : Option UInt64 := version.inner.max

def isPre : Bool := version.pre.isSome
def isDev : Bool := version.dev.isSome
def isPost : Bool := version.post.isSome
def isLocal (version : Version) : Bool := !version.localVersion.isEmpty
def anyPrerelease : Bool := version.isPre || version.isDev

variable (version : Version)

@[simp] lemma record_epoch : version.record.epoch = version.epoch :=
  version.inner.epoch_eq.symm

@[simp] lemma record_release : version.record.release = version.release :=
  version.inner.release_eq.symm

@[simp] lemma record_pre : version.record.pre = version.pre :=
  version.inner.pre_eq.symm

@[simp] lemma record_post : version.record.post = version.post :=
  version.inner.post_eq.symm

@[simp] lemma record_dev : version.record.dev = version.dev :=
  version.inner.dev_eq.symm

@[simp] lemma record_localVersion :
    version.record.localVersion = version.localVersion :=
  version.inner.localVersion_eq.symm

@[simp] lemma record_min : version.record.min = version.min :=
  version.inner.min_eq.symm

@[simp] lemma record_max : version.record.max = version.max :=
  version.inner.max_eq.symm

lemma record_eq :
    version.record = ⟨version.epoch, version.release, version.pre, version.post, version.dev,
      version.localVersion, version.min, version.max⟩ := by
  rw [<- record_epoch, <- record_release, <- record_pre, <- record_post, <- record_dev,
    <- record_localVersion, <- record_min, <- record_max]

/-! ## Builders -/

/-- A builder that leaves the release alone keeps the invariants. -/
lemma nonempty_of_spec {inner : VersionInner} {changed : VersionFull}
    (spec : inner.Packed /\ inner.makeFull = changed)
    (same : changed.release = version.inner.makeFull.release) : inner.release ≠ [] := by
  rw [release_eq, spec.2, same, <- release_eq]
  exact version.nonempty

variable (numbers : List UInt64) (nonempty : numbers ≠ [])

/-- The source asserts that there is a release number after the update. -/
def withRelease :
    Version where
  inner := numbers.foldl VersionInner.pushRelease version.inner.clearRelease
  packed := (VersionInner.replaceRelease_spec version.packed numbers).1
  nonempty := by
    rw [VersionInner.release_eq, (VersionInner.replaceRelease_spec version.packed numbers).2]
    exact nonempty

def new (numbers : List UInt64) (nonempty : numbers ≠ []) : Version where
  inner := numbers.foldl VersionInner.pushRelease (VersionInner.clearRelease (.small .new))
  packed := (@VersionInner.replaceRelease_spec (.small .new) VersionSmall.new_packed numbers).1
  nonempty := by
    rw [VersionInner.release_eq, (@VersionInner.replaceRelease_spec (.small .new)
      VersionSmall.new_packed numbers).2]
    exact nonempty

def withEpoch (version : Version) (value : UInt64) : Version where
  inner := version.inner.withEpoch value
  packed := (VersionInner.withEpoch_spec version.packed value).1
  nonempty := version.nonempty_of_spec (VersionInner.withEpoch_spec version.packed value) rfl

def withPre (version : Version) (value : Option Prerelease) : Version where
  inner := version.inner.withPre value
  packed := (VersionInner.withPre_spec version.packed value).1
  nonempty := version.nonempty_of_spec (VersionInner.withPre_spec version.packed value) rfl

def withPost (version : Version) (value : Option UInt64) : Version where
  inner := version.inner.withPost value
  packed := (VersionInner.withPost_spec version.packed value).1
  nonempty := version.nonempty_of_spec (VersionInner.withPost_spec version.packed value) rfl

def withDev (version : Version) (value : Option UInt64) : Version where
  inner := version.inner.withDev value
  packed := (VersionInner.withDev_spec version.packed value).1
  nonempty := version.nonempty_of_spec (VersionInner.withDev_spec version.packed value) rfl

def withLocal (version : Version) (value : LocalVersion) : Version where
  inner := version.inner.withLocal value
  packed := (VersionInner.withLocal_spec version.packed value).1
  nonempty := version.nonempty_of_spec (VersionInner.withLocal_spec version.packed value) rfl

def withoutLocal (version : Version) : Version where
  inner := version.inner.withoutLocal
  packed := (VersionInner.withoutLocal_spec version.packed).1
  nonempty := version.nonempty_of_spec (VersionInner.withoutLocal_spec version.packed) rfl

/-- The crate calls `with_min` with nothing or with zero. -/
def withMin (version : Version) (value : Option UInt64) (bound : BoundValue value) : Version where
  inner := version.inner.withMin value
  packed := (VersionInner.withMin_spec version.packed bound).1
  nonempty := version.nonempty_of_spec (VersionInner.withMin_spec version.packed bound) rfl

/-- The crate calls `with_max` with nothing or with zero. -/
def withMax (version : Version) (value : Option UInt64) (bound : BoundValue value) : Version where
  inner := version.inner.withMax value
  packed := (VersionInner.withMax_spec version.packed bound).1
  nonempty := version.nonempty_of_spec (VersionInner.withMax_spec version.packed bound) rfl

def onlyRelease : Version :=
  new version.release version.nonempty

/-! ## Getters after a builder -/

@[simp] lemma record_new :
    (new numbers nonempty).record =
      { epoch := 0, release := numbers, pre := none, post := none, dev := none,
        localVersion := .empty, min := none, max := none } :=
  (@replaceRelease_spec (.small .new) VersionSmall.new_packed numbers).2

@[simp] lemma record_withRelease :
    (version.withRelease numbers nonempty).record = { version.record with release := numbers } :=
  (replaceRelease_spec version.packed numbers).2

@[simp] lemma record_withEpoch (value : UInt64) :
    (version.withEpoch value).record = { version.record with epoch := value } :=
  (withEpoch_spec version.packed value).2

@[simp] lemma record_withPre (value : Option Prerelease) :
    (version.withPre value).record = { version.record with pre := value } :=
  (withPre_spec version.packed value).2

variable (value : Option UInt64)

@[simp] lemma record_withPost :
    (version.withPost value).record = { version.record with post := value } :=
  (withPost_spec version.packed value).2

@[simp] lemma record_withDev :
    (version.withDev value).record = { version.record with dev := value } :=
  (withDev_spec version.packed value).2

@[simp] lemma record_withLocal (value : LocalVersion) :
    (version.withLocal value).record = { version.record with localVersion := value } :=
  (withLocal_spec version.packed value).2

@[simp] lemma record_withoutLocal :
    version.withoutLocal.record = { version.record with localVersion := .empty } :=
  (withoutLocal_spec version.packed).2

variable (bound : BoundValue value)

@[simp] lemma record_withMin :
    (version.withMin value bound).record = { version.record with min := value } :=
  (withMin_spec version.packed bound).2

@[simp] lemma record_withMax :
    (version.withMax value bound).record = { version.record with max := value } :=
  (withMax_spec version.packed bound).2

/-! ## Order -/

def cmp (this other : Version) : Ordering := this.inner.cmp other.inner

end Version

/-- The key of a record.  Versions with equal getters have equal keys. -/
def VersionFull.key (record : VersionFull) : VersionKey := (VersionInner.full record).key

namespace Version

def key (version : Version) : VersionKey := version.record.key

lemma cmp_orderedBy : OrderedBy cmp key := by
  intro this other
  rw [key, key, VersionFull.key, VersionFull.key, record, record, key_makeFull, key_makeFull]
  exact cmp_eq_compare_key this.packed other.packed

end Version

end Uv.Pep440
