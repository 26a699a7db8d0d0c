import Mathlib

namespace Uv.Pep440

/-!
# Versions and their two representations

A version is stored either in a packed 64-bit word or in a record with one
field per component.  The packed form covers the common case: epoch zero, at
most four small release numbers, and at most one suffix.  Its setters fail
when a value does not fit, and the callers then move to the full record.

This file follows `version.rs`: the packed word with its masks and shifts, the
full record, and the comparison functions.  A mutating method of the source
becomes a function that returns the new value.  A setter that reports success
as a boolean becomes a partial function; a failed setter leaves the word alone,
so nothing is lost by dropping the old value.
-/

/-! ## Components -/

inductive PrereleaseKind where
  | alpha
  | beta
  | rc
  deriving DecidableEq, Repr

structure Prerelease where
  kind : PrereleaseKind
  number : UInt64
  deriving DecidableEq, Repr

/-- A segment of a local version: not parseable as an integer, or an integer. -/
inductive LocalSegment where
  | string (text : String)
  | number (value : UInt64)
  deriving DecidableEq, Repr

/-- Local segments, or the internal value above every local version.  The
borrowed `LocalVersionSlice` has the same shape and is not kept apart. -/
inductive LocalVersion where
  | segments (list : List LocalSegment)
  | max
  deriving DecidableEq, Repr

namespace LocalVersion

def empty : LocalVersion := .segments []

def isEmpty : LocalVersion -> Bool
  | .segments list => list.isEmpty
  | .max => false

end LocalVersion

/-- The full representation of a version.  `min` and `max` do not exist in
PEP 440; they are the bounds below and above every version of a release. -/
structure VersionFull where
  epoch : UInt64
  release : List UInt64
  pre : Option Prerelease
  post : Option UInt64
  dev : Option UInt64
  localVersion : LocalVersion
  min : Option UInt64
  max : Option UInt64
  deriving DecidableEq, Repr

/-- The small representation: the packed word and the number of release
segments. -/
structure VersionSmall where
  repr : UInt64
  len : Nat
  deriving DecidableEq, Repr

/-! ## The packed word -/

namespace VersionSmall

def suffixMin : UInt64 := 0
def suffixDev : UInt64 := 1
def suffixPreAlpha : UInt64 := 2
def suffixPreBeta : UInt64 := 3
def suffixPreRc : UInt64 := 4
def suffixNone : UInt64 := 5
def suffixLocal : UInt64 := 6
def suffixPost : UInt64 := 7
def suffixMax : UInt64 := 8

def suffixReleaseMask : UInt64 := 0xFFFFFFFFFF000000
def suffixVersionMask : UInt64 := 0x000FFFFF
def suffixVersionBitLen : UInt64 := 20
def suffixKindMask : UInt64 := 0b1111

def new : VersionSmall where
  repr := suffixNone <<< suffixVersionBitLen
  len := 0

def epoch (_small : VersionSmall) : UInt64 := 0

variable (small : VersionSmall)

def setEpoch (value : UInt64) : Option VersionSmall :=
  if value != 0 then none else some small

def clearRelease : VersionSmall where
  repr := small.repr &&& ~~~suffixReleaseMask
  len := 0

def pushRelease (n : UInt64) : Option VersionSmall :=
  if small.len = 0 then
    if n > 0xFFFF then none
    else some { repr := small.repr ||| n <<< 48, len := 1 }
  else if n > 0xFF then none
  else if small.len ≥ 4 then none
  else
    let shift := 48 - small.len * 8
    some { repr := small.repr ||| n <<< UInt64.ofNat shift, len := small.len + 1 }

def suffixKind : UInt64 :=
  (small.repr >>> suffixVersionBitLen) &&& suffixKindMask

def suffixVersion : UInt64 :=
  small.repr &&& suffixVersionMask

def setSuffixVersion (value : UInt64) : VersionSmall :=
  { small with repr := (small.repr &&& ~~~suffixVersionMask) ||| value }

def setSuffixKind (kind : UInt64) : VersionSmall :=
  let small := { small with
    repr := (small.repr &&& ~~~(suffixKindMask <<< suffixVersionBitLen)) |||
      kind <<< suffixVersionBitLen }
  if kind == suffixNone || kind == suffixLocal then small.setSuffixVersion 0 else small

/-- The number stored with a suffix, when the suffix is of this kind.  The
getters `post`, `dev`, `min` and `max` are this function at their own kind. -/
def suffixNumber (own : UInt64) (small : VersionSmall) : Option UInt64 :=
  if small.suffixKind == own then some small.suffixVersion else none

/-- Store or remove the number of a suffix kind.  A word that already holds
another suffix only accepts the removal, which changes nothing. -/
def setSuffixNumber (own : UInt64) (small : VersionSmall) (value : Option UInt64) :
    Option VersionSmall :=
  if !(small.suffixKind == suffixNone || small.suffixKind == own) then
    if value.isNone then some small else none
  else
    match value with
    | none => some (small.setSuffixKind suffixNone)
    | some number =>
      if number > suffixVersionMask then none
      else some ((small.setSuffixKind own).setSuffixVersion number)

def post : VersionSmall -> Option UInt64 := suffixNumber suffixPost
def dev : VersionSmall -> Option UInt64 := suffixNumber suffixDev
def min : VersionSmall -> Option UInt64 := suffixNumber suffixMin
def max : VersionSmall -> Option UInt64 := suffixNumber suffixMax

def setPost : VersionSmall -> Option UInt64 -> Option VersionSmall := setSuffixNumber suffixPost
def setDev : VersionSmall -> Option UInt64 -> Option VersionSmall := setSuffixNumber suffixDev
def setMin : VersionSmall -> Option UInt64 -> Option VersionSmall := setSuffixNumber suffixMin
def setMax : VersionSmall -> Option UInt64 -> Option VersionSmall := setSuffixNumber suffixMax

def pre : Option Prerelease :=
  let kind := small.suffixKind
  let number := small.suffixVersion
  if kind == suffixPreAlpha then some { kind := .alpha, number := number }
  else if kind == suffixPreBeta then some { kind := .beta, number := number }
  else if kind == suffixPreRc then some { kind := .rc, number := number }
  else none

/-- The suffix kind of a pre-release. -/
def preSuffix : PrereleaseKind -> UInt64
  | .alpha => suffixPreAlpha
  | .beta => suffixPreBeta
  | .rc => suffixPreRc

def setPre (value : Option Prerelease) : Option VersionSmall :=
  let suffixKind := small.suffixKind
  if !(suffixKind == suffixNone || suffixKind == suffixPreAlpha ||
      suffixKind == suffixPreBeta || suffixKind == suffixPreRc) then
    if value.isNone then some small else none
  else
    match value with
    | none => some (small.setSuffixKind suffixNone)
    | some pre =>
      if pre.number > suffixVersionMask then none
      else some ((small.setSuffixKind (preSuffix pre.kind)).setSuffixVersion pre.number)

def localVersion : LocalVersion :=
  if small.suffixKind == suffixLocal then .max else .empty

def setLocal (value : LocalVersion) : Option VersionSmall :=
  let suffixKind := small.suffixKind
  if !(suffixKind == suffixNone || suffixKind == suffixLocal) then
    if value.isEmpty then some small else none
  else
    match value with
    | .max => some (small.setSuffixKind suffixLocal)
    | .segments [] => some (small.setSuffixKind suffixNone)
    | .segments (_ :: _) => none

/-- The release numbers unpacked from the word.  The source declares lengths
above four unreachable. -/
def release : List UInt64 :=
  let first := (small.repr >>> 48) &&& 0xFFFF
  let second := (small.repr >>> 40) &&& 0xFF
  let third := (small.repr >>> 32) &&& 0xFF
  let fourth := (small.repr >>> 24) &&& 0xFF
  match small.len with
  | 0 => []
  | 1 => [first]
  | 2 => [first, second]
  | 3 => [first, second, third]
  | 4 => [first, second, third, fourth]
  | _ => []

end VersionSmall

/-! ## Either representation -/

inductive VersionInner where
  | small (word : VersionSmall)
  | full (record : VersionFull)
  deriving DecidableEq, Repr

/-- The ways to increment a version. -/
inductive BumpCommand where
  | bumpRelease (index : Nat) (value : Option UInt64)
  | bumpPrerelease (kind : PrereleaseKind) (value : Option UInt64)
  | makeStable
  | bumpPost (value : Option UInt64)
  | bumpDev (value : Option UInt64)
  deriving DecidableEq, Repr

/-- The release numbers after bumping one of them: earlier numbers are kept,
missing ones count as zero, and later ones become zero. -/
def bumpedRelease (oldParts : List UInt64) (index : Nat) (value : Option UInt64) : List UInt64 :=
  (List.range (Nat.max oldParts.length (index + 1))).map fun i =>
    if i < index then (oldParts[i]?).getD 0
    else if i = index then value.getD ((oldParts[i]?).getD 0 + 1)
    else 0

def VersionFull.bump (full : VersionFull) : BumpCommand -> VersionFull
  | .bumpRelease index value =>
    { full with
      pre := none, post := none, dev := none,
      release := bumpedRelease full.release index value }
  | .makeStable => { full with pre := none, post := none, dev := none }
  | .bumpPrerelease kind value =>
    let full := { full with post := none, dev := none }
    match value with
    | some value => { full with pre := some { kind := kind, number := value } }
    | none =>
      match full.pre with
      | some prerelease =>
        if prerelease.kind = kind then
          { full with pre := some { prerelease with number := prerelease.number + 1 } }
        else { full with pre := some { kind := kind, number := 1 } }
      | none => { full with pre := some { kind := kind, number := 1 } }
  | .bumpPost value =>
    let full := { full with dev := none }
    match value with
    | some value => { full with post := some value }
    | none => { full with post := some ((full.post.map (· + 1)).getD 1) }
  | .bumpDev value =>
    match value with
    | some value => { full with dev := some value }
    | none => { full with dev := some ((full.dev.map (· + 1)).getD 1) }

/-- The position of the last element that satisfies a test. -/
def rposition (test : UInt64 -> Bool) (list : List UInt64) : Option Nat :=
  (list.reverse.findIdx? test).map fun fromEnd => list.length - 1 - fromEnd

/-- Pop zeros from the end while the last number is zero. -/
def popTrailingZeros (release : List UInt64) : List UInt64 :=
  (release.reverse.dropWhile (· == 0)).reverse

namespace VersionInner

def epoch : VersionInner -> UInt64
  | .small word => word.epoch
  | .full record => record.epoch

def release : VersionInner -> List UInt64
  | .small word => word.release
  | .full record => record.release

def pre : VersionInner -> Option Prerelease
  | .small word => word.pre
  | .full record => record.pre

def post : VersionInner -> Option UInt64
  | .small word => word.post
  | .full record => record.post

def dev : VersionInner -> Option UInt64
  | .small word => word.dev
  | .full record => record.dev

def localVersion : VersionInner -> LocalVersion
  | .small word => word.localVersion
  | .full record => record.localVersion

def min : VersionInner -> Option UInt64
  | .small word => word.min
  | .full record => record.min

def max : VersionInner -> Option UInt64
  | .small word => word.max
  | .full record => record.max

/-- The full record of a version, whatever its representation. -/
def makeFull : VersionInner -> VersionFull
  | .small word =>
    { epoch := word.epoch
      release := word.release
      pre := word.pre
      post := word.post
      dev := word.dev
      localVersion := word.localVersion
      min := word.min
      max := word.max }
  | .full record => record

variable (inner : VersionInner)

/-- The shape shared by the builders: try the setter of the packed word, and
otherwise change the full record. -/
def setOrMakeFull (set : VersionSmall -> Option VersionSmall)
    (change : VersionFull -> VersionFull) : VersionInner :=
  match inner with
  | .small word =>
    match set word with
    | some word => .small word
    | none => .full (change inner.makeFull)
  | .full record => .full (change record)

def pushRelease (inner : VersionInner) (n : UInt64) : VersionInner :=
  inner.setOrMakeFull (·.pushRelease n) fun record => { record with release := record.release ++ [n] }

def clearRelease : VersionInner -> VersionInner
  | .small word => .small word.clearRelease
  | .full record => .full { record with release := [] }

/-- Replace the release numbers.  The source panics when there are none. -/
def withRelease (releaseNumbers : List UInt64) : Option VersionInner :=
  let updated := releaseNumbers.foldl pushRelease inner.clearRelease
  if updated.release.isEmpty then none else some updated

def new (releaseNumbers : List UInt64) : Option VersionInner :=
  withRelease (.small .new) releaseNumbers

def withEpoch (value : UInt64) : VersionInner :=
  inner.setOrMakeFull (·.setEpoch value) fun record => { record with epoch := value }

def withPre (value : Option Prerelease) : VersionInner :=
  inner.setOrMakeFull (·.setPre value) fun record => { record with pre := value }

variable (value : Option UInt64)

def withPost : VersionInner :=
  inner.setOrMakeFull (·.setPost value) fun record => { record with post := value }

def withDev : VersionInner :=
  inner.setOrMakeFull (·.setDev value) fun record => { record with dev := value }

/-- The source also asserts, in debug builds only, that the version is neither
a pre-release nor a dev release. -/
def withMin : VersionInner :=
  inner.setOrMakeFull (·.setMin value) fun record => { record with min := value }

/-- The source also asserts, in debug builds only, that the version is neither
a post-release nor a dev release. -/
def withMax : VersionInner :=
  inner.setOrMakeFull (·.setMax value) fun record => { record with max := value }

def withoutLocal : VersionInner :=
  inner.setOrMakeFull (·.setLocal .empty) fun record => { record with localVersion := .empty }

def withLocalSegments (value : List LocalSegment) : VersionInner :=
  if value.isEmpty then inner.withoutLocal
  else .full { inner.makeFull with localVersion := .segments value }

def withLocal : LocalVersion -> VersionInner
  | .segments segments => inner.withLocalSegments segments
  | .max => inner.setOrMakeFull (·.setLocal .max) fun record => { record with localVersion := .max }

def onlyRelease : Option VersionInner :=
  new inner.release

def onlyMinorRelease : Option VersionInner :=
  new (inner.release.take 2)

def onlyReleaseTrimmed : Option VersionInner :=
  match rposition (· != 0) inner.release with
  | some lastNonZero =>
    if lastNonZero + 1 = inner.release.length /\ inner.epoch = 0 /\ inner.pre.isNone /\
        inner.post.isNone /\ inner.dev.isNone /\ inner.localVersion.isEmpty /\
        inner.min.isNone /\ inner.max.isNone then
      some inner
    else new (inner.release.take (lastNonZero + 1))
  | none => new [0]

/-- The release padded with zeros or cut to the given precision.  There is no
result for precision zero. -/
def onlyReleaseAtPrecision (precision : Nat) : Option VersionInner :=
  let release := (inner.release ++ List.replicate precision 0).take precision
  if release.isEmpty then none else (new release).map (·.withEpoch inner.epoch)

def withoutTrailingZeros : Option VersionInner :=
  inner.withRelease (popTrailingZeros inner.release)

def bump (inner : VersionInner) (command : BumpCommand) : VersionInner :=
  .full (inner.makeFull.bump command)

end VersionInner

end Uv.Pep440
