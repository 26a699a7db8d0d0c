import Uv.Pep440.Specifier
import Uv.Wheel.Filename

namespace Uv.Resolver

open Pep440 Wheel List

/-!
# The files of one version

Of the wheels and source distributions of a version the best ones are kept, one insertion
after the other.  Among compatible files the comparison is that of a key.  Among the others it
is meant to find the file that is closest to being usable, and prefers some files to
themselves.
-/

/-! ## Compatibility -/

/-- Compared in the order of the constructors, as are the tags below. -/
inductive HashComparison where
  | mismatched
  | missing
  | matched

inductive IncompatibleTag where
  | variant
  | invalid
  | python
  | abi
  | freethreadedAbi
  | abiPythonVersion
  | platform

inductive Yanked where
  | bool (yanked : Bool)
  | reason (reason : String)

def Yanked.hasReason : Yanked -> Bool
  | .bool _ => false
  | .reason _ => true

inductive PythonRequirementKind where
  | installed
  | target

/-- Markers are values of an arbitrary type. -/
inductive IncompatibleWheel (M : Type) where
  | excludeNewer (timestamp : Option Int)
  | tag (tag : IncompatibleTag)
  | requiresPython (specifiers : VersionSpecifiers) (kind : PythonRequirementKind)
  | yanked (yanked : Yanked)
  | noBinary
  | missingPlatform (markers : M)

inductive WheelCompatibility (M : Type) where
  | incompatible (incompatibility : IncompatibleWheel M)
  | variant (hash : HashComparison) (priority : Option UInt32) (buildTag : Option BuildTag)
  | compatible (hash : HashComparison) (priority : Option UInt32) (buildTag : Option BuildTag)

inductive IncompatibleSource where
  | excludeNewer (timestamp : Option Int)
  | requiresPython (specifiers : VersionSpecifiers) (kind : PythonRequirementKind)
  | yanked (yanked : Yanked)
  | noBuild
  | notPep625Filename

inductive SourceDistCompatibility where
  | incompatible (incompatibility : IncompatibleSource)
  | compatible (hash : HashComparison)

/-- The tuple by which compatible wheels are compared.  An absent part is the smallest. -/
def compatibleKey (hash : HashComparison) (priority : Option UInt32) (buildTag : Option BuildTag) :
    Nat ×ₗ WithBot Nat ×ₗ WithBot (Nat ×ₗ WithBot String) :=
  toLex (hash.ctorIdx, toLex (priority.map UInt32.toNat,
    buildTag.map fun tag => toLex (tag.number.toNat, tag.suffix)))

section

variable {M : Type}

namespace IncompatibleWheel

def isMoreCompatible (this other : IncompatibleWheel M) : Bool :=
  match this with
  | .excludeNewer timestamp =>
    match other with
    | .excludeNewer timestampOther =>
      match timestamp, timestampOther with
      | none, _ => true
      | _, none => false
      | some timestamp, some timestampOther => timestampOther < timestamp
    | _ => true
  | .tag tagSelf =>
    match other with
    | .excludeNewer _ => false
    | .tag tagOther => tagOther.ctorIdx < tagSelf.ctorIdx
    | _ => true
  | .requiresPython _ _ =>
    match other with
    | .excludeNewer _ | .tag _ | .requiresPython _ _ => false
    | _ => true
  | .yanked _ =>
    match other with
    | .excludeNewer _ | .tag _ | .requiresPython _ _ => false
    | .yanked yankedOther => yankedOther.hasReason
    | _ => true
  | .noBinary =>
    match other with
    | .missingPlatform _ => true
    | _ => false
  | .missingPlatform _ => false

/-- It was excluded with a timestamp, or yanked without a reason, or is unusable for another
cause. -/
def Comparable : IncompatibleWheel M -> Prop
  | .excludeNewer timestamp => timestamp.isSome
  | .yanked given => given.hasReason = false
  | _ => True

/-- How close a comparable wheel is to being usable. -/
def rank : IncompatibleWheel M -> Nat ×ₗ Int
  | .excludeNewer timestamp => toLex (5, timestamp.getD 0)
  | .tag tagSelf => toLex (4, tagSelf.ctorIdx)
  | .requiresPython _ _ => toLex (3, 0)
  | .yanked _ => toLex (2, 0)
  | .noBinary => toLex (1, 0)
  | .missingPlatform _ => toLex (0, 0)

lemma isMoreCompatible_iff {x y : IncompatibleWheel M} (comparable : x.Comparable)
    (comparable' : y.Comparable) : x.isMoreCompatible y <-> y.rank < x.rank := by
  cases x <;> cases y <;> simp [isMoreCompatible, rank, Prod.Lex.toLex_lt_toLex] <;>
    simp_all [Comparable]
  next timestamp timestamp' =>
    rcases Option.isSome_iff_exists.mp comparable with ⟨time, rfl⟩
    rcases Option.isSome_iff_exists.mp comparable' with ⟨time', rfl⟩
    simp

end IncompatibleWheel

namespace WheelCompatibility

def isCompatible : WheelCompatibility M -> Bool
  | .compatible _ _ _ => true
  | _ => false

def isExcluded : WheelCompatibility M -> Bool
  | .incompatible (.excludeNewer _) => true
  | _ => false

def isMoreCompatible (this other : WheelCompatibility M) : Bool :=
  match this, other with
  | .compatible hash priority buildTag, .compatible otherHash otherPriority otherBuildTag =>
    compatibleKey otherHash otherPriority otherBuildTag < compatibleKey hash priority buildTag
  | .compatible _ _ _, _ => true
  | _, .compatible _ _ _ => false
  | .incompatible incompatibility, .incompatible other => incompatibility.isMoreCompatible other
  | .variant _ _ _, .incompatible other => (IncompatibleWheel.tag .variant).isMoreCompatible other
  | .incompatible incompatibility, .variant _ _ _ => incompatibility.isMoreCompatible (.tag .variant)
  | .variant _ _ _, .variant _ _ _ => false

def Comparable : WheelCompatibility M -> Prop
  | .incompatible incompatibility => incompatibility.Comparable
  | _ => True

def rank : WheelCompatibility M ->
    (Nat ×ₗ Int) ⊕ₗ (Nat ×ₗ WithBot Nat ×ₗ WithBot (Nat ×ₗ WithBot String))
  | .incompatible incompatibility => toLex (.inl incompatibility.rank)
  | .variant _ _ _ => toLex (.inl (IncompatibleWheel.tag (M := M) .variant).rank)
  | .compatible hash priority buildTag => toLex (.inr (compatibleKey hash priority buildTag))

lemma isMoreCompatible_iff {x y : WheelCompatibility M} (comparable : x.Comparable)
    (comparable' : y.Comparable) : x.isMoreCompatible y <-> y.rank < x.rank := by
  have variant : (IncompatibleWheel.tag (M := M) .variant).Comparable := trivial
  cases x <;> cases y <;>
    simp only [isMoreCompatible, rank, Sum.Lex.inl_lt_inl_iff, Sum.Lex.inr_lt_inr_iff,
      Sum.Lex.inl_lt_inr, Sum.Lex.not_inr_lt_inl, lt_self_iff_false, decide_eq_true_eq,
      Bool.false_eq_true]
  · exact IncompatibleWheel.isMoreCompatible_iff comparable comparable'
  · exact IncompatibleWheel.isMoreCompatible_iff comparable variant
  · exact IncompatibleWheel.isMoreCompatible_iff variant comparable'

lemma isMoreCompatible_self {x : WheelCompatibility M} (incomparable : ¬ x.Comparable) :
    x.isMoreCompatible x := by
  cases x with
  | incompatible incompatibility =>
    cases incompatibility with
    | excludeNewer timestamp =>
      cases timestamp with
      | none => rfl
      | some time => exact absurd rfl incomparable
    | yanked given => exact Bool.eq_true_of_not_eq_false incomparable
    | _ => exact absurd trivial incomparable
  | _ => exact absurd trivial incomparable

end WheelCompatibility

end

def IncompatibleSource.isMoreCompatible (this other : IncompatibleSource) : Bool :=
  match this with
  | .excludeNewer timestamp =>
    match other with
    | .excludeNewer timestampOther =>
      match timestampOther, timestamp with
      | some timestampOther, some timestamp => timestampOther < timestamp
      | none, some _ => true
      | _, none => false
    | _ => true
  | .requiresPython _ _ =>
    match other with
    | .excludeNewer _ | .requiresPython _ _ => false
    | _ => true
  | .yanked _ =>
    match other with
    | .excludeNewer _ | .requiresPython _ _ | .notPep625Filename => false
    | .yanked yankedOther => yankedOther.hasReason
    | .noBuild => true
  | .noBuild | .notPep625Filename => false

namespace SourceDistCompatibility

def isExcluded : SourceDistCompatibility -> Bool
  | .incompatible (.excludeNewer _) => true
  | _ => false

def isMoreCompatible (this other : SourceDistCompatibility) : Bool :=
  match this, other with
  | .compatible _, .incompatible _ => true
  | .compatible hash, .compatible otherHash => otherHash.ctorIdx < hash.ctorIdx
  | .incompatible _, .compatible _ => false
  | .incompatible incompatibility, .incompatible other => incompatibility.isMoreCompatible other

/-- It was not yanked with a reason. -/
def Comparable : SourceDistCompatibility -> Prop
  | .incompatible (.yanked given) => given.hasReason = false
  | _ => True

end SourceDistCompatibility

namespace IncompatibleSource

/-- No timestamp comes before all of them. -/
lemma excludeNewer_iff {timestamp timestampOther : Option Int} :
    (excludeNewer timestamp).isMoreCompatible (excludeNewer timestampOther) <->
      @LT.lt (WithBot Int) _ timestampOther timestamp := by
  cases timestampOther with
  | none =>
    cases timestamp with
    | none => exact iff_of_false Bool.false_ne_true (lt_irrefl _)
    | some time => exact iff_of_true rfl (WithBot.bot_lt_coe time)
  | some time' =>
    cases timestamp with
    | none => exact iff_of_false Bool.false_ne_true not_lt_bot
    | some time => exact decide_eq_true_iff.trans WithBot.coe_lt_coe.symm

/-- Yanked files and files with other names than PEP 625 has are not compared. -/
lemma isMoreCompatible_trans {x y z : IncompatibleSource}
    (comparable : (SourceDistCompatibility.incompatible z).Comparable)
    (first : x.isMoreCompatible y) (second : y.isMoreCompatible z) : x.isMoreCompatible z := by
  cases y with
  | excludeNewer time' =>
    cases x with
    | excludeNewer time =>
      cases z with
      | excludeNewer time'' =>
        exact excludeNewer_iff.mpr ((excludeNewer_iff.mp second).trans (excludeNewer_iff.mp first))
      | _ => rfl
    | _ => cases first
  | requiresPython =>
    cases x with
    | excludeNewer time =>
      cases z with
      | excludeNewer => cases second
      | _ => rfl
    | _ => cases first
  | yanked =>
    cases z with
    | noBuild =>
      cases x with
      | noBuild | notPep625Filename => cases first
      | _ => rfl
    | yanked given => exact absurd (comparable.symm.trans second) Bool.false_ne_true
    | _ => cases second
  | noBuild | notPep625Filename => cases second

end IncompatibleSource

namespace SourceDistCompatibility

variable {x : SourceDistCompatibility}

lemma isMoreCompatible_self (incomparable : ¬ x.Comparable) :
    x.isMoreCompatible x := by
  cases x with
  | incompatible incompatibility =>
    cases incompatibility with
    | yanked given => exact Bool.eq_true_of_not_eq_false incomparable
    | _ => exact absurd trivial incomparable
  | compatible hash => exact absurd trivial incomparable

lemma isMoreCompatible_irrefl (comparable : x.Comparable) :
    x.isMoreCompatible x = false := by
  cases x with
  | compatible hash => exact decide_eq_false (lt_irrefl hash.ctorIdx)
  | incompatible incompatibility =>
    cases incompatibility with
    | excludeNewer timestamp =>
      rw [<- Bool.not_eq_true]
      exact fun prefers => lt_irrefl _ (IncompatibleSource.excludeNewer_iff.mp prefers)
    | yanked given => exact comparable
    | _ => rfl

lemma isMoreCompatible_trans {x y z : SourceDistCompatibility} (comparable : z.Comparable)
    (first : x.isMoreCompatible y) (second : y.isMoreCompatible z) : x.isMoreCompatible z := by
  cases z with
  | compatible hash'' =>
    cases y with
    | incompatible other => cases second
    | compatible hash' =>
      cases x with
      | incompatible incompatibility => cases first
      | compatible hash =>
        exact decide_eq_true ((of_decide_eq_true second).trans (of_decide_eq_true first))
  | incompatible another =>
    cases x with
    | compatible hash => rfl
    | incompatible incompatibility =>
      cases y with
      | compatible hash' => cases first
      | incompatible other => exact IncompatibleSource.isMoreCompatible_trans comparable first second

end SourceDistCompatibility

/-! ## Strict orders -/

/-- Among the listed values the preference is a strict order. -/
structure StrictOn {α : Type} (prefers : α -> α -> Bool) (mem : α -> Prop) : Prop where
  irreflexive {x : α} : mem x -> prefers x x = false
  asymmetric {x y : α} : mem x -> mem y -> prefers x y = true -> prefers y x = false
  transitive {x y z : α} : mem x -> mem y -> mem z ->
    prefers x y = true -> prefers y z = true -> prefers x z = true

/-- Wheels, and source distributions, are in a strict order exactly as far as none was yanked
with a reason and no wheel was excluded without a timestamp. -/
theorem isMoreCompatible_strict_iff {M : Type} (wheels : WheelCompatibility M -> Prop)
    (sources : SourceDistCompatibility -> Prop) :
    (StrictOn WheelCompatibility.isMoreCompatible wheels <-> ∀ x, wheels x -> x.Comparable) /\
      (StrictOn SourceDistCompatibility.isMoreCompatible sources <->
        ∀ x, sources x -> x.Comparable) := by
  refine ⟨⟨?_, ?_⟩, ⟨?_, ?_⟩⟩
  · intro strict x mem
    by_contra incomparable
    exact Bool.false_ne_true ((strict.irreflexive mem).symm.trans
      (WheelCompatibility.isMoreCompatible_self incomparable))
  · intro comparable
    have less : ∀ {x y}, wheels x -> wheels y -> (x.isMoreCompatible y = true <-> y.rank < x.rank) :=
      fun first second => WheelCompatibility.isMoreCompatible_iff (comparable _ first)
        (comparable _ second)
    refine ⟨fun mem => ?_, fun first second => ?_, fun first second third => ?_⟩
    · rw [<- Bool.not_eq_true, less mem mem]
      exact lt_irrefl _
    · rw [<- Bool.not_eq_true, less first second, less second first]
      exact lt_asymm
    · rw [less first second, less second third, less first third]
      exact fun above below => below.trans above
  · intro strict x mem
    by_contra incomparable
    exact Bool.false_ne_true ((strict.irreflexive mem).symm.trans
      (SourceDistCompatibility.isMoreCompatible_self incomparable))
  · intro comparable
    refine ⟨fun mem => SourceDistCompatibility.isMoreCompatible_irrefl (comparable _ mem),
      fun first second prefers => ?_,
      fun _ _ third => SourceDistCompatibility.isMoreCompatible_trans (comparable _ third)⟩
    rw [<- Bool.not_eq_true]
    intro prefers'
    have itself := SourceDistCompatibility.isMoreCompatible_trans (comparable _ first) prefers prefers'
    exact Bool.false_ne_true
      ((SourceDistCompatibility.isMoreCompatible_irrefl (comparable _ first)).symm.trans itself)

/-- Of two wheels that were yanked with a reason each is preferred to the other. -/
theorem isMoreCompatible_yanked :
    let broken : WheelCompatibility Unit := .incompatible (.yanked (.reason "broken"))
    let insecure : WheelCompatibility Unit := .incompatible (.yanked (.reason "insecure"))
    broken.isMoreCompatible insecure = true /\ insecure.isMoreCompatible broken = true :=
  ⟨rfl, rfl⟩

/-! ## The value that is kept -/

section

variable {α κ : Type} [LinearOrder κ] {prefers : α -> α -> Bool} {key : α -> κ}

/-- A new value replaces the one that was kept if it is preferred to it. -/
def kept (prefers : α -> α -> Bool) (best : Option α) (new : α) : Option α :=
  if best.all (prefers new) then some new else best

/-- The kept value has the greatest key, if the preference never goes against the key. -/
lemma foldl_kept {list : List α}
    (rises : ∀ {x y}, x ∈ list -> y ∈ list -> prefers x y -> key y <= key x)
    (stays : ∀ {x y}, x ∈ list -> y ∈ list -> prefers x y = false -> key x <= key y) :
    list = [] /\ list.foldl (kept prefers) none = none \/
      ∃ best, list.foldl (kept prefers) none = some best /\ best ∈ list /\
        ∀ x ∈ list, key x <= key best := by
  induction list using reverseRecOn with
  | nil => exact .inl ⟨rfl, rfl⟩
  | append_singleton list new ih =>
    right
    rw [foldl_concat]
    have last : new ∈ list ++ [new] := mem_append_right _ (mem_singleton_self new)
    rcases ih (fun first second => rises (mem_append_left _ first) (mem_append_left _ second))
      (fun first second => stays (mem_append_left _ first) (mem_append_left _ second)) with
      ⟨rfl, none⟩ | ⟨best, found, mem, greatest⟩
    · rw [none]
      exact ⟨new, rfl, last, fun x inside => mem_singleton.mp inside ▸ le_rfl⟩
    · have mem' := mem_append_left [new] mem
      rw [found, kept, Option.all_some]
      cases preferred : prefers new best with
      | true =>
        refine ⟨new, rfl, last, fun x inside => ?_⟩
        rcases mem_append.mp inside with before | own
        · exact (greatest x before).trans (rises last mem' preferred)
        · exact mem_singleton.mp own ▸ le_rfl
      | false =>
        refine ⟨best, rfl, mem', fun x inside => ?_⟩
        rcases mem_append.mp inside with before | own
        · exact greatest x before
        · exact mem_singleton.mp own ▸ stays last mem' preferred

end

/-! ## Insertion -/

/-- Wheels, source distributions and digests are values of arbitrary types. -/
structure PrioritizedDist (M W S D : Type) where
  source : Option (S × SourceDistCompatibility) := none
  bestWheelIndex : Option Nat := none
  wheels : List (W × WheelCompatibility M) := []
  hashes : List D := []

inductive CompatibleDist (W S : Type) where
  | sourceDist (sdist : S)
  | compatibleWheel (wheel : W)
  | incompatibleWheel (sdist : S) (wheel : W)

inductive Insertion (M W S D : Type) where
  | built (dist : W) (hashes : List D) (compatibility : WheelCompatibility M)
  | source (dist : S) (hashes : List D) (compatibility : SourceDistCompatibility)

section

variable {M W S D : Type} (variant : W -> Option String)

/-- Ordinary wheels are preferred to wheels with a variant label. -/
def prefersWheel (new existing : W × WheelCompatibility M) : Bool :=
  match variant new.1, variant existing.1 with
  | none, some _ => true
  | some _, none => false
  | _, _ => new.2.isMoreCompatible existing.2

namespace PrioritizedDist

variable (dist : PrioritizedDist M W S D)

def bestWheel : Option (W × WheelCompatibility M) := dist.bestWheelIndex.bind (dist.wheels[·]?)

def insertBuilt (wheel : W) (hashes : List D) (compatibility : WheelCompatibility M) :
    PrioritizedDist M W S D :=
  let isMoreCompatible := dist.bestWheel.all (prefersWheel variant (wheel, compatibility))
  { dist with
    hashes := if compatibility.isExcluded then dist.hashes else dist.hashes ++ hashes
    bestWheelIndex := if isMoreCompatible then some dist.wheels.length else dist.bestWheelIndex
    wheels := dist.wheels ++ [(wheel, compatibility)] }

def insertSource (sdist : S) (hashes : List D) (compatibility : SourceDistCompatibility) :
    PrioritizedDist M W S D :=
  let isMoreCompatible := dist.source.all fun existing => compatibility.isMoreCompatible existing.2
  { dist with
    hashes := if compatibility.isExcluded then dist.hashes else dist.hashes ++ hashes
    source := if isMoreCompatible then some (sdist, compatibility) else dist.source }

def get : Option (CompatibleDist W S) :=
  match dist.bestWheel, dist.source with
  | some (wheel, .compatible wheelHash _ _), some (sdist, .compatible sdistHash) =>
    if wheelHash.ctorIdx < sdistHash.ctorIdx then some (.sourceDist sdist)
    else some (.compatibleWheel wheel)
  | some (wheel, .compatible _ _ _), _ => some (.compatibleWheel wheel)
  | some (wheel, .incompatible incompatibility), some (sdist, .compatible _) =>
    if !(WheelCompatibility.incompatible incompatibility).isExcluded && (variant wheel).isNone then
      some (.incompatibleWheel sdist wheel)
    else some (.sourceDist sdist)
  | _, some (sdist, .compatible _) => some (.sourceDist sdist)
  | _, _ => none

def insert (insertion : Insertion M W S D) : PrioritizedDist M W S D :=
  match insertion with
  | .built wheel hashes compatibility => dist.insertBuilt variant wheel hashes compatibility
  | .source sdist hashes compatibility => dist.insertSource sdist hashes compatibility

lemma bestWheel_insertBuilt (wheel : W) (hashes : List D) (compatibility : WheelCompatibility M) :
    (dist.insertBuilt variant wheel hashes compatibility).bestWheel =
      kept (prefersWheel variant) dist.bestWheel (wheel, compatibility) := by
  rw [kept]
  by_cases replaces : dist.bestWheel.all (prefersWheel variant (wheel, compatibility))
  · rw [if_pos replaces, bestWheel, insertBuilt, if_pos replaces]
    exact List.getElem?_concat_length
  · rw [if_neg replaces, bestWheel, insertBuilt, if_neg replaces]
    cases index : dist.bestWheelIndex with
    | none =>
      rw [bestWheel, index] at replaces
      exact absurd rfl replaces
    | some index' =>
      rw [bestWheel, index] at replaces ⊢
      cases found : dist.wheels[index']? with
      | none =>
        rw [Option.bind_some, found] at replaces
        exact absurd rfl replaces
      | some existing =>
        rw [Option.bind_some, Option.bind_some, found]
        exact List.getElem?_append_left (List.getElem?_eq_some_iff.mp found).1 ▸ found

end PrioritizedDist

variable (insertions : List (Insertion M W S D))

def wheelsOf : List (W × WheelCompatibility M) :=
  insertions.filterMap fun
    | .built wheel _ compatibility => some (wheel, compatibility)
    | .source _ _ _ => none

def sourcesOf : List (S × SourceDistCompatibility) :=
  insertions.filterMap fun
    | .built _ _ _ => none
    | .source sdist _ compatibility => some (sdist, compatibility)

/-- After all insertions the best wheel and the source distribution are those that are kept
among the inserted ones. -/
lemma foldl_insert :
    (insertions.foldl (PrioritizedDist.insert variant) {}).bestWheel =
        (wheelsOf insertions).foldl (kept (prefersWheel variant)) none /\
      (insertions.foldl (PrioritizedDist.insert variant) {}).source =
        (sourcesOf insertions).foldl
          (kept fun new existing => new.2.isMoreCompatible existing.2) none := by
  induction insertions using reverseRecOn with
  | nil => exact ⟨rfl, rfl⟩
  | append_singleton insertions insertion ih =>
    rw [foldl_concat, wheelsOf, sourcesOf, filterMap_append, filterMap_append]
    cases insertion with
    | built wheel hashes compatibility =>
      refine ⟨?_, ih.2.trans (congrArg _ (append_nil _).symm)⟩
      exact (PrioritizedDist.bestWheel_insertBuilt variant _ wheel hashes compatibility).trans
        ((congrArg (kept _ · _) ih.1).trans (foldl_concat ..).symm)
    | source sdist hashes compatibility =>
      refine ⟨ih.1.trans (congrArg _ (append_nil _).symm), ?_⟩
      exact (congrArg (kept _ · (sdist, compatibility)) ih.2).trans (foldl_concat ..).symm

def WheelCompatibility.key : WheelCompatibility M ->
    WithBot (Nat ×ₗ WithBot Nat ×ₗ WithBot (Nat ×ₗ WithBot String))
  | .compatible hash priority buildTag => compatibleKey hash priority buildTag
  | _ => ⊥

def SourceDistCompatibility.key : SourceDistCompatibility -> WithBot Nat
  | .compatible hash => hash.ctorIdx
  | .incompatible _ => ⊥

/-- Compatible wheels come before the others, and are in the order of their keys. -/
lemma WheelCompatibility.key_le_of_isMoreCompatible (x y : WheelCompatibility M) :
    (x.isMoreCompatible y -> y.key <= x.key) /\
      (x.isMoreCompatible y = false -> x.key <= y.key) := by
  cases x <;> cases y <;> simp [isMoreCompatible, key]
  exact le_of_lt

lemma SourceDistCompatibility.key_le_of_isMoreCompatible (x y : SourceDistCompatibility) :
    (x.isMoreCompatible y -> y.key <= x.key) /\
      (x.isMoreCompatible y = false -> x.key <= y.key) := by
  cases x <;> cases y <;> simp [isMoreCompatible, key]
  exact le_of_lt

lemma WheelCompatibility.key_ne_bot_iff (x : WheelCompatibility M) :
    x.key ≠ ⊥ <-> x.isCompatible := by
  cases x <;> simp [key, isCompatible]

/-- A compatible wheel is returned unless the source distribution has a better hash. -/
lemma PrioritizedDist.get_eq {dist : PrioritizedDist M W S D} {wheel : W} {hash : HashComparison}
    {priority : Option UInt32} {buildTag : Option BuildTag}
    (found : dist.bestWheel = some (wheel, .compatible hash priority buildTag)) :
    dist.get variant = some (match dist.source with
      | none => .compatibleWheel wheel
      | some (sdist, compatibility) =>
        if hash.ctorIdx < compatibility.key then .sourceDist sdist else .compatibleWheel wheel) := by
  rw [get, found]
  rcases dist.source with _ | ⟨sdist, _ | sdistHash⟩
  · rfl
  · rfl
  · simp only [SourceDistCompatibility.key, Nat.cast_withBot, WithBot.coe_lt_coe]
    split <;> rfl

/-- When a compatible wheel has been inserted, the best wheel is a compatible one with the
greatest key.  It is returned unless a compatible source distribution has a better hash; then
one with the best hash is. -/
theorem get_foldl_insert {insertions : List (Insertion M W S D)}
    (unlabelled : ∀ entry ∈ wheelsOf insertions, variant entry.1 = none)
    (compatible : ∃ entry ∈ wheelsOf insertions, entry.2.isCompatible = true) :
    let dist := insertions.foldl (PrioritizedDist.insert variant) {}
    ∃ best hash, ∃ priority buildTag,
      dist.bestWheel = some (best, .compatible hash priority buildTag) /\
      (best, .compatible hash priority buildTag) ∈ wheelsOf insertions /\
      (∀ entry ∈ wheelsOf insertions, entry.2.key <= compatibleKey hash priority buildTag) /\
      ((∀ entry ∈ sourcesOf insertions, entry.2.key <= hash.ctorIdx) ->
        dist.get variant = some (.compatibleWheel best)) /\
      ((∃ entry ∈ sourcesOf insertions, hash.ctorIdx < entry.2.key) ->
        ∃ chosen ∈ sourcesOf insertions,
          (∀ entry ∈ sourcesOf insertions, entry.2.key <= chosen.2.key) /\
          dist.get variant = some (.sourceDist chosen.1)) := by
  intro dist
  rcases foldl_insert variant insertions with ⟨bestWheel, source⟩
  have plain : ∀ {x y}, x ∈ wheelsOf insertions -> y ∈ wheelsOf insertions ->
      prefersWheel variant x y = x.2.isMoreCompatible y.2 := by
    intro x y first second
    rw [prefersWheel, unlabelled x first, unlabelled y second]
  have wheels := @foldl_kept _ _ _ (prefersWheel variant) (fun entry => entry.2.key) _
    (fun {x y} first second prefers =>
      (x.2.key_le_of_isMoreCompatible y.2).1 (plain first second ▸ prefers))
    (fun {x y} first second prefers =>
      (x.2.key_le_of_isMoreCompatible y.2).2 (plain first second ▸ prefers))
  rcases compatible with ⟨entry, inserted, isCompatible⟩
  rcases wheels with ⟨empty, _⟩ | ⟨⟨best, own⟩, found, mem, greatest⟩
  · rw [empty] at inserted
    cases inserted
  have usable : own.isCompatible = true := by
    rw [<- own.key_ne_bot_iff]
    exact ne_bot_of_le_ne_bot ((entry.2.key_ne_bot_iff).mpr isCompatible) (greatest entry inserted)
  rcases own with _ | _ | ⟨hash, priority, buildTag⟩
  · cases usable
  · cases usable
  have chosen : dist.bestWheel = some (best, .compatible hash priority buildTag) := bestWheel.trans found
  refine ⟨best, hash, priority, buildTag, chosen, mem, greatest, ?_⟩
  rw [PrioritizedDist.get_eq variant chosen]
  rcases @foldl_kept _ _ _ _ (fun entry : S × SourceDistCompatibility => entry.2.key) _
    (fun {x y} _ _ => (x.2.key_le_of_isMoreCompatible y.2).1)
    (fun {x y} _ _ => (x.2.key_le_of_isMoreCompatible y.2).2) with
    ⟨empty, none⟩ | ⟨sdist, kept, mem', greatest'⟩
  · rw [source.trans none]
    refine ⟨fun _ => rfl, ?_⟩
    rintro ⟨entry, inserted, _⟩
    rw [empty] at inserted
    cases inserted
  · rw [source.trans kept]
    constructor
    · intro worse
      exact congrArg some (if_neg (not_lt.mpr (worse sdist mem')))
    · rintro ⟨entry, inserted, better⟩
      exact ⟨sdist, mem', greatest',
        congrArg some (if_pos (better.trans_le (greatest' entry inserted)))⟩

end

/-- A wheel without a hash, and a source distribution whose hash matches. -/
def twoFiles : List (Insertion Unit String String Unit) :=
  [.built "wheel" [] (.compatible .missing (some 1) none), .source "sdist" [] (.compatible .matched)]

theorem get_foldl_insert_twoFiles :
    (twoFiles.foldl (PrioritizedDist.insert fun _ => none) {}).get (fun _ => none) =
      some (.sourceDist "sdist") := by
  rcases @get_foldl_insert _ _ _ _ (fun _ => none) twoFiles (fun _ _ => rfl)
    ⟨("wheel", .compatible .missing (some 1) none), mem_singleton_self _, rfl⟩ with
    ⟨best, hash, priority, buildTag, found, _, _, _, source⟩
  have same : some ("wheel", WheelCompatibility.compatible .missing (some 1) none) =
    some (best, .compatible hash priority buildTag) := found
  cases same
  rcases source ⟨("sdist", .compatible .matched), mem_singleton_self _, by decide⟩ with
    ⟨chosen, mem, _, returned⟩
  rw [mem_singleton.mp mem] at returned
  exact returned

end Uv.Resolver
