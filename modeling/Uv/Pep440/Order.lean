import Uv.Library.Comparison
import Uv.Pep440.Builder

namespace Uv.Pep440

open Library VersionInner List

/-!
# The order of versions

Two packed versions are compared by their words.  All other pairs go through
`cmpSlow`, which compares epoch, zero-padded release and a tuple built from the
suffixes.  This file transcribes the comparison functions and gives each of them
a key.  On packed words the numeric order is the order of the keys, so the fast
path and the slow path agree.
-/

/-! ## Comparison functions of the source -/

def LocalSegment.cmp : LocalSegment -> LocalSegment -> Ordering
  | .number n1, .number n2 => compare n1 n2
  | .string s1, .string s2 => compare s1 s2
  | .number _, .string _ => .gt
  | .string _, .number _ => .lt

def LocalVersion.cmp : LocalVersion -> LocalVersion -> Ordering
  | .segments lv1, .segments lv2 => List.compareLex LocalSegment.cmp lv1 lv2
  | .segments _, .max => .lt
  | .max, .segments _ => .gt
  | .max, .max => .eq

/-- The first difference in a list of pairs. -/
def compareZipped : List (UInt64 × UInt64) -> Ordering
  | [] => .eq
  | (this, other) :: rest =>
    match compare this other with
    | .lt => .lt
    | .eq => compareZipped rest
    | .gt => .gt

/-- The numbers of a release, continued with zeros up to a length. -/
def padRelease (release : List UInt64) (length : Nat) : List UInt64 :=
  release ++ List.replicate (length - release.length) 0

def compareRelease (this other : List UInt64) : Ordering :=
  if this.length = other.length then List.compareLex compare this other
  else
    let length := Nat.max this.length other.length
    compareZipped ((padRelease this length).zip (padRelease other length))

def u64Max : UInt64 := 0xFFFFFFFFFFFFFFFF

/-- The tuple that orders versions of one release. -/
structure SortableTuple where
  stage : UInt64
  preNumber : UInt64
  post : Option UInt64
  dev : UInt64
  localVersion : LocalVersion
  deriving DecidableEq, Repr

def compareOption : Option UInt64 -> Option UInt64 -> Ordering
  | none, none => .eq
  | none, some _ => .lt
  | some _, none => .gt
  | some left, some right => compare left right

def SortableTuple.cmp (left right : SortableTuple) : Ordering :=
  (compare left.stage right.stage).then <|
    (compare left.preNumber right.preNumber).then <|
      (compareOption left.post right.post).then <|
        (compare left.dev right.dev).then (left.localVersion.cmp right.localVersion)

variable (version : VersionInner)

def sortableTupleWith (post dev : Option UInt64) : SortableTuple :=
  -- A "max" version counts as a post-release above every other.
  let post := if version.max.isSome then some u64Max else post
  match version.pre, post, dev, version.min with
  | _, post, _, some n => ⟨0, 0, post, n, version.localVersion⟩
  | none, none, some n, none => ⟨1, 0, none, n, version.localVersion⟩
  | some ⟨.alpha, n⟩, post, dev, none => ⟨2, n, post, dev.getD u64Max, version.localVersion⟩
  | some ⟨.beta, n⟩, post, dev, none => ⟨3, n, post, dev.getD u64Max, version.localVersion⟩
  | some ⟨.rc, n⟩, post, dev, none => ⟨4, n, post, dev.getD u64Max, version.localVersion⟩
  | none, none, none, none => ⟨5, 0, none, 0, version.localVersion⟩
  | none, some post, dev, none => ⟨6, 0, some post, dev.getD u64Max, version.localVersion⟩

def sortableTuple : SortableTuple :=
  sortableTupleWith version version.post version.dev

namespace VersionInner

def cmpSlow (this other : VersionInner) : Ordering :=
  match compare this.epoch other.epoch with
  | .lt => .lt
  | .gt => .gt
  | .eq =>
    match compareRelease this.release other.release with
    | .lt => .lt
    | .gt => .gt
    | .eq => (sortableTuple this).cmp (sortableTuple other)

def cmp : VersionInner -> VersionInner -> Ordering
  | .small small1, .small small2 => compare small1.repr small2.repr
  | this, other => cmpSlow this other

end VersionInner

/-! ## Keys -/

abbrev LocalKey := WithTop (List (String ⊕ₗ Nat))

abbrev SuffixKey := Nat ×ₗ Nat ×ₗ WithBot Nat ×ₗ Nat ×ₗ LocalKey

/-- The release is a sequence of numbers that ends in zeros. -/
abbrev ReleaseKey := Lex (Nat -> Nat)

abbrev VersionKey := Nat ×ₗ ReleaseKey ×ₗ SuffixKey

def LocalSegment.key : LocalSegment -> String ⊕ₗ Nat
  | .string text => toLex (.inl text)
  | .number value => toLex (.inr value.toNat)

def LocalVersion.key : LocalVersion -> LocalKey
  | .segments list => (list.map LocalSegment.key : List (String ⊕ₗ Nat))
  | .max => ⊤

variable (release : List UInt64)

def releaseKey : ReleaseKey :=
  toLex fun index => (release.getD index 0).toNat

def optionKey (value : Option UInt64) : WithBot Nat :=
  value.elim ⊥ fun value => (value.toNat : WithBot Nat)

def SortableTuple.key (tuple : SortableTuple) : SuffixKey :=
  toLex (tuple.stage.toNat, toLex (tuple.preNumber.toNat, toLex (optionKey tuple.post,
    toLex (tuple.dev.toNat, tuple.localVersion.key))))

def VersionInner.key (version : VersionInner) : VersionKey :=
  toLex (version.epoch.toNat, toLex (releaseKey version.release, (sortableTuple version).key))

lemma u64_orderedBy : OrderedBy (compare : UInt64 -> UInt64 -> Ordering) UInt64.toNat := by
  apply OrderedBy.of_compares
  intro left right
  change (compareOfLessAndEq left right).Compares _ _
  unfold compareOfLessAndEq
  split
  next less => exact UInt64.lt_iff_toNat_lt.mp less
  next notLess =>
    split
    next same => exact congrArg UInt64.toNat same
    next different =>
      rw [UInt64.lt_iff_toNat_lt] at notLess
      rw [<- UInt64.toNat_inj] at different
      exact Nat.lt_of_le_of_ne (Nat.not_lt.mp notLess) (Ne.symm different)

lemma compareOption_orderedBy : OrderedBy compareOption optionKey :=
  u64_orderedBy.option rfl (fun _ => rfl) (fun _ => rfl) (fun _ _ => rfl)

lemma LocalSegment.cmp_orderedBy : OrderedBy LocalSegment.cmp LocalSegment.key := by
  apply OrderedBy.of_compares
  intro left right
  cases left with
  | string text =>
    cases right with
    | string text' =>
      have given := (compare_iff text text').mp rfl
      change (compare text text').Compares _ _
      generalize compare text text' = outcome at given ⊢
      cases outcome with
      | lt => exact Sum.Lex.inl_lt_inl_iff.mpr given
      | eq => exact congrArg (fun text => toLex (Sum.inl text)) given
      | gt => exact Sum.Lex.inl_lt_inl_iff.mpr given
    | number value => exact Sum.Lex.inl_lt_inr text value.toNat
  | number value =>
    cases right with
    | string text => exact Sum.Lex.inl_lt_inr text value.toNat
    | number value' =>
      have given := u64_orderedBy.compares value value'
      change (compare value value').Compares _ _
      generalize compare value value' = outcome at given ⊢
      cases outcome with
      | lt => exact Sum.Lex.inr_lt_inr_iff.mpr given
      | eq => exact congrArg (fun number => toLex (Sum.inr number)) given
      | gt => exact Sum.Lex.inr_lt_inr_iff.mpr given

lemma LocalVersion.cmp_orderedBy : OrderedBy LocalVersion.cmp LocalVersion.key := by
  apply OrderedBy.of_compares
  intro left right
  cases left with
  | max =>
    cases right with
    | max => exact rfl
    | segments list => exact WithTop.coe_lt_top _
  | segments list =>
    cases right with
    | max => exact WithTop.coe_lt_top _
    | segments list' =>
      have given := LocalSegment.cmp_orderedBy.list.compares list list'
      change (List.compareLex LocalSegment.cmp list list').Compares _ _
      generalize List.compareLex LocalSegment.cmp list list' = outcome at given ⊢
      cases outcome with
      | lt => exact WithTop.coe_lt_coe.mpr given
      | eq => exact congrArg (fun keys => ((keys : List _) : LocalKey)) given
      | gt => exact WithTop.coe_lt_coe.mpr given

lemma SortableTuple.cmp_orderedBy : OrderedBy SortableTuple.cmp SortableTuple.key :=
  (u64_orderedBy.comap SortableTuple.stage).lex <|
    (u64_orderedBy.comap SortableTuple.preNumber).lex <|
      (compareOption_orderedBy.comap SortableTuple.post).lex <|
        (u64_orderedBy.comap SortableTuple.dev).lex <|
          LocalVersion.cmp_orderedBy.comap SortableTuple.localVersion

/-! ## Zero-padded releases -/

theorem releaseKey_cons_lt_iff {head head' : UInt64} {tail tail' : List UInt64} :
    releaseKey (head :: tail) < releaseKey (head' :: tail') <->
      head.toNat < head'.toNat \/ head.toNat = head'.toNat /\ releaseKey tail < releaseKey tail' := by
  constructor
  · rintro ⟨index, before, differs⟩
    cases index with
    | zero => exact .inl differs
    | succ index =>
      refine .inr ⟨before 0 (Nat.succ_pos index), index, fun earlier below => ?_, differs⟩
      exact before (earlier + 1) (Nat.succ_lt_succ below)
  · rintro (less | ⟨same, index, before, differs⟩)
    · exact ⟨0, fun _ below => absurd below (Nat.not_lt_zero _), less⟩
    · refine ⟨index + 1, fun earlier below => ?_, differs⟩
      cases earlier with
      | zero => exact same
      | succ earlier => exact before earlier (Nat.lt_of_succ_lt_succ below)

/-- On lists of one length the padded order is the order of lists. -/
lemma compareLex_compares (this : List UInt64) :
    ∀ other : List UInt64, this.length = other.length ->
      (List.compareLex compare this other).Compares (releaseKey this) (releaseKey other) := by
  induction this with
  | nil =>
    intro other sameLength
    rw [List.length_eq_zero_iff.mp sameLength.symm]
    exact rfl
  | cons head tail ih =>
    intro other sameLength
    cases other with
    | nil => cases sameLength
    | cons head' tail' =>
      have heads := u64_orderedBy.compares head head'
      have tails := ih tail' (Nat.succ.inj sameLength)
      rw [List.compareLex_cons_cons]
      generalize compare head head' = headOutcome at heads ⊢
      generalize List.compareLex compare tail tail' = tailOutcome at tails ⊢
      cases headOutcome with
      | lt => exact releaseKey_cons_lt_iff.mpr (.inl heads)
      | gt => exact releaseKey_cons_lt_iff.mpr (.inl heads)
      | eq =>
        have same : head = head' := UInt64.toNat_inj.mp heads
        subst same
        cases tailOutcome with
        | lt => exact releaseKey_cons_lt_iff.mpr (.inr ⟨rfl, tails⟩)
        | gt => exact releaseKey_cons_lt_iff.mpr (.inr ⟨rfl, tails⟩)
        | eq =>
          funext index
          cases index with
          | zero => rfl
          | succ index => exact congrFun (show releaseKey tail = releaseKey tail' from tails) index

lemma compareZipped_zip (this : List UInt64) :
    ∀ other : List UInt64, this.length = other.length ->
      compareZipped (this.zip other) = List.compareLex compare this other := by
  induction this with
  | nil =>
    intro other sameLength
    rw [List.length_eq_zero_iff.mp sameLength.symm]
    rfl
  | cons head tail ih =>
    intro other sameLength
    cases other with
    | nil => cases sameLength
    | cons head' tail' =>
      rw [List.zip_cons_cons, compareZipped, List.compareLex_cons_cons,
        ih tail' (Nat.succ.inj sameLength)]
      cases compare head head' <;> rfl

lemma length_padRelease {release : List UInt64} {length : Nat} (fits : release.length <= length) :
    (padRelease release length).length = length := by
  rw [padRelease, length_append, length_replicate]
  omega

lemma releaseKey_padRelease (length : Nat) :
    releaseKey (padRelease release length) = releaseKey release := by
  unfold releaseKey padRelease
  congr 1
  funext index
  simp only [getD_eq_getElem?_getD, getElem?_append, getElem?_replicate]
  split
  · rfl
  next beyond =>
    rw [getElem?_eq_none (Nat.not_lt.mp beyond)]
    split <;> rfl

lemma compareRelease_orderedBy : OrderedBy compareRelease releaseKey := by
  apply OrderedBy.of_compares
  intro this other
  unfold compareRelease
  split
  next sameLength => exact compareLex_compares this other sameLength
  next =>
    have lengths := (@length_padRelease this _ (Nat.le_max_left _ other.length)).trans
      (@length_padRelease other _ (Nat.le_max_right this.length _)).symm
    have padded := compareLex_compares _ _ lengths
    rw [releaseKey_padRelease, releaseKey_padRelease] at padded
    simp only
    rw [compareZipped_zip _ _ lengths]
    exact padded

lemma VersionInner.cmpSlow_eq_then (left right : VersionInner) :
    left.cmpSlow right =
      (compare left.epoch right.epoch).then
        ((compareRelease left.release right.release).then
          ((sortableTuple left).cmp (sortableTuple right))) := by
  unfold cmpSlow
  cases compare left.epoch right.epoch with
  | lt | gt => rfl
  | eq => cases compareRelease left.release right.release <;> rfl

lemma VersionInner.cmpSlow_orderedBy : OrderedBy VersionInner.cmpSlow VersionInner.key := by
  have chain := (u64_orderedBy.comap epoch).lex <|
    (compareRelease_orderedBy.comap release).lex <|
      SortableTuple.cmp_orderedBy.comap sortableTuple
  intro left right
  rw [cmpSlow_eq_then]
  exact chain left right

/-! ## Packed words compare like their keys -/

namespace VersionSmall

/-- The release digits of a word, by position. -/
def digit (small : VersionSmall) : Nat -> Nat
  | 0 => small.repr.toNat / 2 ^ 48 % 2 ^ 16
  | 1 => small.repr.toNat / 2 ^ 40 % 2 ^ 8
  | 2 => small.repr.toNat / 2 ^ 32 % 2 ^ 8
  | 3 => small.repr.toNat / 2 ^ 24 % 2 ^ 8
  | _ => 0

variable {small : VersionSmall}

lemma releaseKey_eq_digit (packed : small.Packed) :
    releaseKey small.release = toLex small.digit := by
  have firstUnused := packed.first_unused
  have secondUnused := packed.second_unused
  have thirdUnused := packed.third_unused
  have fourthUnused := packed.fourth_unused
  unfold Word.field at firstUnused secondUnused thirdUnused fourthUnused
  have lenLe := packed.len_le
  have firstEq := first_toNat small.repr
  have secondEq := second_toNat small.repr
  have thirdEq := third_toNat small.repr
  have fourthEq := fourth_toNat small.repr
  unfold releaseKey release
  generalize (small.repr >>> 48) &&& (0xFFFF : UInt64) = first at firstEq ⊢
  generalize (small.repr >>> 40) &&& (0xFF : UInt64) = second at secondEq ⊢
  generalize (small.repr >>> 32) &&& (0xFF : UInt64) = third at thirdEq ⊢
  generalize (small.repr >>> 24) &&& (0xFF : UInt64) = fourth at fourthEq ⊢
  congr 1
  funext index
  rcases (show small.len = 0 \/ small.len = 1 \/ small.len = 2 \/ small.len = 3 \/ small.len = 4
    by omega) with len | len | len | len | len
  all_goals
    simp only [len]
    match index with
    | 0 | 1 | 2 | 3 =>
      simp only [digit, getD_cons_zero, getD_cons_succ, getD_nil, UInt64.toNat_zero]
      omega
    | _ + 4 => simp [digit]

variable {other : VersionSmall}

theorem digit_lt_of_high_lt (less : small.repr.toNat / 2 ^ 24 < other.repr.toNat / 2 ^ 24) :
    toLex small.digit < toLex other.digit := by
  have bound := small.repr.toNat_lt
  have bound' := other.repr.toNat_lt
  -- The first differing digit, from the most significant one on.
  by_cases first : small.digit 0 = other.digit 0
  · by_cases second : small.digit 1 = other.digit 1
    · by_cases third : small.digit 2 = other.digit 2
      · refine ⟨3, ?_, ?_⟩
        · intro index below
          match index with
          | 0 => exact first
          | 1 => exact second
          | 2 => exact third
        · simp only [digit] at first second third
          change small.digit 3 < other.digit 3
          simp only [digit]
          omega
      · refine ⟨2, ?_, ?_⟩
        · intro index below
          match index with
          | 0 => exact first
          | 1 => exact second
        · simp only [digit] at first second third
          change small.digit 2 < other.digit 2
          simp only [digit]
          omega
    · refine ⟨1, ?_, ?_⟩
      · intro index below
        match index with
        | 0 => exact first
      · simp only [digit] at first second
        change small.digit 1 < other.digit 1
        simp only [digit]
        omega
  · refine ⟨0, fun _ below => absurd below (Nat.not_lt_zero _), ?_⟩
    simp only [digit] at first
    change small.digit 0 < other.digit 0
    simp only [digit]
    omega

lemma digit_eq_of_high_eq (same : small.repr.toNat / 2 ^ 24 = other.repr.toNat / 2 ^ 24) :
    small.digit = other.digit := by
  funext index
  match index with
  | 0 | 1 | 2 | 3 => simp only [digit]; omega
  | _ + 4 => rfl

/-- The sortable tuple of a packed version, from the two parts of its suffix. -/
def suffixTuple (kind number : UInt64) : SortableTuple :=
  sortableTuple (.full (decode [] kind number))

lemma sortableTuple_eq (small : VersionSmall) :
    sortableTuple (.small small) = suffixTuple small.suffixKind small.suffixVersion :=
  rfl

variable {kind : UInt64}

section

variable (fits : kind <= suffixMax)

include fits

lemma kind_cases :
    kind = suffixMin \/ kind = suffixDev \/ kind = suffixPreAlpha \/ kind = suffixPreBeta \/
      kind = suffixPreRc \/ kind = suffixNone \/ kind = suffixLocal \/ kind = suffixPost \/
      kind = suffixMax := by
  have bound : kind.toNat <= 8 := UInt64.le_iff_toNat_le.mp fits
  simp only [<- UInt64.toNat_inj]
  change kind.toNat = 0 \/ kind.toNat = 1 \/ kind.toNat = 2 \/ kind.toNat = 3 \/ kind.toNat = 4 \/
    kind.toNat = 5 \/ kind.toNat = 6 \/ kind.toNat = 7 \/ kind.toNat = 8
  omega

/-- The stage of the tuple follows the kind.  Only the two kinds after the
plain version, and the two after it, share a stage. -/
lemma suffixTuple_stage (number : UInt64) :
    kind.toNat <= 5 /\ (suffixTuple kind number).stage.toNat = kind.toNat \/
      kind.toNat = 6 /\ (suffixTuple kind number).stage.toNat = 5 \/
      7 <= kind.toNat /\ (suffixTuple kind number).stage.toNat = 6 := by
  rcases kind_cases fits with rfl | rfl | rfl | rfl | rfl | rfl | rfl | rfl | rfl
  case inr.inr.inr.inr.inr.inr.inl => exact .inr (.inl ⟨rfl, rfl⟩)
  case inr.inr.inr.inr.inr.inr.inr.inl => exact .inr (.inr ⟨by decide, rfl⟩)
  case inr.inr.inr.inr.inr.inr.inr.inr => exact .inr (.inr ⟨by decide, rfl⟩)
  all_goals exact .inl ⟨by decide, rfl⟩

lemma suffixTuple_lt_of_kind_lt {kind' number number' : UInt64} (fits' : kind' <= suffixMax) (numberFits : number.toNat < 2 ^ 20)
    (less : kind.toNat < kind'.toNat) :
    (suffixTuple kind number).key < (suffixTuple kind' number').key := by
  have stage := suffixTuple_stage fits number
  have stage' := suffixTuple_stage fits' number'
  have bound : kind'.toNat <= 8 := UInt64.le_iff_toNat_le.mp fits'
  by_cases sameStage : (suffixTuple kind number).stage.toNat =
      (suffixTuple kind' number').stage.toNat
  · -- A plain version against its local bound, or a post-release against the upper bound.
    rcases (show kind.toNat = 5 /\ kind'.toNat = 6 \/ kind.toNat = 7 /\ kind'.toNat = 8 by
      omega) with ⟨plain, bounded⟩ | ⟨post, upper⟩
    · obtain rfl : kind = suffixNone := UInt64.toNat_inj.mp plain
      obtain rfl : kind' = suffixLocal := UInt64.toNat_inj.mp bounded
      refine Prod.Lex.right _ ?_
      refine Prod.Lex.right _ ?_
      refine Prod.Lex.right _ ?_
      refine Prod.Lex.right _ ?_
      exact WithTop.coe_lt_top _
    · obtain rfl : kind = suffixPost := UInt64.toNat_inj.mp post
      obtain rfl : kind' = suffixMax := UInt64.toNat_inj.mp upper
      refine Prod.Lex.right _ ?_
      refine Prod.Lex.right _ ?_
      refine Prod.Lex.left _ _ (WithBot.coe_lt_coe.mpr ?_)
      exact Nat.lt_of_lt_of_le numberFits (by decide)
  · refine Prod.Lex.left _ _ ?_
    omega

lemma suffixTuple_lt_of_number_lt {number number' : UInt64}
    (numbered : ¬ (kind = suffixMin \/ kind = suffixNone \/ kind = suffixLocal \/ kind = suffixMax))
    (less : number.toNat < number'.toNat) :
    (suffixTuple kind number).key < (suffixTuple kind number').key := by
  rcases kind_cases fits with rfl | rfl | rfl | rfl | rfl | rfl | rfl | rfl | rfl
  · exact absurd (.inl rfl) numbered
  · refine Prod.Lex.right _ ?_
    refine Prod.Lex.right _ ?_
    refine Prod.Lex.right _ ?_
    exact Prod.Lex.left _ _ less
  · exact Prod.Lex.right _ (.left _ _ less)
  · exact Prod.Lex.right _ (.left _ _ less)
  · exact Prod.Lex.right _ (.left _ _ less)
  · exact absurd (.inr (.inl rfl)) numbered
  · exact absurd (.inr (.inr (.inl rfl))) numbered
  · refine Prod.Lex.right _ ?_
    refine Prod.Lex.right _ ?_
    exact Prod.Lex.left _ _ (WithBot.coe_lt_coe.mpr less)
  · exact absurd (.inr (.inr (.inr rfl))) numbered

end

/-- The word order implies the order of the keys. -/
lemma key_lt_of_repr_lt (packed : small.Packed)
    (packed' : other.Packed) (less : small.repr.toNat < other.repr.toNat) :
    (VersionInner.small small).key < (VersionInner.small other).key := by
  refine Prod.Lex.right _ ?_
  change toLex (releaseKey small.release, _) < toLex (releaseKey other.release, _)
  rw [releaseKey_eq_digit packed, releaseKey_eq_digit packed']
  by_cases high : small.repr.toNat / 2 ^ 24 < other.repr.toNat / 2 ^ 24
  · exact Prod.Lex.toLex_lt_toLex.mpr (.inl (digit_lt_of_high_lt high))
  · have same : small.repr.toNat / 2 ^ 24 = other.repr.toNat / 2 ^ 24 := by omega
    refine Prod.Lex.toLex_lt_toLex.mpr (.inr ⟨congrArg toLex (digit_eq_of_high_eq same), ?_⟩)
    have kind := suffixKind_toNat small
    have kind' := suffixKind_toNat other
    have number := suffixVersion_toNat small
    have number' := suffixVersion_toNat other
    change (suffixTuple small.suffixKind small.suffixVersion).key <
      (suffixTuple other.suffixKind other.suffixVersion).key
    by_cases kinds : small.suffixKind.toNat < other.suffixKind.toNat
    · exact suffixTuple_lt_of_kind_lt packed.kind_le packed'.kind_le (by omega) kinds
    · have sameKind : small.suffixKind = other.suffixKind := by
        apply UInt64.toNat_inj.mp
        omega
      have numbers : small.suffixVersion.toNat < other.suffixVersion.toNat := by omega
      rw [sameKind]
      refine suffixTuple_lt_of_number_lt packed'.kind_le ?_ numbers
      -- A bare suffix has number zero, which is not above anything.
      intro bare
      rw [packed'.bare bare] at numbers
      cases numbers

lemma key_eq_of_repr_eq (packed : small.Packed)
    (packed' : other.Packed) (same : small.repr = other.repr) :
    (VersionInner.small small).key = (VersionInner.small other).key := by
  have release : releaseKey small.release = releaseKey other.release := by
    rw [releaseKey_eq_digit packed, releaseKey_eq_digit packed']
    exact congrArg toLex (digit_eq_of_high_eq (by rw [same]))
  have tuple : sortableTuple (.small small) = sortableTuple (.small other) := by
    rw [sortableTuple_eq, sortableTuple_eq]
    unfold suffixKind suffixVersion
    rw [same]
  change toLex (0, toLex (releaseKey small.release, _)) =
    toLex (0, toLex (releaseKey other.release, _))
  rw [release, tuple]

end VersionSmall

namespace VersionInner

variable {this other : VersionInner}

/-- The fast path and the slow path compare the same keys. -/
lemma cmp_eq_compare_key (packed : this.Packed)
    (packed' : other.Packed) : this.cmp other = compare this.key other.key := by
  cases this with
  | full record => exact cmpSlow_orderedBy _ _
  | small small1 =>
    cases other with
    | full record => exact cmpSlow_orderedBy _ _
    | small small2 =>
      symm
      refine (compare_iff _ _).mpr ?_
      change (compare small1.repr small2.repr).Compares _ _
      have words := u64_orderedBy.compares small1.repr small2.repr
      generalize compare small1.repr small2.repr = outcome at words ⊢
      cases outcome with
      | lt => exact VersionSmall.key_lt_of_repr_lt packed packed' words
      | eq => exact VersionSmall.key_eq_of_repr_eq packed packed' (UInt64.toNat_inj.mp words)
      | gt => exact VersionSmall.key_lt_of_repr_lt packed' packed words

lemma cmp_eq_cmpSlow (packed : this.Packed)
    (packed' : other.Packed) : this.cmp other = this.cmpSlow other := by
  rw [cmp_eq_compare_key packed packed', cmpSlow_orderedBy this other]

/-- The key reads nothing but getters, so it does not see the representation. -/
lemma key_makeFull :
    (VersionInner.full version.makeFull).key = version.key := by
  cases version <;> rfl

end VersionInner

/-- All getters of a version return the fields of a record. -/
structure SameGetters (version : VersionInner) (record : VersionFull) : Prop where
  epoch : version.epoch = record.epoch
  release : version.release = record.release
  pre : version.pre = record.pre
  post : version.post = record.post
  dev : version.dev = record.dev
  localVersion : version.localVersion = record.localVersion
  min : version.min = record.min
  max : version.max = record.max

lemma sameGetters_makeFull : SameGetters version version.makeFull :=
  ⟨version.epoch_eq, version.release_eq, version.pre_eq, version.post_eq, version.dev_eq,
    version.localVersion_eq, version.min_eq, version.max_eq⟩

/-- Builders and comparison do not depend on the representation.  Each sequence
of builder calls either fails on both sides or gives equal getters; it yields
packed words only; and on such versions `cmp` is the field-wise comparison,
invariant under unpacking either side, antisymmetric and transitive. -/
theorem representation_independent :
    (∀ numbers calls,
      Option.Rel SameGetters (VersionInner.run numbers calls) (VersionFull.run numbers calls) /\
        ∀ version, VersionInner.run numbers calls = some version -> version.Packed) /\
    (∀ this other : VersionInner, this.Packed -> other.Packed ->
      this.cmp other = this.cmpSlow other /\
        this.cmp other = VersionInner.cmp (.full this.makeFull) other /\
        this.cmp other = VersionInner.cmp this (.full other.makeFull) /\
        (this.cmp other).swap = other.cmp this /\ this.cmp this = .eq) /\
    (∀ this other third : VersionInner, this.Packed -> other.Packed -> third.Packed ->
      (this.cmp other).isLE -> (other.cmp third).isLE -> (this.cmp third).isLE) := by
  refine ⟨fun numbers calls => ?_, fun this other packed packed' => ?_,
    fun this other third packed packed' packed'' first second => ?_⟩
  · obtain ⟨same, packed⟩ := run_simulates numbers calls
    refine ⟨?_, packed⟩
    rw [<- same]
    cases run numbers calls with
    | none => exact Option.Rel.none
    | some version => exact Option.Rel.some (sameGetters_makeFull version)
  · have unpacked : (full this.makeFull).Packed := trivial
    have unpacked' : (full other.makeFull).Packed := trivial
    refine ⟨cmp_eq_cmpSlow packed packed', ?_, ?_, ?_, ?_⟩
    · rw [cmp_eq_compare_key packed packed', cmp_eq_compare_key unpacked packed', key_makeFull]
    · rw [cmp_eq_compare_key packed packed', cmp_eq_compare_key packed unpacked', key_makeFull]
    · rw [cmp_eq_cmpSlow packed packed', cmp_eq_cmpSlow packed' packed]
      exact cmpSlow_orderedBy.swap this other
    · rw [cmp_eq_compare_key packed packed]
      exact compare_eq_iff_eq.mpr rfl
  · rw [cmp_eq_cmpSlow packed packed'] at first
    rw [cmp_eq_cmpSlow packed' packed''] at second
    rw [cmp_eq_cmpSlow packed packed'']
    exact cmpSlow_orderedBy.trans first second

/-- The packed `1.2.dev3` and the full `1.2.0+4` obtained from builder calls. -/
theorem representation_independent_dev_local :
    ∃ packed unpacked, VersionInner.run [1, 2] [.withDev (some 3)] = some (.small packed) /\
      VersionInner.run [1, 2, 0] [.withLocal (.segments [.number 4])] = some (.full unpacked) /\
      VersionInner.cmp (.small packed) (.full unpacked) =
        VersionInner.cmpSlow (.small packed) (.full unpacked) :=
  ⟨_, _, rfl, rfl, (representation_independent.2.1 _ _
      ((representation_independent.1 [1, 2] [.withDev (some 3)]).2 _ rfl)
      ((representation_independent.1 [1, 2, 0] [.withLocal (.segments [.number 4])]).2 _ rfl)).1⟩

end Uv.Pep440
