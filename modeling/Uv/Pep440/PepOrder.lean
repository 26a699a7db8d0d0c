import Uv.Pep440.ParserCorrect

namespace Uv.Pep440

open Library List Option
open Library.Regex

/-!
# The order of the standard

PEP 440 orders versions by their components: the epoch, the release continued
with zeros, the pre-release, the post-release, the dev release and the local
version.  A dev release of a final version comes before its pre-releases, a
missing post-release comes first and a missing dev release last.  `Components.cmp`
states this order with integers of any size.  The comparison of the source agrees
with it, except where a run of digits in a local version has outgrown 64 bits and
was stored as text.
-/

namespace Grammar
namespace Components

/-! ## The standard -/

/-- Releases compared number by number, the shorter one continued with zeros. -/
def compareRelease (left right : List Nat) : Ordering :=
  List.compareLex compare (left ++ List.replicate (right.length - left.length) 0)
    (right ++ List.replicate (left.length - right.length) 0)

def kindRank : PrereleaseKind -> Nat
  | .alpha => 1
  | .beta => 2
  | .rc => 3

/-- The place of the pre-release: a dev release of the final version comes before
all pre-releases, and a version without a pre-release after them. -/
def prePlace (parts : Components) : Nat × Nat :=
  match parts.pre, parts.post, parts.dev with
  | some (kind, number), _, _ => (kindRank kind, number)
  | none, none, some _ => (0, 0)
  | none, _, _ => (4, 0)

def compareMissingFirst : Option Nat -> Option Nat -> Ordering
  | none, none => .eq
  | none, some _ => .lt
  | some _, none => .gt
  | some left, some right => compare left right

def compareMissingLast : Option Nat -> Option Nat -> Ordering
  | none, none => .eq
  | none, some _ => .gt
  | some _, none => .lt
  | some left, some right => compare left right

/-- The order of two local segments.  Runs of digits are integers and come after
other texts, which are compared without regard to case. -/
def compareSegment (left right : List UInt8) : Ordering :=
  match left.all isAsciiDigit, right.all isAsciiDigit with
  | true, true => compare (decimal left) (decimal right)
  | true, false => .gt
  | false, true => .lt
  | false, false =>
    compare (asciiText (left.map toAsciiLowercase)) (asciiText (right.map toAsciiLowercase))

/-- Local versions segment by segment, with a proper prefix first. -/
def compareLocal (left right : List (List UInt8)) : Ordering :=
  List.compareLex compareSegment left right

variable (left right : Components)

/-- The order of pre-release, post-release and dev release. -/
def compareSuffix : Ordering :=
  (compare left.prePlace.1 right.prePlace.1).then <|
    (compare left.prePlace.2 right.prePlace.2).then <|
      (compareMissingFirst left.post right.post).then (compareMissingLast left.dev right.dev)

/-- The order of everything but the local version. -/
def comparePublic : Ordering :=
  (compare left.epoch right.epoch).then <|
    (compareRelease left.release right.release).then (compareSuffix left right)

def cmp : Ordering :=
  (comparePublic left right).then (compareLocal left.localTexts right.localTexts)

/-! ## Public versions -/

lemma compare_toNat (left right : UInt64) : compare left right = compare left.toNat right.toNat :=
  u64_orderedBy left right

lemma compareLex_toNat (left right : List UInt64) :
    List.compareLex compare left right =
      List.compareLex compare (left.map UInt64.toNat) (right.map UInt64.toNat) := by
  induction left generalizing right with
  | nil => cases right <;> rfl
  | cons number rest ih =>
    cases right with
    | nil => rfl
    | cons number' rest' =>
      rw [List.compareLex_cons_cons, List.map_cons, List.map_cons, List.compareLex_cons_cons,
        compare_toNat, ih rest']

lemma map_padRelease (numbers : List UInt64) (length : Nat) :
    (padRelease numbers length).map UInt64.toNat =
      numbers.map UInt64.toNat ++ List.replicate (length - numbers.length) 0 := by
  rw [padRelease, map_append, map_replicate]
  rfl

lemma compareRelease_toNat (left right : List UInt64) :
    Pep440.compareRelease left right =
      compareRelease (left.map UInt64.toNat) (right.map UInt64.toNat) := by
  rw [Pep440.compareRelease, compareRelease, length_map, length_map]
  split
  next sameLength =>
    rw [sameLength, Nat.sub_self, replicate_zero, append_nil, append_nil,
      compareLex_toNat]
  next =>
    have lengths := (@length_padRelease left _ (Nat.le_max_left _ right.length)).trans
      (@length_padRelease right _ (Nat.le_max_right left.length _)).symm
    have missing : Nat.max left.length right.length - left.length = right.length - left.length := by
      change max _ _ - _ = _
      omega
    have missing' : Nat.max left.length right.length - right.length = left.length - right.length := by
      change max _ _ - _ = _
      omega
    simp only
    rw [compareZipped_zip _ _ lengths, compareLex_toNat, map_padRelease, map_padRelease, missing,
      missing']

lemma compareOption_toNat (left right : Option UInt64) :
    compareOption left right =
      compareMissingFirst (left.map UInt64.toNat) (right.map UInt64.toNat) := by
  cases left with
  | none => cases right <;> rfl
  | some left =>
    cases right with
    | none => rfl
    | some right => exact compare_toNat left right

/-- A missing dev release is stored as the largest number, which no dev release has. -/
lemma compare_getD_u64Max {left right : Option UInt64}
    (fits : ∀ number, left = some number -> number.toNat < limit)
    (fits' : ∀ number, right = some number -> number.toNat < limit) :
    compare (left.getD u64Max) (right.getD u64Max) =
      compareMissingLast (left.map UInt64.toNat) (right.map UInt64.toNat) := by
  have top : u64Max.toNat = limit := rfl
  rw [compare_toNat]
  cases left with
  | none =>
    cases right with
    | none => exact compare_eq_iff_eq.mpr rfl
    | some right => exact compare_gt_iff_gt.mpr (top ▸ fits' right rfl)
  | some left =>
    cases right with
    | none => exact compare_lt_iff_lt.mpr (top ▸ fits left rfl)
    | some right => rfl

variable (pre : Option Prerelease) (post dev : Option UInt64)

/-- The components of suffixes as they are stored. -/
def ofSuffixes : Components where
  epoch := 0
  release := []
  pre := pre.map fun pre => (pre.kind, pre.number.toNat)
  post := post.map UInt64.toNat
  dev := dev.map UInt64.toNat
  localTexts := []

/-- The tuple of a version without artificial bounds. -/
def plainTuple (text : LocalVersion) :
    SortableTuple :=
  sortableTuple (.full ⟨0, [], pre, post, dev, text, none, none⟩)

lemma plainTuple_cmp {pre pre' : Option Prerelease} {post post' dev dev' : Option UInt64}
    (text text' : LocalVersion) (fits : ∀ number, dev = some number -> number.toNat < limit)
    (fits' : ∀ number, dev' = some number -> number.toNat < limit) :
    (plainTuple pre post dev text).cmp (plainTuple pre' post' dev' text') =
      (compareSuffix (ofSuffixes pre post dev) (ofSuffixes pre' post' dev')).then
        (text.cmp text') := by
  have devs := compare_getD_u64Max fits fits'
  have posts := compareOption_toNat post post'
  cases pre with
  | some pre =>
    cases pre' with
    | some pre' =>
      obtain ⟨kind, number⟩ := pre
      obtain ⟨kind', number'⟩ := pre'
      -- Equal kinds compare the numbers, then what follows; other kinds are in order.
      have later : (compare number number').then ((compareOption post post').then
          ((compare (dev.getD u64Max) (dev'.getD u64Max)).then (text.cmp text'))) =
          ((compare number.toNat number'.toNat).then
            ((compareMissingFirst (post.map UInt64.toNat) (post'.map UInt64.toNat)).then
              (compareMissingLast (dev.map UInt64.toNat) (dev'.map UInt64.toNat)))).then
            (text.cmp text') := by
        rw [compare_toNat, posts, devs, Ordering.then_assoc, Ordering.then_assoc]
      cases kind <;> cases kind' <;> first | rfl | exact later
    | none =>
      obtain ⟨kind, number⟩ := pre
      cases post' <;> cases dev' <;> cases kind <;> rfl
  | none =>
    cases pre' with
    | some pre' =>
      obtain ⟨kind', number'⟩ := pre'
      cases post <;> cases dev <;> cases kind' <;> rfl
    | none =>
      cases post with
      | some post =>
        cases post' with
        | some post' =>
          have later : (compare post post').then
              ((compare (dev.getD u64Max) (dev'.getD u64Max)).then (text.cmp text')) =
              ((compare post.toNat post'.toNat).then
                (compareMissingLast (dev.map UInt64.toNat) (dev'.map UInt64.toNat))).then
                (text.cmp text') := by
            rw [compare_toNat, devs, Ordering.then_assoc]
          cases dev <;> cases dev' <;> exact later
        | none => cases dev <;> cases dev' <;> rfl
      | none =>
        cases post' with
        | some post' => cases dev <;> cases dev' <;> rfl
        | none =>
          cases dev with
          | none => cases dev' <;> rfl
          | some dev =>
            cases dev' with
            | none => rfl
            | some dev' => exact congrArg (Ordering.then · _) (compare_toNat dev dev')

variable {parts : Components} {parts' : Components}

lemma cmpSlow_eq_comparePublic {left right : VersionFull}
    (denotes : parts.Denotes left) (denotes' : parts'.Denotes right)
    (fits : parts.NumbersFit) (fits' : parts'.NumbersFit) :
    VersionInner.cmpSlow (.full left) (.full right) =
      (comparePublic parts parts').then (left.localVersion.cmp right.localVersion) := by
  have devFits : ∀ number, left.dev = some number -> number.toNat < limit := by
    intro number present
    exact fits.2.2.2.2 number.toNat (by rw [<- denotes.dev, present, map_some])
  have devFits' : ∀ number, right.dev = some number -> number.toNat < limit := by
    intro number present
    exact fits'.2.2.2.2 number.toNat (by rw [<- denotes'.dev, present, map_some])
  have tuple : sortableTuple (.full left) =
      plainTuple left.pre left.post left.dev left.localVersion := by
    have noMin := denotes.min
    have noMax := denotes.max
    cases left
    cases noMin
    cases noMax
    rfl
  have tuple' : sortableTuple (.full right) =
      plainTuple right.pre right.post right.dev right.localVersion := by
    have noMin := denotes'.min
    have noMax := denotes'.max
    cases right
    cases noMin
    cases noMax
    rfl
  have suffixes : compareSuffix (ofSuffixes left.pre left.post left.dev)
      (ofSuffixes right.pre right.post right.dev) = compareSuffix parts parts' := by
    simp only [compareSuffix, prePlace, ofSuffixes, denotes.pre, denotes.post, denotes.dev,
      denotes'.pre, denotes'.post, denotes'.dev]
  rw [VersionInner.cmpSlow_eq_then, tuple, tuple', plainTuple_cmp _ _ devFits devFits', suffixes,
    comparePublic, Ordering.then_assoc, Ordering.then_assoc, <- denotes.epoch, <- denotes'.epoch,
    <- denotes.release, <- denotes'.release, <- compareRelease_toNat, <- compare_toNat]
  rfl

/-- The comparison of the source is that of the standard before the local version. -/
lemma cmp_eq_comparePublic {left right : Version}
    (denotes : parts.Denotes left.record) (denotes' : parts'.Denotes right.record)
    (fits : parts.NumbersFit) (fits' : parts'.NumbersFit) :
    left.cmp right =
      (comparePublic parts parts').then (left.localVersion.cmp right.localVersion) := by
  rw [Version.cmp_orderedBy left right, <- Version.record_localVersion, <- Version.record_localVersion,
    <- cmpSlow_eq_comparePublic denotes denotes' fits fits', VersionInner.cmpSlow_orderedBy]
  rfl

/-! ## Local versions -/

/-- A run of digits that does not fit in 64 bits. -/
def Oversized (text : List UInt8) : Prop := text.all isAsciiDigit = true /\ 2 ^ 64 <= decimal text

instance (text : List UInt8) : Decidable (Oversized text) := inferInstanceAs (Decidable (_ /\ _))

/-- Stored as text: a letter occurs, or the digits do not fit. -/
def IsText (text : List UInt8) : Prop := text.all isAsciiDigit = false \/ Oversized text

/-- At the first two segments that are stored differently, no number has outgrown 64
bits. -/
def LocalsInOrder : List (List UInt8) -> List (List UInt8) -> Prop
  | left :: rest, right :: rest' =>
    if Parser.localSegment left = Parser.localSegment right then LocalsInOrder rest rest'
    else ¬ Oversized left /\ ¬ Oversized right
  | _, _ => True

variable {text : List UInt8}

lemma localSegment_number (digits : text.all isAsciiDigit) (fits : decimal text < 2 ^ 64) :
    Parser.localSegment text = .number (UInt64.ofNat (decimal text)) := by
  rw [Parser.localSegment, Scan.parseU64_digits text digits, if_pos fits]

lemma localSegment_text (isText : IsText text) :
    Parser.localSegment text = .string (asciiText (text.map toAsciiLowercase)) := by
  rw [Parser.localSegment]
  rcases isText with letters | ⟨digits, large⟩
  · obtain ⟨err, failed⟩ := Scan.parseU64From_other text text 0 letters
    rw [parseU64, failed]
  · rw [Scan.parseU64_digits text digits, if_neg (Nat.not_lt.mpr large)]

/-- A segment is stored as a number or as text. -/
lemma number_or_text (text : List UInt8) :
    text.all isAsciiDigit /\ decimal text < 2 ^ 64 \/ IsText text := by
  by_cases digits : text.all isAsciiDigit
  · by_cases fits : decimal text < 2 ^ 64
    · exact Or.inl ⟨digits, fits⟩
    · exact Or.inr (Or.inr ⟨digits, Nat.not_lt.mp fits⟩)
  · exact Or.inr (Or.inl (Bool.eq_false_iff.mpr digits))

lemma toNat_charOfByte (byte : UInt8) : (Char.ofNat byte.toNat).toNat = byte.toNat := by
  have bound := byte.toNat_lt
  have valid : byte.toNat.isValidChar := Or.inl (by omega)
  rw [Char.ofNat, dif_pos valid]
  rfl

variable {left right : List UInt8}

lemma asciiText_injective (same : asciiText left = asciiText right) :
    left = right := by
  refine map_injective_iff.mpr ?_ (String.ofList_injective same)
  intro byte byte' sameChar
  have values := congrArg Char.toNat sameChar
  simp only [toNat_charOfByte] at values
  exact UInt8.toNat_inj.mp values

lemma isAsciiDigit_toAsciiLowercase (byte : UInt8) :
    isAsciiDigit (toAsciiLowercase byte) = isAsciiDigit byte := by
  rw [Bool.eq_iff_iff, Scan.isAsciiDigit_iff, Scan.isAsciiDigit_iff, Scan.toNat_toAsciiLowercase]
  split <;> omega

/-- Digits have no case. -/
lemma map_toAsciiLowercase (digits : text.all isAsciiDigit) :
    text.map toAsciiLowercase = text := by
  refine (map_congr_left fun byte inside => ?_).trans (map_id text)
  have digit := all_eq_true.mp digits byte inside
  rw [Scan.isAsciiDigit_iff] at digit
  apply UInt8.toNat_inj.mp
  rw [Scan.toNat_toAsciiLowercase, if_neg (by omega)]
  rfl

lemma all_digits_lower (text : List UInt8) :
    (text.map toAsciiLowercase).all isAsciiDigit = text.all isAsciiDigit := by
  rw [List.all_map]
  exact List.all_congr rfl isAsciiDigit_toAsciiLowercase

/-- Segments that are stored alike are alike for the standard. -/
lemma compareSegment_of_same (same : Parser.localSegment left = Parser.localSegment right) :
    compareSegment left right = .eq := by
  rcases number_or_text left with ⟨digits, fits⟩ | isText
  · rcases number_or_text right with ⟨digits', fits'⟩ | isText'
    · rw [localSegment_number digits fits, localSegment_number digits' fits'] at same
      have values := congrArg UInt64.toNat (LocalSegment.number.inj same)
      rw [UInt64.toNat_ofNat_of_lt' fits, UInt64.toNat_ofNat_of_lt' fits'] at values
      simp only [compareSegment, digits, digits', values]
      exact compare_eq_iff_eq.mpr rfl
    · rw [localSegment_number digits fits, localSegment_text isText'] at same
      cases same
  · rcases number_or_text right with ⟨digits', fits'⟩ | isText'
    · rw [localSegment_number digits' fits', localSegment_text isText] at same
      cases same
    · rw [localSegment_text isText, localSegment_text isText'] at same
      have lower := asciiText_injective (LocalSegment.string.inj same)
      have digits : left.all isAsciiDigit = right.all isAsciiDigit := by
        rw [<- all_digits_lower, lower, all_digits_lower]
      rw [compareSegment, digits]
      cases shape : right.all isAsciiDigit with
      | false =>
        rw [lower]
        exact compare_eq_iff_eq.mpr rfl
      | true =>
        rw [map_toAsciiLowercase shape, map_toAsciiLowercase (digits.trans shape)] at lower
        rw [lower]
        exact compare_eq_iff_eq.mpr rfl

/-- What fits in 64 bits is compared as the standard says. -/
lemma segmentCmp_of_fits (fits : ¬ Oversized left) (fits' : ¬ Oversized right) :
    (Parser.localSegment left).cmp (Parser.localSegment right) = compareSegment left right := by
  rcases number_or_text left with ⟨digits, small⟩ | letters | large
  · rw [localSegment_number digits small]
    rcases number_or_text right with ⟨digits', small'⟩ | letters' | large'
    · rw [localSegment_number digits' small']
      simp only [compareSegment, digits, digits', LocalSegment.cmp]
      rw [compare_toNat, UInt64.toNat_ofNat_of_lt' small, UInt64.toNat_ofNat_of_lt' small']
    · rw [localSegment_text (Or.inl letters')]
      simp only [compareSegment, digits, letters', LocalSegment.cmp]
    · exact absurd large' fits'
  · rw [localSegment_text (Or.inl letters)]
    rcases number_or_text right with ⟨digits', small'⟩ | letters' | large'
    · rw [localSegment_number digits' small']
      simp only [compareSegment, letters, digits', LocalSegment.cmp]
    · rw [localSegment_text (Or.inl letters')]
      simp only [compareSegment, letters, letters', LocalSegment.cmp]
    · exact absurd large' fits'
  · exact absurd large fits

lemma segmentCmp_eq_iff (left right : LocalSegment) : left.cmp right = .eq <-> left = right := by
  rw [LocalSegment.cmp_orderedBy.eq_iff]
  constructor
  · intro same
    cases left with
    | string text =>
      cases right with
      | string text' => exact congrArg _ (Sum.inl.inj same)
      | number value => cases same
    | number value =>
      cases right with
      | string text => cases same
      | number value' => exact congrArg _ (UInt64.toNat_inj.mp (Sum.inr.inj same))
  · exact congrArg _

lemma then_eq_left {first second : Ordering} (differs : first ≠ .eq) :
    first.then second = first := by
  cases first with
  | eq => exact absurd rfl differs
  | lt | gt => rfl

/-- Local versions are compared as the standard says when no oversized number stands in
the way. -/
lemma LocalsInOrder.compareLex_eq : ∀ {left right : List (List UInt8)}, LocalsInOrder left right ->
    List.compareLex LocalSegment.cmp (left.map Parser.localSegment)
        (right.map Parser.localSegment) = compareLocal left right := by
  intro left
  induction left with
  | nil =>
    intro right _
    cases right <;> rfl
  | cons first rest ih =>
    intro right inOrder
    cases right with
    | nil => rfl
    | cons first' rest' =>
      rw [LocalsInOrder] at inOrder
      rw [List.map_cons, List.map_cons, List.compareLex_cons_cons, compareLocal,
        List.compareLex_cons_cons]
      by_cases same : Parser.localSegment first = Parser.localSegment first'
      · rw [if_pos same] at inOrder
        rw [(segmentCmp_eq_iff _ _).mpr same, compareSegment_of_same same]
        exact ih inOrder
      · rw [if_neg same] at inOrder
        have differs := mt (segmentCmp_eq_iff _ _).mp same
        rw [then_eq_left differs]
        rw [segmentCmp_of_fits inOrder.1 inOrder.2] at differs ⊢
        rw [then_eq_left differs]

lemma eq_localSegment {segment : LocalSegment}
    (denotes : SegmentDenotes segment text) : segment = Parser.localSegment text := by
  cases segment with
  | number value =>
    obtain ⟨digits, same⟩ := denotes
    rw [localSegment_number digits (by rw [same]; exact value.toNat_lt), same,
      UInt64.ofNat_toNat]
  | string stored =>
    obtain ⟨rfl, large⟩ := denotes
    rw [localSegment_text]
    by_cases digits : text.all isAsciiDigit
    · exact Or.inr ⟨digits, large digits⟩
    · exact Or.inl (Bool.eq_false_iff.mpr digits)

lemma localVersion_eq {record : VersionFull} (denotes : parts.Denotes record) :
    record.localVersion = .segments (parts.localTexts.map Parser.localSegment) := by
  obtain ⟨segments, same, each⟩ := denotes.localVersion
  rw [same]
  congr 1
  clear same
  generalize parts.localTexts = texts at each
  induction each with
  | nil => rfl
  | cons first _ ih => rw [map_cons, <- ih, <- eq_localSegment first]

end Components
end Grammar

end Uv.Pep440
