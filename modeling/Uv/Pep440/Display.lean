import Uv.Pep440.Parsed
import Uv.Pep440.PepOrder

namespace Uv.Pep440

open Library List Version
open Library.Regex

/-!
# Versions as text

`display` writes a version in its normal form.  A version that can be written
down is read back from this text with all its parts.  The proof follows the
scanner through the text, one part after the other.
-/

/-! ## The text of a version -/

def PrereleaseKind.display : PrereleaseKind -> String
  | .alpha => "a"
  | .beta => "b"
  | .rc => "rc"

def LocalSegment.display : LocalSegment -> String
  | .string text => text
  | .number value => toString value.toNat

def LocalVersion.display : LocalVersion -> String
  | .segments list => String.intercalate "." (list.map LocalSegment.display)
  | .max => "[max]"

namespace Version

def displayEpoch (epoch : UInt64) : String :=
  if epoch != 0 then toString epoch.toNat ++ "!" else ""

def displayRelease (release : List UInt64) : String :=
  String.intercalate "." (release.map fun n => toString n.toNat)

def displayPre : Option Prerelease -> String
  | some pre => pre.kind.display ++ toString pre.number.toNat
  | none => ""

def displayPost : Option UInt64 -> String
  | some post => ".post" ++ toString post.toNat
  | none => ""

def displayDev : Option UInt64 -> String
  | some dev => ".dev" ++ toString dev.toNat
  | none => ""

/-- The "max" local part leaves a trailing sign. -/
def displayLocal (localVersion : LocalVersion) : String :=
  if !localVersion.isEmpty then
    match localVersion with
    | .segments _ => "+" ++ localVersion.display
    | .max => "+"
  else ""

def display (version : Version) : String :=
  displayEpoch version.epoch ++ (displayRelease version.release ++ (displayPre version.pre ++
    (displayPost version.post ++ (displayDev version.dev ++ displayLocal version.localVersion))))

end Version

/-! ## Bytes of texts -/

variable {text : String} {first : List UInt8} {byte : UInt8} {κ : Type}

namespace Scan

open Grammar

lemma utf8EncodeChar_ascii {c : Char} (ascii : c.toNat < 128) :
    String.utf8EncodeChar c = [c.toNat.toUInt8] := by
  unfold String.utf8EncodeChar
  have low : c.val.toNat <= 127 := Nat.lt_succ_iff.mp ascii
  simp only [low, if_true]
  rfl

lemma asBytes_append (left right : String) :
    asBytes (left ++ right) = asBytes left ++ asBytes right := by
  rw [asBytes, String.toList_append, flatMap_append, <- asBytes, <- asBytes]

lemma asBytes_intercalate (separator : String) (texts : List String) :
    asBytes (String.intercalate separator texts) =
      (asBytes separator).intercalate (texts.map asBytes) := by
  rw [asBytes, String.toList_intercalate]
  induction texts with
  | nil => rfl
  | cons first others ih =>
    cases others with
    | nil => simp [asBytes]
    | cons second others =>
      rw [map_cons, map_cons, intercalate_cons_cons, map_cons, map_cons,
        intercalate_cons_cons, flatMap_append, flatMap_append]
      rw [map_cons, map_cons] at ih
      rw [ih]
      rfl

variable (n : Nat)

/-- The digits of a number. -/
def digitsOf : List UInt8 := asBytes (toString n)

lemma digit_toNat {c : Char} (digit : c.isDigit) : 48 <= c.toNat /\ c.toNat <= 57 := by
  rw [Char.isDigit, Bool.and_eq_true, decide_eq_true_eq, decide_eq_true_eq] at digit
  exact digit

lemma asBytes_of_ascii (ascii : ∀ c ∈ text.toList, c.toNat < 128) :
    asBytes text = text.toList.map fun c => c.toNat.toUInt8 := by
  rw [asBytes]
  generalize text.toList = list at ascii
  induction list with
  | nil => rfl
  | cons c rest ih =>
    rw [flatMap_cons, utf8EncodeChar_ascii (ascii c mem_cons_self),
      ih fun other inside => ascii other (mem_cons_of_mem c inside)]
    rfl

lemma digitsOf_eq :
    digitsOf n = (Nat.toDigits 10 n).map fun c => c.toNat.toUInt8 := by
  have toList : (toString n).toList = Nat.toDigits 10 n := by
    rw [Nat.toString_eq_repr, Nat.repr_eq_ofList_toDigits, String.toList_ofList]
  rw [digitsOf, asBytes_of_ascii, toList]
  intro c inside
  rw [toList] at inside
  have := digit_toNat (Nat.isDigit_of_mem_toDigits (by decide) (by decide) inside)
  omega

lemma digitsOf_digits : (digitsOf n).all isAsciiDigit := by
  rw [digitsOf_eq, all_map, all_eq_true]
  intro c inside
  have digit := digit_toNat (Nat.isDigit_of_mem_toDigits (by decide) (by decide) inside)
  rw [Function.comp_apply, isAsciiDigit_iff]
  rw [show (c.toNat.toUInt8).toNat = c.toNat by simp; omega]
  omega

lemma digitsOf_ne_nil : digitsOf n ≠ [] := by
  rw [digitsOf_eq]
  intro empty
  exact Nat.toDigits_ne_nil (map_eq_nil_iff.mp empty)

lemma decimal_digitsOf : decimal (digitsOf n) = n := by
  have read := Nat.ofDigitChars_toDigits (b := 10) (n := n) (by decide) (by decide)
  rw [digitsOf_eq, decimal, foldl_map]
  refine Eq.trans ?_ read
  refine foldl_ext _ _ 0 fun value c inside => ?_
  have digit := digit_toNat (Nat.isDigit_of_mem_toDigits (by decide) (by decide) inside)
  have byte : c.toNat.toUInt8.toNat = c.toNat := by simp; omega
  rw [UInt8.toNat_sub_of_le _ _ (UInt8.le_iff_toNat_le.mpr (by rw [byte]; exact digit.1)), byte,
    Nat.mul_comm]
  rfl

/-! ## Runs -/

lemma takeWhile_run {test : UInt8 -> Bool} {run rest : List UInt8} (all : run.all test)
    (stops : ∀ byte more, rest = byte :: more -> test byte = false) :
    (run ++ rest).takeWhile test = run /\ (run ++ rest).dropWhile test = rest := by
  rw [takeWhile_append_of_pos (all_eq_true.mp all), dropWhile_append_of_pos (all_eq_true.mp all)]
  cases rest with
  | nil => simp
  | cons byte more =>
    have stop : ¬ test byte := by
      rw [stops byte more rfl]
      exact Bool.false_ne_true
    rw [takeWhile_cons_of_neg stop, dropWhile_cons_of_neg stop, append_nil]
    exact ⟨rfl, rfl⟩

/-- Runs with a mark between them. -/
def joined (mark : UInt8) (first : List UInt8) (others : List (List UInt8)) : List UInt8 :=
  first ++ others.flatMap (mark :: ·)

lemma intercalate_eq_joined (mark : UInt8) (first : List UInt8) (others : List (List UInt8)) :
    [mark].intercalate (first :: others) = joined mark first others := by
  induction others generalizing first with
  | nil => simp [joined]
  | cons second others ih =>
    rw [intercalate_cons_cons, ih second]
    simp [joined]

/-- Neither another item nor another run comes next. -/
structure Closed (separator item : UInt8 -> Bool) (rest : List UInt8) : Prop where
  noItem : ∀ byte more, rest = byte :: more -> item byte = false
  noRun : ∀ byte next more, rest = byte :: next :: more -> separator byte = true ->
    item next = false

section

variable {separator item : UInt8 -> Bool} {mark : UInt8} {others : List (List UInt8)}

variable {rest : List UInt8}

/-- What follows a run of a joined text is no item. -/
lemma others_stop (closed : Closed separator item rest) (foreign : item mark = false) :
    ∀ byte more, others.flatMap (mark :: ·) ++ rest = byte :: more -> item byte = false := by
  cases others with
  | nil => exact closed.noItem
  | cons first others =>
    intro byte more same
    rw [flatMap_cons, cons_append, cons_append, cons.injEq] at same
    rw [<- same.1]
    exact foreign

lemma skipItems_joined (runs : ∀ run ∈ others, IsRun item run) (closed : Closed separator item rest)
    (separates : separator mark) (foreign : item mark = false) (rounds : Nat)
    (enough : others.length < rounds) :
    skipItems separator item rounds (others.flatMap (mark :: ·) ++ rest) = rest := by
  induction others generalizing rounds with
  | nil =>
    cases rounds with
    | zero => rfl
    | succ rounds =>
      cases rest with
      | nil => rfl
      | cons byte more =>
        rw [flatMap_nil, nil_append, skipItems, if_neg]
        rw [Bool.and_eq_true, Bool.not_eq_true', isEmpty_eq_false_iff]
        rintro ⟨marked, run⟩
        apply run
        cases more with
        | nil => rfl
        | cons next more =>
          rw [takeWhile_cons_of_neg]
          rw [closed.noRun byte next more rfl marked]
          exact Bool.false_ne_true
  | cons run others ih =>
    cases rounds with
    | zero => cases enough
    | succ rounds =>
      rcases runs run mem_cons_self with ⟨nonempty, all⟩
      rcases takeWhile_run all (@others_stop separator item mark others rest closed foreign)
        with ⟨taken, dropped⟩
      rw [flatMap_cons, cons_append, cons_append, append_assoc, skipItems,
        separates, taken, dropped, isEmpty_eq_false_iff.mpr nonempty, Bool.not_false,
        Bool.true_and, if_pos rfl]
      exact ih (forall_mem_cons.mp runs).2 rounds
        (Nat.lt_of_succ_lt_succ enough)

lemma length_le_marked (mark : UInt8) (others : List (List UInt8)) :
    others.length <= (others.flatMap (mark :: ·)).length := by
  induction others with
  | nil => exact Nat.le_refl 0
  | cons run others ih =>
    rw [flatMap_cons, length_append, length_cons, length_cons]
    omega

variable (run : IsRun item first)

include run

/-- The first run is taken, and all of them are passed over. -/
lemma skip_joined (runs : ∀ run ∈ others, IsRun item run)
    (closed : Closed separator item rest) (separates : separator mark)
    (foreign : item mark = false) :
    (joined mark first others ++ rest).takeWhile item = first /\
      skipItems separator item (((joined mark first others ++ rest).dropWhile item).length + 1)
        ((joined mark first others ++ rest).dropWhile item) = rest := by
  rcases takeWhile_run run.2 (@others_stop separator item mark others rest closed foreign)
    with ⟨taken, dropped⟩
  rw [joined, append_assoc, taken, dropped]
  refine ⟨rfl, skipItems_joined runs closed separates foreign _ ?_⟩
  have long := length_le_marked mark others
  rw [length_append]
  omega

lemma fields_joined (runs : ∀ run ∈ others, IsRun item run)
    (disjoint : ∀ byte, item byte -> separator byte = false)
    (separates : separator mark) :
    fields separator (joined mark first others) = first :: others := by
  have whole : ∀ run, IsRun item run -> ∀ byte ∈ run, separator byte = false :=
    fun run isRun byte inside => disjoint byte (all_eq_true.mp isRun.2 byte inside)
  induction others generalizing first with
  | nil =>
    rw [joined, flatMap_nil, append_nil]
    exact fields_run (whole first run)
  | cons second others ih =>
    rw [joined, flatMap_cons, cons_append, fields_run_append _ (whole first run) separates]
    exact congrArg (first :: ·) (ih (runs second mem_cons_self)
      (forall_mem_cons.mp runs).2)

end

/-! ## The scanner on the text of a version -/

theorem localScan_joined {others : List (List UInt8)} (run : IsRun isAsciiAlphanumeric first)
    (runs : ∀ run ∈ others, IsRun isAsciiAlphanumeric run) :
    localScan (43 :: joined 46 first others) = some (some (joined 46 first others)) := by
  have closed : Closed Parser.isSeparator isAsciiAlphanumeric [] :=
    ⟨fun _ _ same => absurd same (List.cons_ne_nil _ _).symm,
      fun _ _ _ same => absurd same (List.cons_ne_nil _ _).symm⟩
  rcases skip_joined run runs closed (by decide : Parser.isSeparator 46 = true) (by decide)
    with ⟨taken, passed⟩
  rw [List.append_nil] at taken passed
  have after : afterRuns (joined 46 first others) = [] := passed
  rw [localScan, taken, if_neg (by rw [List.isEmpty_iff]; exact run.1), after,
    if_pos (show atEnd [] = true from rfl), List.length_nil, Nat.sub_zero, List.take_length]

lemma digit_not_separator (digit : isAsciiDigit byte) :
    ¬ Parser.isSeparator byte := fun separates => separator_not_digit separates digit

lemma scanNumber_digits {number rest : List UInt8} (run : IsRun isAsciiDigit number)
    (stops : ∀ byte more, rest = byte :: more -> isAsciiDigit byte = false) :
    scanNumber (number ++ rest) = (number, rest) := by
  have start : afterSeparator (number ++ rest) = number ++ rest := by
    cases number with
    | nil => exact absurd rfl run.1
    | cons byte more =>
      rw [cons_append, afterSeparator,
        if_neg (digit_not_separator (all_eq_true.mp run.2 byte mem_cons_self))]
  rw [scanNumber, start, (takeWhile_run run.2 stops).1, (takeWhile_run run.2 stops).2]

/-- A suffix of letters and a number, with or without a separator in front of them. -/
lemma scanSuffix_spelled {spellings : List (String × κ)} {kind : κ}
    {input letters number rest : List UInt8}
    (start : afterSeparator input = letters ++ (number ++ rest))
    (spelled : findSpelling spellings (letters ++ (number ++ rest)) = some (kind, letters.length))
    (run : IsRun isAsciiDigit number)
    (stops : ∀ byte more, rest = byte :: more -> isAsciiDigit byte = false) :
    scanSuffix spellings input = some (⟨kind, letters, number⟩, rest) := by
  rw [scanSuffix, start, spelled]
  simp only [drop_left, take_left, scanNumber_digits run stops]

/-- The ways in which the rest of a version starts after its release. -/
inductive Suffixes : List UInt8 -> Prop where
  | nil : Suffixes []
  | plus (rest : List UInt8) : Suffixes (43 :: rest)
  | dev (rest : List UInt8) : Suffixes (46 :: 100 :: rest)
  | post (rest : List UInt8) : Suffixes (46 :: 112 :: 111 :: rest)
  | pre (letter : UInt8) (rest : List UInt8) (initial : letter ∈ [97, 98, 114]) :
      Suffixes (letter :: rest)

theorem Suffixes.closed {rest : List UInt8} (suffixes : Suffixes rest) :
    Closed isDot isAsciiDigit rest := by
  cases suffixes with
  | nil =>
    exact ⟨fun _ _ same => absurd same (cons_ne_nil _ _).symm,
      fun _ _ _ same => absurd same (cons_ne_nil _ _).symm⟩
  | plus rest =>
    constructor
    · rintro _ _ ⟨⟩
      rfl
    · rintro _ _ _ ⟨⟩ dot
      cases dot
  | dev rest | post rest =>
    constructor
    · rintro _ _ ⟨⟩
      rfl
    · rintro _ _ _ ⟨⟩ _
      rfl
  | pre letter rest initial =>
    have shape : isDot letter = false /\ isAsciiDigit letter = false := by
      rw [mem_cons, mem_cons, mem_singleton] at initial
      rcases initial with rfl | rfl | rfl <;> decide
    constructor
    · rintro _ _ ⟨⟩
      exact shape.2
    · rintro _ _ _ ⟨⟩ dot
      rw [shape.1] at dot
      cases dot

lemma Suffixes.stops {rest : List UInt8} (suffixes : Suffixes rest) :
    ∀ byte more, rest = byte :: more -> isAsciiDigit byte = false := suffixes.closed.noItem

lemma digitsOf_isRun : IsRun isAsciiDigit (digitsOf n) :=
  ⟨digitsOf_ne_nil n, digitsOf_digits n⟩

/-! ### Local versions -/

end Scan

/-- A local segment that is read back from its text. -/
structure LocalSegment.Spelled (segment : LocalSegment) : Prop where
  run : Scan.IsRun isAsciiAlphanumeric (asBytes segment.display)
  read : Parser.localSegment (asBytes segment.display) = segment

/-- A version that can be written down, with local segments that are read back. -/
structure Version.Spelled (version : Version) : Prop where
  parsed : version.Parsed Grammar.Components.limit
  segments : ∀ list, version.localVersion = .segments list -> ∀ segment ∈ list,
    segment.Spelled

variable {data : AfterRelease} {version : Version} {list : List LocalSegment}

namespace Scan

open Grammar

/-- The local version as the scanner hands it on. -/
def localText : List LocalSegment -> Option (List UInt8)
  | [] => none
  | first :: others => some (joined 46 (asBytes first.display) (others.map fun s => asBytes s.display))

lemma asBytes_displayLocal (list : List LocalSegment) :
    asBytes (Version.displayLocal (.segments list)) = (localText list).elim [] (43 :: ·) := by
  cases list with
  | nil => rfl
  | cons first others =>
    rw [displayLocal, LocalVersion.isEmpty, isEmpty_cons, Bool.not_false, if_pos rfl,
      asBytes_append, LocalVersion.display, asBytes_intercalate, map_cons, map_cons,
      map_map, show asBytes "." = [46] by decide, intercalate_eq_joined,
      show asBytes "+" = [43] by decide]
    rfl

variable {list : List LocalSegment} (spelled : ∀ segment ∈ list, segment.Spelled)

include spelled in
lemma localScan_display :
    localScan (asBytes (Version.displayLocal (.segments list))) = some (localText list) := by
  rw [asBytes_displayLocal]
  cases list with
  | nil => rfl
  | cons first others =>
    refine localScan_joined (spelled first mem_cons_self).run ?_
    intro run inside
    rcases mem_map.mp inside with ⟨segment, mem, rfl⟩
    exact (spelled segment (mem_cons_of_mem _ mem)).run

include spelled in
lemma fields_localText :
    ((localText list).elim [] (fields Parser.isSeparator)).map Parser.localSegment = list := by
  cases list with
  | nil => rfl
  | cons first others =>
    have run := (spelled first mem_cons_self).run
    rw [localText, Option.elim_some, fields_joined run _ alphanumeric_not_separator (by decide),
      map_cons, (spelled first mem_cons_self).read, map_map]
    · refine congrArg (first :: ·) ((map_congr_left fun segment inside => ?_).trans others.map_id)
      exact (spelled segment (mem_cons_of_mem _ inside)).read
    · intro run inside
      rcases mem_map.mp inside with ⟨segment, mem, rfl⟩
      exact (spelled segment (mem_cons_of_mem _ mem)).run

/-! ### Suffixes -/

/-- A suffix as it is displayed: its letters and the digits of its number. -/
def written (kind : κ) (letters : List UInt8) (number : UInt64) : SuffixText κ :=
  ⟨kind, letters, digitsOf number.toNat⟩

lemma startsWith_self (needle rest : List UInt8) :
    startsWithIgnoreAsciiCase needle (needle ++ rest) := by
  rw [startsWith_iff_initial, map_append]
  exact prefix_append _ _

lemma asBytes_displayDev (number : UInt64) :
    asBytes (Version.displayDev (some number)) =
      46 :: (asBytes "dev" ++ digitsOf number.toNat) := by
  rw [displayDev, asBytes_append, show asBytes ".dev" = 46 :: asBytes "dev" by decide]
  rfl

lemma asBytes_displayPost (number : UInt64) :
    asBytes (Version.displayPost (some number)) =
      46 :: (asBytes "post" ++ digitsOf number.toNat) := by
  rw [displayPost, asBytes_append, show asBytes ".post" = 46 :: asBytes "post" by decide]
  rfl

variable {rest : List UInt8}

lemma devScan_display {text : Option (List UInt8)} (dev : Option UInt64)
    (start : rest = [] \/ ∃ more, rest = 43 :: more)
    (scanned : localScan rest = some text) :
    devScan (asBytes (Version.displayDev dev) ++ rest) =
      some (dev.map (written () (asBytes "dev")), text) := by
  cases dev with
  | none =>
    change devScan rest = _
    rcases start with rfl | ⟨more, rfl⟩
    · rw [devScan, suffixThen]
      change (localScan []).map _ = _
      rw [scanned]
      rfl
    · rw [devScan, suffixThen_other dev_initials localScan more (by decide) (by decide), scanned]
      rfl
  | some number =>
    have stops : Suffixes rest := by
      rcases start with rfl | ⟨more, rfl⟩
      · exact .nil
      · exact .plus more
    have spelled : findSpelling [("dev", ())] (asBytes "dev" ++ (digitsOf number.toNat ++ rest)) =
        some ((), (asBytes "dev").length) := by
      rw [findSpelling, startsWith_self, if_pos rfl]
    rw [asBytes_displayDev, cons_append, append_assoc, devScan, suffixThen,
      scanSuffix_spelled rfl spelled (digitsOf_isRun _) stops.stops]
    change (localScan rest).map _ = _
    rw [scanned]
    rfl

/-- The ways in which the rest of a version starts after its pre-release. -/
inductive PostSuffixes : List UInt8 -> Prop where
  | nil : PostSuffixes []
  | plus (rest : List UInt8) : PostSuffixes (43 :: rest)
  | dev (rest : List UInt8) : PostSuffixes (46 :: 100 :: rest)

lemma PostSuffixes.suffixes (start : PostSuffixes rest) : Suffixes rest := by
  cases start with
  | nil => exact .nil
  | plus rest => exact .plus rest
  | dev rest => exact .dev rest

lemma postSuffixes_dev (dev : Option UInt64) (start : rest = [] \/ ∃ more, rest = 43 :: more) :
    PostSuffixes (asBytes (Version.displayDev dev) ++ rest) := by
  cases dev with
  | none =>
    change PostSuffixes rest
    rcases start with rfl | ⟨more, rfl⟩
    · exact .nil
    · exact .plus more
  | some number =>
    rw [asBytes_displayDev, cons_append]
    exact .dev _

lemma postScan_display {data : AfterPost} (post : Option UInt64)
    (start : PostSuffixes rest) (scanned : devScan rest = some data) :
    postScan (asBytes (Version.displayPost post) ++ rest) =
      some (post.map fun number => .word (written () (asBytes "post") number), data) := by
  cases post with
  | none =>
    change postScan rest = _
    cases start with
    | nil =>
      rw [postScan, scanHyphen, suffixThen]
      · change ((devScan []).map _).map _ = _
        rw [scanned]
        rfl
      · intro _ same
        cases same
    | plus rest =>
      rw [postScan, scanHyphen_none rest (by decide),
        suffixThen_other post_initials devScan rest (by decide) (by decide), scanned]
      rfl
    | dev rest =>
      have absent : scanSuffix Parser.postSpellings (46 :: 100 :: rest) = none := by
        rw [scanSuffix, show afterSeparator (46 :: 100 :: rest) = 100 :: rest from rfl,
          findSpelling_none post_initials rest (by decide)]
      rw [postScan, scanHyphen_none _ (by decide), suffixThen, absent]
      simp only
      rw [scanned]
      rfl
  | some number =>
    have spelled : findSpelling Parser.postSpellings
        (asBytes "post" ++ (digitsOf number.toNat ++ rest)) =
        some ((), (asBytes "post").length) := by
      rw [Parser.postSpellings, findSpelling, startsWith_self, if_pos rfl]
    rw [asBytes_displayPost, cons_append, append_assoc, postScan,
      scanHyphen_none _ (by decide), suffixThen,
      scanSuffix_spelled rfl spelled (digitsOf_isRun _) start.suffixes.stops]
    simp only
    rw [scanned]
    rfl

/-- The ways in which the rest of a version starts after its release, unless
there is a pre-release. -/
inductive PreSuffixes : List UInt8 -> Prop where
  | later {rest : List UInt8} (start : PostSuffixes rest) : PreSuffixes rest
  | post (rest : List UInt8) : PreSuffixes (46 :: 112 :: 111 :: rest)

lemma PreSuffixes.suffixes {rest : List UInt8} (start : PreSuffixes rest) : Suffixes rest := by
  cases start with
  | later start => exact start.suffixes
  | post rest => exact .post rest

lemma preSuffixes_post (post : Option UInt64) (start : PostSuffixes rest) :
    PreSuffixes (asBytes (Version.displayPost post) ++ rest) := by
  cases post with
  | none => exact .later start
  | some number =>
    rw [asBytes_displayPost, cons_append]
    exact .post _

lemma asBytes_displayPre (pre : Prerelease) :
    asBytes (Version.displayPre (some pre)) =
      asBytes pre.kind.display ++ digitsOf pre.number.toNat := by
  rw [displayPre, asBytes_append]
  rfl

/-- The letters of a word that comes next agree with what is there. -/
lemma lowered_of_startsWith (starts : startsWithIgnoreAsciiCase (asBytes text) (first ++ rest)) :
    (lowered text).take first.length <+: first.map lowerNat := by
  rw [startsWith_iff_initial, map_append] at starts
  have cut := starts.take first.length
  rwa [take_left' (length_map _)] at cut

/-- No pre-release comes next in the word of a post-release. -/
lemma findSpelling_pre_post (rest : List UInt8) :
    findSpelling Parser.preSpellings (112 :: 111 :: rest) = none := by
  have apart : ∀ entry ∈ Parser.preSpellings,
      ¬ (lowered entry.1).take 2 <+: [112, 111] := by decide
  rw [findSpelling_eq_none_iff]
  intro entry inside
  rw [<- Bool.not_eq_true]
  intro starts
  exact apart entry inside (@lowered_of_startsWith _ [112, 111] rest starts)

lemma lowerNat_digit (digit : isAsciiDigit byte) : lowerNat byte <= 57 := by
  rw [isAsciiDigit_iff] at digit
  rw [lowerNat_eq, if_neg (by omega)]
  exact digit.2

/-- A word with other letters, or with one more letter, does not come next. -/
lemma startsWith_number {letters number : List UInt8} (rest : List UInt8)
    (run : IsRun isAsciiDigit number)
    (apart : ¬ (lowered text).take letters.length <+: letters.map lowerNat \/
      (lowered text)[letters.length]?.any (57 < ·)) :
    startsWithIgnoreAsciiCase (asBytes text) (letters ++ (number ++ rest)) = false := by
  rw [<- Bool.not_eq_true]
  intro starts
  rcases apart with apart | longer
  · exact apart (lowered_of_startsWith starts)
  · cases number with
    | nil => exact run.1 rfl
    | cons digit number =>
      rw [Option.any_eq_true] at longer
      rcases longer with ⟨letter, found, large⟩
      rw [startsWith_iff_initial, List.map_append, List.cons_append, List.map_cons] at starts
      rcases starts with ⟨others, whole⟩
      have here : (lowered text ++ others)[letters.length]? = some letter := by
        rw [List.getElem?_append_left (List.getElem?_eq_some_iff.mp found).1, found]
      unfold lowered at here
      rw [whole, List.getElem?_append_right (by simp),
        List.length_map, Nat.sub_self, List.getElem?_cons_zero, Option.some_inj] at here
      have small := lowerNat_digit (List.all_eq_true.mp run.2 digit List.mem_cons_self)
      rw [here] at small
      exact absurd (of_decide_eq_true large) (by omega)

/-- The spelling found is the first one that comes next. -/
lemma findSpelling_first {before after : List (String × κ)} {entry : String × κ}
    {input : List UInt8} (starts : startsWithIgnoreAsciiCase (asBytes entry.1) input)
    (earlier : ∀ other ∈ before, startsWithIgnoreAsciiCase (asBytes other.1) input = false) :
    findSpelling (before ++ entry :: after) input = some (entry.2, (asBytes entry.1).length) := by
  induction before with
  | nil => rw [nil_append, findSpelling, if_pos starts]
  | cons other before ih =>
    rw [cons_append, findSpelling, earlier other mem_cons_self, if_neg Bool.false_ne_true]
    exact ih (forall_mem_cons.mp earlier).2

/-- The short spellings of a pre-release, followed by a number. -/
lemma findSpelling_pre (kind : PrereleaseKind) {number : List UInt8} (rest : List UInt8)
    (run : IsRun isAsciiDigit number) :
    findSpelling Parser.preSpellings (asBytes kind.display ++ (number ++ rest)) =
      some (kind, (asBytes kind.display).length) := by
  have earlier : ∀ before : List (String × PrereleaseKind), (∀ entry ∈ before,
      ¬ (lowered entry.1).take (asBytes kind.display).length <+: (asBytes kind.display).map lowerNat \/
        (lowered entry.1)[(asBytes kind.display).length]?.any (57 < ·)) ->
      ∀ entry ∈ before,
        startsWithIgnoreAsciiCase (asBytes entry.1) (asBytes kind.display ++ (number ++ rest)) =
          false :=
    fun before apart entry inside => startsWith_number rest run (apart entry inside)
  cases kind with
  | alpha =>
    exact @findSpelling_first _ (Parser.preSpellings.take 5) _ ("a", .alpha) _
      (startsWith_self _ _) (earlier _ (by decide))
  | beta =>
    exact @findSpelling_first _ (Parser.preSpellings.take 6) _ ("b", .beta) _
      (startsWith_self _ _) (earlier _ (by decide))
  | rc =>
    exact @findSpelling_first _ (Parser.preSpellings.take 4) _ ("rc", .rc) _
      (startsWith_self _ _) (earlier _ (by decide))

lemma preScan_display {data : AfterPre} (pre : Option Prerelease)
    (start : PreSuffixes rest) (scanned : postScan rest = some data) :
    preScan (asBytes (Version.displayPre pre) ++ rest) =
      some (pre.map fun pre => written pre.kind (asBytes pre.kind.display) pre.number, data) := by
  cases pre with
  | none =>
    change preScan rest = _
    have absent : scanSuffix Parser.preSpellings rest = none := by
      cases start with
      | later start =>
        cases start with
        | nil => rfl
        | plus rest =>
          rw [scanSuffix, afterSeparator, if_neg (by decide),
            findSpelling_none pre_initials rest (by decide)]
        | dev rest =>
          rw [scanSuffix, show afterSeparator (46 :: 100 :: rest) = 100 :: rest from rfl,
            findSpelling_none pre_initials rest (by decide)]
      | post rest =>
        rw [scanSuffix,
          show afterSeparator (46 :: 112 :: 111 :: rest) = 112 :: 111 :: rest from rfl,
          findSpelling_pre_post]
    rw [preScan, suffixThen, absent]
    simp only
    rw [scanned]
    rfl
  | some pre =>
    have spelled := findSpelling_pre pre.kind rest (digitsOf_isRun pre.number.toNat)
    have letter : afterSeparator
        (asBytes pre.kind.display ++ (digitsOf pre.number.toNat ++ rest)) =
        asBytes pre.kind.display ++ (digitsOf pre.number.toNat ++ rest) := by
      cases pre.kind <;> rfl
    rw [asBytes_displayPre, append_assoc, preScan, suffixThen,
      scanSuffix_spelled letter spelled (digitsOf_isRun _) start.suffixes.stops]
    simp only
    rw [scanned]
    rfl

lemma suffixes_pre (pre : Option Prerelease) (start : PreSuffixes rest) :
    Suffixes (asBytes (Version.displayPre pre) ++ rest) := by
  cases pre with
  | none => exact start.suffixes
  | some pre =>
    rw [asBytes_displayPre, append_assoc]
    cases pre.kind with
    | alpha => exact .pre 97 _ (by decide)
    | beta => exact .pre 98 _ (by decide)
    | rc => exact .pre 114 _ (by decide)

/-! ### Release and epoch -/

/-- The release as the scanner hands it on. -/
def releaseText (first : UInt64) (others : List UInt64) : List UInt8 :=
  joined 46 (digitsOf first.toNat) (others.map fun n => digitsOf n.toNat)

lemma asBytes_displayRelease (first : UInt64) (others : List UInt64) :
    asBytes (Version.displayRelease (first :: others)) = releaseText first others := by
  rw [displayRelease, asBytes_intercalate, map_cons, map_cons, map_map,
    show asBytes "." = [46] by decide, intercalate_eq_joined]
  rfl

lemma releaseText_runs (others : List UInt64) :
    ∀ run, run ∈ others.map (fun n => digitsOf n.toNat) -> IsRun isAsciiDigit run := by
  intro run inside
  rcases mem_map.mp inside with ⟨n, _, rfl⟩
  exact digitsOf_isRun n.toNat

lemma fields_releaseText (first : UInt64) (others : List UInt64) :
    fields isDot (releaseText first others) = (first :: others).map fun n => digitsOf n.toNat := by
  refine fields_joined (digitsOf_isRun _) (releaseText_runs others) ?_ (by decide)
  intro byte digit
  rw [<- Bool.not_eq_true, isDot_iff]
  rw [isAsciiDigit_iff] at digit
  omega

lemma releaseScan_display (first : UInt64)
    (others : List UInt64) (start : Suffixes rest) (scanned : preScan rest = some data) :
    releaseScan (releaseText first others ++ rest) = some (releaseText first others, data) := by
  rcases skip_joined (digitsOf_isRun first.toNat) (releaseText_runs others) start.closed
    (by decide : isDot 46) (by decide) with ⟨taken, passed⟩
  have after : afterNumbers (releaseText first others ++ rest) = rest := passed
  rw [releaseScan, after, scanned, releaseText, taken, if_neg]
  · rw [List.length_append, Nat.add_sub_cancel, List.take_left]
    rfl
  · rw [List.isEmpty_iff]
    exact digitsOf_ne_nil _

/-- What follows the first number of a release is no epoch mark. -/
theorem not_epoch {others : List (List UInt8)} {rest more : List UInt8} (start : Suffixes rest)
    (same : others.flatMap (46 :: ·) ++ rest = 33 :: more) : False := by
  cases others with
  | cons run others =>
    rw [flatMap_cons, cons_append, cons_append, cons.injEq] at same
    exact absurd same.1 (by decide)
  | nil =>
    rw [flatMap_nil, nil_append] at same
    subst same
    cases start with
    | pre letter rest initial => exact absurd initial (by decide)

lemma epochScan_display (epoch first : UInt64)
    (others : List UInt64) (start : Suffixes rest) (scanned : preScan rest = some data) :
    epochScan (asBytes (Version.displayEpoch epoch) ++ (releaseText first others ++ rest)) =
      some (if epoch = 0 then none else some (digitsOf epoch.toNat), releaseText first others,
        data) := by
  have release := releaseScan_display first others start scanned
  by_cases zero : epoch = 0
  · subst zero
    have stops := @others_stop isDot isAsciiDigit 46 (others.map fun n => digitsOf n.toNat) rest
      start.closed (by decide)
    have runs := takeWhile_run (digitsOf_digits first.toNat) stops
    change epochScan (releaseText first others ++ rest) = _
    rw [epochScan, release, if_pos rfl]
    rw [releaseText, joined, List.append_assoc, runs.1, runs.2, if_neg]
    · split
      next more same => exact (not_epoch start same).elim
      next => rfl
    · rw [List.isEmpty_iff]
      exact digitsOf_ne_nil _
  · have stops : ∀ byte more, 33 :: (releaseText first others ++ rest) = byte :: more ->
        isAsciiDigit byte = false := by
      rintro _ _ ⟨⟩
      rfl
    have runs := takeWhile_run (digitsOf_digits epoch.toNat) stops
    have text : asBytes (displayEpoch epoch) = digitsOf epoch.toNat ++ [33] := by
      rw [displayEpoch, if_pos (bne_iff_ne.mpr zero), asBytes_append]
      rfl
    rw [text, List.append_assoc, List.singleton_append, epochScan, runs.1, runs.2, if_neg zero,
      if_neg]
    · simp only
      rw [release]
      rfl
    · rw [List.isEmpty_iff]
      exact digitsOf_ne_nil _

/-! ### The whole version -/

/-- What the scanner finds in the text of a version. -/
def scanOf (version : Version) (first : UInt64) (others : List UInt64) (list : List LocalSegment) :
    VersionScan :=
  (if version.epoch = 0 then none else some (digitsOf version.epoch.toNat), releaseText first others,
    version.pre.map fun pre => written pre.kind (asBytes pre.kind.display) pre.number,
    version.post.map fun number => .word (written () (asBytes "post") number),
    version.dev.map (written () (asBytes "dev")), localText list)

/-- The text of a version begins with a digit. -/
lemma display_start (epoch first : UInt64) (others : List UInt64) (rest : List UInt8) :
    ∃ digit more, isAsciiDigit digit /\
      asBytes (Version.displayEpoch epoch) ++ (releaseText first others ++ rest) =
        digit :: more := by
  have start : ∀ n tail, ∃ digit more,
      isAsciiDigit digit /\ digitsOf n ++ tail = digit :: more := by
    intro n tail
    cases same : digitsOf n with
    | nil => exact absurd same (digitsOf_ne_nil n)
    | cons digit more =>
      refine ⟨digit, more ++ tail, ?_, rfl⟩
      exact all_eq_true.mp (digitsOf_digits n) digit (same ▸ mem_cons_self)
  rw [displayEpoch]
  by_cases zero : (epoch != 0)
  · rw [if_pos zero, asBytes_append, append_assoc, <- digitsOf]
    exact start epoch.toNat _
  · rw [if_neg zero, releaseText, joined, append_assoc]
    exact start first.toNat _

variable {first : UInt64} {others : List UInt64}

lemma versionScan_display (release : version.release = first :: others)
    (segments : version.localVersion = .segments list)
    (spelled : ∀ segment ∈ list, segment.Spelled) :
    versionScan ((asBytes version.display).dropWhile isAsciiWhitespace) =
      some (scanOf version first others list) := by
  have startLocal : asBytes (displayLocal (.segments list)) = [] \/ ∃ more,
      asBytes (displayLocal (.segments list)) = 43 :: more := by
    rw [asBytes_displayLocal]
    cases localText list with
    | none => exact .inl rfl
    | some text => exact .inr ⟨text, rfl⟩
  have startDev := postSuffixes_dev version.dev startLocal
  have startPost := preSuffixes_post version.post startDev
  have scanned := epochScan_display version.epoch first others (suffixes_pre version.pre startPost)
    (preScan_display version.pre startPost (postScan_display version.post startDev
      (devScan_display version.dev startLocal (localScan_display spelled))))
  have text : asBytes version.display = asBytes (displayEpoch version.epoch) ++
      (releaseText first others ++ (asBytes (displayPre version.pre) ++
        (asBytes (displayPost version.post) ++ (asBytes (displayDev version.dev) ++
          asBytes (displayLocal (.segments list)))))) := by
    rw [display, asBytes_append, asBytes_append, asBytes_append, asBytes_append,
      asBytes_append, release, segments, asBytes_displayRelease]
  rw [<- text] at scanned
  rcases display_start version.epoch first others (asBytes (displayPre version.pre) ++
        (asBytes (displayPost version.post) ++ (asBytes (displayDev version.dev) ++
          asBytes (displayLocal (.segments list))))) with ⟨digit, more, isDigit, same⟩
  rw [<- text] at same
  have notSpace : ¬ isAsciiWhitespace digit := by
    rw [isAsciiWhitespace_iff]
    rw [isAsciiDigit_iff] at isDigit
    omega
  have notLetter : startsWithIgnoreAsciiCase (asBytes "v") (digit :: more) = false := by
    refine @startsWith_number "v" [] [digit] more ⟨cons_ne_nil _ _, ?_⟩ (.inr (by decide))
    rw [all_cons, isDigit, all_nil, Bool.true_and]
  rw [same, dropWhile_cons_of_neg notSpace, versionScan, afterV, notLetter,
    if_neg Bool.false_ne_true, <- same, scanned]
  rfl

lemma value_digitsOf (n : UInt64) : value (digitsOf n.toNat) = n := by
  rw [value, decimal_digitsOf, UInt64.ofNat_toNat]

lemma scanOf_fits (release : version.release = first :: others)
    (parsed : version.Parsed Components.limit) :
    (parts (scanOf version first others list)).NumbersFit := by
  rw [numbersFit_parts]
  refine ⟨?_, ?_, ?_, ?_, ?_⟩
  · intro digits found
    rw [scanOf] at found
    split at found
    · cases found
    · rw [<- Option.some_inj.mp found, decimal_digitsOf]
      exact parsed.epoch
  · intro text inside
    change text ∈ fields isDot (releaseText first others) at inside
    rw [fields_releaseText, <- release] at inside
    rcases mem_map.mp inside with ⟨number, mem, rfl⟩
    rw [decimal_digitsOf]
    exact parsed.release number mem
  · intro text found
    rcases Option.map_eq_some_iff.mp found with ⟨pre, same, rfl⟩
    rw [written, decimal_digitsOf]
    exact parsed.pre pre same
  · intro text found
    rcases Option.map_eq_some_iff.mp found with ⟨number, same, rfl⟩
    rw [PostText.number, written, decimal_digitsOf]
    exact parsed.post number same
  · intro text found
    rcases Option.map_eq_some_iff.mp found with ⟨number, same, rfl⟩
    rw [written, decimal_digitsOf]
    exact parsed.dev number same

lemma record_scanOf (release : version.release = first :: others)
    (segments : version.localVersion = .segments list) (spelled : version.Spelled) :
    recordOf (filled (scanOf version first others list)) = version.record := by
  have epoch : (scanOf version first others list).1.elim 0 value = version.epoch := by
    rw [scanOf]
    split
    next zero => exact zero.symm
    next => exact value_digitsOf version.epoch
  have numbers : (fields isDot (releaseText first others)).map value = version.release := by
    rw [fields_releaseText, map_map, release]
    exact (map_congr_left fun n _ => value_digitsOf n).trans (map_id _)
  have pre : (scanOf version first others list).2.2.1.map
      (fun text => (⟨text.kind, value text.number⟩ : Prerelease)) = version.pre := by
    rw [scanOf, Option.map_map]
    refine (Option.map_congr fun pre _ => ?_).trans Option.map_id'
    rw [Function.comp_apply, written, value_digitsOf]
  have post : (scanOf version first others list).2.2.2.1.map
      (fun text => value text.number) = version.post := by
    rw [scanOf, Option.map_map]
    refine (Option.map_congr fun number _ => ?_).trans Option.map_id'
    exact value_digitsOf number
  have dev : (scanOf version first others list).2.2.2.2.1.map
      (fun text => value text.number) = version.dev := by
    rw [scanOf, Option.map_map]
    refine (Option.map_congr fun number _ => ?_).trans Option.map_id'
    exact value_digitsOf number
  have texts : ((localText list).elim [] (fields Parser.isSeparator)).map Parser.localSegment =
      list := fields_localText (spelled.segments list segments)
  rw [record_eq, <- epoch, <- numbers, <- pre, <- post, <- dev, segments, spelled.parsed.min,
    spelled.parsed.max]
  exact congrArg (fun list => VersionFull.mk _ _ _ _ _ (.segments list) none none) texts

end Scan

open Scan in
/-- A version that can be written down is read back from its text, with all its
parts. -/
lemma Version.fromStr_display (spelled : version.Spelled) :
    ∃ read, Version.fromStr version.display = .ok read /\ read.record = version.record := by
  rcases spelled.parsed.localVersion with ⟨list, segments⟩
  cases release : version.release with
  | nil => exact absurd release version.nonempty
  | cons first others =>
    have scanned := versionScan_display release segments (spelled.segments list segments)
    rcases parse_accepts scanned (scanOf_fits release spelled.parsed) with ⟨read, accepted⟩
    refine ⟨read, accepted, ?_⟩
    rcases parse_reading accepted with ⟨data, again, _, record⟩
    rw [scanned, Option.some_inj] at again
    rw [record, <- again]
    exact record_scanOf release segments spelled

/-- The text of a version determines its parts. -/
lemma Version.display_injective {left right : Version} (leftSpelled : left.Spelled)
    (rightSpelled : right.Spelled) (same : left.display = right.display) :
    left.record = right.record := by
  rcases fromStr_display leftSpelled with ⟨read, accepted, record⟩
  rcases fromStr_display rightSpelled with ⟨other, otherAccepted, otherRecord⟩
  rw [<- same, accepted, Except.ok.injEq] at otherAccepted
  rw [<- record, <- otherRecord, otherAccepted]

/-! ## Versions that have been read -/

namespace Scan

open Grammar

lemma lowercase_alphanumeric (accepted : isAsciiAlphanumeric byte) :
    isAsciiAlphanumeric (toAsciiLowercase byte) /\ (toAsciiLowercase byte).toNat < 128 /\
      toAsciiLowercase (toAsciiLowercase byte) = toAsciiLowercase byte := by
  have value := toNat_toAsciiLowercase byte
  rw [isAsciiAlphanumeric_iff] at accepted
  refine ⟨?_, ?_, UInt8.toNat_inj.mp ?_⟩
  · rw [isAsciiAlphanumeric_iff, value]
    split <;> omega
  · rw [value]
    split <;> omega
  · rw [toNat_toAsciiLowercase (toAsciiLowercase byte), value, if_neg]
    split <;> omega

lemma asBytes_asciiText {bytes : List UInt8}
    (ascii : ∀ byte ∈ bytes, byte.toNat < 128) : asBytes (asciiText bytes) = bytes := by
  have chars : (asciiText bytes).toList = bytes.map fun byte => Char.ofNat byte.toNat := by
    rw [asciiText, String.toList_ofList]
  rw [asBytes_of_ascii, chars, map_map]
  · refine (map_congr_left fun byte _ => ?_).trans (map_id bytes)
    rw [Function.comp_apply, Components.toNat_charOfByte, Nat.toUInt8_eq, UInt8.ofNat_toNat]
    rfl
  · intro c inside
    rw [chars] at inside
    rcases mem_map.mp inside with ⟨byte, mem, rfl⟩
    rw [Components.toNat_charOfByte]
    exact ascii byte mem

/-- What is stored for a run is read back from its own text. -/
lemma localSegment_spelled {run : List UInt8} (isRun : IsRun isAsciiAlphanumeric run) :
    (Parser.localSegment run).Spelled := by
  rcases Components.number_or_text run with ⟨digits, fits⟩ | isText
  · rw [Components.localSegment_number digits fits]
    have bytes : asBytes (LocalSegment.display (.number (UInt64.ofNat (decimal run)))) =
        digitsOf (decimal run) := by
      rw [LocalSegment.display, UInt64.toNat_ofNat_of_lt' fits]
      rfl
    constructor
    · rw [bytes]
      refine ⟨digitsOf_ne_nil _, all_eq_true.mpr fun byte inside => ?_⟩
      have digit := all_eq_true.mp (digitsOf_digits (decimal run)) byte inside
      rw [isAsciiDigit_iff] at digit
      rw [isAsciiAlphanumeric_iff]
      omega
    · rw [bytes, Components.localSegment_number (digitsOf_digits _)] <;> rw [decimal_digitsOf]
      exact fits
  · rw [Components.localSegment_text isText]
    have letters : ∀ byte ∈ run.map toAsciiLowercase,
        isAsciiAlphanumeric byte /\ byte.toNat < 128 /\ toAsciiLowercase byte = byte := by
      intro byte inside
      rcases mem_map.mp inside with ⟨original, mem, rfl⟩
      exact lowercase_alphanumeric (all_eq_true.mp isRun.2 original mem)
    have bytes : asBytes (LocalSegment.display (.string (asciiText (run.map toAsciiLowercase)))) =
        run.map toAsciiLowercase := asBytes_asciiText fun byte inside => (letters byte inside).2.1
    have lowered : (run.map toAsciiLowercase).map toAsciiLowercase = run.map toAsciiLowercase :=
      (map_congr_left fun byte inside => (letters byte inside).2.2).trans (map_id _)
    have still : Components.IsText (run.map toAsciiLowercase) := by
      rcases isText with other | ⟨digits, large⟩
      · left
        rw [Components.all_digits_lower, other]
      · right
        rw [Components.map_toAsciiLowercase digits]
        exact ⟨digits, large⟩
    constructor
    · rw [bytes]
      refine ⟨fun empty => isRun.1 (map_eq_nil_iff.mp empty), all_eq_true.mpr ?_⟩
      exact fun byte inside => (letters byte inside).1
    · rw [bytes, Components.localSegment_text still, lowered]

end Scan

open Scan in
/-- Every version that has been read can be written down. -/
lemma Version.fromStr_spelled
    (accepted : Version.fromStr text = .ok version) : version.Spelled := by
  refine ⟨fromStr_parsed accepted, ?_⟩
  rcases parse_reading accepted with ⟨data, scanned, _, record⟩
  intro list stored segment inside
  have segments : version.record.localVersion = .segments _ := congrArg VersionFull.localVersion record
  rw [record_localVersion, stored] at segments
  rw [LocalVersion.segments.inj segments] at inside
  rcases mem_map.mp inside with ⟨run, mem, rfl⟩
  exact localSegment_spelled (versionScan_local scanned run mem)

/-! ## The bytes of a version's text -/

namespace Scan

/-- The bytes that occur in the text of a version. -/
def isPrinted (byte : UInt8) : Bool :=
  isAsciiAlphanumeric byte || byte == 33 || byte == 43 || byte == 46

theorem isPrinted_ascii (printed : isPrinted byte = true) :
    byte.toNat < 128 /\ byte ≠ 45 := by
  have shape : isAsciiAlphanumeric byte = true \/ byte = 33 \/ byte = 43 \/ byte = 46 := by
    simpa [isPrinted, or_assoc] using printed
  rcases shape with letter | rfl | rfl | rfl
  · rw [isAsciiAlphanumeric_iff] at letter
    refine ⟨by omega, ?_⟩
    rintro rfl
    exact absurd letter (by decide)
  · decide
  · decide
  · decide

section

variable {test : UInt8 -> Bool}

lemma all_joined {others : List (List UInt8)} (dot : test 46) (head : first.all test)
    (tail : ∀ run ∈ others, run.all test) :
    (joined 46 first others).all test := by
  rw [joined, all_append, head, all_flatMap, Bool.true_and, all_eq_true]
  intro run mem
  rw [all_cons, dot, tail run mem]
  rfl

lemma all_local (plus : test 43) (dot : test 46)
    (segments : ∀ segment ∈ list, (asBytes segment.display).all test) :
    (asBytes (Version.displayLocal (.segments list))).all test := by
  rw [asBytes_displayLocal]
  cases list with
  | nil => rfl
  | cons first others =>
    rw [localText, Option.elim_some, all_cons, plus, Bool.true_and]
    refine all_joined dot (segments first mem_cons_self) fun text inside => ?_
    rcases mem_map.mp inside with ⟨segment, mem, rfl⟩
    exact segments segment (mem_cons_of_mem _ mem)

end

/-- The bytes of a version's text that are no part of a number or a local segment. -/
def wordBytes : List UInt8 := [33, 43, 46, 97, 98, 99, 100, 101, 111, 112, 114, 115, 116, 118]

end Scan

open Scan in
/-- A test that holds for digits, for the words of a version and for its local
segments holds for its text. -/
lemma Version.display_all {test : UInt8 -> Bool} (stored : version.localVersion = .segments list)
    (digit : ∀ byte, isAsciiDigit byte -> test byte)
    (word : wordBytes.all test)
    (segments : ∀ segment ∈ list, (asBytes segment.display).all test) :
    (asBytes version.display).all test := by
  have digits : ∀ n, (digitsOf n).all test := fun n =>
    all_eq_true.mpr fun byte inside => digit byte (all_eq_true.mp (digitsOf_digits n) byte inside)
  have letters : ∀ text, (asBytes text).all (wordBytes.contains ·) ->
      (asBytes text).all test := fun text known =>
    all_eq_true.mpr fun byte inside => all_eq_true.mp word byte
      (contains_iff_mem.mp (all_eq_true.mp known byte inside))
  have numbered : ∀ text (n : Nat), (asBytes text).all (wordBytes.contains ·) ->
      (asBytes (text ++ toString n)).all test := by
    intro text n known
    rw [asBytes_append, all_append, letters text known, Bool.true_and]
    exact digits n
  have epoch : (asBytes (displayEpoch version.epoch)).all test := by
    rw [displayEpoch]
    split
    · rw [asBytes_append, all_append, Bool.and_eq_true]
      exact ⟨digits _, letters "!" (by decide)⟩
    · rfl
  have release : (asBytes (displayRelease version.release)).all test := by
    cases same : version.release with
    | nil => exact absurd same version.nonempty
    | cons first others =>
      rw [asBytes_displayRelease]
      refine all_joined (all_eq_true.mp word 46 (by decide)) (digits _) fun run mem => ?_
      rcases mem_map.mp mem with ⟨n, _, rfl⟩
      exact digits n.toNat
  have pre : (asBytes (displayPre version.pre)).all test := by
    cases version.pre with
    | none => rfl
    | some pre =>
      apply numbered
      cases pre.kind <;> decide
  have post : (asBytes (displayPost version.post)).all test := by
    cases version.post with
    | none => rfl
    | some number => exact numbered _ number.toNat (by decide)
  have dev : (asBytes (displayDev version.dev)).all test := by
    cases version.dev with
    | none => rfl
    | some number => exact numbered _ number.toNat (by decide)
  have last := all_local (all_eq_true.mp word 43 (by decide))
    (all_eq_true.mp word 46 (by decide)) segments
  rw [display, stored]
  simp only [asBytes_append, all_append, epoch, release, pre, post, dev, last, Bool.and_self]

open Scan in
/-- The text of a version is ASCII, and there is no dash in it. -/
lemma Version.display_printed (spelled : version.Spelled) :
    (asBytes version.display).all isPrinted := by
  rcases spelled.parsed.localVersion with ⟨list, stored⟩
  have alphanumeric : ∀ byte, isAsciiAlphanumeric byte -> isPrinted byte := by
    intro byte letter
    rw [isPrinted, letter]
    rfl
  refine display_all stored (fun byte digit => alphanumeric byte ?_) (by decide) ?_
  · rw [isAsciiAlphanumeric, digit, Bool.or_true]
  · intro segment mem
    exact all_eq_true.mpr fun byte inside => alphanumeric byte
      (all_eq_true.mp (spelled.segments list stored segment mem).run.2 byte inside)

end Uv.Pep440
