import Uv.Pep440.Grammar

namespace Uv.Pep440

open Library List
open Library.Regex

/-!
# A deterministic reading of the grammar

The grammar is ambiguous in a few places: a separator after a word may belong
to the word or to what follows, and one spelling may be the beginning of another.
The functions below read a version without looking back.  Each of them takes the
longest spelling, the separator and the digits whenever they are there.  The
matcher of the grammar gives the same answer, because every other choice leaves a
byte on which the rest of the grammar fails.
-/

namespace Scan

open Grammar

/-! ## The scanner -/

def afterSeparator : List UInt8 -> List UInt8
  | [] => []
  | byte :: rest => if Parser.isSeparator byte then rest else byte :: rest

/-- The first spelling that comes next, with its value and its length. -/
def findSpelling {κ : Type} : List (String × κ) -> List UInt8 -> Option (κ × Nat)
  | [], _ => none
  | (text, value) :: others, input =>
    if startsWithIgnoreAsciiCase (asBytes text) input then some (value, (asBytes text).length)
    else findSpelling others input

/-- A suffix as written: what its spelling stands for, its letters, its digits. -/
structure SuffixText (κ : Type) where
  kind : κ
  letters : List UInt8
  number : List UInt8

variable (input : List UInt8)

/-- The digits and the rest after the letters of a suffix. -/
def scanNumber : List UInt8 × List UInt8 :=
  ((afterSeparator input).takeWhile isAsciiDigit, (afterSeparator input).dropWhile isAsciiDigit)

def scanSuffix {κ : Type} (spellings : List (String × κ)) (input : List UInt8) :
    Option (SuffixText κ × List UInt8) :=
  match findSpelling spellings (afterSeparator input) with
  | none => none
  | some (kind, length) =>
    let (number, rest) := scanNumber ((afterSeparator input).drop length)
    some (⟨kind, (afterSeparator input).take length, number⟩, rest)

/-- Only whitespace is left. -/
def atEnd : Bool := input.all isAsciiWhitespace

/-- What is left after the first run of a local version and all further ones. -/
def afterRuns : List UInt8 :=
  let rest := input.dropWhile isAsciiAlphanumeric
  skipItems Parser.isSeparator isAsciiAlphanumeric (rest.length + 1) rest

/-- The local version and the end of the input. -/
def localScan : Option (Option (List UInt8)) :=
  match input with
  | 43 :: rest =>
    if (rest.takeWhile isAsciiAlphanumeric).isEmpty then none
    else if atEnd (afterRuns rest) then
      some (some (rest.take (rest.length - (afterRuns rest).length)))
    else none
  | _ => if atEnd input then some none else none

/-- An optional suffix, and what a scanner finds after it. -/
def suffixThen {κ δ : Type} (spellings : List (String × κ)) (next : List UInt8 -> Option δ)
    (input : List UInt8) : Option (Option (SuffixText κ) × δ) :=
  match scanSuffix spellings input with
  | none => (next input).map fun data => (none, data)
  | some (suffix, rest) => (next rest).map fun data => (some suffix, data)

def devScan : List UInt8 -> Option (Option (SuffixText Unit) × Option (List UInt8)) :=
  suffixThen [("dev", ())] localScan

/-- A post-release as written: digits after a hyphen, or a word. -/
inductive PostText where
  | hyphen (number : List UInt8)
  | word (suffix : SuffixText Unit)

/-- The digits of a post-release that is written as a hyphen and a number. -/
def scanHyphen : List UInt8 -> Option (List UInt8 × List UInt8)
  | 45 :: rest =>
    if (rest.takeWhile isAsciiDigit).isEmpty then none
    else some (rest.takeWhile isAsciiDigit, rest.dropWhile isAsciiDigit)
  | _ => none

abbrev AfterPost := Option (SuffixText Unit) × Option (List UInt8)

def postScan : Option (Option PostText × AfterPost) :=
  match scanHyphen input with
  | some (number, rest) => (devScan rest).map fun data => (some (.hyphen number), data)
  | none => (suffixThen Parser.postSpellings devScan input).map fun data =>
    (data.1.map .word, data.2)

abbrev AfterPre := Option PostText × AfterPost

def preScan : List UInt8 -> Option (Option (SuffixText PrereleaseKind) × AfterPre) :=
  suffixThen Parser.preSpellings postScan

abbrev AfterRelease := Option (SuffixText PrereleaseKind) × AfterPre

/-- What is left after the first release number and all further ones. -/
def afterNumbers : List UInt8 :=
  let rest := input.dropWhile isAsciiDigit
  skipItems isDot isAsciiDigit (rest.length + 1) rest

def releaseScan : Option (List UInt8 × AfterRelease) :=
  if (input.takeWhile isAsciiDigit).isEmpty then none
  else (preScan (afterNumbers input)).map fun data =>
    (input.take (input.length - (afterNumbers input).length), data)

def epochScan : Option (Option (List UInt8) × List UInt8 × AfterRelease) :=
  if (input.takeWhile isAsciiDigit).isEmpty then none
  else
    match input.dropWhile isAsciiDigit with
    | 33 :: rest => (releaseScan rest).map fun data => (some (input.takeWhile isAsciiDigit), data)
    | _ => (releaseScan input).map fun data => (none, data)

/-- Skip the letter that may precede a version. -/
def afterV : List UInt8 :=
  if startsWithIgnoreAsciiCase (asBytes "v") input then input.drop 1 else input

abbrev VersionScan := Option (List UInt8) × List UInt8 × AfterRelease

def versionScan : Option VersionScan := epochScan (afterV input)

/-! ## Bytes -/

variable (byte : UInt8)

lemma isAsciiDigit_iff :
    isAsciiDigit byte <-> 48 <= byte.toNat /\ byte.toNat <= 57 := by
  simp [isAsciiDigit, UInt8.le_iff_toNat_le]

lemma isSeparator_iff :
    Parser.isSeparator byte <-> byte.toNat = 46 \/ byte.toNat = 95 \/ byte.toNat = 45 := by
  simp [Parser.isSeparator, <- UInt8.toNat_inj, or_assoc]

lemma isDot_iff : isDot byte <-> byte.toNat = 46 := by
  simp [isDot, <- UInt8.toNat_inj]

lemma isAsciiWhitespace_iff :
    isAsciiWhitespace byte <->
      byte.toNat = 32 \/ byte.toNat = 9 \/ byte.toNat = 10 \/ byte.toNat = 12 \/ byte.toNat = 13 := by
  simp [isAsciiWhitespace, <- UInt8.toNat_inj, or_assoc]

lemma isAsciiAlphanumeric_iff :
    isAsciiAlphanumeric byte <->
      65 <= byte.toNat /\ byte.toNat <= 90 \/ 97 <= byte.toNat /\ byte.toNat <= 122 \/
        48 <= byte.toNat /\ byte.toNat <= 57 := by
  simp [isAsciiAlphanumeric, isAsciiAlphabetic, isAsciiDigit, UInt8.le_iff_toNat_le, or_assoc]

lemma toNat_toAsciiLowercase :
    (toAsciiLowercase byte).toNat =
      if 65 <= byte.toNat /\ byte.toNat <= 90 then byte.toNat + 32 else byte.toNat := by
  unfold toAsciiLowercase
  have condition : (decide (65 <= byte) && decide (byte <= 90)) <->
      65 <= byte.toNat /\ byte.toNat <= 90 := by
    simp [UInt8.le_iff_toNat_le]
  by_cases upper : 65 <= byte.toNat /\ byte.toNat <= 90
  · rw [if_pos (condition.mpr upper), if_pos upper, UInt8.toNat_add]
    change (byte.toNat + 32) % 256 = _
    omega
  · rw [if_neg (fun both => upper (condition.mp both)), if_neg upper]

lemma eqIgnoreAsciiCase_iff (left right : UInt8) :
    eqIgnoreAsciiCase left right <->
      (toAsciiLowercase left).toNat = (toAsciiLowercase right).toNat := by
  simp [eqIgnoreAsciiCase, UInt8.toNat_inj]

/-- The two forms of a prefix test. -/
lemma startsWithIgnoreAsciiCase_eq (needle haystack : List UInt8) :
    startsWithIgnoreAsciiCase needle haystack =
      startsWith (needle.map eqIgnoreAsciiCase) haystack := by
  induction needle generalizing haystack with
  | nil => simp [startsWithIgnoreAsciiCase, startsWith]
  | cons byte needle ih =>
    cases haystack with
    | nil => simp [startsWithIgnoreAsciiCase, startsWith]
    | cons other haystack =>
      have inner := ih haystack
      simp only [startsWithIgnoreAsciiCase] at inner
      simp only [startsWithIgnoreAsciiCase, length_cons, zip_cons_cons, all_cons,
        map_cons, startsWith, <- inner, Nat.add_le_add_iff_right]
      cases eqIgnoreAsciiCase byte other <;> simp

variable {β : Type}

lemma exec_word (text : String) (next : Continuation Group UInt8 β)
    (input : List UInt8) (caps : Captures Group UInt8) :
    exec (word text) next input caps =
      if startsWithIgnoreAsciiCase (asBytes text) input then
        next (input.drop (asBytes text).length) caps
      else none := by
  rw [word, exec_literal, startsWithIgnoreAsciiCase_eq, length_map]

/-! ## Captures of a scan -/

/-- A scanner as a continuation of the matcher, with the captures it makes. -/
def follow {δ : Type} (next : List UInt8 -> Option δ)
    (capture : δ -> Captures Group UInt8 -> Captures Group UInt8) :
    Continuation Group UInt8 (Captures Group UInt8) :=
  fun input caps => (next input).map fun data => capture data caps

def captureNumber (group : Group) (number : List UInt8) (caps : Captures Group UInt8) :
    Captures Group UInt8 :=
  if number.isEmpty then caps else caps.set group number

def captureSuffix {κ : Type} (letters number : Group) (suffix : Option (SuffixText κ))
    (caps : Captures Group UInt8) : Captures Group UInt8 :=
  match suffix with
  | none => caps
  | some text => captureNumber number text.number (caps.set letters text.letters)

/-- The text before the rest of a run is the run. -/
lemma take_length_sub_dropWhile (test : UInt8 -> Bool) (input : List UInt8) :
    input.take (input.length - (input.dropWhile test).length) = input.takeWhile test := by
  have split := takeWhile_append_dropWhile (p := test) (l := input)
  have lengths := congrArg length split
  rw [length_append] at lengths
  have count : input.length - (input.dropWhile test).length = (input.takeWhile test).length := by
    omega
  calc
    input.take (input.length - (input.dropWhile test).length) =
        (input.takeWhile test ++ input.dropWhile test).take (input.takeWhile test).length := by
      rw [count, split]
    _ = input.takeWhile test := take_left

lemma exec_group_digits {next : Continuation Group UInt8 β} (group : Group)
    (rejects : Rejects next isAsciiDigit) (input : List UInt8) (caps : Captures Group UInt8) :
    exec (.group group digits) next input caps =
      if (input.takeWhile isAsciiDigit).isEmpty then none
      else next (input.dropWhile isAsciiDigit)
        (caps.set group (input.takeWhile isAsciiDigit)) := by
  rw [exec, digits, exec_plus_chars, take_length_sub_dropWhile]
  intro letter rest caps accepted
  exact rejects letter rest _ accepted

/-! ## Suffixes -/

variable {byte : UInt8} {input : List UInt8}

section

variable {κ δ : Type}

/-- What a scanner needs to guarantee for the suffix in front of it. -/
structure Follows (next : List UInt8 -> Option δ) : Prop where
  rejects_digit : ∀ byte rest, isAsciiDigit byte = true -> next (byte :: rest) = none
  /-- Leaving a separator and digits unread does not help. -/
  rejects_separator : ∀ byte rest, Parser.isSeparator byte = true ->
    next (rest.dropWhile isAsciiDigit) = none -> next (byte :: rest) = none

variable {next : List UInt8 -> Option δ}

lemma Follows.rejects (follows : Follows next)
    (capture : δ -> Captures Group UInt8 -> Captures Group UInt8) :
    Rejects (follow next capture) isAsciiDigit := by
  intro byte rest caps digit
  rw [follow, follows.rejects_digit byte rest digit, Option.map_none]

/-- The optional digits of a suffix are taken whenever they are there. -/
lemma exec_opt_digits (follows : Follows next)
    (capture : δ -> Captures Group UInt8 -> Captures Group UInt8) (group : Group)
    (input : List UInt8) (caps : Captures Group UInt8) :
    exec (.opt (.group group digits)) (follow next capture) input caps =
      follow next capture (input.dropWhile isAsciiDigit)
        (captureNumber group (input.takeWhile isAsciiDigit) caps) := by
  rw [exec, exec_group_digits group (follows.rejects capture), captureNumber]
  cases input with
  | nil => rfl
  | cons byte rest =>
    by_cases digit : isAsciiDigit byte
    · rw [takeWhile_cons_of_pos digit, dropWhile_cons_of_pos digit,
        follows.rejects capture byte rest caps digit, Option.or_none]
      rfl
    · rw [takeWhile_cons_of_neg digit, dropWhile_cons_of_neg digit]
      rfl

lemma exec_separator_cons (next : Continuation Group UInt8 β) (byte : UInt8)
    (rest : List UInt8) (caps : Captures Group UInt8) :
    exec separator next (byte :: rest) caps =
      if Parser.isSeparator byte then next rest caps else none := by
  rw [separator, exec]

lemma separator_not_digit (separates : Parser.isSeparator byte) :
    ¬ isAsciiDigit byte := by
  rw [isSeparator_iff] at separates
  rw [isAsciiDigit_iff]
  omega

/-- The end of a suffix: separator and digits are taken whenever they are there. -/
lemma exec_suffix_number (follows : Follows next)
    (capture : δ -> Captures Group UInt8 -> Captures Group UInt8) (group : Group)
    (input : List UInt8) (caps : Captures Group UInt8) :
    exec (.seq (.opt separator) (.opt (.group group digits))) (follow next capture) input caps =
      follow next capture (scanNumber input).2
        (captureNumber group (scanNumber input).1 caps) := by
  rw [exec, exec, exec_opt_digits follows, scanNumber]
  cases input with
  | nil => rfl
  | cons byte rest =>
    rw [exec_separator_cons, afterSeparator]
    by_cases separates : Parser.isSeparator byte
    · have notDigit := separator_not_digit separates
      rw [if_pos separates, if_pos separates, exec_opt_digits follows,
        dropWhile_cons_of_neg notDigit]
      -- The alternative leaves the separator to the rest of the grammar.
      cases taken : next (rest.dropWhile isAsciiDigit) with
      | some data =>
        rw [show follow next capture (rest.dropWhile isAsciiDigit) _ = some _ by
          rw [follow, taken]; rfl]
        rfl
      | none =>
        rw [show follow next capture (rest.dropWhile isAsciiDigit) _ = none by
          rw [follow, taken]; rfl]
        rw [follow, follows.rejects_separator byte rest separates taken]
        rfl
    · rw [if_neg separates, if_neg separates, Option.none_or]

/-- How the spellings tried by the scanner relate to the words of the grammar. -/
structure Spelled (words : List String) (spellings : List (String × κ))
    (next : List UInt8 -> Option δ) : Prop where
  no_word : ∀ input, findSpelling spellings input = none ->
    ∀ text ∈ words, startsWithIgnoreAsciiCase (asBytes text) input = false
  /-- The spelling found is a word, and every other word that matches leads nowhere. -/
  word_found : ∀ input kind length, findSpelling spellings input = some (kind, length) ->
    ∃ text ∈ words, (asBytes text).length = length /\
      startsWithIgnoreAsciiCase (asBytes text) input = true /\
      ∀ other ∈ words, other ≠ text ->
        startsWithIgnoreAsciiCase (asBytes other) input = true ->
        next (scanNumber (input.drop (asBytes other).length)).2 = none
  word_start : ∀ text ∈ words, ∀ byte rest,
    startsWithIgnoreAsciiCase (asBytes text) (byte :: rest) = true ->
    Parser.isSeparator byte = false
  /-- The rest of the grammar does not match where the suffix does. -/
  no_skip : ∀ input found, findSpelling spellings (afterSeparator input) = some found ->
    next input = none

lemma findSome?_cons_or {τ υ : Type} (test : τ -> Option υ) (head : τ) (tail : List τ) :
    (head :: tail).findSome? test = (test head).or (tail.findSome? test) := by
  rw [findSome?_cons]
  cases test head <;> rfl

lemma exec_words (first : String) (words : List String)
    (next : Continuation Group UInt8 β) (input : List UInt8) (caps : Captures Group UInt8) :
    exec (oneOf ((first :: words).map word)) next input caps =
      (first :: words).findSome? fun text =>
        if startsWithIgnoreAsciiCase (asBytes text) input then
          next (input.drop (asBytes text).length) caps
        else none := by
  induction words generalizing first with
  | nil =>
    rw [map_cons, map_nil, oneOf, exec_word, findSome?_cons_or, findSome?_nil, Option.or_none]
  | cons second words ih =>
    rw [map_cons, map_cons, oneOf, exec, exec_word, <- map_cons, ih second,
      findSome?_cons_or _ first]
    intro empty
    cases empty

/-- A search in which only one element can succeed. -/
lemma findSome?_eq_of_unique {τ υ : Type} {list : List τ} {test : τ -> Option υ} {chosen : τ}
    (mem : chosen ∈ list) (others : ∀ other ∈ list, other ≠ chosen ->
      test other = none) : list.findSome? test = test chosen := by
  induction list with
  | nil => cases mem
  | cons head tail ih =>
    rw [findSome?_cons]
    by_cases same : head = chosen
    · subst same
      cases found : test head with
      | some value => rfl
      | none =>
        rw [findSome?_eq_none_iff]
        intro other inside
        by_cases again : other = head
        · exact again ▸ found
        · exact others other (mem_cons_of_mem _ inside) again
    · rw [others head mem_cons_self same]
      refine ih ((mem_cons.mp mem).resolve_left fun eq => same eq.symm) ?_
      intro other inside
      exact others other (mem_cons_of_mem _ inside)

lemma length_le_of_startsWith {needle : List UInt8}
    (starts : startsWithIgnoreAsciiCase needle input) : needle.length <= input.length := by
  rw [startsWithIgnoreAsciiCase, Bool.and_eq_true, decide_eq_true_eq] at starts
  exact starts.1

variable {words : List String} {spellings : List (String × κ)}

variable {next : List UInt8 -> Option δ} (follows : Follows next)
  (spelled : Spelled words spellings next) (nonempty : words ≠ [])
  (capture : δ -> Captures Group UInt8 -> Captures Group UInt8) (letters number : Group)

include follows spelled nonempty

/-- The letters and the number of a suffix, where its spelling has been found. -/
lemma exec_suffix_body (input : List UInt8) (caps : Captures Group UInt8) :
    exec (.seq (.group letters (oneOf (words.map word)))
        (.seq (.opt separator) (.opt (.group number digits)))) (follow next capture) input caps =
      match findSpelling spellings input with
      | none => none
      | some (_, length) =>
        follow next capture (scanNumber (input.drop length)).2
          (captureNumber number (scanNumber (input.drop length)).1
            (caps.set letters (input.take length))) := by
  obtain ⟨first, others, rfl⟩ := exists_cons_of_ne_nil nonempty
  rw [exec, exec, exec_words]
  cases found : findSpelling spellings input with
  | none =>
    rw [findSome?_eq_none_iff]
    intro text mem
    rw [spelled.no_word input found text mem, if_neg Bool.false_ne_true]
  | some result =>
    obtain ⟨kind, length⟩ := result
    obtain ⟨text, mem, lengthEq, starts, stuck⟩ := spelled.word_found input kind length found
    subst lengthEq
    have fits := length_le_of_startsWith starts
    rw [findSome?_eq_of_unique mem, if_pos starts, exec_suffix_number follows, length_drop,
      Nat.sub_sub_self fits]
    intro other inside different
    split
    next matched =>
      rw [exec_suffix_number follows, follow, stuck other inside different matched, Option.map_none]
    next => rfl

lemma exec_suffix_body_separator (byte : UInt8) (rest : List UInt8) (caps : Captures Group UInt8)
    (separates : Parser.isSeparator byte) :
    exec (.seq (.group letters (oneOf (words.map word)))
        (.seq (.opt separator) (.opt (.group number digits)))) (follow next capture)
        (byte :: rest) caps = none := by
  rw [exec_suffix_body follows spelled nonempty]
  cases found : findSpelling spellings (byte :: rest) with
  | none => rfl
  | some result =>
    obtain ⟨kind, length⟩ := result
    obtain ⟨text, mem, _, starts, _⟩ := spelled.word_found _ kind length found
    rw [spelled.word_start text mem byte rest starts] at separates
    cases separates

/-- An optional suffix of the grammar is read as the scanner reads it. -/
lemma exec_opt_suffix (input : List UInt8) (caps : Captures Group UInt8) :
    exec (.opt (suffix words letters number)) (follow next capture) input caps =
      follow (suffixThen spellings next)
        (fun data caps => capture data.2 (captureSuffix letters number data.1 caps))
        input caps := by
  have body : exec (suffix words letters number) (follow next capture) input caps =
      match findSpelling spellings (afterSeparator input) with
      | none => none
      | some (_, length) =>
        follow next capture (scanNumber ((afterSeparator input).drop length)).2
          (captureNumber number (scanNumber ((afterSeparator input).drop length)).1
            (caps.set letters ((afterSeparator input).take length))) := by
    rw [suffix, exec, exec]
    cases input with
    | nil =>
      rw [show exec separator _ [] caps = none from rfl, Option.none_or,
        exec_suffix_body follows spelled nonempty]
      rfl
    | cons byte rest =>
      rw [exec_separator_cons, afterSeparator]
      by_cases separates : Parser.isSeparator byte
      · rw [if_pos separates, if_pos separates,
          exec_suffix_body_separator follows spelled nonempty _ _ _ _ _ _ separates,
          Option.or_none, exec_suffix_body follows spelled nonempty]
      · rw [if_neg separates, if_neg separates, Option.none_or,
          exec_suffix_body follows spelled nonempty]
  rw [exec, body]
  simp only [follow, suffixThen, scanSuffix]
  cases found : findSpelling spellings (afterSeparator input) with
  | none =>
    simp only [Option.none_or, Option.map_map]
    rfl
  | some result =>
    simp only [spelled.no_skip input result found, Option.map_none, Option.or_none, Option.map_map]
    rfl

end

/-! ## Words -/

/-- A byte in lower case, as a number. -/
def lowerNat (byte : UInt8) : Nat := (toAsciiLowercase byte).toNat

lemma lowerNat_eq (byte : UInt8) :
    lowerNat byte = if 65 <= byte.toNat /\ byte.toNat <= 90 then byte.toNat + 32 else byte.toNat :=
  toNat_toAsciiLowercase byte

/-- A word comes next when its letters are a prefix, up to case. -/
lemma startsWith_iff_initial (needle input : List UInt8) :
    startsWithIgnoreAsciiCase needle input <->
      needle.map lowerNat <+: input.map lowerNat := by
  rw [startsWithIgnoreAsciiCase_eq]
  induction needle generalizing input with
  | nil => simp [startsWith]
  | cons byte needle ih =>
    cases input with
    | nil => simp [startsWith]
    | cons other input =>
      rw [map_cons, startsWith, Bool.and_eq_true, eqIgnoreAsciiCase_iff, ih input,
        map_cons, map_cons, cons_prefix_cons]
      rfl

lemma startsWith_head {byte other : UInt8} {needle : List UInt8}
    (starts : startsWithIgnoreAsciiCase (byte :: needle) (other :: input)) :
    lowerNat byte = lowerNat other := by
  rw [startsWith_iff_initial, map_cons, map_cons, cons_prefix_cons] at starts
  exact starts.1

/-- After a part of a word comes the next letter of the word. -/
lemma startsWith_next {part rest : List UInt8}
    (starts : startsWithIgnoreAsciiCase (part ++ byte :: rest) input) :
    ∃ other tail, input.drop part.length = other :: tail /\ lowerNat byte = lowerNat other := by
  induction part generalizing input with
  | nil =>
    cases input with
    | nil => cases starts
    | cons other tail => exact ⟨other, tail, rfl, startsWith_head starts⟩
  | cons first part ih =>
    cases input with
    | nil => cases starts
    | cons other tail =>
      refine ih ?_
      rw [startsWith_iff_initial, cons_append, map_cons, map_cons, cons_prefix_cons] at starts
      exact (startsWith_iff_initial _ _).mpr starts.2

lemma letter_not_separator (letter : 97 <= lowerNat byte) :
    ¬ Parser.isSeparator byte := by
  rw [lowerNat_eq] at letter
  rw [isSeparator_iff]
  split at letter <;> omega

lemma letter_not_digit (letter : 97 <= lowerNat byte) :
    ¬ isAsciiDigit byte := by
  rw [lowerNat_eq] at letter
  rw [isAsciiDigit_iff]
  split at letter <;> omega

variable (rest : List UInt8)

lemma afterSeparator_letter (letter : 97 <= lowerNat byte) :
    afterSeparator (byte :: rest) = byte :: rest := by
  rw [afterSeparator, if_neg (letter_not_separator letter)]

/-- A letter is neither a separator nor a digit, so a number does not start there. -/
lemma scanNumber_letter (letter : 97 <= lowerNat byte) :
    scanNumber (byte :: rest) = ([], byte :: rest) := by
  rw [scanNumber, afterSeparator_letter rest letter,
    takeWhile_cons_of_neg (letter_not_digit letter),
    dropWhile_cons_of_neg (letter_not_digit letter)]

/-! ## Rejected bytes -/

lemma localScan_cons (byte : UInt8) (rest : List UInt8) (notPlus : byte.toNat ≠ 43) :
    localScan (byte :: rest) = if atEnd (byte :: rest) then some none else none := by
  unfold localScan
  split
  next plus => exact absurd (by rw [(cons.inj plus).1]; rfl) notPlus
  next => rfl

lemma localScan_none (notPlus : byte.toNat ≠ 43)
    (notSpace : ¬ isAsciiWhitespace byte) : localScan (byte :: rest) = none := by
  rw [localScan_cons byte rest notPlus, atEnd, all_cons, Bool.eq_false_iff.mpr notSpace,
    Bool.false_and, if_neg Bool.false_ne_true]

lemma localScan_separator
    (separates : Parser.isSeparator byte) : localScan (byte :: rest) = none := by
  rw [isSeparator_iff] at separates
  refine localScan_none rest (by omega) ?_
  rw [isAsciiWhitespace_iff]
  omega

lemma localScan_letter (letter : 97 <= lowerNat byte) :
    localScan (byte :: rest) = none := by
  rw [lowerNat_eq] at letter
  refine localScan_none rest ?_ ?_
  · split at letter <;> omega
  · rw [isAsciiWhitespace_iff]
    split at letter <;> omega

lemma localScan_follows : Follows localScan where
  rejects_digit byte rest digit := by
    rw [isAsciiDigit_iff] at digit
    refine localScan_none rest (by omega) ?_
    rw [isAsciiWhitespace_iff]
    omega
  rejects_separator byte rest separates _ := localScan_separator rest separates

/-! ## First letters -/

section

variable {κ δ : Type} {spellings : List (String × κ)}

/-- The first letters of the spellings, in lower case. -/
def Initials (spellings : List (String × κ)) (initials : List Nat) : Prop :=
  ∀ entry ∈ spellings, ∃ first others,
    asBytes entry.1 = first :: others /\ lowerNat first ∈ initials

variable {initials : List Nat}

lemma findSpelling_head (start : Initials spellings initials)
    {found : κ × Nat} (spelled : findSpelling spellings input = some found) :
    ∃ byte rest, input = byte :: rest /\ lowerNat byte ∈ initials := by
  induction spellings with
  | nil => cases spelled
  | cons entry spellings ih =>
    obtain ⟨first, others, bytes, initial⟩ := start entry mem_cons_self
    rw [findSpelling] at spelled
    split at spelled
    next starts =>
      rw [bytes] at starts
      cases input with
      | nil => cases starts
      | cons byte rest => exact ⟨byte, rest, rfl, startsWith_head starts ▸ initial⟩
    next => exact ih (forall_mem_cons.mp start).2 spelled

variable (start : Initials spellings initials)

include start

lemma findSpelling_none (rest : List UInt8) (apart : lowerNat byte ∉ initials) :
    findSpelling spellings (byte :: rest) = none := by
  cases spelled : findSpelling spellings (byte :: rest) with
  | none => rfl
  | some found =>
    obtain ⟨other, tail, same, initial⟩ := findSpelling_head start spelled
    cases same
    exact absurd initial apart

/-- The suffix is absent when neither a separator nor one of its letters comes next. -/
lemma suffixThen_other (next : List UInt8 -> Option δ) (rest : List UInt8)
    (notSeparator : ¬ Parser.isSeparator byte) (apart : lowerNat byte ∉ initials) :
    suffixThen spellings next (byte :: rest) = (next (byte :: rest)).map fun data => (none, data) := by
  rw [suffixThen, scanSuffix, afterSeparator, if_neg notSeparator, findSpelling_none start rest apart]

/-- A separator in front of the letters makes no difference. -/
lemma suffixThen_separator (letters : ∀ initial ∈ initials, 97 <= initial)
    (next : List UInt8 -> Option δ) {rest : List UInt8} {found : κ × Nat}
    (separates : Parser.isSeparator byte)
    (spelled : findSpelling spellings rest = some found) :
    suffixThen spellings next (byte :: rest) = suffixThen spellings next rest := by
  obtain ⟨other, tail, rfl, initial⟩ := findSpelling_head start spelled
  have same : afterSeparator (other :: tail) = other :: tail :=
    afterSeparator_letter tail (letters _ initial)
  rw [suffixThen, suffixThen, scanSuffix, scanSuffix, afterSeparator, if_pos separates, same,
    spelled]

/-- A scanner for an optional suffix may be followed by one more suffix. -/
lemma suffixThen_follows (letters : ∀ initial ∈ initials, 97 <= initial)
    {next : List UInt8 -> Option δ} (follows : Follows next)
    (continues : ∀ input, suffixThen spellings next input = none -> next input = none) :
    Follows (suffixThen spellings next) where
  rejects_digit byte rest digit := by
    rw [suffixThen_other start next rest, follows.rejects_digit byte rest digit, Option.map_none]
    · intro separates
      exact separator_not_digit separates digit
    · intro initial
      exact letter_not_digit (letters _ initial) digit
  rejects_separator byte rest separates stuck := by
    cases spelled : findSpelling spellings rest with
    | none =>
      have absent : scanSuffix spellings (byte :: rest) = none := by
        rw [scanSuffix, afterSeparator, if_pos separates, spelled]
      rw [suffixThen, absent]
      simp only
      rw [follows.rejects_separator byte rest separates (continues _ stuck), Option.map_none]
    | some found =>
      rw [suffixThen_separator start letters next separates spelled]
      obtain ⟨other, tail, rfl, initial⟩ := findSpelling_head start spelled
      rw [dropWhile_cons_of_neg (letter_not_digit (letters _ initial))] at stuck
      exact stuck

end

end Scan

end Uv.Pep440
