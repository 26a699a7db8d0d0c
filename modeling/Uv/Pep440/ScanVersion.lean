import Uv.Pep440.Scan

namespace Uv.Pep440

open Library List Option
open Library.Regex

/-!
# The matcher reads as the scanner does

From the local version back to the epoch, each optional part of the grammar is
matched the way the scanner reads it, given that the parts after it are.  The last
section removes whitespace at both ends of the text.
-/

namespace Scan

open Grammar

/-! ## Dev releases and local versions -/

def captureLocal (text : Option (List UInt8)) (caps : Captures Group UInt8) :
    Captures Group UInt8 :=
  match text with
  | none => caps
  | some text => caps.set .localText text

/-- The end of the input as a continuation. -/
def finish : Continuation Group UInt8 (Captures Group UInt8) :=
  fun rest caps => if atEnd rest then some caps else none

variable {byte : UInt8}

lemma finish_cons (rest : List UInt8) (caps : Captures Group UInt8)
    (notSpace : ¬ isAsciiWhitespace byte) : finish (byte :: rest) caps = none := by
  rw [finish, atEnd, all_cons, Bool.eq_false_iff.mpr notSpace, Bool.false_and,
    if_neg Bool.false_ne_true]

lemma finish_rejects_alphanumeric : Rejects finish isAsciiAlphanumeric := by
  intro byte rest caps accepted
  refine finish_cons rest caps ?_
  rw [isAsciiAlphanumeric_iff] at accepted
  rw [isAsciiWhitespace_iff]
  omega

lemma finish_rejects_separator : Rejects finish Parser.isSeparator := by
  intro byte rest caps separates
  refine finish_cons rest caps ?_
  rw [isSeparator_iff] at separates
  rw [isAsciiWhitespace_iff]
  omega

/-- A byte that is no letter has one case. -/
lemma lowerNat_mark {mark : UInt8} (byte : UInt8) (single : mark.toNat < 65) :
    lowerNat mark = lowerNat byte <-> byte = mark := by
  rw [lowerNat_eq, lowerNat_eq, <- UInt8.toNat_inj, if_neg (by omega)]
  split <;> omega

/-- A word of one byte that is not a letter. -/
lemma startsWith_mark (mark byte : UInt8) (rest : List UInt8) (single : mark.toNat < 65) :
    startsWithIgnoreAsciiCase [mark] (byte :: rest) <-> byte = mark := by
  rw [startsWith_iff_initial, map_cons, map_cons, cons_prefix_cons, lowerNat_mark byte single]
  simp only [map_nil, nil_prefix, and_true]

variable {text : String}

lemma exec_mark {β : Type} (mark : UInt8) (bytes : asBytes text = [mark])
    (plain : mark.toNat < 65) (next : Continuation Group UInt8 β) (byte : UInt8)
    (rest : List UInt8) (caps : Captures Group UInt8) :
    exec (word text) next (byte :: rest) caps =
      if byte = mark then next rest caps else none := by
  have starts := startsWith_mark mark byte rest plain
  rw [exec_word, bytes]
  by_cases same : byte = mark
  · rw [if_pos (starts.mpr same), if_pos same]
    rfl
  · rw [if_neg (fun found => same (starts.mp found)), if_neg same]

variable (input : List UInt8) (caps : Captures Group UInt8)

/-- The runs of a local version and the end of the input. -/
lemma exec_runs :
    exec (.group .localText (.seq (plus (.chars isAsciiAlphanumeric))
        (.star (.seq separator (plus (.chars isAsciiAlphanumeric)))))) finish input caps =
      if (input.takeWhile isAsciiAlphanumeric).isEmpty then none
      else finish (afterRuns input)
        (caps.set .localText (input.take (input.length - (afterRuns input).length))) := by
  have disjoint : ∀ byte, Parser.isSeparator byte ->
      isAsciiAlphanumeric byte = false := by
    intro byte separates
    rw [Bool.eq_false_iff, ne_eq, isAsciiAlphanumeric_iff]
    rw [isSeparator_iff] at separates
    omega
  have star (input : List UInt8) (caps : Captures Group UInt8) (whole : List UInt8) :
      exec (.star (.seq separator (plus (.chars isAsciiAlphanumeric))))
        (fun rest caps =>
          finish rest (caps.set .localText (whole.take (whole.length - rest.length))))
        input caps =
      finish (skipItems Parser.isSeparator isAsciiAlphanumeric (input.length + 1) input)
        (caps.set .localText (whole.take (whole.length -
          (skipItems Parser.isSeparator isAsciiAlphanumeric (input.length + 1) input).length))) := by
    rw [separator, exec_star_separated disjoint]
    · exact fun byte rest caps accepted => finish_rejects_alphanumeric byte rest _ accepted
    · exact fun byte first rest caps separates _ =>
        finish_rejects_separator byte (first :: rest) _ separates
  rw [exec, exec, exec_plus_chars]
  · simp only [star, afterRuns]
  · -- The repetition cannot start inside the run that precedes it.
    intro byte rest caps accepted
    have apart : Parser.isSeparator byte = false := by
      rw [Bool.eq_false_iff]
      intro separates
      rw [disjoint byte separates] at accepted
      cases accepted
    rw [star, skipItems, apart, Bool.false_and, if_neg Bool.false_ne_true]
    exact finish_rejects_alphanumeric byte rest _ accepted

lemma exec_opt_local :
    exec (.opt localVersion) finish input caps =
      follow localScan captureLocal input caps := by
  rw [exec, Grammar.localVersion, exec]
  cases input with
  | nil => rfl
  | cons byte rest =>
    rw [exec_mark 43 rfl (by decide)]
    by_cases plus : byte = 43
    · subst plus
      have skipped : finish (43 :: rest) caps = none := finish_cons rest caps (by decide)
      rw [if_pos rfl, exec_runs, skipped, or_none]
      simp only [follow, localScan, finish]
      split
      · rfl
      · split <;> rfl
    · have notPlus : byte.toNat ≠ 43 := fun same => plus (UInt8.toNat_inj.mp same)
      rw [if_neg plus, none_or, follow, localScan_cons byte rest notPlus, finish]
      split <;> rfl

lemma dev_initials : Initials [("dev", ())] [100] := by
  intro entry mem
  rw [mem_singleton.mp mem]
  exact ⟨100, [101, 118], rfl, by decide⟩

lemma post_initials : Initials Parser.postSpellings [112, 114] := by
  intro entry mem
  simp only [Parser.postSpellings, mem_cons, not_mem_nil, or_false] at mem
  rcases mem with rfl | rfl | rfl
  · exact ⟨112, [111, 115, 116], rfl, by decide⟩
  · exact ⟨114, [101, 118], rfl, by decide⟩
  · exact ⟨114, [], rfl, by decide⟩

lemma pre_initials : Initials Parser.preSpellings [97, 98, 99, 112, 114] := by
  intro entry mem
  simp only [Parser.preSpellings, mem_cons, not_mem_nil, or_false] at mem
  rcases mem with rfl | rfl | rfl | rfl | rfl | rfl | rfl | rfl
  · exact ⟨97, [108, 112, 104, 97], rfl, by decide⟩
  · exact ⟨98, [101, 116, 97], rfl, by decide⟩
  · exact ⟨112, [114, 101, 118, 105, 101, 119], rfl, by decide⟩
  · exact ⟨112, [114, 101], rfl, by decide⟩
  · exact ⟨114, [99], rfl, by decide⟩
  · exact ⟨97, [], rfl, by decide⟩
  · exact ⟨98, [], rfl, by decide⟩
  · exact ⟨99, [], rfl, by decide⟩

section

variable {κ : Type} {spellings : List (String × κ)} {initials : List Nat}

/-- The local version does not match where a suffix does. -/
lemma localScan_no_skip (start : Initials spellings initials)
    (letters : ∀ initial ∈ initials, 97 <= initial) {input : List UInt8}
    {found : κ × Nat} (spelled : findSpelling spellings (afterSeparator input) = some found) :
    localScan input = none := by
  obtain ⟨byte, rest, after, initial⟩ := findSpelling_head start spelled
  cases input with
  | nil => cases after
  | cons first others =>
    by_cases separates : Parser.isSeparator first
    · exact localScan_separator others separates
    · rw [afterSeparator, if_neg separates] at after
      obtain ⟨rfl, rfl⟩ := cons.inj after
      exact localScan_letter _ (letters _ initial)

/-- Two suffixes with different first letters do not match in the same place. -/
lemma suffixThen_no_skip {κ' δ : Type} {inner : List (String × κ')} {innerInitials : List Nat}
    (start : Initials spellings initials) (innerStart : Initials inner innerInitials)
    (disjoint : ∀ initial ∈ initials, initial ∉ innerInitials)
    {next : List UInt8 -> Option δ} {input : List UInt8} {found : κ × Nat}
    (spelled : findSpelling spellings (afterSeparator input) = some found)
    (stuck : next input = none) : suffixThen inner next input = none := by
  obtain ⟨byte, rest, after, initial⟩ := findSpelling_head start spelled
  have absent : findSpelling inner (afterSeparator input) = none := by
    rw [after]
    exact findSpelling_none innerStart rest (disjoint _ initial)
  rw [suffixThen, scanSuffix, absent]
  simp only [stuck, map_none]

end

/-- Words that come next in the same place: one is the beginning of the other. -/
lemma startsWith_comparable {left right input : List UInt8}
    (first : startsWithIgnoreAsciiCase left input)
    (second : startsWithIgnoreAsciiCase right input) :
    left.map lowerNat <+: right.map lowerNat \/ right.map lowerNat <+: left.map lowerNat :=
  prefix_or_prefix_of_prefix ((startsWith_iff_initial _ _).mp first)
    ((startsWith_iff_initial _ _).mp second)

/-- A longer word leaves a letter after its beginning, where no number starts. -/
lemma next_none_after_part {δ : Type} {next : List UInt8 -> Option δ}
    {part rest input : List UInt8} (bytes : asBytes text = part ++ byte :: rest)
    (letter : 97 <= lowerNat byte)
    (stuck : ∀ other tail, lowerNat byte = lowerNat other -> next (other :: tail) = none)
    (starts : startsWithIgnoreAsciiCase (asBytes text) input) :
    next (scanNumber (input.drop part.length)).2 = none := by
  rw [bytes] at starts
  obtain ⟨other, tail, after, same⟩ := startsWith_next starts
  rw [after, scanNumber_letter tail (same ▸ letter)]
  exact stuck other tail same

section

variable {κ δ : Type} {spellings : List (String × κ)} {words : List String}

lemma findSpelling_eq_none_iff :
    findSpelling spellings input = none <->
      ∀ entry ∈ spellings, startsWithIgnoreAsciiCase (asBytes entry.1) input = false := by
  induction spellings with
  | nil => simp [findSpelling]
  | cons entry spellings ih =>
    rw [findSpelling, forall_mem_cons, <- ih]
    cases startsWithIgnoreAsciiCase (asBytes entry.1) input <;> simp

/-- The spelling found is the first one that matches. -/
lemma findSpelling_some {input : List UInt8} {found : κ × Nat}
    (spelled : findSpelling spellings input = some found) :
    ∃ before entry after,
      spellings = before ++ entry :: after /\ found = (entry.2, (asBytes entry.1).length) /\
      startsWithIgnoreAsciiCase (asBytes entry.1) input /\
      ∀ earlier ∈ before, startsWithIgnoreAsciiCase (asBytes earlier.1) input = false := by
  induction spellings with
  | nil => cases spelled
  | cons entry spellings ih =>
    rw [findSpelling] at spelled
    split at spelled
    next starts =>
      cases spelled
      exact ⟨[], entry, spellings, rfl, rfl, starts, fun _ inside => by cases inside⟩
    next apart =>
      obtain ⟨before, chosen, after, rfl, same, starts, earlier⟩ := ih spelled
      refine ⟨entry :: before, chosen, after, rfl, same, starts, ?_⟩
      intro other inside
      rcases mem_cons.mp inside with rfl | inside
      · exact Bool.eq_false_iff.mpr apart
      · exact earlier other inside

/-- The letters of a word, in lower case. -/
def lowered (text : String) : List Nat := (asBytes text).map lowerNat

/-- Spellings that are tried longest first match like the words of the grammar,
if the rest of the grammar cannot go on inside a word. -/
lemma spelled_of {next : List UInt8 -> Option δ} {initials allowed : List Nat}
    (names : ∀ text, text ∈ words <-> text ∈ spellings.map Prod.fst)
    (ordered : (spellings.map Prod.fst).Pairwise fun earlier later =>
      ¬ lowered earlier <+: lowered later) (start : Initials spellings initials)
    (letters : ∀ initial ∈ initials, 97 <= initial)
    (stuck : ∀ byte rest, 97 <= lowerNat byte -> lowerNat byte ∉ allowed ->
      next (byte :: rest) = none)
    (parts : ∀ text ∈ words, ∀ part ∈ words, part ≠ text ->
      lowered part <+: lowered text -> ∃ byte rest,
        asBytes text = asBytes part ++ byte :: rest /\ 97 <= lowerNat byte /\ lowerNat byte ∉ allowed)
    (no_skip : ∀ input found, findSpelling spellings (afterSeparator input) = some found ->
      next input = none) : Spelled words spellings next where
  no_word input absent text mem := by
    obtain ⟨entry, inside, rfl⟩ := mem_map.mp ((names text).mp mem)
    exact (findSpelling_eq_none_iff input).mp absent entry inside
  word_found input kind length found := by
    obtain ⟨before, entry, after, split, same, starts, earlier⟩ := findSpelling_some found
    cases same
    have chosen : entry.1 ∈ words := by
      rw [names, split]
      simp
    refine ⟨entry.1, chosen, rfl, starts, ?_⟩
    intro other mem different otherStarts
    have later : other ∈ after.map Prod.fst := by
      have inside := (names other).mp mem
      rw [split, map_append, map_cons, mem_append, mem_cons] at inside
      rcases inside with inside | same | inside
      · obtain ⟨first, firstInside, rfl⟩ := mem_map.mp inside
        rw [earlier first firstInside] at otherStarts
        cases otherStarts
      · exact absurd same different
      · exact inside
    have notPart : ¬ lowered entry.1 <+: lowered other := by
      rw [split, map_append, map_cons, pairwise_append, pairwise_cons] at ordered
      exact ordered.2.1.1 other later
    have part := (startsWith_comparable starts otherStarts).resolve_left notPart
    obtain ⟨byte, rest, bytes, letter, outside⟩ :=
      parts entry.1 chosen other mem different part
    exact next_none_after_part bytes letter
      (fun _ tail same => stuck _ tail (same ▸ letter) (same ▸ outside)) starts
  word_start text mem byte rest starts := by
    obtain ⟨entry, inside, rfl⟩ := mem_map.mp ((names text).mp mem)
    obtain ⟨first, others, bytes, initial⟩ := start entry inside
    rw [bytes] at starts
    exact Bool.eq_false_iff.mpr
      (letter_not_separator (startsWith_head starts ▸ letters _ initial))
  no_skip := no_skip

end

lemma dev_spelled : Spelled ["dev"] [("dev", ())] localScan :=
  spelled_of (fun _ => Iff.rfl) (by decide) dev_initials (by decide)
    (fun _ rest letter (_ : _ ∉ []) => localScan_letter rest letter)
    (fun text mem part inside different => by
      rw [mem_singleton.mp mem, mem_singleton.mp inside] at different
      exact absurd rfl different)
    (fun _ _ spelled => localScan_no_skip dev_initials (by decide) spelled)

def captureDev (data : AfterPost) (caps : Captures Group UInt8) : Captures Group UInt8 :=
  captureLocal data.2 (captureSuffix .devL .devN data.1 caps)

variable (caps : Captures Group UInt8)

lemma exec_opt_dev :
    exec (.opt dev) (follow localScan captureLocal) input caps =
      follow devScan captureDev input caps :=
  exec_opt_suffix localScan_follows dev_spelled (cons_ne_nil _ _) captureLocal .devL .devN
    input caps

variable {words : List String}

/-- If nothing matches with an optional suffix, nothing matches without it. -/
lemma next_none_of_suffixThen {κ δ : Type} {spellings : List (String × κ)}
    {next : List UInt8 -> Option δ} (spelled : Spelled words spellings next) {input : List UInt8}
    (stuck : suffixThen spellings next input = none) : next input = none := by
  cases found : findSpelling spellings (afterSeparator input) with
  | some result => exact spelled.no_skip input result found
  | none =>
    rw [suffixThen, scanSuffix, found] at stuck
    exact map_eq_none_iff.mp stuck

lemma devScan_follows : Follows devScan :=
  suffixThen_follows dev_initials (by simp) localScan_follows
    fun _ => next_none_of_suffixThen dev_spelled

variable (rest : List UInt8)

lemma devScan_letter (letter : 97 <= lowerNat byte)
    (notD : lowerNat byte ≠ 100) : devScan (byte :: rest) = none := by
  rw [devScan, suffixThen_other dev_initials localScan rest (letter_not_separator letter)
    (by simpa using notD), localScan_letter rest letter, map_none]

/-! ## Post-releases -/

lemma post_parts : ∀ text ∈ postWords, ∀ part ∈ postWords,
    part ≠ text -> lowered part <+: lowered text -> ∃ byte rest,
      asBytes text = asBytes part ++ byte :: rest /\ 97 <= lowerNat byte /\ lowerNat byte ∉ [100] := by
  intro text mem part inside different isPart
  have pair : text = "rev" /\ part = "r" := by
    revert text part
    decide
  obtain ⟨rfl, rfl⟩ := pair
  exact ⟨101, _, rfl, by decide, by decide⟩

lemma post_spelled : Spelled postWords Parser.postSpellings devScan :=
  spelled_of (fun _ => Iff.rfl) (by decide) post_initials (by decide)
    (fun _ rest letter other => devScan_letter rest letter (by simpa using other)) post_parts
    (fun _ _ spelled => suffixThen_no_skip post_initials dev_initials (by decide) spelled
      (localScan_no_skip post_initials (by decide) spelled))

def capturePostText (text : Option PostText) (caps : Captures Group UInt8) :
    Captures Group UInt8 :=
  match text with
  | none => caps
  | some (.hyphen number) => caps.set .postN1 number
  | some (.word suffix) => captureSuffix .postL .postN2 (some suffix) caps

def capturePost (data : AfterPre) (caps : Captures Group UInt8) : Captures Group UInt8 :=
  captureDev data.2 (capturePostText data.1 caps)

/-- After a hyphen and digits there is no other post-release, nor anything else. -/
lemma hyphen_only {rest : List UInt8} (number : (rest.takeWhile isAsciiDigit).isEmpty = false) :
    suffixThen Parser.postSpellings devScan (45 :: rest) = none := by
  cases rest with
  | nil => cases number
  | cons byte rest =>
    have digit : isAsciiDigit byte := by
      cases test : isAsciiDigit byte with
      | true => rfl
      | false =>
        rw [takeWhile_cons_of_neg (Bool.eq_false_iff.mp test)] at number
        cases number
    have separates : Parser.isSeparator 45 := by decide
    have value : lowerNat byte <= 57 := by
      rw [isAsciiDigit_iff] at digit
      rw [lowerNat_eq]
      split <;> omega
    have notPost : findSpelling Parser.postSpellings (byte :: rest) = none :=
      findSpelling_none post_initials rest (by simp; omega)
    have notDev : findSpelling [("dev", ())] (byte :: rest) = none :=
      findSpelling_none dev_initials rest (by simp; omega)
    simp only [suffixThen, scanSuffix, devScan, afterSeparator, separates, if_true, notPost,
      notDev, localScan_separator (byte :: rest) separates, map_none]

lemma scanHyphen_cons (byte : UInt8) (rest : List UInt8) :
    scanHyphen (byte :: rest) =
      if byte = 45 /\ (rest.takeWhile isAsciiDigit).isEmpty = false then
        some (rest.takeWhile isAsciiDigit, rest.dropWhile isAsciiDigit)
      else none := by
  by_cases hyphen : byte = 45
  · subst hyphen
    rw [scanHyphen]
    cases (rest.takeWhile isAsciiDigit).isEmpty <;> simp
  · unfold scanHyphen
    split
    next same => exact absurd (cons.inj same).1 hyphen
    next => rw [if_neg fun both => hyphen both.1]

lemma exec_hyphen :
    exec (.seq (word "-") (.group .postN1 digits)) (follow devScan captureDev) input caps =
      match scanHyphen input with
      | none => none
      | some (number, rest) => follow devScan captureDev rest (caps.set .postN1 number) := by
  rw [exec]
  cases input with
  | nil => rfl
  | cons byte rest =>
    rw [exec_mark 45 rfl (by decide), exec_group_digits _ (devScan_follows.rejects captureDev),
      scanHyphen_cons]
    by_cases hyphen : byte = 45
    · rw [if_pos hyphen]
      cases (rest.takeWhile isAsciiDigit).isEmpty <;> simp [hyphen]
    · rw [if_neg hyphen, if_neg fun both => hyphen both.1]

lemma exec_opt_post :
    exec (.opt post) (follow devScan captureDev) input caps =
      follow postScan capturePost input caps := by
  have suffixes := exec_opt_suffix devScan_follows post_spelled (cons_ne_nil _ _) captureDev
    .postL .postN2 input caps
  rw [exec] at suffixes
  rw [exec, post, exec, Option.or_assoc, suffixes, exec_hyphen]
  simp only [follow, postScan]
  cases hyphen : scanHyphen input with
  | none =>
    simp only [Option.none_or, Option.map_map]
    congr 1
    funext data
    obtain ⟨suffix, rest⟩ := data
    cases suffix <;> rfl
  | some found =>
    -- The hyphen decides: a word does not match here.
    have stuck : suffixThen Parser.postSpellings devScan input = none := by
      cases input with
      | nil => cases hyphen
      | cons byte rest =>
        rw [scanHyphen_cons] at hyphen
        split at hyphen
        next both => exact both.1 ▸ hyphen_only both.2
        next => cases hyphen
    simp only [stuck, Option.map_none, Option.or_none, Option.map_map]
    rfl

lemma postWord_follows : Follows (suffixThen Parser.postSpellings devScan) :=
  suffixThen_follows post_initials (by decide) devScan_follows
    fun _ => next_none_of_suffixThen post_spelled

/-- A failed post-release fails as a word. -/
lemma postWord_none_of_postScan {input : List UInt8} (stuck : postScan input = none) :
    suffixThen Parser.postSpellings devScan input = none := by
  cases hyphen : scanHyphen input with
  | none =>
    rw [postScan, hyphen] at stuck
    exact map_eq_none_iff.mp stuck
  | some found =>
    cases input with
    | nil => cases hyphen
    | cons byte rest =>
      rw [scanHyphen_cons] at hyphen
      split at hyphen
      next both => exact both.1 ▸ hyphen_only both.2
      next => cases hyphen

lemma scanHyphen_none (notHyphen : byte.toNat ≠ 45) :
    scanHyphen (byte :: rest) = none := by
  rw [scanHyphen_cons, if_neg]
  rintro ⟨rfl, _⟩
  exact notHyphen rfl

lemma postScan_follows : Follows postScan where
  rejects_digit byte rest digit := by
    rw [postScan, scanHyphen_none rest (by rw [isAsciiDigit_iff] at digit; omega)]
    simp only [postWord_follows.rejects_digit byte rest digit, map_none]
  rejects_separator byte rest separates stuck := by
    have stuckWord := postWord_none_of_postScan stuck
    cases hyphen : scanHyphen (byte :: rest) with
    | none =>
      rw [postScan, hyphen]
      simp only [postWord_follows.rejects_separator byte rest separates stuckWord, map_none]
    | some found =>
      rw [postScan, hyphen]
      rw [scanHyphen_cons] at hyphen
      split at hyphen
      next both =>
        cases hyphen
        simp only [next_none_of_suffixThen post_spelled stuckWord, map_none]
      next => cases hyphen

lemma postScan_letter (letter : 97 <= lowerNat byte)
    (other : lowerNat byte ∉ [100, 112, 114]) : postScan (byte :: rest) = none := by
  simp only [mem_cons, not_mem_nil, or_false, not_or] at other
  have notHyphen : byte.toNat ≠ 45 := by
    rw [lowerNat_eq] at letter
    split at letter <;> omega
  have absent := suffixThen_other post_initials devScan rest (letter_not_separator letter)
    (by simp only [mem_cons, not_mem_nil, or_false]; omega)
  rw [postScan, scanHyphen_none rest notHyphen]
  simp only [absent, devScan_letter rest letter other.1, map_none]

/-! ## Pre-releases -/

lemma pre_parts : ∀ text ∈ preWords, ∀ part ∈ preWords,
    part ≠ text -> lowered part <+: lowered text -> ∃ byte rest,
      asBytes text = asBytes part ++ byte :: rest /\ 97 <= lowerNat byte /\
        lowerNat byte ∉ [100, 112, 114] := by
  intro text mem part inside different isPart
  have pairs : (text = "alpha" /\ part = "a") \/ (text = "beta" /\ part = "b") \/
      (text = "preview" /\ part = "pre") := by
    revert text part
    decide
  rcases pairs with ⟨rfl, rfl⟩ | ⟨rfl, rfl⟩ | ⟨rfl, rfl⟩
  · exact ⟨108, _, rfl, by decide, by decide⟩
  · exact ⟨101, _, rfl, by decide, by decide⟩
  · exact ⟨118, _, rfl, by decide, by decide⟩

lemma pre_post_comparable : ∀ entry ∈ Parser.preSpellings,
    ∀ other ∈ Parser.postSpellings,
      lowered entry.1 <+: lowered other.1 \/ lowered other.1 <+: lowered entry.1 ->
      entry.1 = "rc" /\ other.1 = "r" := by
  decide

variable {found : PrereleaseKind × Nat}

/-- Only `rc` and `r` start alike, and then the rest of `rc` is left over. -/
lemma pre_post_words {input : List UInt8} {other : Unit × Nat}
    (spelled : findSpelling Parser.preSpellings input = some found)
    (otherSpelled : findSpelling Parser.postSpellings input = some other) :
    other.2 = 1 /\ startsWithIgnoreAsciiCase (asBytes "rc") input := by
  obtain ⟨before, entry, after, split, _, starts, _⟩ := findSpelling_some spelled
  obtain ⟨before', entry', after', split', same, starts', _⟩ := findSpelling_some otherSpelled
  have mem : entry ∈ Parser.preSpellings := by
    rw [split]
    simp
  have mem' : entry' ∈ Parser.postSpellings := by
    rw [split']
    simp
  have pair := pre_post_comparable entry mem entry' mem' (startsWith_comparable starts starts')
  rw [pair.1] at starts
  rw [same, pair.2]
  exact ⟨rfl, starts⟩

lemma postScan_no_skip {input : List UInt8}
    (spelled : findSpelling Parser.preSpellings (afterSeparator input) = some found) :
    postScan input = none := by
  have stuck : devScan input = none :=
    suffixThen_no_skip pre_initials dev_initials (by decide) spelled
      (localScan_no_skip pre_initials (by decide) spelled)
  have notHyphen : scanHyphen input = none := by
    obtain ⟨byte, rest, after, initial⟩ := findSpelling_head pre_initials spelled
    cases input with
    | nil => rfl
    | cons first others =>
      rw [scanHyphen_cons, if_neg]
      rintro ⟨rfl, digits⟩
      change others = byte :: rest at after
      have letter : 97 <= lowerNat byte := by
        revert initial
        simp only [mem_cons, not_mem_nil, or_false]
        omega
      rw [after, takeWhile_cons_of_neg (letter_not_digit letter)] at digits
      cases digits
  rw [postScan, notHyphen]
  simp only [map_eq_none_iff]
  cases otherSpelled : findSpelling Parser.postSpellings (afterSeparator input) with
  | none =>
    rw [suffixThen, scanSuffix, otherSpelled]
    simp only [stuck, map_none]
  | some other =>
    obtain ⟨kind, length⟩ := other
    obtain ⟨single, starts⟩ := pre_post_words spelled otherSpelled
    have left : devScan (scanNumber ((afterSeparator input).drop (asBytes "r").length)).2 = none :=
      next_none_after_part (show asBytes "rc" = asBytes "r" ++ 99 :: [] from rfl) (by decide)
        (fun _ tail same => devScan_letter tail (same ▸ by decide) (same ▸ by decide)) starts
    rw [suffixThen, scanSuffix, otherSpelled]
    simp only at single
    subst single
    simp only [map_eq_none_iff]
    exact left

lemma pre_spelled : Spelled preWords Parser.preSpellings postScan :=
  spelled_of (by
      intro text
      simp only [preWords, Parser.preSpellings, map_cons, map_nil, mem_cons,
        not_mem_nil, or_false]
      constructor
      · rintro (h | h | h | h | h | h | h | h) <;> simp [h]
      · rintro (h | h | h | h | h | h | h | h) <;> simp [h])
    (by decide) pre_initials (by decide)
    (fun _ rest letter other => postScan_letter rest letter other) pre_parts
    (fun _ _ spelled => postScan_no_skip spelled)

def capturePre (data : AfterRelease) (caps : Captures Group UInt8) : Captures Group UInt8 :=
  capturePost data.2 (captureSuffix .preL .preN data.1 caps)

variable (caps : Captures Group UInt8)

lemma exec_opt_pre :
    exec (.opt pre) (follow postScan capturePost) input caps =
      follow preScan capturePre input caps :=
  exec_opt_suffix postScan_follows pre_spelled (cons_ne_nil _ _) capturePost .preL .preN
    input caps

lemma preScan_follows : Follows preScan :=
  suffixThen_follows pre_initials (by decide) postScan_follows
    fun _ => next_none_of_suffixThen pre_spelled

/-! ## Release and epoch -/

/-- The rest of the grammar after the release does not start with a dot and a digit. -/
lemma preScan_dot_digit {first : UInt8} (rest : List UInt8) (dot : isDot byte)
    (digit : isAsciiDigit first) : preScan (byte :: first :: rest) = none := by
  have separates : Parser.isSeparator byte := by
    rw [isDot_iff] at dot
    rw [isSeparator_iff]
    omega
  have value : lowerNat first <= 57 := by
    rw [isAsciiDigit_iff] at digit
    rw [lowerNat_eq]
    split <;> omega
  have notHyphen : scanHyphen (byte :: first :: rest) = none :=
    scanHyphen_none _ (by rw [isDot_iff] at dot; omega)
  have notPre : findSpelling Parser.preSpellings (first :: rest) = none :=
    findSpelling_none pre_initials rest (by simp; omega)
  have notPost : findSpelling Parser.postSpellings (first :: rest) = none :=
    findSpelling_none post_initials rest (by simp; omega)
  have notDev : findSpelling [("dev", ())] (first :: rest) = none :=
    findSpelling_none dev_initials rest (by simp; omega)
  simp only [preScan, postScan, devScan, suffixThen, scanSuffix, afterSeparator, separates,
    if_true, notPre, notPost, notDev, notHyphen, localScan_separator (first :: rest) separates,
    map_none]

/-- No part after the release starts with an exclamation mark or an asterisk. -/
lemma preScan_mark {mark : UInt8} (rest : List UInt8) (foreign : mark = 33 \/ mark = 42) :
    preScan (mark :: rest) = none := by
  have notSeparator : ¬ Parser.isSeparator mark := by
    rcases foreign with rfl | rfl <;> decide
  have stuck : localScan (mark :: rest) = none := by
    rcases foreign with rfl | rfl <;> exact localScan_none rest (by decide) (by decide)
  have noDev : devScan (mark :: rest) = none := by
    rw [devScan, suffixThen_other dev_initials _ rest notSeparator
      (by rcases foreign with rfl | rfl <;> decide), stuck, map_none]
  have noPost : postScan (mark :: rest) = none := by
    rw [postScan, scanHyphen_none rest (by rcases foreign with rfl | rfl <;> decide),
      suffixThen_other post_initials _ rest notSeparator
        (by rcases foreign with rfl | rfl <;> decide), noDev]
    rfl
  rw [preScan, suffixThen_other pre_initials _ rest notSeparator
    (by rcases foreign with rfl | rfl <;> decide), noPost, map_none]

def captureRelease (data : List UInt8 × AfterRelease) (caps : Captures Group UInt8) :
    Captures Group UInt8 :=
  capturePre data.2 (caps.set .release data.1)

lemma exec_release :
    exec release (follow preScan capturePre) input caps =
      follow releaseScan captureRelease input caps := by
  have disjoint : ∀ byte, isDot byte -> isAsciiDigit byte = false := by
    intro byte dot
    rw [Bool.eq_false_iff, ne_eq, isAsciiDigit_iff]
    rw [isDot_iff] at dot
    omega
  have star (input : List UInt8) (caps : Captures Group UInt8) (whole : List UInt8) :
      exec (.star (.seq (.chars isDot) (plus (.chars isAsciiDigit))))
        (fun rest caps =>
          follow preScan capturePre rest
            (caps.set .release (whole.take (whole.length - rest.length))))
        input caps =
      follow preScan capturePre (skipItems isDot isAsciiDigit (input.length + 1) input)
        (caps.set .release (whole.take (whole.length -
          (skipItems isDot isAsciiDigit (input.length + 1) input).length))) := by
    rw [exec_star_separated disjoint]
    · exact fun byte rest caps digit => preScan_follows.rejects capturePre byte rest _ digit
    · intro byte first rest caps dot digit
      change (preScan (byte :: first :: rest)).map _ = none
      rw [preScan_dot_digit rest dot digit, Option.map_none]
  rw [release, exec, exec, digits, exec_plus_chars]
  · rw [star]
    simp only [follow, releaseScan, afterNumbers]
    split
    · rfl
    · rw [Option.map_map]
      rfl
  · -- The repetition cannot start inside the number that precedes it.
    intro byte rest caps digit
    have apart : isDot byte = false := by
      rw [Bool.eq_false_iff]
      intro dot
      rw [disjoint byte dot] at digit
      cases digit
    rw [star, skipItems, apart, Bool.false_and, if_neg Bool.false_ne_true]
    exact preScan_follows.rejects capturePre byte rest _ digit

def captureEpoch (data : VersionScan) (caps : Captures Group UInt8) :
    Captures Group UInt8 :=
  captureRelease data.2 (match data.1 with
    | none => caps
    | some number => caps.set .epoch number)

lemma skipItems_other {separator item : UInt8 -> Bool} {rounds : Nat}
    (rest : List UInt8) (other : separator byte = false) :
    skipItems separator item rounds (byte :: rest) = byte :: rest := by
  cases rounds with
  | zero => rfl
  | succ rounds => rw [skipItems, other, Bool.false_and, if_neg Bool.false_ne_true]

lemma releaseScan_mark {input rest : List UInt8}
    (mark : input.dropWhile isAsciiDigit = 33 :: rest) : releaseScan input = none := by
  rw [releaseScan, afterNumbers]
  simp only [mark]
  rw [skipItems_other rest (by decide), preScan_mark rest (Or.inl rfl)]
  split <;> rfl

/-- An epoch is a number with an exclamation mark. -/
lemma exec_opt_epoch :
    exec (.opt epoch) (follow releaseScan captureRelease) input caps =
      follow epochScan captureEpoch input caps := by
  have number : Rejects (exec (word "!") (follow releaseScan captureRelease)) isAsciiDigit := by
    intro byte rest caps digit
    rw [exec_mark 33 rfl (by decide), if_neg]
    rintro rfl
    revert digit
    decide
  rw [exec, epoch, exec, exec_group_digits .epoch number]
  simp only [follow, epochScan]
  by_cases empty : (input.takeWhile isAsciiDigit).isEmpty
  · have absent : releaseScan input = none := by rw [releaseScan, if_pos empty]
    rw [if_pos empty, if_pos empty, absent]
    rfl
  · rw [if_neg empty, if_neg empty]
    cases after : input.dropWhile isAsciiDigit with
    | nil =>
      rw [show exec (word "!") _ [] _ = none from rfl, Option.none_or, Option.map_map]
      rfl
    | cons byte rest =>
      rw [exec_mark 33 rfl (by decide)]
      by_cases mark : byte = 33
      · subst mark
        rw [if_pos rfl, releaseScan_mark after, Option.map_none, Option.or_none]
        simp only [follow, Option.map_map]
        rfl
      · rw [if_neg mark, Option.none_or]
        split
        next same => exact absurd (cons.inj same).1 mark
        next =>
          rw [Option.map_map]
          rfl

lemma epochScan_v (letter : 97 <= lowerNat byte) :
    epochScan (byte :: rest) = none := by
  rw [epochScan, takeWhile_cons_of_neg (letter_not_digit letter)]
  rfl

lemma exec_opt_v :
    exec (.opt (word "v")) (follow epochScan captureEpoch) input caps =
      follow versionScan captureEpoch input caps := by
  rw [exec, exec_word]
  simp only [follow, versionScan, afterV]
  split
  next starts =>
    -- A version does not start with a letter otherwise.
    cases input with
    | nil => cases starts
    | cons byte rest =>
      have letter : 97 <= lowerNat byte := by
        rw [<- startsWith_head (show startsWithIgnoreAsciiCase (118 :: []) (byte :: rest)
          from starts)]
        decide
      rw [epochScan_v rest letter, map_none, or_none]
      rfl
  next => rw [none_or]

/-- The matcher of the grammar and the scanner agree, up to whitespace at the end. -/
lemma exec_version :
    exec Grammar.version finish input caps = follow versionScan captureEpoch input caps := by
  have locals : exec (.opt localVersion) finish = follow localScan captureLocal := by
    funext input caps
    exact exec_opt_local input caps
  have devs : exec (.opt dev) (follow localScan captureLocal) = follow devScan captureDev := by
    funext input caps
    exact exec_opt_dev input caps
  have posts : exec (.opt post) (follow devScan captureDev) = follow postScan capturePost := by
    funext input caps
    exact exec_opt_post input caps
  have pres : exec (.opt pre) (follow postScan capturePost) = follow preScan capturePre := by
    funext input caps
    exact exec_opt_pre input caps
  have releases : exec release (follow preScan capturePre) = follow releaseScan captureRelease := by
    funext input caps
    exact exec_release input caps
  have epochs : exec (.opt epoch) (follow releaseScan captureRelease) =
      follow epochScan captureEpoch := by
    funext input caps
    exact exec_opt_epoch input caps
  rw [Grammar.version, exec_seq, exec_seq, exec_seq, exec_seq, exec_seq, exec_seq, locals, devs,
    posts, pres, releases, epochs]
  exact exec_opt_v input caps

/-! ## Whitespace at the ends -/

lemma avoids_literal {α : Type} {test : α -> Bool} {tests : List (α -> Bool)}
    (avoids : ∀ accepts ∈ tests, ∀ letter, test letter -> accepts letter = false) :
    (literal tests : Regex Group α).Avoids test := by
  induction tests with
  | nil => exact trivial
  | cons accepts tests ih =>
    exact ⟨avoids accepts mem_cons_self,
      ih (forall_mem_cons.mp avoids).2⟩

lemma avoids_word (visible : (asBytes text).all (fun byte => 33 <= lowerNat byte)) :
    (word text).Avoids isAsciiWhitespace := by
  apply avoids_literal
  intro accepts mem byte space
  obtain ⟨letter, inside, rfl⟩ := mem_map.mp mem
  have bound := of_decide_eq_true (all_eq_true.mp visible letter inside)
  rw [Bool.eq_false_iff, ne_eq, eqIgnoreAsciiCase_iff]
  change ¬ lowerNat letter = lowerNat byte
  rw [isAsciiWhitespace_iff] at space
  rw [lowerNat_eq byte]
  split <;> omega

lemma avoids_digits : digits.Avoids isAsciiWhitespace := by
  have avoids : ∀ byte, isAsciiWhitespace byte -> isAsciiDigit byte = false := by
    intro byte space
    rw [Bool.eq_false_iff, ne_eq, isAsciiDigit_iff]
    rw [isAsciiWhitespace_iff] at space
    omega
  exact ⟨avoids, avoids⟩

lemma avoids_separator : separator.Avoids isAsciiWhitespace := by
  intro byte space
  rw [Bool.eq_false_iff, ne_eq, isSeparator_iff]
  rw [isAsciiWhitespace_iff] at space
  omega

lemma avoids_suffix {letters number : Group}
    (visible : (oneOf (words.map word)).Avoids isAsciiWhitespace) :
    (suffix words letters number).Avoids isAsciiWhitespace :=
  ⟨avoids_separator, visible, avoids_separator, avoids_digits⟩

lemma avoids_version : Grammar.version.Avoids isAsciiWhitespace := by
  have dot : ∀ byte, isAsciiWhitespace byte -> isDot byte = false := by
    intro byte space
    rw [Bool.eq_false_iff, ne_eq, isDot_iff]
    rw [isAsciiWhitespace_iff] at space
    omega
  have alphanumeric : ∀ byte, isAsciiWhitespace byte ->
      isAsciiAlphanumeric byte = false := by
    intro byte space
    rw [Bool.eq_false_iff, ne_eq, isAsciiAlphanumeric_iff]
    rw [isAsciiWhitespace_iff] at space
    omega
  refine ⟨avoids_word (by decide), ⟨avoids_digits, avoids_word (by decide)⟩,
    ⟨avoids_digits, dot, avoids_digits⟩, avoids_suffix ?_,
    ⟨⟨avoids_word (by decide), avoids_digits⟩, avoids_suffix ?_⟩, avoids_suffix ?_,
    avoids_word (by decide), ⟨alphanumeric, alphanumeric⟩, avoids_separator, alphanumeric,
    alphanumeric⟩
  · exact ⟨avoids_word (by decide), avoids_word (by decide), avoids_word (by decide),
      avoids_word (by decide), avoids_word (by decide), avoids_word (by decide),
      avoids_word (by decide), avoids_word (by decide)⟩
  · exact ⟨avoids_word (by decide), avoids_word (by decide), avoids_word (by decide)⟩
  · exact avoids_word (by decide)

/-- Texts that are empty or have a visible last letter. -/
def EndsVisibly (text : List UInt8) : Prop :=
  ∀ front byte, text = front ++ [byte] -> isAsciiWhitespace byte = false

lemma endsVisibly_tail (byte : UInt8) (rest : List UInt8) (visible : EndsVisibly (byte :: rest)) :
    EndsVisibly rest := by
  intro front last whole
  exact visible (byte :: front) last (by rw [whole, cons_append])

lemma trim_endsVisibly (text : List UInt8) : EndsVisibly (trim text) := by
  intro front byte whole
  rw [trim, reverse_eq_iff, reverse_append] at whole
  have first := head?_dropWhile_not isAsciiWhitespace
    (text.dropWhile isAsciiWhitespace).reverse
  rw [whole] at first
  exact first

/-- The grammar on the trimmed text is the scanner after leading whitespace. -/
lemma fullMatch_trim (text : List UInt8) :
    fullMatch Grammar.version (trim text) =
      (versionScan (text.dropWhile isAsciiWhitespace)).map
        fun data => captureEpoch data fun _ => none := by
  generalize bare : text.dropWhile isAsciiWhitespace = input
  have split : input = trim text ++ (input.reverse.takeWhile isAsciiWhitespace).reverse := by
    have parts := takeWhile_append_dropWhile (p := isAsciiWhitespace) (l := input.reverse)
    rw [trim, bare, <- reverse_append, parts, reverse_reverse]
  have spaces : atEnd (input.reverse.takeWhile isAsciiWhitespace).reverse := by
    rw [atEnd, all_reverse]
    exact all_takeWhile
  generalize (input.reverse.takeWhile isAsciiWhitespace).reverse = tail at split spaces
  -- What the matcher sees of the trimmed text never ends in whitespace.
  have agree : AgreeUpTo tail EndsVisibly
      (fun rest caps => if rest.isEmpty then some caps else none) finish := by
    intro rest visible caps
    rw [finish, atEnd, all_append]
    rw [atEnd] at spaces
    obtain empty | ⟨front, byte, whole⟩ := eq_nil_or_concat rest
    · simp [empty, spaces]
    · rw [concat_eq_append] at whole
      simp [whole, visible front byte whole]
  have foreign : ∀ byte rest, tail = byte :: rest -> isAsciiWhitespace byte := by
    intro byte rest shape
    rw [shape, atEnd, all_cons, Bool.and_eq_true] at spaces
    exact spaces.1
  rw [fullMatch, exec_append foreign endsVisibly_tail Grammar.version avoids_version _ _ agree
    (trim text) (trim_endsVisibly text), <- split, exec_version]
  rfl

end Scan

end Uv.Pep440
