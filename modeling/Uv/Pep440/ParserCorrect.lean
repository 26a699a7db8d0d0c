import Uv.Pep440.ParserScan

namespace Uv.Pep440

open Library List Uv.Pep440.Parser
open Library.Regex

/-!
# The parser accepts the grammar

The scanner stands between the parser and the grammar.  What is left is the fast
path, which reads at most four small numbers without it, and the comparison of
the two readings of a scan: the record that the parser fills in, and the
components that the grammar reads off its groups.
-/

variable {bytes : List UInt8} {version : Version}

namespace Scan

open Grammar

/-! ## The fast path -/

lemma pushDigit_toNat {cur digit next : UInt8} (pushed : Parser.pushDigit cur digit = some next) :
    next.toNat = cur.toNat * 10 + digit.toNat := by
  rw [pushDigit] at pushed
  split at pushed
  next product =>
    split at pushed
    next sum =>
      cases pushed
      rw [UInt8.toNat_add, UInt8.toNat_mul]
      change (cur.toNat * 10 % 2 ^ 8 + digit.toNat) % 2 ^ 8 = _
      rw [Nat.mod_eq_of_lt product, Nat.mod_eq_of_lt sum]
    next => cases pushed
  next => cases pushed

/-- A text of dotted numbers: its first field may continue a number, the others
are numbers of their own. -/
structure Dotted (started : Bool) (first : List UInt8) (others : List (List UInt8)) : Prop where
  first_digits : first.all isAsciiDigit = true
  first_nonempty : started = false -> first ≠ []
  others_digits : ∀ field ∈ others, field.all isAsciiDigit = true
  others_nonempty : ∀ field ∈ others, field ≠ []

variable {input : List UInt8}

/-- The fast loop reads dotted numbers and stores their values. -/
lemma fastLoop_dotted {prevDigit : Bool} {cur : UInt8} {release result : List UInt8}
    (found : Parser.fastLoop prevDigit cur release input = some result) :
    ∃ first others, fields isDot input = first :: others /\ Dotted prevDigit first others /\
      result.map UInt8.toNat =
        release.map UInt8.toNat ++ decimalFrom cur.toNat first :: others.map decimal := by
  fun_induction fastLoop prevDigit cur release input with
  | case2 prevDigit cur release started room =>
    cases found
    refine ⟨[], [], rfl, ⟨rfl, ?_, ?_, ?_⟩, ?_⟩
    · intro fresh
      rw [fresh] at started
      exact absurd rfl started
    · exact fun field inside => by cases inside
    · exact fun field inside => by cases inside
    · rw [map_append]
      rfl
  | case5 prevDigit cur release rest started room ih =>
    obtain ⟨first, others, split, dotted, values⟩ := ih found
    refine ⟨[], first :: others, ?_, ⟨rfl, ?_, ?_, ?_⟩, ?_⟩
    · rw [fields, if_pos (by decide), split]
    · intro fresh
      rw [fresh] at started
      exact absurd rfl started
    · intro field inside
      rcases mem_cons.mp inside with rfl | later
      · exact dotted.first_digits
      · exact dotted.others_digits field later
    · intro field inside
      rcases mem_cons.mp inside with rfl | later
      · exact dotted.first_nonempty rfl
      · exact dotted.others_nonempty field later
    · rw [values, map_append, append_assoc]
      rfl
  | case10 prevDigit cur release byte rest notDot low high next pushed ih =>
    obtain ⟨first, others, split, dotted, values⟩ := ih found
    have digit : isAsciiDigit byte := digit_of_not_refused low high
    refine ⟨byte :: first, others, ?_, ⟨?_, ?_, dotted.others_digits, dotted.others_nonempty⟩, ?_⟩
    · rw [fields, digit_not_dot byte digit, if_neg Bool.false_ne_true, split]
    · rw [all_cons, digit, dotted.first_digits]
      rfl
    · exact fun _ => cons_ne_nil _ _
    · rw [values, pushDigit_toNat pushed]
      rfl
  | _ => contradiction

variable {release : List UInt8}

/-- The five-byte special case gives what the loop gives. -/
lemma fastLoop_of_parseFast (found : Parser.parseFast bytes = some release) :
    Parser.fastLoop false 0 [] bytes = some release := by
  unfold parseFast at found
  split at found
  next major minor patch =>
    split at found
    next digits =>
      cases found
      simp only [Bool.and_eq_true, decide_eq_true_eq] at digits
      have step : ∀ byte : UInt8, byte - 48 <= 9 ->
          byte ≠ 46 /\ ¬ byte < 48 /\ ¬ byte - 48 > 9 /\ pushDigit 0 (byte - 48) = some (byte - 48) := by
        intro byte digit
        have low : ¬ byte < 48 := by
          intro below
          rw [UInt8.lt_iff_toNat_lt] at below
          rw [UInt8.le_iff_toNat_le, UInt8.toNat_sub] at digit
          change byte.toNat < 48 at below
          change (2 ^ 8 - 48 + byte.toNat) % 2 ^ 8 <= 9 at digit
          omega
        refine ⟨?_, low, UInt8.not_lt.mpr digit, ?_⟩
        · rintro rfl
          exact low (by decide)
        · have bound := (byte - 48).toNat_lt
          rw [pushDigit, if_pos (by decide), if_pos (by simpa using bound)]
          congr 1
          rw [UInt8.zero_mul, UInt8.zero_add]
      obtain ⟨notDot, low, high, pushed⟩ := step major digits.1.1
      obtain ⟨notDot', low', high', pushed'⟩ := step minor digits.1.2
      obtain ⟨notDot'', low'', high'', pushed''⟩ := step patch digits.2
      simp [fastLoop, notDot, low, high, pushed, notDot', low', high', pushed', notDot'',
        low'', high'', pushed'']
    next => exact found
  next => exact found

lemma fields_ne_nil (separator : UInt8 -> Bool) (input : List UInt8) :
    fields separator input ≠ [] := by
  cases input with
  | nil => exact cons_ne_nil _ _
  | cons byte input =>
    rw [fields]
    split
    · exact cons_ne_nil _ _
    · split <;> exact cons_ne_nil _ _

variable {first : List UInt8} {others : List (List UInt8)}

/-- The first field ends with the text or with a separator. -/
lemma fields_eq_cons {separator : UInt8 -> Bool}
    (split : fields separator input = first :: others) :
    (others = [] /\ input = first) \/
      ∃ byte rest, separator byte /\
        input = first ++ byte :: rest /\ fields separator rest = others := by
  induction input generalizing first others with
  | nil =>
    cases split
    exact Or.inl ⟨rfl, rfl⟩
  | cons byte input ih =>
    rw [fields] at split
    by_cases separates : separator byte
    · rw [if_pos separates] at split
      cases split
      exact Or.inr ⟨byte, input, separates, rfl, rfl⟩
    · rw [if_neg separates] at split
      cases inner : fields separator input with
      | nil => exact absurd inner (fields_ne_nil separator input)
      | cons field fields =>
        rw [inner] at split
        cases split
        rcases ih inner with ⟨last, whole⟩ | ⟨mark, rest, separates, whole, later⟩
        · exact Or.inl ⟨last, by rw [whole]⟩
        · exact Or.inr ⟨mark, rest, separates, by rw [whole, cons_append], later⟩

lemma dot_not_digit {byte : UInt8} (dot : isDot byte) : ¬ isAsciiDigit byte := by
  rw [isDot_iff] at dot
  rw [isAsciiDigit_iff]
  omega

lemma takeWhile_digits {byte : UInt8} (rest : List UInt8)
    (digits : first.all isAsciiDigit) (dot : isDot byte) :
    (first ++ byte :: rest).takeWhile isAsciiDigit = first /\
      (first ++ byte :: rest).dropWhile isAsciiDigit = byte :: rest := by
  rw [takeWhile_append_of_pos (all_eq_true.mp digits),
    takeWhile_cons_of_neg (dot_not_digit dot), append_nil,
    dropWhile_append_of_pos (all_eq_true.mp digits), dropWhile_cons_of_neg (dot_not_digit dot)]
  exact ⟨rfl, rfl⟩

/-- Dotted numbers are passed over as a whole. -/
lemma afterNumbers_dotted
    (split : fields isDot input = first :: others) (dotted : Dotted true first others)
    (rounds : Nat) (enough : (input.dropWhile isAsciiDigit).length < rounds) :
    input.takeWhile isAsciiDigit = first /\
      skipItems isDot isAsciiDigit rounds (input.dropWhile isAsciiDigit) = [] := by
  induction others generalizing input first rounds with
  | nil =>
    rcases fields_eq_cons split with ⟨_, rfl⟩ | ⟨byte, rest, _, _, later⟩
    · have digits := all_eq_true.mp dotted.first_digits
      rw [dropWhile_eq_nil_iff.mpr digits, takeWhile_eq_self_iff.mpr digits]
      refine ⟨rfl, ?_⟩
      cases rounds <;> rfl
    · exact absurd later (fields_ne_nil isDot rest)
  | cons field others ih =>
    rcases fields_eq_cons split with ⟨absent, _⟩ | ⟨byte, rest, dot, rfl, later⟩
    · cases absent
    · obtain ⟨taken, dropped⟩ := takeWhile_digits rest dotted.first_digits dot
      have fresh : Dotted true field others :=
        ⟨dotted.others_digits field mem_cons_self, nofun,
          fun other inside => dotted.others_digits other (mem_cons_of_mem _ inside),
          fun other inside => dotted.others_nonempty other (mem_cons_of_mem _ inside)⟩
      rw [dropped, length_cons] at enough
      have after : (rest.dropWhile isAsciiDigit).length <= rest.length :=
        (dropWhile_sublist _).length_le
      cases rounds with
      | zero => cases enough
      | succ rounds =>
        obtain ⟨number, ends⟩ := ih later fresh rounds (by omega)
        have nonempty : (rest.takeWhile isAsciiDigit).isEmpty = false := by
          rw [number, isEmpty_eq_false_iff]
          exact dotted.others_nonempty field mem_cons_self
        rw [taken, dropped, skipItems, dot, nonempty, Bool.not_false, Bool.true_and, if_pos rfl]
        exact ⟨rfl, ends⟩

/-- The scanner finds a release and nothing else in dotted numbers. -/
lemma versionScan_dotted
    (split : fields isDot input = first :: others) (dotted : Dotted false first others) :
    versionScan (input.dropWhile isAsciiWhitespace) = some (none, input, none, none, none, none) := by
  obtain ⟨number, ends⟩ := afterNumbers_dotted split
    ⟨dotted.first_digits, nofun, dotted.others_digits, dotted.others_nonempty⟩
    ((input.dropWhile isAsciiDigit).length + 1) (Nat.lt_succ_self _)
  have nonempty : ¬ (input.takeWhile isAsciiDigit).isEmpty := by
    rw [number, List.isEmpty_iff]
    exact dotted.first_nonempty rfl
  have unmarked : ∀ rest, input.dropWhile isAsciiDigit ≠ 33 :: rest := by
    intro rest marked
    rw [marked, skipItems_other rest (by decide)] at ends
    exact List.cons_ne_nil _ _ ends
  have release : releaseScan input = some (input, none, none, none, none) := by
    have after : afterNumbers input = [] := ends
    rw [releaseScan, if_neg nonempty, after, List.length_nil, Nat.sub_zero, List.take_length]
    rfl
  cases input with
  | nil => exact absurd rfl nonempty
  | cons byte rest =>
    have digit : isAsciiDigit byte := by
      by_contra other
      rw [List.takeWhile_cons_of_neg other] at nonempty
      exact nonempty rfl
    have notSpace : ¬ isAsciiWhitespace byte := by
      rw [isAsciiDigit_iff] at digit
      rw [isAsciiWhitespace_iff]
      omega
    have notV : ¬ startsWithIgnoreAsciiCase (asBytes "v") (byte :: rest) := by
      intro starts
      have letter := startsWith_head (show startsWithIgnoreAsciiCase (118 :: []) (byte :: rest)
        from starts)
      exact letter_not_digit (by rw [<- letter]; decide) digit
    rw [List.dropWhile_cons_of_neg notSpace, versionScan, afterV, if_neg notV, epochScan,
      if_neg nonempty]
    split
    next rest marked => exact absurd marked (unmarked rest)
    next => rw [release, Option.map_some]

/-! ## What the parser fills in -/

def value (digits : List UInt8) : UInt64 := UInt64.ofNat (decimal digits)

variable {digits : List UInt8}

lemma limited_bind_eq_some {β : Type} {next : UInt64 -> Option β} {result : β} :
    (limited digits).bind next = some result <->
      decimal digits < Components.limit /\ next (value digits) = some result := by
  rw [limited]
  split
  next fits => rw [Option.bind_some, value, and_iff_right fits]
  next large =>
    rw [Option.bind_none]
    exact iff_of_false (Option.some_ne_none result).symm fun both => large both.1

lemma mapM_limited {texts : List (List UInt8)} {numbers : List UInt64} :
    texts.mapM limited = some numbers <->
      (∀ text ∈ texts, decimal text < Components.limit) /\ texts.map value = numbers := by
  induction texts generalizing numbers with
  | nil => simp
  | cons text texts ih =>
    rw [mapM_cons, Option.bind_eq_bind, limited_bind_eq_some, Option.bind_eq_bind,
      Option.bind_eq_some_iff, forall_mem_cons, map_cons]
    simp only [ih, Option.pure_def, Option.some.injEq]
    constructor
    · rintro ⟨fits, rest, ⟨others, rfl⟩, rfl⟩
      exact ⟨⟨fits, others⟩, rfl⟩
    · rintro ⟨⟨fits, others⟩, rfl⟩
      exact ⟨fits, _, ⟨others, rfl⟩, rfl⟩

/-- Every number of a suffix that may be absent is below the limit. -/
def SuffixFits {κ : Type} (suffix : Option (SuffixText κ)) : Prop :=
  ∀ text, suffix = some text -> decimal text.number < Components.limit

lemma fillSuffix_eq_some {κ δ : Type} (fill : κ -> UInt64 -> Parser -> Parser)
    (fillNext : δ -> Parser -> Option Parser) (data : Option (SuffixText κ) × δ)
    (parser result : Parser) :
    fillSuffix fill fillNext data parser = some result <->
      SuffixFits data.1 /\ fillNext data.2
        (data.1.elim parser fun text => fill text.kind (value text.number) parser) = some result := by
  obtain ⟨suffix, data⟩ := data
  cases suffix with
  | none => exact ⟨fun filled => ⟨nofun, filled⟩, fun both => both.2⟩
  | some text =>
    rw [fillSuffix]
    simp only [limited_bind_eq_some]
    refine and_congr_left fun _ => ⟨?_, fun fits => fits text rfl⟩
    rintro fits other ⟨⟩
    exact fits

/-- The digits of a post-release, however it is written. -/
def PostText.number : PostText -> List UInt8
  | .hyphen number => number
  | .word suffix => suffix.number

variable (data : VersionScan)

/-- The components of a scan. -/
def parts : Components where
  epoch := data.1.elim 0 decimal
  release := (fields isDot data.2.1).map decimal
  pre := data.2.2.1.map fun text => (text.kind, decimal text.number)
  post := data.2.2.2.1.map fun text => decimal text.number
  dev := data.2.2.2.2.1.map fun text => decimal text.number
  localTexts := data.2.2.2.2.2.elim [] (fields Parser.isSeparator)

/-- The parser that has stored the numbers of a scan. -/
def filled : Parser where
  unread := []
  epoch := data.1.elim 0 value
  release := (fields isDot data.2.1).map value
  pre := data.2.2.1.map fun text => ⟨text.kind, value text.number⟩
  post := data.2.2.2.1.map fun text => value text.number
  dev := data.2.2.2.2.1.map fun text => value text.number
  localSegments := (data.2.2.2.2.2.elim [] (fields Parser.isSeparator)).map Parser.localSegment
  wildcard := false

lemma fillPost_eq_some (data : AfterPre) (parser result : Parser) :
    fillPost data parser = some result <->
      (∀ text, data.1 = some text -> decimal text.number < Components.limit) /\
        fillDev data.2 (data.1.elim parser fun text =>
          { parser with post := some (value text.number) }) = some result := by
  obtain ⟨text, data⟩ := data
  cases text with
  | none => exact ⟨fun filled => ⟨nofun, filled⟩, fun both => both.2⟩
  | some text =>
    have same : fillPost (some text, data) parser = (limited text.number).bind fun n =>
        fillDev data { parser with post := some n } := by
      cases text with
      | hyphen number => rfl
      | word suffix => rfl
    rw [same, limited_bind_eq_some]
    refine and_congr_left fun _ => ⟨?_, fun fits => fits text rfl⟩
    rintro fits other ⟨⟩
    exact fits

lemma fillEpoch_eq_some (parser result : Parser) :
    fillEpoch data parser = some result <->
      (∀ digits, data.1 = some digits -> decimal digits < Components.limit) /\
        fillRelease data.2 (data.1.elim parser fun digits =>
          { parser with epoch := value digits }) = some result := by
  obtain ⟨digits, data⟩ := data
  cases digits with
  | none => exact ⟨fun filled => ⟨nofun, filled⟩, fun both => both.2⟩
  | some digits =>
    rw [fillEpoch]
    simp only [limited_bind_eq_some]
    refine and_congr_left fun _ => ⟨?_, fun fits => fits digits rfl⟩
    rintro fits other ⟨⟩
    exact fits

lemma fillRelease_eq_some (data : List UInt8 × AfterRelease) (parser result : Parser) :
    fillRelease data parser = some result <->
      (∀ text ∈ fields isDot data.1, decimal text < Components.limit) /\
        fillPre data.2 (pushNumbers ((fields isDot data.1).map value) parser) = some result := by
  rw [fillRelease, Option.bind_eq_some_iff]
  simp only [mapM_limited]
  constructor
  · rintro ⟨numbers, ⟨fits, rfl⟩, rest⟩
    exact ⟨fits, rest⟩
  · rintro ⟨fits, rest⟩
    exact ⟨_, ⟨fits, rfl⟩, rest⟩

lemma numbersFit_parts :
    (parts data).NumbersFit <->
      (∀ digits, data.1 = some digits -> decimal digits < Components.limit) /\
        (∀ text ∈ fields isDot data.2.1, decimal text < Components.limit) /\
        SuffixFits data.2.2.1 /\
        (∀ text, data.2.2.2.1 = some text -> decimal text.number < Components.limit) /\
        SuffixFits data.2.2.2.2.1 := by
  obtain ⟨epoch, release, pre, post, dev, text⟩ := data
  simp only [Components.NumbersFit, parts, SuffixFits, Option.map_eq_some_iff, forall_mem_map,
    forall_exists_index, and_imp, forall_apply_eq_imp_iff₂, Prod.mk.injEq]
  refine and_congr ?_ (and_congr Iff.rfl (and_congr ?_ Iff.rfl))
  · cases epoch with
    | none => exact ⟨fun _ => nofun, fun _ => by decide⟩
    | some digits =>
      refine ⟨?_, fun fits => fits digits rfl⟩
      rintro fits other ⟨⟩
      exact fits
  · constructor
    · intro fits text found
      exact fits text.kind (decimal text.number) text found rfl rfl
    · rintro fits kind number text found rfl rfl
      exact fits text found

/-- The conversion succeeds exactly when the numbers fit. -/
lemma fillEpoch_new (result : Parser) :
    fillEpoch data (Parser.new []) = some result <->
      (parts data).NumbersFit /\ filled data = result := by
  rw [fillEpoch_eq_some, fillRelease_eq_some, fillPre, fillSuffix_eq_some, fillPost_eq_some, fillDev,
    fillSuffix_eq_some, Option.some.injEq, numbersFit_parts]
  simp only [and_assoc]
  obtain ⟨epoch, release, pre, post, dev, text⟩ := data
  refine and_congr_right fun _ => and_congr_right fun _ => and_congr_right fun _ =>
    and_congr_right fun _ => and_congr_right fun _ => Eq.congr_left ?_
  cases epoch <;> cases pre <;> cases post <;> cases dev <;> rfl

/-! ## What the grammar reads off -/

section

variable {group : Group} (caps : Captures Group UInt8)

lemma set_same (text : List UInt8) : caps.set group text group = some text := if_pos rfl

lemma set_other {other : Group} (apart : group ≠ other) (text : List UInt8) :
    caps.set other text group = caps group := if_neg apart

variable {letters number : Group}

lemma captureSuffix_other {κ : Type} (suffix : Option (SuffixText κ))
    (first : group ≠ letters) (second : group ≠ number) :
    captureSuffix letters number suffix caps group = caps group := by
  cases suffix with
  | none => rfl
  | some text =>
    rw [captureSuffix, captureNumber]
    split
    · rw [set_other caps first]
    · rw [set_other _ second, set_other caps first]

/-- The letters and the number of a suffix, read together. -/
lemma captureSuffix_read {κ γ : Type} (suffix : Option (SuffixText κ))
    (read : List UInt8 -> Nat -> γ) (apart : letters ≠ number) (freshLetters : caps letters = none)
    (freshNumber : caps number = none) :
    (captureSuffix letters number suffix caps letters).map (fun text =>
      read text ((captureSuffix letters number suffix caps number).elim 0 decimal)) =
      suffix.map fun text => read text.letters (decimal text.number) := by
  cases suffix with
  | none => rw [captureSuffix, freshLetters, Option.map_none, Option.map_none]
  | some text =>
    rw [captureSuffix, captureNumber]
    split
    next empty =>
      rw [set_same, set_other caps (Ne.symm apart), freshNumber, Option.map_some,
        Option.map_some, isEmpty_iff.mp empty]
      rfl
    next => rw [set_same, set_other _ apart, set_same]; rfl

lemma captureLocal_other (text : Option (List UInt8)) (apart : group ≠ .localText) :
    captureLocal text caps group = caps group := by
  cases text with
  | none => rfl
  | some text => exact set_other caps apart text

lemma capturePostText_other (text : Option PostText) (first : group ≠ .postN1)
    (second : group ≠ .postL) (third : group ≠ .postN2) :
    capturePostText text caps group = caps group := by
  cases text with
  | none => rfl
  | some text =>
    cases text with
    | hyphen number => exact set_other caps first number
    | word suffix => exact captureSuffix_other caps (some suffix) second third

end

variable {data : List UInt8 × AfterRelease}

/-- The captures of a scan give its components, when the letters of a pre-release
stand for its kind.  Before the release only the epoch may be set. -/
lemma components_captureRelease {epoch : Option (List UInt8)}
    (kinds : ∀ text, data.2.1 = some text -> preKind text.letters = text.kind)
    {caps : Captures Group UInt8} (atEpoch : caps .epoch = epoch)
    (fresh : ∀ group : Group, group ≠ .epoch -> caps group = none) :
    components (captureRelease data caps) = parts (epoch, data) := by
  obtain ⟨release, pre, post, dev, text⟩ := data
  ext1
  all_goals simp (disch := decide) only [components, parts, captureRelease, capturePre,
    capturePost, captureDev, captureLocal_other, captureSuffix_other, capturePostText_other,
    set_other, set_same, atEpoch]
  · rfl
  · rw [captureSuffix_read (caps.set .release release) pre
      (fun letters number => (preKind letters, number)) (by decide)
      (by simp (disch := decide) only [set_other, fresh])
      (by simp (disch := decide) only [set_other, fresh])]
    cases pre with
    | none => rfl
    | some suffix => rw [Option.map_some, Option.map_some, kinds suffix rfl]
  · cases post with
    | none =>
      simp (disch := decide) only [capturePostText, captureSuffix_other, set_other, fresh,
        Option.map_none]
    | some text =>
      cases text with
      | hyphen number => rfl
      | word suffix =>
        simp (disch := decide) only [capturePostText, captureSuffix_other, set_other, fresh]
        exact captureSuffix_read _ (some suffix) (fun _ number => number) (by decide)
          (by simp (disch := decide) only [captureSuffix_other, set_other, fresh])
          (by simp (disch := decide) only [captureSuffix_other, set_other, fresh])
  · exact captureSuffix_read _ dev (fun _ number => number) (by decide)
      (by simp (disch := decide) only [captureSuffix_other, capturePostText_other, set_other, fresh])
      (by simp (disch := decide) only [captureSuffix_other, capturePostText_other, set_other, fresh])
  · cases text with
    | none =>
      simp (disch := decide) only [captureLocal, captureSuffix_other, capturePostText_other,
        set_other, fresh]
    | some text => rfl

lemma components_captureEpoch (data : VersionScan)
    (kinds : ∀ text, data.2.2.1 = some text -> preKind text.letters = text.kind) :
    components (captureEpoch data fun _ => none) = parts data := by
  obtain ⟨epoch, data⟩ := data
  cases epoch with
  | none => exact components_captureRelease kinds rfl fun _ _ => rfl
  | some number => exact components_captureRelease kinds rfl fun group apart => set_other _ apart number

/-- The letters of a word that was found, up to case. -/
lemma lower_take {text : List UInt8} (starts : startsWithIgnoreAsciiCase text input) :
    (input.take text.length).map toAsciiLowercase = text.map toAsciiLowercase := by
  rw [startsWith_iff_initial] at starts
  have same := prefix_iff_eq_take.mp starts
  rw [length_map, <- map_take] at same
  have injective : Function.Injective UInt8.toNat := fun _ _ => UInt8.toNat_inj.mp
  apply map_injective_iff.mpr injective
  rw [map_map, map_map]
  exact same.symm

lemma preKind_spellings : ∀ entry ∈ Parser.preSpellings, ∀ letters : List UInt8,
      letters.map toAsciiLowercase = (asBytes entry.1).map toAsciiLowercase ->
      preKind letters = entry.2 := by
  have table : ∀ entry ∈ preSpellings, preKind (asBytes entry.1) = entry.2 := by
    decide
  intro entry mem letters same
  rw [<- table entry mem, preKind, preKind, same]

lemma scanSuffix_preKind {rest : List UInt8} {text : SuffixText PrereleaseKind}
    (found : scanSuffix Parser.preSpellings input = some (text, rest)) :
    preKind text.letters = text.kind := by
  rw [scanSuffix] at found
  cases spelled : findSpelling preSpellings (afterSeparator input) with
  | none => rw [spelled] at found; cases found
  | some spelling =>
    rw [spelled] at found
    cases found
    obtain ⟨before, entry, after, whole, rfl, starts, _⟩ := findSpelling_some spelled
    exact preKind_spellings entry (by rw [whole]; simp) _ (lower_take starts)

lemma suffixThen_fst {κ δ : Type} {spellings : List (String × κ)} {next : List UInt8 -> Option δ}
    {data : Option (SuffixText κ) × δ}
    (found : suffixThen spellings next input = some data) {text : SuffixText κ}
    (present : data.1 = some text) :
    ∃ rest, scanSuffix spellings input = some (text, rest) := by
  rw [suffixThen] at found
  cases scanned : scanSuffix spellings input with
  | none =>
    rw [scanned, Option.map_eq_some_iff] at found
    obtain ⟨_, _, rfl⟩ := found
    cases present
  | some suffix =>
    obtain ⟨suffix, rest⟩ := suffix
    rw [scanned] at found
    simp only [Option.map_eq_some_iff] at found
    obtain ⟨_, _, rfl⟩ := found
    cases present
    exact ⟨rest, rfl⟩

lemma releaseScan_preKind (found : releaseScan input = some data) (text : SuffixText PrereleaseKind)
    (present : data.2.1 = some text) : preKind text.letters = text.kind := by
  rw [releaseScan] at found
  split at found
  · cases found
  · obtain ⟨later, scanned, rfl⟩ := Option.map_eq_some_iff.mp found
    obtain ⟨rest, suffix⟩ := suffixThen_fst scanned present
    exact scanSuffix_preKind suffix

lemma versionScan_preKind {data : VersionScan}
    (found : versionScan input = some data) (text : SuffixText PrereleaseKind)
    (present : data.2.2.1 = some text) : preKind text.letters = text.kind := by
  rw [versionScan, epochScan] at found
  split at found
  · cases found
  · split at found
    all_goals
      obtain ⟨later, scanned, rfl⟩ := Option.map_eq_some_iff.mp found
      exact releaseScan_preKind scanned text present

/-! ## Local versions that are read -/

/-- A run of items that is not empty. -/
def IsRun (item : UInt8 -> Bool) (run : List UInt8) : Prop := run ≠ [] /\ run.all item = true

lemma itemRuns_isRun {separator item : UInt8 -> Bool} {rounds : Nat} {input run : List UInt8}
    (inside : run ∈ itemRuns separator item rounds input) : IsRun item run := by
  induction rounds generalizing input with
  | zero => cases inside
  | succ rounds ih =>
    cases input with
    | nil => cases inside
    | cons byte rest =>
      rw [itemRuns] at inside
      split at inside
      next found =>
        rw [Bool.and_eq_true, Bool.not_eq_true', isEmpty_eq_false_iff] at found
        rcases mem_cons.mp inside with rfl | inside
        · exact ⟨found.2, all_takeWhile⟩
        · exact ih inside
      · cases inside

/-- A local version that is found consists of runs. -/
lemma localScan_runs {text : Option (List UInt8)} (scanned : localScan input = some text) :
    ∀ run ∈ text.elim [] (fields Parser.isSeparator), IsRun isAsciiAlphanumeric run := by
  unfold localScan at scanned
  split at scanned
  next rest =>
    split at scanned
    · cases scanned
    next found =>
      split at scanned
      · cases scanned
        have after := @length_skipItems_le Parser.isSeparator isAsciiAlphanumeric
          ((rest.dropWhile isAsciiAlphanumeric).length + 1) (rest.dropWhile isAsciiAlphanumeric)
        rw [Option.elim_some, afterRuns, take_after_run rest after,
          fields_runs alphanumeric_not_separator _ _ _ all_takeWhile]
        intro run inside
        rcases mem_cons.mp inside with rfl | inside
        · exact ⟨fun empty => found (isEmpty_iff.mpr empty), all_takeWhile⟩
        · exact itemRuns_isRun inside
      · cases scanned
  next =>
    split at scanned
    · cases scanned
      intro run inside
      cases inside
    · cases scanned

lemma exists_of_map_pair {α β : Type} (next : List UInt8 -> Option β)
    {part part' : α} {data : β} (scanned : (next input).map (part', ·) = some (part, data)) :
    ∃ rest, next rest = some data := by
  rcases Option.map_eq_some_iff.mp scanned with ⟨found, here, same⟩
  cases same
  exact ⟨input, here⟩

/-- What comes after an optional suffix has been found by the next scanner. -/
lemma suffixThen_next {δ : Type} {spellings : List (String × κ)}
    {next : List UInt8 -> Option δ} {suffix : Option (SuffixText κ)} {data : δ}
    (scanned : suffixThen spellings next input = some (suffix, data)) :
    ∃ rest, next rest = some data := by
  rw [suffixThen] at scanned
  split at scanned <;> exact exists_of_map_pair next scanned

lemma postScan_next {post : Option PostText} {data : AfterPost}
    (scanned : postScan input = some (post, data)) :
    ∃ rest, devScan rest = some data := by
  rw [postScan] at scanned
  split at scanned
  · exact exists_of_map_pair devScan scanned
  · rcases Option.map_eq_some_iff.mp scanned with ⟨found, here, same⟩
    cases same
    exact suffixThen_next here

lemma releaseScan_next {data : AfterRelease}
    (scanned : releaseScan input = some (release, data)) :
    ∃ rest, preScan rest = some data := by
  rw [releaseScan] at scanned
  split at scanned
  · cases scanned
  · exact exists_of_map_pair preScan scanned

lemma versionScan_next {epoch : Option (List UInt8)}
    {data : List UInt8 × AfterRelease} (scanned : versionScan input = some (epoch, data)) :
    ∃ rest, releaseScan rest = some data := by
  rw [versionScan, epochScan] at scanned
  split at scanned
  · cases scanned
  · split at scanned <;> exact exists_of_map_pair releaseScan scanned

lemma versionScan_local {data : VersionScan} (scanned : versionScan input = some data) :
    ∀ run ∈ data.2.2.2.2.2.elim [] (fields Parser.isSeparator),
      IsRun isAsciiAlphanumeric run := by
  rcases data with ⟨epoch, release, pre, post, dev, text⟩
  rcases versionScan_next scanned with ⟨_, atRelease⟩
  rcases releaseScan_next atRelease with ⟨_, atPre⟩
  rcases suffixThen_next atPre with ⟨_, atPost⟩
  rcases postScan_next atPost with ⟨_, atDev⟩
  rcases suffixThen_next atDev with ⟨_, atLocal⟩
  exact localScan_runs atLocal

/-! ## Records -/

/-- The record of a parser that is done. -/
def recordOf (parser : Parser) : VersionFull where
  epoch := parser.epoch
  release := parser.release
  pre := parser.pre
  post := parser.post
  dev := parser.dev
  localVersion := .segments parser.localSegments
  min := none
  max := none

lemma intoVersion_filled (data : VersionScan) :
    ∃ version, intoVersion (filled data) = some version /\
      version.record = recordOf (filled data) := by
  have nonempty : (filled data).release ≠ [] := by
    intro empty
    exact fields_ne_nil isDot data.2.1 (map_eq_nil_iff.mp empty)
  rw [intoVersion, intoPattern, dif_neg nonempty]
  exact ⟨_, rfl, by simp [recordOf]⟩

lemma value_toNat (fits : decimal digits < Components.limit) :
    (value digits).toNat = decimal digits := by
  rw [Components.limit] at fits
  exact UInt64.toNat_ofNat_of_lt' (show decimal digits < 2 ^ 64 by omega)

lemma localSegment_denotes (text : List UInt8) :
    Components.SegmentDenotes (Parser.localSegment text) text := by
  rw [localSegment]
  by_cases digits : text.all isAsciiDigit
  · rw [parseU64_digits text digits]
    by_cases fits : decimal text < 2 ^ 64
    · rw [if_pos fits]
      exact ⟨digits, (UInt64.toNat_ofNat_of_lt' fits).symm⟩
    · rw [if_neg fits]
      exact ⟨rfl, fun _ => Nat.le_of_not_lt fits⟩
  · obtain ⟨err, failed⟩ := parseU64From_other text text 0 (Bool.eq_false_iff.mpr digits)
    rw [parseU64, failed]
    exact ⟨rfl, fun all => absurd all digits⟩

lemma filled_denotes {data : VersionScan} (fits : (parts data).NumbersFit) :
    (parts data).Denotes (recordOf (filled data)) := by
  obtain ⟨epoch, release, pre, post, dev⟩ := (numbersFit_parts data).mp fits
  refine ⟨?_, ?_, ?_, ?_, ?_, ⟨_, rfl, ?_⟩, rfl, rfl⟩
  · change (data.1.elim 0 value).toNat = data.1.elim 0 decimal
    cases shape : data.1 with
    | none => rfl
    | some digits => exact value_toNat (epoch digits shape)
  · change ((fields isDot data.2.1).map value).map UInt64.toNat = (fields isDot data.2.1).map decimal
    rw [map_map]
    exact map_congr_left fun text inside => value_toNat (release text inside)
  · change (data.2.2.1.map _).map _ = data.2.2.1.map _
    rw [Option.map_map]
    exact Option.map_congr fun text inside => Prod.ext rfl (value_toNat (pre text inside))
  · change (data.2.2.2.1.map _).map _ = data.2.2.2.1.map _
    rw [Option.map_map]
    exact Option.map_congr fun text inside => value_toNat (post text inside)
  · change (data.2.2.2.2.1.map _).map _ = data.2.2.2.2.1.map _
    rw [Option.map_map]
    exact Option.map_congr fun text inside => value_toNat (dev text inside)
  · change List.Forall₂ _ ((data.2.2.2.2.2.elim [] (fields isSeparator)).map _)
      (data.2.2.2.2.2.elim [] (fields isSeparator))
    rw [forall₂_map_left_iff, forall₂_same]
    exact fun text _ => localSegment_denotes text

/-- A successful run of the parser, seen from the scanner. -/
def Reading (bytes : List UInt8) (version : Version) : Prop :=
  ∃ data, versionScan (bytes.dropWhile isAsciiWhitespace) = some data /\
    (parts data).NumbersFit /\ version.record = recordOf (filled data)

lemma parseSlow_reading
    (accepted : plain (Parser.parseSlow bytes) = some version) : Reading bytes version := by
  rw [parseSlow_plain, Option.bind_eq_some_iff] at accepted
  obtain ⟨data, scanned, rest⟩ := accepted
  rw [Option.bind_eq_some_iff] at rest
  obtain ⟨parser, stored, rest⟩ := rest
  obtain ⟨fits, rfl⟩ := (fillEpoch_new data parser).mp stored
  obtain ⟨found, same, record⟩ := intoVersion_filled data
  rw [same] at rest
  cases rest
  exact ⟨data, scanned, fits, record⟩

lemma parseSlow_accepts {data : VersionScan}
    (scanned : versionScan (bytes.dropWhile isAsciiWhitespace) = some data)
    (fits : (parts data).NumbersFit) :
    ∃ version, plain (Parser.parseSlow bytes) = some version := by
  obtain ⟨version, same, _⟩ := intoVersion_filled data
  refine ⟨version, ?_⟩
  rw [parseSlow_plain, scanned, Option.bind_some,
    (fillEpoch_new data (filled data)).mpr ⟨fits, rfl⟩, Option.bind_some, same]

lemma parseFast_reading (found : Parser.parseFast bytes = some release) :
    Reading bytes (Parser.fastVersion release (Parser.length_parseFast found).1
      (Parser.length_parseFast found).2) := by
  obtain ⟨first, others, split, dotted, values⟩ := fastLoop_dotted (fastLoop_of_parseFast found)
  have numbers : (fields isDot bytes).map decimal = release.map UInt8.toNat := by
    rw [split]
    exact values.symm
  refine ⟨_, versionScan_dotted split dotted, ?_, ?_⟩
  · refine (numbersFit_parts _).mpr ⟨nofun, ?_, nofun, nofun, nofun⟩
    intro text inside
    have small : decimal text ∈ release.map UInt8.toNat := numbers ▸ mem_map_of_mem inside
    obtain ⟨byte, _, same⟩ := mem_map.mp small
    rw [<- same, Components.limit]
    have := byte.toNat_lt
    omega
  · have stored : (fields isDot bytes).map value = release.map UInt8.toUInt64 := by
      change (fields isDot bytes).map (UInt64.ofNat ∘ decimal) = _
      rw [<- map_map, numbers, map_map]
      exact map_congr_left fun byte _ => UInt64.toNat_inj.mp (by simp)
    change VersionInner.makeFull (fromFastRelease release) = _
    rw [fromFastRelease_eq (length_parseFast found).1 (length_parseFast found).2,
      (@VersionInner.replaceRelease_spec (.small .new) VersionSmall.new_packed _).2]
    simp only [recordOf, filled, stored]
    rfl

lemma parse_reading (accepted : Parser.parse bytes = .ok version) : Reading bytes version := by
  have outcome := parse_toOption bytes
  rw [accepted, parsePattern] at outcome
  split at outcome
  next release found =>
    cases outcome
    exact parseFast_reading found
  next => exact parseSlow_reading outcome.symm

lemma parse_accepts {data : VersionScan}
    (scanned : versionScan (bytes.dropWhile isAsciiWhitespace) = some data)
    (fits : (parts data).NumbersFit) :
    ∃ version, Parser.parse bytes = .ok version := by
  have outcome := parse_toOption bytes
  obtain ⟨version, accepted⟩ : ∃ version, plain (parsePattern bytes) = some version := by
    rw [parsePattern]
    split
    · exact ⟨_, rfl⟩
    · exact parseSlow_accepts scanned fits
  rw [accepted] at outcome
  cases parsed : parse bytes with
  | ok version => exact ⟨version, rfl⟩
  | error err => rw [parsed] at outcome; cases outcome

end Scan

open Grammar Scan in
/-- What the grammar assigns to a text that the scanner reads. -/
lemma fullMatch_of_scan {data : VersionScan}
    (scanned : versionScan (bytes.dropWhile isAsciiWhitespace) = some data) :
    fullMatch Grammar.version (trim bytes) = some (captureEpoch data fun _ => none) /\
      components (captureEpoch data fun _ => none) = parts data := by
  refine ⟨?_, components_captureEpoch data (versionScan_preKind scanned)⟩
  rw [fullMatch_trim, scanned, Option.map_some]

open Grammar Scan in
/-- An accepted text is matched by the grammar, and the version holds the
components of the match. -/
lemma Version.fromStr_denotes {text : String} (accepted : Version.fromStr text = .ok version) :
    ∃ caps, fullMatch Grammar.version (trim (asBytes text)) = some caps /\
      (components caps).NumbersFit /\ (components caps).Denotes version.record := by
  obtain ⟨data, scanned, fits, record⟩ := parse_reading accepted
  obtain ⟨matched, same⟩ := fullMatch_of_scan scanned
  refine ⟨_, matched, ?_, ?_⟩
  · rw [same]
    exact fits
  · rw [same, record]
    exact filled_denotes fits

open Grammar Scan in
/-- The parser accepts a text exactly when the trimmed text belongs to the grammar
and the numbers outside the local version are below the limit, and then the
version holds the components that the grammar assigns. -/
theorem Version.fromStr_iff_grammar (text : String) :
    ((∃ version, Version.fromStr text = .ok version) <->
      Grammar.version.Matches (trim (asBytes text)) /\
        ∀ caps, fullMatch Grammar.version (trim (asBytes text)) = some caps ->
          (components caps).NumbersFit) /\
    ∀ version, Version.fromStr text = .ok version ->
      ∃ caps, fullMatch Grammar.version (trim (asBytes text)) = some caps /\
        (components caps).Denotes version.record := by
  refine ⟨⟨?_, ?_⟩, ?_⟩
  · rintro ⟨version, accepted⟩
    obtain ⟨caps, matched, fits, _⟩ := Version.fromStr_denotes accepted
    refine ⟨(fullMatch_isSome _ _).mp (by rw [matched]; rfl), ?_⟩
    intro other again
    rw [matched] at again
    cases again
    exact fits
  · rintro ⟨matched, fits⟩
    rw [<- fullMatch_isSome, fullMatch_trim, Option.isSome_map, Option.isSome_iff_exists] at matched
    obtain ⟨data, scanned⟩ := matched
    obtain ⟨matched, same⟩ := fullMatch_of_scan scanned
    exact parse_accepts scanned (same ▸ fits _ matched)
  · intro version accepted
    obtain ⟨caps, matched, _, denotes⟩ := Version.fromStr_denotes accepted
    exact ⟨caps, matched, denotes⟩

open Grammar in
/-- A text that uses the epoch, a separator, another spelling and a local version. -/
theorem Version.fromStr_spelled_out :
    Grammar.version.Matches (trim (asBytes " v1!2.0-PRE_3+Ab.7 ")) /\
      ∃ version, Version.fromStr " v1!2.0-PRE_3+Ab.7 " = .ok version /\ ∃ caps,
          fullMatch Grammar.version (trim (asBytes " v1!2.0-PRE_3+Ab.7 ")) = some caps /\
            (components caps).Denotes version.record := by
  have succeeds : (Version.fromStr " v1!2.0-PRE_3+Ab.7 ").toOption.isSome = true := by decide
  obtain ⟨accepts, denotes⟩ := Version.fromStr_iff_grammar " v1!2.0-PRE_3+Ab.7 "
  cases parsed : Version.fromStr " v1!2.0-PRE_3+Ab.7 " with
  | ok version => exact ⟨(accepts.mp ⟨version, parsed⟩).1, version, rfl, denotes version parsed⟩
  | error err => rw [parsed] at succeeds; cases succeeds

end Uv.Pep440
