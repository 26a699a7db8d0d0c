import Uv.Pep440.ScanVersion

namespace Uv.Pep440

open Library List Uv.Pep440.Parser Option Function
open Library.Regex

/-!
# The parser reads as the scanner does

Each stage of the parser, with its error forgotten, is a stage of the scanner
followed by the conversion of the digits it found.  The stages then compose from
the end of a version to its beginning.
-/

namespace Scan

open Grammar

/-! ## Numbers -/

/-- The loop that reads digits, without a bound. -/
def decimalFrom (value : Nat) (digits : List UInt8) : Nat :=
  digits.foldl (fun value digit => value * 10 + (digit - 48).toNat) value

variable (digits : List UInt8)

lemma le_decimalFrom (value : Nat) : value <= decimalFrom value digits := by
  induction digits generalizing value with
  | nil => exact Nat.le_refl value
  | cons digit digits ih =>
    have step := ih (value * 10 + (digit - 48).toNat)
    exact Nat.le_trans (by omega) step

variable {byte : UInt8}

/-- A digit is neither of the two kinds of bytes that the parser refuses. -/
lemma not_refused_of_digit (digit : isAsciiDigit byte) :
    ¬ byte < 48 /\ ¬ byte - 48 > 9 /\ (byte - 48).toNat = byte.toNat - 48 := by
  rw [isAsciiDigit_iff] at digit
  have low : (48 : UInt8) <= byte := by
    rw [UInt8.le_iff_toNat_le]
    exact digit.1
  have value : (byte - 48).toNat = byte.toNat - 48 := UInt8.toNat_sub_of_le byte 48 low
  refine ⟨UInt8.not_lt.mpr low, ?_, value⟩
  rw [UInt8.not_lt, UInt8.le_iff_toNat_le, value]
  change _ <= 9
  omega

lemma digit_of_not_refused (low : ¬ byte < 48) (high : ¬ byte - 48 > 9) :
    isAsciiDigit byte := by
  rw [UInt8.not_lt] at low
  rw [UInt8.not_lt, UInt8.le_iff_toNat_le, UInt8.toNat_sub_of_le byte 48 low] at high
  rw [UInt8.le_iff_toNat_le] at low
  change byte.toNat - 48 <= 9 at high
  change 48 <= byte.toNat at low
  rw [isAsciiDigit_iff]
  omega

/-- One round of the checked arithmetic. -/
lemma checkedStep (n : UInt64) (digit : UInt8) :
    (checkedMul n 10).bind (checkedAdd · digit.toUInt64) =
      if n.toNat * 10 + digit.toNat < 2 ^ 64 then
        some (UInt64.ofNat (n.toNat * 10 + digit.toNat))
      else none := by
  have ten : (10 : UInt64).toNat = 10 := rfl
  unfold checkedMul
  rw [ten]
  by_cases product : n.toNat * 10 < 2 ^ 64
  · have value : (n * 10).toNat = n.toNat * 10 := by
      rw [UInt64.toNat_mul, ten, Nat.mod_eq_of_lt product]
    rw [if_pos product, bind_some, checkedAdd, value, UInt8.toNat_toUInt64]
    split
    next fits =>
      congr 1
      rw [<- UInt64.toNat_inj, UInt64.toNat_add, value, UInt8.toNat_toUInt64, UInt64.toNat_ofNat']
    next => rfl
  · rw [if_neg product, if_neg (by omega)]
    rfl

/-- Digits are read exactly as long as the value fits. -/
lemma parseU64From_digits (bytes digits : List UInt8) (n : UInt64) (all : digits.all isAsciiDigit) :
    parseU64From bytes n digits =
      if decimalFrom n.toNat digits < 2 ^ 64 then
        .ok (UInt64.ofNat (decimalFrom n.toNat digits))
      else .error (.numberTooBig bytes) := by
  induction digits generalizing n with
  | nil =>
    rw [parseU64From, decimalFrom, foldl_nil, if_pos n.toNat_lt, UInt64.ofNat_toNat]
  | cons digit digits ih =>
    rw [all_cons, Bool.and_eq_true] at all
    obtain ⟨low, high, _⟩ := not_refused_of_digit all.1
    rw [parseU64From, if_neg low, if_neg high, checkedStep]
    have unfolded : decimalFrom n.toNat (digit :: digits) =
        decimalFrom (n.toNat * 10 + (digit - 48).toNat) digits := rfl
    rw [unfolded]
    by_cases fits : n.toNat * 10 + (digit - 48).toNat < 2 ^ 64
    · rw [if_pos fits]
      simp only
      rw [ih _ all.2, UInt64.toNat_ofNat_of_lt' fits]
    · have above := le_decimalFrom digits (n.toNat * 10 + (digit - 48).toNat)
      rw [if_neg fits, if_neg (by omega)]

lemma parseU64_digits (all : digits.all isAsciiDigit) :
    parseU64 digits =
      if decimal digits < 2 ^ 64 then .ok (UInt64.ofNat (decimal digits))
      else .error (.numberTooBig digits) :=
  parseU64From_digits digits digits 0 all

/-- A run with another byte in it is no number. -/
lemma parseU64From_other (bytes run : List UInt8) (n : UInt64)
    (mixed : run.all isAsciiDigit = false) :
    ∃ err, parseU64From bytes n run = .error err := by
  induction run generalizing n with
  | nil => cases mixed
  | cons byte run ih =>
    rw [parseU64From]
    by_cases low : byte < 48
    · exact ⟨_, if_pos low⟩
    · rw [if_neg low]
      by_cases high : byte - 48 > 9
      · exact ⟨_, if_pos high⟩
      · rw [all_cons, digit_of_not_refused low high, Bool.true_and] at mixed
        rw [if_neg high]
        cases (checkedMul n 10).bind (checkedAdd · (byte - 48).toUInt64) with
        | none => exact ⟨_, rfl⟩
        | some next => exact ih next mixed

/-- The value of digits below the limit of the parser. -/
def limited : Option UInt64 :=
  if decimal digits < Components.limit then some (UInt64.ofNat (decimal digits)) else none

lemma drop_takeWhile (test : UInt8 -> Bool) (input : List UInt8) :
    input.drop (input.takeWhile test).length = input.dropWhile test := by
  have split := takeWhile_append_dropWhile (p := test) (l := input)
  have dropped := @drop_left UInt8 (input.takeWhile test) (input.dropWhile test)
  rwa [split] at dropped

/-- The parser at another position. -/
def moveTo (parser : Parser) (rest : List UInt8) : Parser := { parser with unread := rest }

variable (parser : Parser)

@[simp] lemma moveTo_unread (rest : List UInt8) :
    (moveTo parser rest).unread = rest := rfl

@[simp] lemma moveTo_moveTo (first second : List UInt8) :
    moveTo (moveTo parser first) second = moveTo parser second := rfl

lemma bumpWhile_eq (test : UInt8 -> Bool) :
    parser.bumpWhile test =
      (parser.unread.takeWhile test, moveTo parser (parser.unread.dropWhile test)) := by
  rw [bumpWhile, advance, drop_takeWhile, moveTo]

/-- The value of digits that may be absent. -/
def numberOf : Option (Option UInt64) :=
  if digits.isEmpty then some none else (limited digits).map some

lemma numberOf_getD :
    (numberOf digits).map (fun number => number.getD 0) = limited digits := by
  cases digits with
  | nil => rfl
  | cons digit digits =>
    rw [numberOf, if_neg (by simp), Option.map_map]
    exact Option.map_id'

lemma parseNumber_toOption :
    parser.parseNumber.toOption =
      (numberOf (parser.unread.takeWhile isAsciiDigit)).map fun n =>
        (n, moveTo parser (parser.unread.dropWhile isAsciiDigit)) := by
  rw [parseNumber, bumpWhile_eq, numberOf]
  simp only
  by_cases empty : (parser.unread.takeWhile isAsciiDigit).isEmpty
  · rw [if_pos empty, if_pos empty]
    rfl
  · rw [if_neg empty, if_neg empty, parseU64_digits _ all_takeWhile]
    generalize parser.unread.takeWhile isAsciiDigit = digits
    rw [limited, Components.limit]
    by_cases fits : decimal digits < 2 ^ 64
    · rw [if_pos fits]
      have last : UInt64.ofNat (decimal digits) = u64Max <-> decimal digits = 2 ^ 64 - 1 := by
        rw [<- UInt64.toNat_inj, UInt64.toNat_ofNat_of_lt' fits]
        exact Iff.rfl
      by_cases top : decimal digits = 2 ^ 64 - 1
      · rw [if_neg (by omega)]
        change (if _ = u64Max then _ else _ : Except ErrorKind _).toOption = _
        rw [if_pos (last.mpr top)]
        rfl
      · rw [if_pos (by omega)]
        change (if _ = u64Max then _ else _ : Except ErrorKind _).toOption = _
        rw [if_neg (mt last.mp top)]
        rfl
    · rw [if_neg fits, if_neg (by omega)]
      rfl

/-! ## Suffixes -/

lemma skipSeparator_eq :
    parser.skipSeparator = moveTo parser (afterSeparator parser.unread) := by
  cases parser with
  | mk unread =>
    cases unread with
    | nil => rfl
    | cons byte rest =>
      rw [skipSeparator, bumpIfSeparator]
      simp only [afterSeparator, moveTo]
      by_cases separates : isSeparator byte
      · rw [if_pos separates, if_pos separates]
        rfl
      · rw [if_neg separates, if_neg separates]

lemma bumpIfStringSet_eq {κ : Type} (spellings : List (String × κ)) :
    parser.bumpIfStringSet spellings =
      (findSpelling spellings parser.unread).map fun found =>
        (found.1, moveTo parser (parser.unread.drop found.2)) := by
  induction spellings with
  | nil => rfl
  | cons entry spellings ih =>
    rw [bumpIfStringSet, findSpelling]
    split
    · rfl
    · exact ih

lemma toOption_bind {ε α β : Type} (first : Except ε α) (next : α -> Except ε β) :
    (first >>= next).toOption = first.toOption.bind fun value => (next value).toOption := by
  cases first with
  | ok value => rfl
  | error err => rfl

section

variable {κ δ : Type} (spellings : List (String × κ)) (fill : κ -> UInt64 -> Parser -> Parser)

/-- The common shape of the stages that read a word and a number. -/
def readSuffix (parser : Parser) : Except ErrorKind Parser :=
  match parser.skipSeparator.bumpIfStringSet spellings with
  | none => .ok parser
  | some (kind, parser) => do
      let (number, parser) <- parser.skipSeparator.parseNumber
      .ok (fill kind (number.getD 0) parser)

lemma readSuffix_toOption :
    (readSuffix spellings fill parser).toOption =
      match scanSuffix spellings parser.unread with
      | none => some parser
      | some (suffix, rest) => (limited suffix.number).map fun n =>
        fill suffix.kind n (moveTo parser rest) := by
  rw [readSuffix, skipSeparator_eq, bumpIfStringSet_eq, scanSuffix, moveTo_unread]
  cases findSpelling spellings (afterSeparator parser.unread) with
  | none => rfl
  | some found =>
    simp only [Option.map_some, skipSeparator_eq, toOption_bind, parseNumber_toOption, scanNumber,
      moveTo_unread, moveTo_moveTo]
    generalize afterSeparator ((afterSeparator parser.unread).drop found.2) = input
    rw [<- numberOf_getD, Option.map_map, Option.bind_map]
    cases numberOf (input.takeWhile isAsciiDigit) with
    | none => rfl
    | some number => rfl

/-- The conversion of a suffix, followed by the conversion of what comes after it. -/
def fillSuffix (fillNext : δ -> Parser -> Option Parser) (data : Option (SuffixText κ) × δ)
    (parser : Parser) : Option Parser :=
  match data.1 with
  | none => fillNext data.2 parser
  | some suffix => (limited suffix.number).bind fun n => fillNext data.2 (fill suffix.kind n parser)

/-- The rest of the parser reads what a scanner reads, and converts it. -/
def Reads (tail : Parser -> Option Parser) (next : List UInt8 -> Option δ)
    (fillNext : δ -> Parser -> Option Parser) : Prop :=
  ∀ parser, tail parser = (next parser.unread).bind fun data =>
    fillNext data (moveTo parser [])

lemma readSuffix_reads {tail : Parser -> Option Parser} {next : List UInt8 -> Option δ}
    {fillNext : δ -> Parser -> Option Parser} (reads : Reads tail next fillNext)
    (keeps : ∀ kind n parser rest,
      fill kind n (moveTo parser rest) = moveTo (fill kind n parser) rest) :
    Reads (fun parser => (readSuffix spellings fill parser).toOption.bind tail)
      (suffixThen spellings next) (fillSuffix fill fillNext) := by
  intro parser
  simp only [readSuffix_toOption, suffixThen]
  cases scanSuffix spellings parser.unread with
  | none =>
    simp only [bind_some, bind_map, reads parser]
    rfl
  | some found =>
    obtain ⟨suffix, rest⟩ := found
    simp only [bind_map, keeps]
    -- Both conversions may fail, and the order in which they do is forgotten.
    cases converted : limited suffix.number with
    | none =>
      rw [bind_none, eq_comm, bind_eq_none_iff]
      intro data _
      simp only [comp_apply, fillSuffix, converted, bind_none]
    | some n =>
      rw [bind_some, comp_apply, reads]
      simp only [comp_def, fillSuffix, converted, bind_some, keeps,
        moveTo_unread, moveTo_moveTo]

end

lemma parsePre_eq :
    parser.parsePre = readSuffix Parser.preSpellings
      (fun kind n parser => { parser with pre := some ⟨kind, n⟩ }) parser := by
  rw [parsePre, readSuffix]
  cases parser.skipSeparator.bumpIfStringSet preSpellings with
  | none => rfl
  | some found => rfl

lemma parsePostWord_eq :
    parser.parsePostWord = readSuffix Parser.postSpellings
      (fun _ n parser => { parser with post := some n }) parser := by
  rw [parsePostWord, readSuffix]
  cases parser.skipSeparator.bumpIfStringSet postSpellings with
  | none => rfl
  | some found => rfl

lemma bumpIf_eq {string : String} {first : UInt8} {others : List UInt8}
    (bytes : asBytes string = first :: others) :
    parser.bumpIf string = (parser.bumpIfStringSet [(string, ())]).map Prod.snd := by
  rw [bumpIf, isDone, bumpIfStringSet, bumpIfStringSet]
  cases parser.unread with
  | nil =>
    rw [bytes]
    rfl
  | cons byte rest =>
    rw [if_neg (by simp)]
    split
    · rfl
    · rfl

lemma parseDev_eq :
    parser.parseDev = readSuffix [("dev", ())]
      (fun _ n parser => { parser with dev := some n }) parser := by
  rw [parseDev, @bumpIf_eq _ _ 100 [101, 118] (by decide), readSuffix]
  cases parser.skipSeparator.bumpIfStringSet [("dev", ())] with
  | none => rfl
  | some found => rfl

/-! ## Runs and fields -/

section

variable {separator item : UInt8 -> Bool}

/-- The runs of items that `skipItems` passes over. -/
def itemRuns (separator item : UInt8 -> Bool) : Nat -> List UInt8 -> List (List UInt8)
  | 0, _ => []
  | _ + 1, [] => []
  | rounds + 1, byte :: rest =>
    if separator byte && !(rest.takeWhile item).isEmpty then
      rest.takeWhile item :: itemRuns separator item rounds (rest.dropWhile item)
    else []

lemma length_skipItems_le (rounds : Nat) (input : List UInt8) :
    (skipItems separator item rounds input).length <= input.length := by
  induction rounds generalizing input with
  | zero => exact Nat.le_refl _
  | succ rounds ih =>
    cases input with
    | nil => exact Nat.le_refl _
    | cons byte rest =>
      rw [skipItems]
      split
      · have shorter : (rest.dropWhile item).length <= rest.length :=
          (dropWhile_sublist item).length_le
        exact Nat.le_trans (ih _) (Nat.le_trans shorter (Nat.le_succ _))
      · exact Nat.le_refl _

/-- The text before a position after the first run, cut after that run. -/
lemma take_after_run (input : List UInt8) {left : Nat}
    (after : left <= (input.dropWhile item).length) :
    input.take (input.length - left) =
      input.takeWhile item ++
        (input.dropWhile item).take ((input.dropWhile item).length - left) := by
  have split := takeWhile_append_dropWhile (p := item) (l := input)
  have total : input.length = (input.takeWhile item).length + (input.dropWhile item).length := by
    rw [<- length_append, split]
  calc input.take (input.length - left)
      = (input.takeWhile item ++ input.dropWhile item).take
          ((input.takeWhile item).length + ((input.dropWhile item).length - left)) := by
        rw [split, total, Nat.add_sub_assoc after]
    _ = _ := take_length_add_append _

lemma fields_run {run : List UInt8} (whole : ∀ byte ∈ run, separator byte = false) :
    fields separator run = [run] := by
  induction run with
  | nil => rfl
  | cons byte run ih =>
    rw [fields, whole byte mem_cons_self, if_neg Bool.false_ne_true,
      ih (forall_mem_cons.mp whole).2]

lemma fields_run_append {run : List UInt8} (rest : List UInt8)
    (whole : ∀ byte ∈ run, separator byte = false) (separates : separator byte) :
    fields separator (run ++ byte :: rest) = run :: fields separator rest := by
  induction run with
  | nil => rw [nil_append, fields, if_pos separates]
  | cons other run ih =>
    rw [cons_append, fields, whole other mem_cons_self, if_neg Bool.false_ne_true,
      ih (forall_mem_cons.mp whole).2]

/-- The fields of the text that was passed over are its runs. -/
lemma fields_runs (disjoint : ∀ byte, item byte -> separator byte = false)
    (rounds : Nat) (run input : List UInt8) (items : run.all item) :
    fields separator
        (run ++ input.take (input.length - (skipItems separator item rounds input).length)) =
      run :: itemRuns separator item rounds input := by
  have whole : ∀ byte ∈ run, separator byte = false := fun byte inside =>
    disjoint byte (all_eq_true.mp items byte inside)
  induction rounds generalizing run input with
  | zero =>
    rw [skipItems, Nat.sub_self, take_zero, append_nil, fields_run whole, itemRuns]
  | succ rounds ih =>
    cases input with
    | nil => rw [skipItems, Nat.sub_self, take_zero, append_nil, fields_run whole, itemRuns]
    | cons byte rest =>
      rw [skipItems, itemRuns]
      by_cases found : (separator byte && !(rest.takeWhile item).isEmpty)
      · rw [if_pos found, if_pos found]
        rw [Bool.and_eq_true] at found
        have after := @length_skipItems_le separator item rounds (rest.dropWhile item)
        have shorter : (rest.dropWhile item).length <= rest.length :=
          (dropWhile_sublist item).length_le
        rw [length_cons, Nat.succ_sub (Nat.le_trans after shorter), take_succ_cons,
          fields_run_append _ whole found.1, take_after_run rest after,
          ih _ _ all_takeWhile fun byte inside =>
            disjoint byte (all_eq_true.mp all_takeWhile byte inside)]
      · rw [if_neg found, if_neg found, Nat.sub_self, take_zero, append_nil, fields_run whole]

end

/-! ## Local versions -/

/-- The end of the parser: nothing but whitespace may be left. -/
def closing : Option Parser :=
  if atEnd parser.unread then some (moveTo parser []) else none

/-- The segments of a local version that was found. -/
def fillLocal (text : Option (List UInt8)) (parser : Parser) : Parser :=
  { parser with
    localSegments := parser.localSegments ++
      (text.elim [] (fields Parser.isSeparator)).map Parser.localSegment }

lemma alphanumeric_not_separator (byte : UInt8) (accepted : isAsciiAlphanumeric byte) :
    Parser.isSeparator byte = false := by
  rw [isAsciiAlphanumeric_iff] at accepted
  rw [Bool.eq_false_iff, ne_eq, isSeparator_iff]
  omega

lemma atEnd_separator (rest : List UInt8)
    (separates : Parser.isSeparator byte) : atEnd (byte :: rest) = false := by
  rw [atEnd, all_cons, Bool.and_eq_false_iff]
  left
  rw [isSeparator_iff] at separates
  rw [Bool.eq_false_iff, ne_eq, isAsciiWhitespace_iff]
  omega

variable (rounds rounds' : Nat)

/-- The loop reads one run, then a run after each separator.  A separator with
nothing after it is an error here, and not the end of the input for the scanner. -/
lemma localLoop_closing (precursor : UInt8) (parser : Parser)
    (input : List UInt8) (enough : input.length < rounds)
    (enough' : (input.dropWhile isAsciiAlphanumeric).length < rounds') :
    (Parser.localLoop rounds precursor (moveTo parser input)).toOption.bind closing =
      if (input.takeWhile isAsciiAlphanumeric).isEmpty then none
      else if atEnd (skipItems Parser.isSeparator isAsciiAlphanumeric rounds'
          (input.dropWhile isAsciiAlphanumeric)) then
        some { moveTo parser [] with
          localSegments := parser.localSegments ++
            (input.takeWhile isAsciiAlphanumeric ::
              itemRuns Parser.isSeparator isAsciiAlphanumeric rounds'
                (input.dropWhile isAsciiAlphanumeric)).map Parser.localSegment }
      else none := by
  induction rounds generalizing rounds' precursor parser input with
  | zero => cases enough
  | succ rounds ih =>
    rw [localLoop, bumpWhile_eq, moveTo_unread, moveTo_moveTo]
    simp only
    by_cases empty : (input.takeWhile isAsciiAlphanumeric).isEmpty
    · rw [if_pos empty, if_pos empty]
      rfl
    · rw [if_neg empty, if_neg empty]
      have shorter : (input.dropWhile isAsciiAlphanumeric).length < input.length := by
        have total := congrArg length
          (takeWhile_append_dropWhile (p := isAsciiAlphanumeric) (l := input))
        rw [length_append] at total
        have some : 0 < (input.takeWhile isAsciiAlphanumeric).length :=
          length_pos_iff.mpr fun absent => empty (isEmpty_iff.mpr absent)
        omega
      generalize input.takeWhile isAsciiAlphanumeric = first
      generalize input.dropWhile isAsciiAlphanumeric = rest at shorter enough'
      obtain ⟨fewer, rfl⟩ : ∃ fewer, rounds' = fewer + 1 :=
        Nat.exists_eq_add_one.mpr (by omega)
      cases rest with
      | nil => rfl
      | cons byte rest =>
        rw [bumpIfSeparator, skipItems, itemRuns]
        simp only [moveTo_unread]
        by_cases separates : isSeparator byte
        · rw [length_cons] at shorter enough'
          have after : (rest.dropWhile isAsciiAlphanumeric).length <= rest.length :=
            (dropWhile_sublist _).length_le
          rw [if_pos separates, separates, Bool.true_and]
          have further := ih fewer byte
            { parser with
              localSegments := parser.localSegments ++ [localSegment first] }
            rest (by omega) (by omega)
          refine further.trans ?_
          by_cases none : (rest.takeWhile isAsciiAlphanumeric).isEmpty
          · rw [if_pos none, none, Bool.not_true, if_neg Bool.false_ne_true,
              atEnd_separator rest separates, if_neg Bool.false_ne_true]
          · rw [if_neg none, Bool.eq_false_iff.mpr none, Bool.not_false, if_pos rfl, if_pos rfl,
              append_assoc]
            rfl
        · rw [if_neg separates, Bool.eq_false_iff.mpr separates, Bool.false_and,
            if_neg Bool.false_ne_true, if_neg Bool.false_ne_true]
          rfl

lemma bumpIf_nil {parser : Parser} (string : String) (done : parser.unread = []) :
    parser.bumpIf string = none := by
  rw [bumpIf, isDone, done]
  rfl

lemma bumpIf_mark {parser : Parser} {string : String} (mark : UInt8) {byte : UInt8}
    {rest : List UInt8} (bytes : asBytes string = [mark]) (plain : mark.toNat < 65)
    (shape : parser.unread = byte :: rest) :
    parser.bumpIf string = if byte = mark then some (moveTo parser rest) else none := by
  have starts := startsWith_mark mark byte rest plain
  rw [bumpIf, isDone, advance, shape, bytes, if_neg (by simp)]
  by_cases same : byte = mark
  · rw [if_pos (starts.mpr same), if_pos same]
    rfl
  · rw [if_neg (fun found => same (starts.mp found)), if_neg same]

lemma parseLocal_reads :
    Reads (fun parser => parser.parseLocal.toOption.bind closing) localScan
      fun text parser => some (fillLocal text parser) := by
  intro parser
  have plain : closing parser = (if atEnd parser.unread then some none else none).bind
      fun text => some (fillLocal text (moveTo parser [])) := by
    rw [closing]
    split
    · rw [bind_some, fillLocal, elim_none, map_nil, append_nil]
    · rfl
  simp only [parseLocal]
  cases shape : parser.unread with
  | nil =>
    rw [shape] at plain
    rw [bumpIf_nil "+" shape]
    exact plain
  | cons byte rest =>
    rw [bumpIf_mark 43 rfl (by decide) shape]
    by_cases plus : byte = 43
    · subst plus
      rw [if_pos rfl, localScan]
      simp only
      rw [moveTo_unread, localLoop_closing (rest.length + 1)
        ((rest.dropWhile isAsciiAlphanumeric).length + 1) 43 parser rest
        (Nat.lt_succ_self _) (Nat.lt_succ_self _), afterRuns]
      by_cases empty : (rest.takeWhile isAsciiAlphanumeric).isEmpty
      · rw [if_pos empty, if_pos empty]
        rfl
      · rw [if_neg empty, if_neg empty]
        split
        · rw [bind_some, fillLocal, elim_some, take_after_run rest (length_skipItems_le _ _),
            fields_runs alphanumeric_not_separator _ _ _ all_takeWhile]
          rfl
        · rfl
    · have notPlus : byte.toNat ≠ 43 := fun same => plus (UInt8.toNat_inj.mp same)
      rw [if_neg plus, localScan_cons byte rest notPlus, <- shape]
      exact plain

/-! ## Suffixes of a version -/

def fillDev : AfterPost -> Parser -> Option Parser :=
  fillSuffix (fun _ n parser => { parser with dev := some n })
    fun text parser => some (fillLocal text parser)

/-- The parser from the dev release on. -/
def devTail : Option Parser :=
  parser.parseDev.toOption.bind fun parser => parser.parseLocal.toOption.bind closing

lemma devTail_reads : Reads devTail devScan fillDev := by
  intro parser
  rw [devTail, parseDev_eq]
  exact readSuffix_reads _ _ parseLocal_reads (fun _ _ _ _ => rfl) parser

def fillPost (data : AfterPre) (parser : Parser) : Option Parser :=
  match data.1 with
  | none => fillDev data.2 parser
  | some (.hyphen number) => (limited number).bind fun n =>
    fillDev data.2 { parser with post := some n }
  | some (.word suffix) => (limited suffix.number).bind fun n =>
    fillDev data.2 { parser with post := some n }

/-- The parser from the post-release on. -/
def postTail : Option Parser :=
  parser.parsePost.toOption.bind devTail

lemma parsePostWord_reads :
    parser.parsePostWord.toOption.bind devTail =
      ((suffixThen Parser.postSpellings devScan parser.unread).map fun data =>
        (data.1.map PostText.word, data.2)).bind fun data => fillPost data (moveTo parser []) := by
  rw [parsePostWord_eq, bind_map]
  refine (readSuffix_reads _ _ devTail_reads (fun _ _ _ _ => rfl) parser).trans ?_
  congr 1
  funext data
  obtain ⟨suffix, data⟩ := data
  cases suffix with
  | none => rfl
  | some suffix => rfl

lemma numberOf_of_empty {digits : List UInt8} (empty : digits.isEmpty) :
    numberOf digits = some none := if_pos empty

lemma numberOf_of_nonempty {digits : List UInt8} (nonempty : ¬ digits.isEmpty) :
    numberOf digits = (limited digits).map some := if_neg nonempty

lemma postTail_reads : Reads postTail postScan fillPost := by
  intro parser
  rw [postTail, parsePost, postScan]
  cases shape : parser.unread with
  | nil =>
    rw [bumpIf_nil "-" shape]
    refine (parsePostWord_reads parser).trans ?_
    rw [shape]
    rfl
  | cons byte rest =>
    rw [bumpIf_mark 45 rfl (by decide) shape, scanHyphen_cons]
    have word := parsePostWord_reads parser
    rw [shape] at word
    by_cases hyphen : byte = 45
    · rw [if_pos hyphen]
      simp only
      rw [toOption_bind, parseNumber_toOption, moveTo_unread, moveTo_moveTo]
      by_cases empty : (rest.takeWhile isAsciiDigit).isEmpty
      · rw [numberOf_of_empty empty, if_neg (fun both => Bool.eq_false_iff.mp both.2 empty)]
        exact word
      · rw [numberOf_of_nonempty empty, if_pos ⟨hyphen, Bool.eq_false_iff.mpr empty⟩]
        simp only [Option.map_map, Option.bind_map]
        cases converted : limited (rest.takeWhile isAsciiDigit) with
        | none =>
          rw [Option.bind_none, Option.bind_none, eq_comm, Option.bind_eq_none_iff]
          intro data _
          simp only [comp_apply, fillPost, converted, Option.bind_none]
        | some n =>
          simp only [Option.bind_some, comp_def, fillPost, converted]
          exact devTail_reads { moveTo parser (rest.dropWhile isAsciiDigit) with post := some n }
    · rw [if_neg hyphen, if_neg (fun both => hyphen both.1)]
      exact word

def fillPre : AfterRelease -> Parser -> Option Parser :=
  fillSuffix (fun kind n parser => { parser with pre := some ⟨kind, n⟩ }) fillPost

/-- The parser from the pre-release on. -/
def preTail : Option Parser :=
  parser.parsePre.toOption.bind postTail

lemma preTail_reads : Reads preTail preScan fillPre := by
  intro parser
  rw [preTail, parsePre_eq]
  exact readSuffix_reads _ _ postTail_reads (fun _ _ _ _ => rfl) parser

/-! ## Release and epoch -/

lemma digit_not_dot (byte : UInt8) (digit : isAsciiDigit byte) : isDot byte = false := by
  rw [isAsciiDigit_iff] at digit
  rw [Bool.eq_false_iff, ne_eq, isDot_iff]
  omega

def pushNumbers (numbers : List UInt64) (parser : Parser) : Parser :=
  { parser with release := parser.release ++ numbers }

lemma pushNumbers_nil : pushNumbers [] parser = parser := by
  rw [pushNumbers, append_nil]

lemma pushNumbers_cons (number : UInt64) (numbers : List UInt64) (parser : Parser) :
    pushNumbers (number :: numbers) parser = pushNumbers numbers (pushNumbers [number] parser) := by
  simp only [pushNumbers, append_assoc, singleton_append]

/-- The loop stops without a further number. -/
lemma stops : (Except.ok parser : Except ErrorKind Parser).toOption =
    ([].mapM limited).map fun numbers => pushNumbers numbers parser :=
  congrArg some (pushNumbers_nil parser).symm

/-- The loop reads a number after each dot, and stops before a dot without one. -/
lemma restOfReleaseLoop_toOption (parser : Parser) (input : List UInt8)
    (enough : input.length <= rounds) (enough' : input.length < rounds') :
    (Parser.restOfReleaseLoop rounds (moveTo parser input)).toOption =
      ((itemRuns isDot isAsciiDigit rounds' input).mapM limited).map fun numbers =>
        pushNumbers numbers (moveTo parser (skipItems isDot isAsciiDigit rounds' input)) := by
  induction rounds generalizing rounds' parser input with
  | zero =>
    rw [length_eq_zero_iff.mp (Nat.le_zero.mp enough)]
    cases rounds' with
    | zero => exact stops _
    | succ fewer => exact stops _
  | succ rounds ih =>
    cases rounds' with
    | zero => cases enough'
    | succ fewer =>
    cases input with
    | nil =>
      rw [restOfReleaseLoop, bumpIf_nil "." rfl]
      exact stops _
    | cons byte rest =>
      rw [restOfReleaseLoop, bumpIf_mark 46 rfl (by decide) (moveTo_unread _ _), itemRuns,
        skipItems]
      by_cases dot : byte = 46
      · have isDot : isDot byte := by rw [dot]; rfl
        rw [if_pos dot, isDot, Bool.true_and]
        simp only
        rw [toOption_bind, parseNumber_toOption, moveTo_moveTo, moveTo_unread, moveTo_moveTo]
        by_cases empty : (rest.takeWhile isAsciiDigit).isEmpty
        · rw [numberOf_of_empty empty, empty, Bool.not_true, if_neg Bool.false_ne_true,
            if_neg Bool.false_ne_true]
          exact stops _
        · rw [numberOf_of_nonempty empty, Bool.eq_false_iff.mpr empty, Bool.not_false, if_pos rfl,
            if_pos rfl, mapM_cons]
          cases converted : limited (rest.takeWhile isAsciiDigit) with
          | none => rfl
          | some n =>
            rw [length_cons] at enough enough'
            have after : (rest.dropWhile isAsciiDigit).length <= rest.length :=
              (dropWhile_sublist _).length_le
            have further := ih fewer (pushNumbers [n] parser) (rest.dropWhile isAsciiDigit)
              (by omega) (by omega)
            refine further.trans ?_
            cases (itemRuns Grammar.isDot isAsciiDigit fewer
              (rest.dropWhile isAsciiDigit)).mapM limited with
            | none => rfl
            | some numbers => exact congrArg some (pushNumbers_cons n numbers (moveTo parser _)).symm
      · have notDot : isDot byte = false := by
          rw [Bool.eq_false_iff, ne_eq, isDot_iff]
          exact fun same => dot (UInt8.toNat_inj.mp same)
        rw [if_neg dot, notDot, Bool.false_and, if_neg Bool.false_ne_true,
          if_neg Bool.false_ne_true]
        exact stops _

def fillRelease (data : List UInt8 × AfterRelease) (parser : Parser) : Option Parser :=
  ((fields isDot data.1).mapM limited).bind fun numbers =>
    fillPre data.2 (pushNumbers numbers parser)

/-- The parser after the first release number. -/
def releaseTail : Option Parser :=
  parser.parseRestOfRelease.toOption.bind preTail

/-- A first release number and the parser after it. -/
def readRelease : Option Parser :=
  parser.parseNumber.toOption.bind fun found =>
    found.1.bind fun n => releaseTail (pushNumbers [n] found.2)

lemma releaseTail_moveTo (input : List UInt8) :
    releaseTail (moveTo parser input) =
      (preScan (skipItems isDot isAsciiDigit (input.length + 1) input)).bind fun data =>
        ((itemRuns isDot isAsciiDigit (input.length + 1) input).mapM limited).bind fun numbers =>
          fillPre data (pushNumbers numbers (moveTo parser [])) := by
  rw [releaseTail, parseRestOfRelease, moveTo_unread,
    restOfReleaseLoop_toOption input.length (input.length + 1) parser input (Nat.le_refl _)
      (Nat.lt_succ_self _), bind_map, bind_comm]
  congr 1
  funext numbers
  exact preTail_reads _

lemma readRelease_reads : Reads readRelease releaseScan fillRelease := by
  intro parser
  rw [readRelease, parseNumber_toOption, releaseScan]
  generalize parser.unread = input
  by_cases empty : (input.takeWhile isAsciiDigit).isEmpty
  · rw [numberOf_of_empty empty, if_pos empty]
    rfl
  · have text : fields isDot (input.take (input.length - (afterNumbers input).length)) =
        input.takeWhile isAsciiDigit :: itemRuns isDot isAsciiDigit
          ((input.dropWhile isAsciiDigit).length + 1) (input.dropWhile isAsciiDigit) := by
      rw [afterNumbers, take_after_run input (length_skipItems_le _ _),
        fields_runs digit_not_dot _ _ _ all_takeWhile]
    rw [numberOf_of_nonempty empty, if_neg empty]
    simp only [Option.bind_map, comp_def, fillRelease, Option.bind_some, text,
      mapM_cons, Option.bind_eq_bind, Option.bind_assoc, Option.pure_def]
    rw [Option.bind_comm]
    congr 1
    funext n
    refine (releaseTail_moveTo (pushNumbers [n] parser) _).trans ?_
    have moved : moveTo (pushNumbers [n] parser) [] = pushNumbers [n] (moveTo parser []) := rfl
    simp only [moved, <- pushNumbers_cons]
    rfl

/-- The parser from the epoch on. -/
def epochTail : Option Parser :=
  parser.parseEpochAndInitialRelease.toOption.bind releaseTail

def fillEpoch (data : VersionScan) (parser : Parser) : Option Parser :=
  match data.1 with
  | none => fillRelease data.2 parser
  | some digits => (limited digits).bind fun n => fillRelease data.2 { parser with epoch := n }

/-- After an epoch, the first release number is read as it is without one. -/
lemma readRelease_eq :
    (parser.parseNumber >>= fun found =>
      match found.1 with
      | none => Except.error ErrorKind.noLeadingReleaseNumber
      | some n => .ok { found.2 with release := found.2.release ++ [n] }).toOption.bind releaseTail =
      readRelease parser := by
  rw [toOption_bind, readRelease, bind_assoc]
  congr 1
  funext found
  obtain ⟨number, parser⟩ := found
  cases number with
  | none => rfl
  | some n => rfl

lemma epochTail_reads : Reads epochTail epochScan fillEpoch := by
  intro parser
  rw [epochTail, parseEpochAndInitialRelease, epochScan, toOption_bind, parseNumber_toOption]
  have whole := readRelease_reads parser
  rw [readRelease, parseNumber_toOption] at whole
  generalize parser.unread = input at whole ⊢
  by_cases empty : (input.takeWhile isAsciiDigit).isEmpty
  · rw [numberOf_of_empty empty, if_pos empty]
    rfl
  · rw [numberOf_of_nonempty empty, if_neg empty]
    rw [numberOf_of_nonempty empty] at whole
    simp only [bind_map, comp_def, bind_some] at whole
    simp only [bind_assoc, bind_map, comp_def]
    cases shape : input.dropWhile isAsciiDigit with
    | nil =>
      rw [shape] at whole
      simp only [bumpIf_nil "!" (moveTo_unread parser []), bind_map, comp_def]
      exact whole
    | cons byte rest =>
      rw [shape] at whole
      have mark := @bumpIf_mark (moveTo parser (byte :: rest)) "!" 33 byte rest rfl (by decide) rfl
      by_cases exclaims : byte = 33
      · subst exclaims
        rw [if_pos rfl] at mark
        simp only [mark, bind_map, comp_def, fillEpoch]
        rw [bind_comm]
        congr 1
        funext n
        exact (readRelease_eq { moveTo parser rest with epoch := n }).trans
          (readRelease_reads { moveTo parser rest with epoch := n })
      · rw [if_neg exclaims] at mark
        simp only [mark]
        split
        next same => exact absurd (cons.inj same).1 exclaims
        next =>
          rw [bind_map]
          exact whole

/-! ## Whole versions -/

/-- The version of a pattern without a wildcard. -/
def plain : Except PatternErrorKind VersionPattern -> Option Version
  | .ok pattern => if pattern.wildcard then none else some pattern.version
  | .error _ => none

lemma parse_toOption (bytes : List UInt8) :
    (Parser.parse bytes).toOption = plain (Parser.parsePattern bytes) := by
  rw [parse]
  cases parsePattern bytes with
  | ok pattern =>
    simp only [plain]
    split <;> rfl
  | error err =>
    cases err with
    | version err => rfl
    | wildcardNotTrailing => rfl
    | noRelease => rfl

lemma plain_bind {α : Type} (first : Except PatternErrorKind α)
    (next : α -> Except PatternErrorKind VersionPattern) :
    plain (first >>= next) = first.toOption.bind fun value => plain (next value) := by
  cases first with
  | ok value => rfl
  | error err => rfl

lemma plain_liftError_bind {α : Type} (first : Except ErrorKind α)
    (next : α -> Except PatternErrorKind VersionPattern) :
    plain (Parser.liftError first >>= next) =
      first.toOption.bind fun value => plain (next value) := by
  cases first with
  | ok value => rfl
  | error err => rfl

/-- The version of a parser that is done. -/
def intoVersion : Option Version := plain parser.intoPattern

lemma dropWhile_isEmpty (input : List UInt8) :
    (input.dropWhile isAsciiWhitespace).isEmpty = atEnd input := by
  induction input with
  | nil => rfl
  | cons byte rest ih =>
    rw [dropWhile_cons, atEnd, all_cons]
    by_cases space : isAsciiWhitespace byte
    · rw [if_pos space, space, Bool.true_and, ih, atEnd]
    · rw [if_neg space, Bool.eq_false_iff.mpr space, Bool.false_and, isEmpty_cons]

/-- The parser after the release, when no wildcard follows. -/
lemma plain_suffixes (bytes : List UInt8) (parser : Parser) :
    plain (do
      let parser <- Parser.liftError parser.parsePre
      let parser <- Parser.liftError parser.parsePost
      let parser <- Parser.liftError parser.parseDev
      let parser <- Parser.liftError parser.parseLocal
      let parser := (parser.bumpWhile isAsciiWhitespace).2
      if !parser.isDone then
        .error (.version (.unexpectedEnd
          (bytes.take (bytes.length - parser.unread.length)) parser.unread))
      else parser.intoPattern) = (preTail parser).bind intoVersion := by
  simp only [plain_liftError_bind, preTail, postTail, devTail, bind_assoc, bumpWhile_eq]
  congr 1
  funext parser
  congr 1
  funext parser
  congr 1
  funext parser
  congr 1
  funext parser
  rw [isDone, moveTo_unread, dropWhile_isEmpty, closing]
  by_cases ends : atEnd parser.unread
  · rw [if_pos ends, if_neg (by rw [ends]; decide)]
    rw [<- dropWhile_isEmpty, List.isEmpty_iff] at ends
    rw [ends]
    rfl
  · rw [if_neg ends, if_pos (by rw [Bool.eq_false_iff.mpr ends]; decide)]
    rfl

/-- A wildcard leaves nothing that the grammar accepts. -/
theorem preScan_wildcard {input : List UInt8}
    (starts : startsWithIgnoreAsciiCase (asBytes ".*") input = true) : preScan input = none := by
  have bytes : asBytes ".*" = [46, 42] := by decide
  rw [bytes, startsWith_iff_initial] at starts
  match input with
  | [] => exact absurd starts (by decide)
  | [_] =>
    have length := starts.length_le
    simp at length
  | dot :: asterisk :: rest =>
    simp only [map_cons, cons_prefix_cons] at starts
    obtain ⟨dots, asterisks, _⟩ := starts
    rw [lowerNat_mark dot (by decide)] at dots
    rw [lowerNat_mark asterisk (by decide)] at asterisks
    rw [dots, asterisks]
    refine preScan_follows.rejects_separator 46 (42 :: rest) (by decide) ?_
    exact preScan_mark rest (Or.inr rfl)

lemma plain_wildcard :
    plain { parser with wildcard := true }.intoPattern = none := by
  rw [intoPattern]
  split
  · rfl
  · rfl

/-- The parser after the release.  A pattern with a wildcard is no version. -/
lemma plain_afterRelease (next : Parser -> Except PatternErrorKind VersionPattern)
    (suffixes : ∀ parser, plain (next parser) = (preTail parser).bind intoVersion) :
    plain (do
      let (wildcard, parser) <- parser.parseWildcard
      if wildcard then parser.intoPattern else next parser) =
      (preTail parser).bind intoVersion := by
  rw [plain_bind, parseWildcard, bumpIf]
  by_cases starts : startsWithIgnoreAsciiCase (asBytes ".*") parser.unread
  · have more : parser.isDone = false := by
      rw [isDone]
      cases shape : parser.unread with
      | nil => rw [shape] at starts; cases starts
      | cons byte rest => rfl
    rw [preTail_reads, preScan_wildcard starts, if_pos starts, more, if_neg Bool.false_ne_true]
    simp only
    split
    · rfl
    · exact plain_wildcard _
  · rw [if_neg starts, ite_self]
    exact suffixes parser

lemma parseSlow_plain (bytes : List UInt8) :
    plain (Parser.parseSlow bytes) =
      (versionScan (bytes.dropWhile isAsciiWhitespace)).bind fun data =>
        (fillEpoch data (Parser.new [])).bind intoVersion := by
  have start : ∀ input : List UInt8,
      ((moveTo (new []) input).bumpIf "v").getD (moveTo (new []) input) =
        moveTo (new []) (afterV input) := by
    intro input
    rw [bumpIf, afterV]
    cases input with
    | nil => rfl
    | cons byte rest =>
      rw [isDone, moveTo_unread, isEmpty_cons, if_neg Bool.false_ne_true]
      split <;> rfl
  rw [parseSlow, bumpWhile_eq]
  change plain ((liftError (((moveTo (new []) _).bumpIf "v").getD
    (moveTo (new []) _)).parseEpochAndInitialRelease) >>= _) = _
  rw [start, plain_liftError_bind, versionScan]
  have stages := epochTail_reads
    (moveTo (new []) (afterV (bytes.dropWhile isAsciiWhitespace)))
  rw [epochTail, moveTo_unread] at stages
  rw [<- bind_assoc]
  refine Eq.trans ?_ (congrArg (fun found => found.bind intoVersion) stages)
  rw [bind_assoc]
  congr 1
  funext parser
  rw [plain_liftError_bind, releaseTail, bind_assoc]
  congr 1
  funext parser
  exact plain_afterRelease parser _ (plain_suffixes bytes)

end Scan

end Uv.Pep440
