import Mathlib

namespace Uv.Normalize

open List

/-!
# Names of packages

A name consists of letters, digits and punctuation between them.  It is normalized to
lower case, with a dash for each run of punctuation.  In filenames, where dashes have
another use, the dashes are written as underscores.
-/

def isPunctuation (c : Char) : Bool := c == '-' || c == '_' || c == '.'

/-! ## Normalization -/

/-- The characters that are left, after the one given. -/
def normalizeFrom : Option Char -> List Char -> Option (List Char)
  | last, [] => if last.any isPunctuation then none else some []
  | last, c :: rest =>
    if c.isUpper then (normalizeFrom (some c) rest).map (c.toLower :: ·)
    else if c.isLower || c.isDigit then (normalizeFrom (some c) rest).map (c :: ·)
    else if isPunctuation c then
      match last with
      | none => none
      | some before =>
        if isPunctuation before then normalizeFrom (some c) rest
        else (normalizeFrom (some c) rest).map ('-' :: ·)
    else none

variable (name : List Char)

def normalize : Option (List Char) :=
  if name = [] then none else normalizeFrom none name

/-- Whether the characters that are left need no change, if they are valid. -/
def isNormalizedFrom : Option Char -> List Char -> Option Bool
  | last, [] => if last.any isPunctuation then none else some true
  | last, c :: rest =>
    if c.isUpper then some false
    else if c.isLower || c.isDigit then isNormalizedFrom (some c) rest
    else if c == '_' || c == '.' then some false
    else if c == '-' then
      match last with
      | none => none
      | some before => if before == '-' then some false else isNormalizedFrom (some c) rest
    else none

def isNormalized : Option Bool :=
  if name = [] then none else isNormalizedFrom none name

def validateAndNormalizeRef : Option (List Char) :=
  match isNormalized name with
  | none => none
  | some true => some name
  | some false => normalize name

namespace PackageName

def fromStr (name : String) : Option String :=
  (validateAndNormalizeRef name.toList).map String.ofList

def asDistInfoName (name : String) : String :=
  String.ofList (name.toList.map fun c => if c == '-' then '_' else c)

end PackageName

/-! ## Characters -/

variable {c : Char}

lemma isPunctuation_iff :
    isPunctuation c <-> c = '-' \/ c = '_' \/ c = '.' := by
  simp only [isPunctuation, Bool.or_eq_true, beq_iff_eq, or_assoc]

lemma not_isPunctuation_of_alphanumeric (letter : (c.isLower || c.isDigit)) :
    isPunctuation c = false := by
  rw [Bool.eq_false_iff]
  intro punctuation
  rcases isPunctuation_iff.mp punctuation with rfl | rfl | rfl <;> cases letter

lemma isUpper_iff : c.isUpper <-> 65 <= c.toNat /\ c.toNat <= 90 := by
  simp [Char.isUpper, UInt32.le_iff_toNat_le, <- Char.toNat_val]

lemma isLower_iff : c.isLower <-> 97 <= c.toNat /\ c.toNat <= 122 := by
  simp [Char.isLower, UInt32.le_iff_toNat_le, <- Char.toNat_val]

lemma isDigit_iff : c.isDigit <-> 48 <= c.toNat /\ c.toNat <= 57 := by
  simp [Char.isDigit, UInt32.le_iff_toNat_le, <- Char.toNat_val]

lemma isLower_toLower (upper : c.isUpper) : c.toLower.isLower := by
  have all : ∀ n, n < 91 -> (Char.ofNat n).isUpper ->
      (Char.ofNat n).toLower.isLower := by decide +kernel
  have small : c.toNat < 91 := Nat.lt_succ_of_le (isUpper_iff.mp upper).2
  rw [<- Char.ofNat_toNat c] at upper ⊢
  exact all c.toNat small upper

lemma not_isPunctuation_of_isUpper (upper : c.isUpper) : isPunctuation c = false := by
  rw [Bool.eq_false_iff]
  intro punctuation
  rcases isPunctuation_iff.mp punctuation with rfl | rfl | rfl <;> cases upper

/-! ## Normalized names -/

variable {last : Option Char}

/-- Only whether there is a last character, and whether it is punctuation, matters. -/
lemma normalizeFrom_congr {other : Option Char}
    (same : last.map isPunctuation = other.map isPunctuation) (name : List Char) :
    normalizeFrom last name = normalizeFrom other name := by
  cases last with
  | none =>
    cases other with
    | none => rfl
    | some after => cases same
  | some before =>
    cases other with
    | none => cases same
    | some after =>
      have equal : isPunctuation before = isPunctuation after := Option.some.inj same
      cases name <;> simp only [normalizeFrom, Option.any_some, equal]

/-- A small letter or a digit stands for itself. -/
lemma normalizeFrom_letter (letter : (c.isLower || c.isDigit)) (others : List Char) :
    normalizeFrom last (c :: others) = (normalizeFrom (some c) others).map (c :: ·) := by
  have notUpper : ¬c.isUpper := by
    rw [Bool.or_eq_true, isLower_iff, isDigit_iff] at letter
    rw [isUpper_iff]
    omega
  rw [normalizeFrom.eq_def]
  dsimp only
  rw [if_neg notUpper, if_pos letter]

variable {before : Char}

/-- A run of punctuation is written as one dash. -/
lemma normalizeFrom_mark (first : isPunctuation before = false)
    (mark : isPunctuation c) (others : List Char) :
    normalizeFrom (some before) (c :: others) = (normalizeFrom (some c) others).map ('-' :: ·) := by
  rcases isPunctuation_iff.mp mark with rfl | rfl | rfl <;>
    exact if_neg (Bool.eq_false_iff.mp first)

/-- Normalization leaves a normalized name as it is. -/
lemma normalizeFrom_normalized {name normalized : List Char}
    (read : normalizeFrom last name = some normalized) :
    normalizeFrom last normalized = some normalized := by
  induction name generalizing last normalized with
  | nil =>
    have empty := read
    rw [normalizeFrom] at empty
    split at empty
    next => cases empty
    next =>
      cases empty
      exact read
  | cons c rest ih =>
    have same : ∀ {c' : Char} {others}, isPunctuation c' = isPunctuation c ->
        normalizeFrom (some c) rest = some others ->
        normalizeFrom (some c') others = some others := fun kind inner =>
      (@normalizeFrom_congr (some _) (some c) (congrArg some kind) _).trans (ih inner)
    rw [normalizeFrom.eq_def] at read
    dsimp only at read
    split_ifs at read with upper letter mark
    · rcases Option.map_eq_some_iff.mp read with ⟨others, inner, rfl⟩
      have letter : (c.toLower.isLower || c.toLower.isDigit) := by
        rw [isLower_toLower upper]
        rfl
      have kind := not_isPunctuation_of_isUpper upper
      rw [normalizeFrom_letter letter,
        same ((not_isPunctuation_of_alphanumeric letter).trans kind.symm) inner, Option.map_some]
    · rcases Option.map_eq_some_iff.mp read with ⟨others, inner, rfl⟩
      rw [normalizeFrom_letter letter, same rfl inner, Option.map_some]
    · cases last with
      | none => cases read
      | some before =>
        dsimp only at read
        split_ifs at read with run
        · -- The whole run is written as the dash before it.
          exact same (run.trans mark.symm) read
        · rcases Option.map_eq_some_iff.mp read with ⟨others, inner, rfl⟩
          rw [normalizeFrom_mark (Bool.eq_false_iff.mpr run) rfl, @same '-' others mark.symm inner,
            Option.map_some]

lemma normalizeFrom_ne_nil {name normalized : List Char} (nonempty : name ≠ [])
    (read : normalizeFrom none name = some normalized) : normalized ≠ [] := by
  rintro rfl
  cases name with
  | nil => exact nonempty rfl
  | cons c rest =>
    rw [normalizeFrom.eq_def] at read
    dsimp only at read
    split_ifs at read <;>
      exact absurd (Option.map_eq_some_iff.mp read) (by rintro ⟨_, _, same⟩; cases same)

/-! ## Names in filenames -/

def escape (c : Char) : Char := if c == '-' then '_' else c

variable (name : List Char)

lemma normalizeFrom_map_escape :
    normalizeFrom last (name.map escape) = normalizeFrom last name := by
  induction name generalizing last with
  | nil => rfl
  | cons c rest ih =>
    by_cases dash : c = '-'
    · subst dash
      have next : normalizeFrom (some '_') (rest.map escape) = normalizeFrom (some '-') rest :=
        (@normalizeFrom_congr (some '_') (some '-') rfl _).trans ih
      change normalizeFrom last ('_' :: rest.map escape) = _
      rw [normalizeFrom.eq_def, normalizeFrom.eq_def]
      dsimp only
      rw [next]
      rfl
    · rw [map_cons, escape, if_neg (by rw [beq_iff_eq]; exact dash), normalizeFrom.eq_def,
        normalizeFrom.eq_def last (c :: rest)]
      dsimp only
      rw [ih]

/-! ## Names joined by dashes -/

lemma normalizeFrom_append {first normalized : List Char}
    (read : normalizeFrom (some before) first = some normalized) (rest : List Char) :
    normalizeFrom (some before) (first ++ '-' :: rest) =
      (normalizeFrom (some '-') rest).map (normalized ++ '-' :: ·) := by
  induction first generalizing before normalized with
  | nil =>
    rw [normalizeFrom] at read
    split at read
    next => cases read
    next letter =>
      cases read
      exact normalizeFrom_mark (Bool.eq_false_iff.mpr letter) rfl rest
  | cons c others ih =>
    have next : ∀ letter : Char,
        (normalizeFrom (some c) others).map (letter :: ·) = some normalized ->
        (normalizeFrom (some c) (others ++ '-' :: rest)).map (letter :: ·) =
          (normalizeFrom (some '-') rest).map (normalized ++ '-' :: ·) := by
      intro letter read
      rcases Option.map_eq_some_iff.mp read with ⟨after, inner, rfl⟩
      rw [ih inner, Option.map_map]
      rfl
    rw [cons_append, normalizeFrom.eq_def]
    rw [normalizeFrom.eq_def] at read
    dsimp only at read ⊢
    split_ifs at read ⊢
    · exact next _ read
    · exact next _ read
    · exact ih read
    · exact next _ read

/-- The text is read as it is, whatever stands before it. -/
def Plain : Prop := ∀ before, normalizeFrom (some before) name = some name

lemma Plain.join {first rest : List Char} (plain : Plain first) (plain' : Plain rest) :
    Plain (first ++ '-' :: rest) := by
  intro before
  rw [normalizeFrom_append (plain before), plain', Option.map_some]

lemma plain_of_digits {digits : List Char} (nonempty : digits ≠ [])
    (all : ∀ c ∈ digits, c.isDigit) : Plain digits := by
  induction digits with
  | nil => exact absurd rfl nonempty
  | cons c rest ih =>
    have letter : (c.isLower || c.isDigit) := by
      rw [all c mem_cons_self, Bool.or_true]
    intro before
    rw [normalizeFrom_letter letter]
    by_cases last : rest = []
    · rw [last, normalizeFrom, Option.any_some, not_isPunctuation_of_alphanumeric letter]
      rfl
    · rw [ih last (forall_mem_cons.mp all).2, Option.map_some]

/-! ## The specification of names -/

def isNameCharacter (c : Char) : Bool := c.isAlphanum || isPunctuation c

/-- Letters, digits and punctuation, with a letter or a digit at both ends. -/
def isValid : Bool :=
  name.all isNameCharacter && name.head?.any Char.isAlphanum && name.getLast?.any Char.isAlphanum

/-- The name in lower case, with a dash for the last mark of each run of punctuation. -/
def normalForm : List Char -> List Char
  | [] => []
  | c :: rest =>
    if isPunctuation c then
      if rest.head?.any isPunctuation then normalForm rest else '-' :: normalForm rest
    else c.toLower :: normalForm rest

lemma length_normalForm : (normalForm name).length <= name.length := by
  induction name with
  | nil => exact Nat.le_refl 0
  | cons c rest ih =>
    rw [normalForm, length_cons]
    split_ifs
    · exact Nat.le_succ_of_le ih
    · exact Nat.succ_le_succ ih
    · exact Nat.succ_le_succ ih

lemma normalForm_mark (mark : isPunctuation c) (rest : List Char) :
    normalForm (c :: rest) = '-' :: normalForm (rest.dropWhile isPunctuation) := by
  induction rest generalizing c with
  | nil => rw [normalForm, if_pos mark]; rfl
  | cons next rest ih =>
    rw [normalForm, if_pos mark, head?_cons, Option.any_some]
    by_cases again : isPunctuation next
    · rw [if_pos again, ih again, dropWhile_cons_of_pos again]
    · rw [if_neg again, dropWhile_cons_of_neg again]

lemma isAlphanum_iff : c.isAlphanum <-> c.isUpper \/ (c.isLower || c.isDigit) := by
  rw [Char.isAlphanum, Char.isAlpha, Bool.or_assoc, Bool.or_eq_true]

lemma not_isPunctuation_of_isAlphanum (letter : c.isAlphanum) : isPunctuation c = false := by
  rcases isAlphanum_iff.mp letter with upper | letter
  · exact not_isPunctuation_of_isUpper upper
  · exact not_isPunctuation_of_alphanumeric letter

lemma toLower_eq_self (letter : c.isLower || c.isDigit) : c.toLower = c := by
  refine dif_neg fun upper => ?_
  have upper := isUpper_iff.mp (decide_eq_true upper)
  rw [Bool.or_eq_true, isLower_iff, isDigit_iff] at letter
  omega

/-- After punctuation the rest of the run is left out. -/
lemma normalizeFrom_eq (before : Char) (name : List Char) :
    normalizeFrom (some before) name =
      if name.all isNameCharacter && !isPunctuation (name.getLast?.getD before) then
        some (normalForm (if isPunctuation before then name.dropWhile isPunctuation else name))
      else none := by
  induction name generalizing before with
  | nil =>
    rw [normalizeFrom, Option.any_some, getLast?_nil, Option.getD_none]
    cases isPunctuation before <;> rfl
  | cons c rest ih =>
    rw [getLast?_cons, Option.getD_some, all_cons]
    have written : c.isAlphanum -> ∀ text, c.toLower = text ->
        (normalizeFrom (some c) rest).map (text :: ·) =
          if isNameCharacter c && rest.all isNameCharacter && !isPunctuation (rest.getLast?.getD c)
          then some (normalForm (if isPunctuation before then (c :: rest).dropWhile isPunctuation
            else c :: rest)) else none := by
      rintro letter _ rfl
      have other := Bool.eq_false_iff.mp (not_isPunctuation_of_isAlphanum letter)
      rw [ih, if_neg other, dropWhile_cons_of_neg other, ite_self, normalForm, if_neg other,
        isNameCharacter, letter, Bool.true_or, Bool.true_and]
      split_ifs <;> rfl
    rw [normalizeFrom.eq_def]
    dsimp only
    by_cases upper : c.isUpper
    · rw [if_pos upper]
      exact written (isAlphanum_iff.mpr (.inl upper)) _ rfl
    rw [if_neg upper]
    by_cases letter : c.isLower || c.isDigit
    · rw [if_pos letter]
      exact written (isAlphanum_iff.mpr (.inr letter)) c (toLower_eq_self letter)
    rw [if_neg letter]
    by_cases mark : isPunctuation c
    · rw [if_pos mark, ih, if_pos mark, dropWhile_cons_of_pos mark, isNameCharacter, mark,
        Bool.or_true, Bool.true_and]
      by_cases run : isPunctuation before
      · rw [if_pos run, if_pos run]
      · rw [if_neg run, if_neg run, normalForm_mark mark]
        split <;> rfl
    · have foreign : isNameCharacter c = false := by
        rw [isNameCharacter, Bool.or_eq_false_iff, Bool.eq_false_iff, Bool.eq_false_iff, Ne,
          isAlphanum_iff]
        exact ⟨fun either => either.elim upper letter, mark⟩
      rw [if_neg mark, foreign]
      rfl

lemma length_normalizeFrom {name normalized : List Char}
    (read : normalizeFrom (some before) name = some normalized) :
    normalized.length <= name.length := by
  rw [normalizeFrom_eq] at read
  split at read
  next =>
    cases read
    refine (length_normalForm _).trans ?_
    split
    · exact (dropWhile_suffix isPunctuation).length_le
    · exact Nat.le_refl _
  next => cases read

/-- The characters are read from left to right, so whenever something follows, the last character
is a dash if it is punctuation.  The test rejects what normalization rejects, and it tells
whether normalization changes anything. -/
lemma isNormalizedFrom_spec {name : List Char}
    (dash : ∀ c, last = some c -> isPunctuation c -> c = '-') :
    isNormalizedFrom last name = none /\ normalizeFrom last name = none \/
      ∃ quick, isNormalizedFrom last name = some quick /\
        (normalizeFrom last name = some name <-> quick) := by
  induction name generalizing last with
  | nil =>
    rw [isNormalizedFrom, normalizeFrom]
    split
    · exact .inl ⟨rfl, rfl⟩
    · exact .inr ⟨true, rfl, by simp⟩
  | cons c rest ih =>
    have next : (isPunctuation c -> c = '-') ->
        isNormalizedFrom (some c) rest = none /\ (normalizeFrom (some c) rest).map (c :: ·) = none \/
        ∃ quick, isNormalizedFrom (some c) rest = some quick /\
          ((normalizeFrom (some c) rest).map (c :: ·) = some (c :: rest) <-> quick) := by
      intro mark
      have kept : (normalizeFrom (some c) rest).map (c :: ·) = some (c :: rest) <->
          normalizeFrom (some c) rest = some rest := by simp
      rw [Option.map_eq_none_iff, kept]
      exact ih fun other same => Option.some.inj same ▸ mark
    have changed : ∀ result, result ≠ some (c :: rest) -> some false = none /\ result = none \/
        ∃ quick, some false = some quick /\ (result = some (c :: rest) <-> quick) :=
      fun result other => .inr ⟨false, rfl, iff_of_false other Bool.false_ne_true⟩
    -- The rest of a run of punctuation is left out.
    have shorter : normalizeFrom (some c) rest ≠ some (c :: rest) := fun self => by
      have less := length_normalizeFrom self
      rw [length_cons] at less
      omega
    rw [isNormalizedFrom.eq_def, normalizeFrom.eq_def]
    dsimp only
    by_cases upper : c.isUpper
    · rw [if_pos upper, if_pos upper]
      refine changed _ fun self => ?_
      rcases Option.map_eq_some_iff.mp self with ⟨_, _, same⟩
      have lower := isLower_toLower upper
      rw [(cons.inj same).1, isLower_iff] at lower
      have := isUpper_iff.mp upper
      omega
    rw [if_neg upper, if_neg upper]
    by_cases letter : c.isLower || c.isDigit
    · rw [if_pos letter, if_pos letter]
      refine next fun mark => ?_
      rw [not_isPunctuation_of_alphanumeric letter] at mark
      cases mark
    rw [if_neg letter, if_neg letter, isPunctuation, Bool.or_assoc]
    by_cases other : c == '_' || c == '.'
    · rw [if_pos other, other, Bool.or_true, if_pos rfl]
      refine changed _ fun self => ?_
      cases last with
      | none => cases self
      | some before =>
        dsimp only at self
        split at self
        next => exact shorter self
        next =>
          rcases Option.map_eq_some_iff.mp self with ⟨_, _, same⟩
          rw [<- (cons.inj same).1] at other
          cases other
    rw [if_neg other, Bool.eq_false_iff.mpr other, Bool.or_false]
    by_cases isDash : c == '-'
    · obtain rfl := beq_iff_eq.mp isDash
      rw [if_pos isDash, if_pos isDash]
      cases last with
      | none => exact .inl ⟨rfl, rfl⟩
      | some before =>
        dsimp only
        by_cases run : before == '-'
        · obtain rfl := beq_iff_eq.mp run
          exact changed _ shorter
        · rw [if_neg run, if_neg fun mark => run (beq_iff_eq.mpr (dash before rfl mark))]
          exact next fun _ => rfl
    · rw [if_neg isDash, if_neg isDash]
      exact .inl ⟨rfl, rfl⟩

/-- The test only saves work. -/
lemma validateAndNormalizeRef_eq :
    validateAndNormalizeRef name = normalize name := by
  rw [validateAndNormalizeRef, isNormalized, normalize]
  split_ifs with empty
  · rfl
  rcases @isNormalizedFrom_spec none name (fun _ same => by cases same) with
    ⟨none, rejected⟩ | ⟨quick, read, self⟩
  · rw [none, rejected]
  · rw [read]
    cases quick with
    | true => exact (self.mpr rfl).symm
    | false => rfl

lemma isAlphanum_of_isNameCharacter (plain : isNameCharacter c) :
    (!isPunctuation c) = c.isAlphanum := by
  cases letter : c.isAlphanum with
  | true => rw [not_isPunctuation_of_isAlphanum letter, Bool.not_false]
  | false =>
    rw [isNameCharacter, letter, Bool.false_or] at plain
    rw [plain, Bool.not_true]

/-- A name begins as if a letter stood before it, except that it may not begin with punctuation. -/
lemma normalizeFrom_none (c : Char) (rest : List Char) :
    normalizeFrom none (c :: rest) =
      if c.isAlphanum then normalizeFrom (some 'a') (c :: rest) else none := by
  rw [normalizeFrom.eq_def, normalizeFrom.eq_def (some 'a')]
  dsimp only
  by_cases upper : c.isUpper
  · rw [if_pos upper, if_pos upper, if_pos (isAlphanum_iff.mpr (.inl upper))]
  rw [if_neg upper, if_neg upper]
  by_cases letter : c.isLower || c.isDigit
  · rw [if_pos letter, if_pos letter, if_pos (isAlphanum_iff.mpr (.inr letter))]
  rw [if_neg letter, if_neg fun either => (isAlphanum_iff.mp either).elim upper letter]
  split <;> rfl

lemma normalize_eq :
    normalize name = if isValid name then some (normalForm name) else none := by
  cases name with
  | nil => rfl
  | cons c rest =>
    rw [normalize, if_neg (cons_ne_nil c rest), normalizeFrom_none, normalizeFrom_eq,
      if_neg (by decide : ¬ isPunctuation 'a'), isValid, head?_cons, getLast?_cons,
      Option.getD_some, Option.any_some, Option.any_some]
    cases plain : (c :: rest).all isNameCharacter with
    | false => exact ite_self none
    | true =>
      have last : rest.getLast?.getD c ∈ c :: rest := mem_of_getLast? getLast?_cons
      rw [isAlphanum_of_isNameCharacter (all_eq_true.mp plain _ last)]
      cases c.isAlphanum <;> rfl

namespace PackageName

lemma asDistInfoName_toList (name : String) :
    (asDistInfoName name).toList = name.toList.map escape :=
  String.toList_ofList

lemma dash_not_mem_asDistInfoName (name : String) : '-' ∉ (asDistInfoName name).toList := by
  rw [asDistInfoName_toList]
  intro inside
  rcases mem_map.mp inside with ⟨c, _, same⟩
  rw [escape] at same
  split at same
  next => cases same
  next other => exact other (beq_iff_eq.mpr same)

/-- A name that has been read is read back from its form in filenames. -/
lemma fromStr_asDistInfoName {text name : String} (read : fromStr text = some name) :
    fromStr (asDistInfoName name) = some name := by
  rw [fromStr, validateAndNormalizeRef_eq] at read ⊢
  rcases Option.map_eq_some_iff.mp read with ⟨normalized, accepted, rfl⟩
  rw [normalize] at accepted
  split at accepted
  next => cases accepted
  next nonempty =>
    have escaped : normalized.map escape ≠ [] := fun empty =>
      normalizeFrom_ne_nil nonempty accepted (map_eq_nil_iff.mp empty)
    rw [asDistInfoName_toList, String.toList_ofList, normalize, if_neg escaped,
      normalizeFrom_map_escape, normalizeFrom_normalized accepted, Option.map_some]

/-- A name that has been read stays as it is, also behind other text. -/
lemma plain_of_fromStr {text name : String} (read : fromStr text = some name) :
    fromStr name = some name /\ Plain name.toList := by
  rw [fromStr, validateAndNormalizeRef_eq] at read ⊢
  rcases Option.map_eq_some_iff.mp read with ⟨normalized, accepted, rfl⟩
  rw [normalize] at accepted
  split at accepted
  next => cases accepted
  next nonempty =>
    have filled := normalizeFrom_ne_nil nonempty accepted
    have kept := normalizeFrom_normalized accepted
    rw [String.toList_ofList, normalize, if_neg filled]
    refine ⟨congrArg (Option.map String.ofList) kept, fun before => ?_⟩
    cases normalized with
    | nil => exact absurd rfl filled
    | cons c rest =>
      rw [normalizeFrom.eq_def] at kept ⊢
      dsimp only at kept ⊢
      split_ifs at kept ⊢ <;> exact kept

/-- Exactly the names of PEP 508 are read, and the result is the normal form of PEP 503, which is
read as it is.  The quick test accepts the names that are their own normal form. -/
theorem fromStr_spec (text : String) :
    (fromStr text = if isValid text.toList then some (String.ofList (normalForm text.toList))
      else none) /\
    (∀ name, fromStr text = some name -> fromStr name = some name) /\
    (isNormalized text.toList = some true <->
      isValid text.toList = true /\ normalForm text.toList = text.toList) := by
  refine ⟨?_, fun name read => (plain_of_fromStr read).1, ?_⟩
  · rw [fromStr, validateAndNormalizeRef_eq, normalize_eq]
    split <;> rfl
  have read := normalize_eq text.toList
  rw [normalize] at read
  rw [isNormalized]
  split at read
  next empty => rw [empty]; decide
  next filled =>
    rw [if_neg filled]
    have self : normalizeFrom none text.toList = some text.toList <->
        isValid text.toList = true /\ normalForm text.toList = text.toList := by
      rw [read]
      split <;> simp_all
    rw [<- self]
    rcases @isNormalizedFrom_spec none text.toList (fun _ same => by cases same) with
      ⟨none, rejected⟩ | ⟨quick, same, kept⟩
    · rw [none, rejected]
      simp
    · rw [same, kept, Option.some_inj]

end PackageName

end Uv.Normalize
