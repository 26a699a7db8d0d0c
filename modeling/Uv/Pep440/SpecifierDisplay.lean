import Uv.Cache.Key
import Uv.Pep440.SpecifierCorrect

namespace Uv.Pep440

/-!
# Specifiers in writing

A specifier is written as its operator followed by its version, and a star
operator shows in the wildcard at the end only.  The text determines the operator
and all parts of the version.  Lists are sorted by version and operator; equal versions
that are written differently stay as they were given.
-/

/-- The operator stands before a version with a wildcard. -/
def Operator.isStar (operator : Operator) : Bool :=
  operator == .equalStar || operator == .notEqualStar

def VersionSpecifier.display (spec : VersionSpecifier) : String :=
  if spec.operator.isStar then
    spec.operator.asStr ++ spec.version.display ++ ".*"
  else spec.operator.asStr ++ spec.version.display

/-- The specifiers of a list, separated by commas. -/
def VersionSpecifiers.display (list : VersionSpecifiers) : String :=
  String.intercalate ", " (list.specifiers.map VersionSpecifier.display)

/-! ## The text determines the specifier -/

open Library Scan Version List

/-- The bytes of operators. -/
def isOperatorByte (byte : UInt8) : Bool :=
  byte == 61 || byte == 33 || byte == 126 || byte == 60 || byte == 62

variable (operator : Operator)

lemma Operator.asStr_bytes :
    (asBytes operator.asStr).all isOperatorByte := by
  cases operator <;> decide

lemma Operator.eq_of_asStr {operator operator' : Operator}
    (same : asBytes operator.asStr = asBytes operator'.asStr)
    (stars : operator.isStar = operator'.isStar) : operator = operator' := by
  revert same stars
  cases operator <;> cases operator' <;> decide

/-- The text of a version begins with a digit. -/
lemma Version.display_digit (version : Version) : ∃ digit more,
    isAsciiDigit digit /\ asBytes version.display = digit :: more := by
  cases release : version.release with
  | nil => exact absurd release version.nonempty
  | cons first others =>
    rw [display, asBytes_append, asBytes_append, release, asBytes_displayRelease]
    exact display_start version.epoch first others _

lemma takeWhile_operator {operator rest : List UInt8} (all : operator.all isOperatorByte)
    {digit : UInt8} {more : List UInt8} (isDigit : isAsciiDigit digit)
    (start : rest = digit :: more) :
    (operator ++ rest).takeWhile isOperatorByte = operator /\
      (operator ++ rest).dropWhile isOperatorByte = rest := by
  have stops : isOperatorByte digit = false := by
    revert isDigit
    unfold isAsciiDigit isOperatorByte
    simp only [Bool.and_eq_true, decide_eq_true_eq, UInt8.le_iff_toNat_le, Bool.or_eq_false_iff,
      beq_eq_false_iff_ne, ne_eq, <- UInt8.toNat_inj]
    intro between
    have low := between.1
    have high := between.2
    simp only [UInt8.reduceToNat] at low high ⊢
    omega
  rw [takeWhile_append_of_pos (all_eq_true.mp all),
    dropWhile_append_of_pos (all_eq_true.mp all), start, takeWhile_cons_of_neg,
    dropWhile_cons_of_neg, append_nil]
  · exact ⟨rfl, rfl⟩
  · rw [stops]
    exact Bool.false_ne_true
  · rw [stops]
    exact Bool.false_ne_true

/-- The wildcard at the end of a text. -/
def wildcardBytes : List UInt8 :=
  if operator.isStar then asBytes ".*" else []

variable (spec : VersionSpecifier)

lemma VersionSpecifier.display_bytes :
    asBytes spec.display = asBytes spec.operator.asStr ++
      (asBytes spec.version.display ++ wildcardBytes spec.operator) := by
  unfold display wildcardBytes
  split
  · rw [asBytes_append, asBytes_append, append_assoc]
  · rw [asBytes_append, append_nil]

/-- There is no star in the text of a version. -/
lemma Version.star_notin {version : Version} (spelled : version.Spelled) :
    42 ∉ asBytes version.display := by
  intro inside
  have printed := all_eq_true.mp (display_printed spelled) 42 inside
  cases printed

lemma VersionSpecifier.display_injective {left right : VersionSpecifier}
    (leftSpelled : left.version.Spelled) (rightSpelled : right.version.Spelled)
    (same : left.display = right.display) :
    left.operator = right.operator /\ left.version.record = right.version.record := by
  have bytes := congrArg asBytes same
  rw [display_bytes, display_bytes] at bytes
  rcases left.version.display_digit with ⟨digit, more, isDigit, start⟩
  rcases right.version.display_digit with ⟨digit', more', isDigit', start'⟩
  have parts := takeWhile_operator left.operator.asStr_bytes isDigit
    (congrArg (· ++ wildcardBytes left.operator) start)
  have parts' := takeWhile_operator right.operator.asStr_bytes isDigit'
    (congrArg (· ++ wildcardBytes right.operator) start')
  rw [bytes] at parts
  have operators := parts.1.symm.trans parts'.1
  have rests := parts.2.symm.trans parts'.2
  -- the wildcard shows which of two operators with the same text it is
  have stars : left.operator.isStar = right.operator.isStar := by
    unfold wildcardBytes at rests
    have ending : (42 : UInt8) ∈ asBytes ".*" := by decide
    cases leftStar : left.operator.isStar with
    | true =>
      cases rightStar : right.operator.isStar with
      | true => rfl
      | false =>
        rw [leftStar, rightStar, if_pos rfl, if_neg Bool.false_ne_true, append_nil] at rests
        exact absurd (rests ▸ mem_append_right _ ending) (Version.star_notin rightSpelled)
    | false =>
      cases rightStar : right.operator.isStar with
      | false => rfl
      | true =>
        rw [leftStar, rightStar, if_pos rfl, if_neg Bool.false_ne_true, append_nil] at rests
        exact absurd (rests.symm ▸ mem_append_right _ ending)
          (Version.star_notin leftSpelled)
  refine ⟨Operator.eq_of_asStr operators stars, ?_⟩
  rw [wildcardBytes, wildcardBytes, stars] at rests
  exact Version.display_injective leftSpelled rightSpelled
    (Cache.asBytes_injective (append_cancel_right rests))

/-- What the text of a specifier determines. -/
def VersionSpecifier.parts : Operator × VersionFull :=
  (spec.operator, spec.version.record)

lemma Version.display_congr {left right : Version} (records : left.record = right.record) :
    left.display = right.display := by
  unfold display
  rw [<- record_epoch, <- record_release, <- record_pre,
    <- record_post, <- record_dev, <- record_localVersion, records,
    record_epoch, record_release, record_pre, record_post, record_dev, record_localVersion]

lemma VersionSpecifier.display_congr {left right : VersionSpecifier}
    (same : left.parts = right.parts) : left.display = right.display := by
  rcases Prod.mk.inj same with ⟨operators, records⟩
  unfold VersionSpecifier.display
  rw [operators, Version.display_congr records]

/-- Sorting a list depends on these parts only. -/
lemma VersionSpecifiers.fromUnsorted_parts (list : List VersionSpecifier) :
    (fromUnsorted list).specifiers.map VersionSpecifier.parts =
      (list.map VersionSpecifier.parts).mergeSort fun a b =>
        ((compare a.2.key b.2.key).then (compare a.1 b.1)).isLE := by
  refine map_mergeSort fun a _ b _ => ?_
  rw [cmp_orderedBy a.version b.version]
  rfl

/-! ## The order of the clauses -/

namespace VersionSpecifiers

/-- The clauses as they are written. -/
def clauses (list : VersionSpecifiers) : List (Operator × String) :=
  list.specifiers.map fun spec => (spec.operator, spec.version.display)

/-- Specifiers are sorted by the version, then by the operator. -/
lemma fromUnsorted_orderedBy :
    OrderedBy (fun a b : VersionSpecifier =>
      (a.version.cmp b.version).then (compare a.operator b.operator))
      fun spec => toLex (spec.version.key, spec.operator.ctorIdx) := by
  refine (Version.cmp_orderedBy.comap VersionSpecifier.version).lex fun a b => ?_
  cases a.operator <;> cases b.operator <;> rfl

/-- The clauses do not depend on the order in which specifiers are given exactly when equal
versions after the same operator are written alike. -/
theorem clauses_fromUnsorted_iff (list : List VersionSpecifier) :
    (∀ list', list ~ list' -> (fromUnsorted list').clauses = (fromUnsorted list).clauses) <->
      ∀ a ∈ list, ∀ b ∈ list, a.operator = b.operator -> a.version.cmp b.version = .eq ->
        a.version.display = b.version.display := by
  refine (fromUnsorted_orderedBy.map_mergeSort_iff _ list).trans ?_
  refine forall₂_congr fun a _ => forall₂_congr fun b _ => ?_
  have operators : a.operator.ctorIdx = b.operator.ctorIdx <-> a.operator = b.operator := by
    cases a.operator <;> cases b.operator <;> decide
  simp only [toLex_inj, Prod.mk.injEq, operators, Version.cmp_orderedBy.eq_iff]
  tauto

/-- The versions `1.0` and `1.0.0` are equal, and stay in the order in which they are given. -/
theorem clauses_fromUnsorted_zeros :
    let short : VersionSpecifier := ⟨.greaterThanEqual, .new [1, 0] (by decide), nofun⟩
    let long : VersionSpecifier := ⟨.greaterThanEqual, .new [1, 0, 0] (by decide), nofun⟩
    (fromUnsorted [short, long]).clauses =
        [(.greaterThanEqual, "1.0"), (.greaterThanEqual, "1.0.0")] /\
      (fromUnsorted [long, short]).clauses =
        [(.greaterThanEqual, "1.0.0"), (.greaterThanEqual, "1.0")] := by
  intro short long
  rw [fromUnsorted, fromUnsorted, mergeSort_of_pairwise (by decide), mergeSort_of_pairwise (by decide)]
  decide

end VersionSpecifiers

/-! ## Specifiers that can be written down -/

/-- A specifier as the parser produces them: its version fits the operator and is
read back from its text. -/
structure VersionSpecifier.Written (spec : VersionSpecifier) : Prop where
  accepted : spec.Accepted
  spelled : spec.version.Spelled

lemma VersionPattern.fromStr_spelled {text : String} {pattern : VersionPattern}
    (accepted : VersionPattern.fromStr text = .ok pattern) : pattern.version.Spelled := by
  rcases VersionPattern.fromStr_parsed accepted with ⟨parsed, bare⟩
  cases wild : pattern.wildcard with
  | false =>
    refine @Version.fromStr_spelled text pattern.version ?_
    rw [VersionPattern.fromStr] at accepted
    rw [Version.fromStr, Parser.parse, accepted]
    simp only [wild, Bool.false_eq_true, if_false]
  | true =>
    refine ⟨parsed, fun list stored segment inside => ?_⟩
    rw [(bare wild).localVersion] at stored
    cases stored
    cases inside

variable {spec : VersionSpecifier}

lemma VersionSpecifier.fromVersion_version {operator : Operator} {version : Version}
    (done : fromVersion operator version = .ok spec) :
    spec.operator = operator /\ spec.version = version := by
  unfold fromVersion at done
  split at done
  · cases done
  · split at done
    · cases done
    · cases done
      exact ⟨rfl, rfl⟩

/-- Every specifier that has been read can be written down. -/
lemma VersionSpecifier.fromStr_written {eatWhile : EatWhile} {text : String}
    (done : fromStr eatWhile text = .ok spec) :
    spec.Written := by
  refine ⟨fromStr_accepted done, ?_⟩
  unfold fromStr at done
  simp only at done
  split at done
  · cases done
  · rcases Library.of_bind_ok done with ⟨operator, readOperator, done⟩
    split at done
    · cases done
    · rcases Library.of_bind_ok done with ⟨pattern, readPattern, done⟩
      rcases Library.of_bind_ok done with ⟨built, build, done⟩
      split at done
      · cases done
      · cases done
        have spelled := VersionPattern.fromStr_spelled (mapError_eq_ok readPattern)
        have made := mapError_eq_ok build
        unfold fromPattern at made
        split at made
        · split at made
          · rw [(fromVersion_version made).2]
            exact spelled
          · cases made
        · rw [(fromVersion_version made).2]
          exact spelled

end Uv.Pep440
