import Uv.Pep440.Parser

namespace Uv.Pep440

open Library

/-!
# Version specifiers

An operator and a version, such as `>=1.19` or `==1.1.*`.  `fromVersion` and
`fromPattern` check that the operator may be used with the version, `fromStr`
reads a specifier from text, and `contains` decides whether a version satisfies
it.  Lists of specifiers are conjunctions.

The scanner of the source comes from another crate.  Its one operation, which
splits off the longest leading run of characters of a kind, is the parameter
`eatWhile`.
-/

inductive Operator where
  | equal
  | equalStar
  | exactEqual
  | notEqual
  | notEqualStar
  | tildeEqual
  | lessThan
  | lessThanEqual
  | greaterThan
  | greaterThanEqual
  deriving DecidableEq, Repr, Ord

/-- The text that is not an operator. -/
structure OperatorParseError where
  got : String

namespace Operator

/-- The operator may be used with a version that has a local part. -/
def isLocalCompatible : Operator -> Bool
  | .greaterThan | .greaterThanEqual | .lessThan | .lessThanEqual | .tildeEqual | .equalStar
  | .notEqualStar => false
  | .equal | .exactEqual | .notEqual => true

def toStar : Operator -> Option Operator
  | .equal => some .equalStar
  | .notEqual => some .notEqualStar
  | _ => none

/-- The text of an operator.  It does not show the star. -/
def asStr : Operator -> String
  | .equal | .equalStar => "=="
  | .exactEqual => "==="
  | .notEqual | .notEqualStar => "!="
  | .tildeEqual => "~="
  | .lessThan => "<"
  | .lessThanEqual => "<="
  | .greaterThan => ">"
  | .greaterThanEqual => ">="

/-- Star operators are not distinguished by their text. -/
def fromStr (s : String) : Except OperatorParseError Operator :=
  match s with
  | "==" => .ok .equal
  | "===" => .ok .exactEqual
  | "!=" => .ok .notEqual
  | "~=" => .ok .tildeEqual
  | "<" => .ok .lessThan
  | "<=" => .ok .lessThanEqual
  | ">" => .ok .greaterThan
  | ">=" => .ok .greaterThanEqual
  | other => .error ⟨other⟩

end Operator

/-! ## Comparisons of versions -/

namespace Version

def eq (this other : Version) : Bool := this.cmp other == .eq
variable (this other : Version)

def lt : Bool := (this.cmp other).isLT
def le : Bool := (this.cmp other).isLE
def gt : Bool := (this.cmp other).isGT
def ge : Bool := (this.cmp other).isGE

end Version

namespace VersionInner

def withoutPostAndDevEqSlow (this other : VersionInner) : Bool :=
  this.epoch == other.epoch && compareRelease this.release other.release == .eq &&
    sortableTupleWith this none none == sortableTuple other

/-- Compare a version, without its post and dev numbers, with another version.
On two words the setters run on a copy, and their outcomes are not looked at. -/
def withoutPostAndDevEq : VersionInner -> VersionInner -> Bool
  | .small base, .small other =>
    let base := (base.setPost none).getD base
    let base := (base.setDev none).getD base
    base.repr == other.repr
  | this, other => withoutPostAndDevEqSlow this other

end VersionInner

def Version.withoutPostAndDevEq (this other : Version) : Bool :=
  this.inner.withoutPostAndDevEq other.inner

/-! ## Specifiers -/

/-- The source states, for `~=`, that there are always two release numbers. -/
structure VersionSpecifier where
  operator : Operator
  version : Version
  compatible : operator = .tildeEqual -> 2 <= version.release.length

inductive BuildErrorKind where
  | operatorLocalCombo (operator : Operator) (version : Version)
  | operatorWithStar (operator : Operator)
  | compatibleRelease

namespace VersionSpecifier

variable (operator : Operator)

def fromVersion (version : Version) :
    Except BuildErrorKind VersionSpecifier :=
  if version.isLocal && !operator.isLocalCompatible then
    .error (.operatorLocalCombo operator version)
  else if short : operator = .tildeEqual /\ version.release.length < 2 then
    .error .compatibleRelease
  else
    .ok
      { operator := operator
        version := version
        compatible := fun isTilde => Nat.not_lt.mp fun few => short ⟨isTilde, few⟩ }

/-- A trailing wildcard turns the operator into its star form. -/
def fromPattern (versionPattern : VersionPattern) :
    Except BuildErrorKind VersionSpecifier :=
  if versionPattern.wildcard then
    match operator.toStar with
    | some starop => fromVersion starop versionPattern.version
    | none => .error (.operatorWithStar operator)
  else fromVersion operator versionPattern.version

/-- The release of the specifier is a prefix of the zero-padded release. -/
def matchesStar (this other : Version) : Bool :=
  (this.release.zip (padRelease other.release this.release.length)).all
    fun (this, other) => this == other

/-- The local part of a version is ignored unless the specifier has one. -/
def comparable (this version : Version) : Version :=
  if this.localVersion.isEmpty && !version.localVersion.isEmpty then version.withoutLocal
  else version

/-- Whether a version satisfies the specifier. -/
def contains (specifier : VersionSpecifier) (version : Version) : Bool :=
  let this := specifier.version
  let other := comparable this version
  match specifier.operator with
  | .equal => other.eq this
  | .equalStar => this.epoch == other.epoch && matchesStar this other
  | .exactEqual => this.eq version
  | .notEqual => !this.eq other
  | .notEqualStar => this.epoch != other.epoch || !matchesStar this other
  | .tildeEqual =>
    if this.epoch != other.epoch then false
    -- Here the shorter release is not padded.
    else if !((this.release.take (this.release.length - 1)).zip other.release).all
        fun (this, other) => this == other then false
    else other.ge this
  | .greaterThan =>
    if other.epoch > this.epoch then true
    else if !this.isPost && other.isPost && other.withoutPostAndDevEq this then false
    else other.gt this
  | .greaterThanEqual => other.ge this
  | .lessThan =>
    if other.epoch < this.epoch then true
    else if !this.anyPrerelease && other.anyPrerelease && other.ge (this.withDev (some 0)) then
      false
    else other.lt this
  | .lessThanEqual => other.le this

end VersionSpecifier

/-! ## Specifiers as text -/

/-- White space of the Unicode standard, as `char::is_whitespace` has it. -/
def isWhitespace (c : Char) : Bool :=
  (9 <= c.toNat && c.toNat <= 13) || c.toNat == 0x20 || c.toNat == 0x85 || c.toNat == 0xA0 ||
    c.toNat == 0x1680 || (0x2000 <= c.toNat && c.toNat <= 0x200A) || c.toNat == 0x2028 ||
    c.toNat == 0x2029 || c.toNat == 0x202F || c.toNat == 0x205F || c.toNat == 0x3000

def isOperatorCharacter (c : Char) : Bool :=
  c == '=' || c == '!' || c == '~' || c == '<' || c == '>'

inductive SpecifierErrorKind where
  | invalidOperator (err : OperatorParseError)
  | invalidVersion (err : PatternErrorKind)
  | invalidSpecifier (err : BuildErrorKind)
  | missingOperator (versionPattern : Option VersionPattern)
  | missingVersion
  | invalidTrailing (trail : String)

/-- The run that is eaten, and what is left. -/
abbrev EatWhile := (Char -> Bool) -> String -> String × String

def VersionSpecifier.fromStr (eatWhile : EatWhile) (spec : String) :
    Except SpecifierErrorKind VersionSpecifier := do
  let (_, s) := eatWhile isWhitespace spec
  let (operator, s) := eatWhile isOperatorCharacter s
  if operator.isEmpty then
    let (_, s) := eatWhile isWhitespace s
    let (version, _) := eatWhile (fun c => !isWhitespace c) s
    .error (.missingOperator (VersionPattern.fromStr version).toOption)
  else
    let operator <- (Operator.fromStr operator).mapError .invalidOperator
    let (_, s) := eatWhile isWhitespace s
    let (version, s) := eatWhile (fun c => !isWhitespace c) s
    if version.isEmpty then .error .missingVersion
    else
      let vpat <- (VersionPattern.fromStr version).mapError .invalidVersion
      let versionSpecifier <- (fromPattern operator vpat).mapError .invalidSpecifier
      let (_, s) := eatWhile isWhitespace s
      if !s.isEmpty then .error (.invalidTrailing s) else .ok versionSpecifier

/-! ## Lists of specifiers -/

structure VersionSpecifiers where
  specifiers : List VersionSpecifier

namespace VersionSpecifiers

def contains (list : VersionSpecifiers) (version : Version) : Bool :=
  list.specifiers.all fun specifier => specifier.contains version

/-- Sort by version, then by operator.  The sort is stable. -/
def fromUnsorted (specifiers : List VersionSpecifier) : VersionSpecifiers :=
  ⟨specifiers.mergeSort fun a b =>
    ((a.version.cmp b.version).then (compare a.operator b.operator)).isLE⟩

end VersionSpecifiers

end Uv.Pep440
