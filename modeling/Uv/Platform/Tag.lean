import Mathlib

namespace Uv.Platform

/-!
# Language and ABI tags

The first two components of a wheel's compatibility tag.  A language tag names
an interpreter, an ABI tag the binary interface of its extension modules.  The
texts are the ones that appear in wheel filenames.
-/

/-- The characters that occur in the texts of tags. -/
def isWordChar (c : Char) : Bool := c.isAlphanum || c == '_'

/-- The build flags of a CPython interpreter. -/
structure CPythonAbiVariants where
  freethreading : Bool := false
  wideUnicode : Bool := false
  debug : Bool := false
  pymalloc : Bool := false
  deriving DecidableEq, Repr

inductive LanguageTag where
  | none
  | python (major : UInt8) (minor : Option UInt8)
  | cpython (pythonVersion : UInt8 × UInt8)
  | pypy (pythonVersion : UInt8 × UInt8)
  | graalpy (pythonVersion : UInt8 × UInt8)
  | pyston (pythonVersion : UInt8 × UInt8)
  | cpythonMajor (major : UInt8)
  deriving DecidableEq, Repr

inductive AbiTag where
  | none
  | abi3
  | abi3t
  | cpython (pythonVersion : UInt8 × UInt8) (variant : CPythonAbiVariants)
  | pypy (pythonVersion : Option (UInt8 × UInt8)) (implementationVersion : UInt8 × UInt8)
  | graalpy (pythonVersion implementationVersion : UInt8 × UInt8)
  | pyston (implementationVersion : UInt8 × UInt8)
  deriving DecidableEq, Repr

/-- Two numbers next to each other, as in `39` and `310`. -/
def displayVersion (version : UInt8 × UInt8) : String :=
  toString version.1.toNat ++ toString version.2.toNat

namespace LanguageTag

def display : LanguageTag -> String
  | .none => "none"
  | .python major (some minor) => "py" ++ displayVersion (major, minor)
  | .python major Option.none => "py" ++ toString major.toNat
  | .cpython version => "cp" ++ displayVersion version
  | .pypy version => "pp" ++ displayVersion version
  | .graalpy version => "graalpy" ++ displayVersion version
  | .pyston version => "pyston" ++ displayVersion version
  | .cpythonMajor major => "cp" ++ toString major.toNat

end LanguageTag

/-- The flags in the order in which CPython itself writes them. -/
def CPythonAbiVariants.display (variant : CPythonAbiVariants) : String :=
  (if variant.freethreading then "t" else "") ++ (if variant.debug then "d" else "") ++
    (if variant.pymalloc then "m" else "") ++ (if variant.wideUnicode then "u" else "")

namespace AbiTag

def isStableAbi : AbiTag -> Bool
  | .abi3 | .abi3t => true
  | _ => false

def display : AbiTag -> String
  | .none => "none"
  | .abi3 => "abi3"
  | .abi3t => "abi3t"
  | .cpython version variant => "cp" ++ displayVersion version ++ variant.display
  | .pypy (some version) implementation =>
    "pypy" ++ displayVersion version ++ "_pp" ++ displayVersion implementation
  | .pypy Option.none implementation => "pypy_" ++ displayVersion implementation
  | .graalpy version implementation =>
    "graalpy" ++ displayVersion implementation ++ "_" ++ displayVersion version ++ "_native"
  | .pyston implementation => "pyston_" ++ displayVersion implementation ++ "_x86_64_linux_gnu"

end AbiTag

end Uv.Platform
