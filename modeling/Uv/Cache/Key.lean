import Uv.Pep440.Display

namespace Uv.Cache

/-!
# Cache keys

A cache key is computed by feeding the parts of a value to a hasher, one after
the other.  What a value feeds is a sequence of bytes, so it is modelled as the
sequence itself.  The hash of the whole sequence is a parameter.
-/

variable (n : UInt64)

/-- The bytes of a word, least significant first. -/
def toLeBytes : List UInt8 :=
  (List.range 8).map fun i => (n >>> (8 * i).toUInt64).toUInt8

def writeU8 (n : UInt8) : List UInt8 := [n]

def writeU64 : List UInt8 := toLeBytes n

/-- Sizes are written as 64-bit words. -/
def writeUsize (n : Nat) : List UInt8 := toLeBytes n.toUInt64

/-- A text is fed as its bytes and a mark that no text contains. -/
def writeStr (text : String) : List UInt8 := Pep440.asBytes text ++ [255]

def hexDigit (n : Nat) : UInt8 := if n < 10 then (48 + n).toUInt8 else (87 + n).toUInt8

/-- The word in hexadecimal digits, as ASCII bytes. -/
def toHex : List UInt8 :=
  (toLeBytes n).flatMap fun byte => [hexDigit (byte.toNat / 16), hexDigit (byte.toNat % 16)]

/-- The digest of a text.  `finish` is the hash of the bytes that were fed. -/
def cacheDigest (finish : List UInt8 -> UInt64) (text : String) : List UInt8 :=
  toHex (finish (writeStr text))

lemma asBytes_injective {left right : String} (same : Pep440.asBytes left = Pep440.asBytes right) :
    left = right := by
  apply String.toByteArray_inj.mp
  rw [<- String.utf8Encode_toList, <- String.utf8Encode_toList]
  exact congrArg List.toByteArray same

lemma hexDigit_ne_dash {n : Nat} (small : n < 16) : hexDigit n ≠ 45 := by
  interval_cases n <;> decide

lemma dash_notin_toHex : 45 ∉ toHex n := by
  intro inside
  rcases List.mem_flatMap.mp inside with ⟨byte, _, here⟩
  have bound := byte.toNat_lt
  rw [List.mem_cons, List.mem_singleton] at here
  rcases here with same | same
  · exact hexDigit_ne_dash (by omega) same.symm
  · exact hexDigit_ne_dash (by omega) same.symm

end Uv.Cache
