import Mathlib.Logic.Basic

namespace Aedis.Resp3

inductive DataType
  | array | push | set | map | «attribute»
  | simpleString | simpleError | number | doublean | boolean | bigNumber | null
  | blobError | verbatimString | blobString | streamedStringPart
  | invalid
  deriving DecidableEq, Repr

namespace DataType

def toString : DataType → String
  | array => "array"
  | push => "push"
  | set => "set"
  | map => "map"
  | .attribute => "attribute"
  | simpleString => "simple_string"
  | simpleError => "simple_error"
  | number => "number"
  | doublean => "doublean"
  | boolean => "boolean"
  | bigNumber => "big_number"
  | null => "null"
  | blobError => "blob_error"
  | verbatimString => "verbatim_string"
  | blobString => "blob_string"
  | streamedStringPart => "streamed_string_part"
  | invalid => "invalid"

def isAggregate : DataType → Bool
  | array | push | set | map | .attribute => true
  | _ => false

def elementMultiplicity : DataType → Nat
  | map | .attribute => 2
  | _ => 1

/-- `to_code`: the sigil that starts a frame of the type.  Its default case is
`BOOST_ASSERT(false)`, here `none`. -/
def toCode : DataType → Option Char
  | blobError => some '!'
  | verbatimString => some '='
  | blobString => some '$'
  | streamedStringPart => some ';'
  | simpleError => some '-'
  | number => some ':'
  | doublean => some ','
  | boolean => some '#'
  | bigNumber => some '('
  | simpleString => some '+'
  | null => some '_'
  | push => some '>'
  | set => some '~'
  | array => some '*'
  | .attribute => some '|'
  | map => some '%'
  | invalid => none

def toType : Char → DataType
  | '!' => blobError
  | '=' => verbatimString
  | '$' => blobString
  | ';' => streamedStringPart
  | '-' => simpleError
  | ':' => number
  | ',' => doublean
  | '#' => boolean
  | '(' => bigNumber
  | '+' => simpleString
  | '_' => null
  | '>' => push
  | '~' => set
  | '*' => array
  | '|' => .attribute
  | '%' => map
  | _ => invalid

theorem toType_of_toCode {t : DataType} {c : Char} (h : t.toCode = some c) : toType c = t := by
  cases t <;> simp only [toCode, Option.some.injEq, reduceCtorEq] at h <;> subst h <;> decide

theorem toCode_toType {c : Char} (h : toType c ≠ invalid) : (toType c).toCode = some c := by
  unfold toType at h ⊢
  split at h <;> first | rfl | exact absurd rfl h

theorem toCode_eq_some_iff {t : DataType} {c : Char} :
    t.toCode = some c ↔ toType c = t ∧ t ≠ invalid := by
  refine ⟨fun h => ⟨toType_of_toCode h, ?_⟩, fun ⟨h, hv⟩ => h ▸ toCode_toType (h ▸ hv)⟩
  rintro rfl
  cases h

end DataType

end Aedis.Resp3
