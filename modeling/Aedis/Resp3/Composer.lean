import Mathlib.Logic.Basic

namespace Aedis.Resp3

/-- The argument types `add_bulk` is instantiated with: a scalar written with `std::to_string`
(an integer here), the string-like types of the `needs_to_string` specialisations, and
`std::pair` of argument types, nested to any depth. -/
inductive ArgType
  | scalar
  | string | stringView | charPtr | charConstPtr
  | charArray (n : Nat) | charConstArray (n : Nat)
  | pair (first second : ArgType)
  deriving DecidableEq, Repr

namespace ArgType

def Val : ArgType → Type
  | scalar => Int
  | pair A B => A.Val × B.Val
  | _ => String

def isPair : ArgType → Bool
  | pair _ _ => true
  | _ => false

def leaves : ArgType → Nat
  | pair A B => A.leaves + B.leaves
  | _ => 1

def flat : ArgType → Bool
  | pair A B => !A.isPair && !B.isPair
  | _ => true

theorem one_le_leaves (T : ArgType) : 1 ≤ T.leaves := by
  induction T with
  | pair A B ihA _ => simp only [leaves]; omega
  | _ => simp [leaves]

theorem leaves_eq_one_iff (T : ArgType) : T.leaves = 1 ↔ T.isPair = false := by
  cases T with
  | pair A B =>
    have hA := A.one_le_leaves
    have hB := B.one_le_leaves
    simp only [leaves, isPair, Bool.true_eq_false, iff_false]
    omega
  | _ => simp [leaves, isPair]

end ArgType

def valueTypeSize : ArgType → Nat
  | .pair _ _ => 2
  | _ => 1

/-- Modelled from the spec: `add_bulk(std::string&, std::string_view)` is only declared in
`composer.hpp`.  It writes one bulk string `$<len>\r\n<bytes>\r\n`; the target is kept as the
list of the bulks written to it. -/
def addBulkView (buf : List String) (param : String) : List String :=
  buf ++ ["$" ++ toString param.utf8ByteSize ++ "\r\n" ++ param ++ "\r\n"]

/-- `add_bulk(to, data)` by the overload it resolves to: for a pair the pair overload, which is
more specialised than the generic template; for a scalar the generic template, enabled by
`needs_to_string`, through `to_string`; for a string-like type the `string_view` overload. -/
def addBulk (buf : List String) : (T : ArgType) → T.Val → List String
  | .pair A B, x => addBulk (addBulk buf A x.1) B x.2
  | .scalar, x => addBulkView buf (Int.repr x)
  | .string, x => addBulkView buf x
  | .stringView, x => addBulkView buf x
  | .charPtr, x => addBulkView buf x
  | .charConstPtr, x => addBulkView buf x
  | .charArray _, x => addBulkView buf x
  | .charConstArray _, x => addBulkView buf x

theorem addBulk_length (buf : List String) (T : ArgType) (x : T.Val) :
    (addBulk buf T x).length = buf.length + T.leaves := by
  induction T generalizing buf with
  | pair A B ihA ihB => simp only [addBulk, ihA, ihB, ArgType.leaves]; omega
  | _ => simp [addBulk, addBulkView, ArgType.leaves]

theorem leaves_eq_valueTypeSize_iff (T : ArgType) : T.leaves = valueTypeSize T ↔ T.flat := by
  cases T with
  | pair A B =>
    simp only [ArgType.leaves, valueTypeSize, ArgType.flat, Bool.and_eq_true, Bool.not_eq_true',
      ← ArgType.leaves_eq_one_iff]
    have := A.one_le_leaves; have := B.one_le_leaves; omega
  | _ => simp [ArgType.leaves, valueTypeSize, ArgType.flat]

theorem addBulk_count (buf : List String) (T : ArgType) (x : T.Val) :
    (addBulk buf T x).length - buf.length = T.leaves ∧
      ((addBulk buf T x).length - buf.length = valueTypeSize T ↔ T.flat) := by
  rw [addBulk_length, Nat.add_sub_cancel_left]
  exact ⟨rfl, leaves_eq_valueTypeSize_iff T⟩

theorem addBulk_nested_pair :
    (addBulk [] (.pair (.pair .scalar .scalar) .scalar) (((1 : Int), (2 : Int)), (3 : Int))).length
      = 3 ∧ valueTypeSize (.pair (.pair .scalar .scalar) .scalar) = 2 := ⟨rfl, rfl⟩

end Aedis.Resp3
