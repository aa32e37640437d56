import Aedis.Resp3.Type
import Aedis.Resp3.Wire

/-! The RESP3 decoder.  `resp3/detail/parser.hpp` is outside the sources: the decoder is modelled
from the spec's codec section, over the tables of `type.ipp` and the node of `node.hpp`.  It
reads one top-level frame at a time from the read buffer, element by element, keeping for each
open aggregate the number of children still to come. -/

namespace Aedis.Resp3

/-- `resp3::node`: `size` is the child count of an aggregate (in entries for a map or an
attribute) and the length of a leaf's bytes, and `data` is empty for an aggregate. -/
structure Node where
  size : Nat
  depth : Nat
  dataType : DataType
  data : List UInt8
  deriving DecidableEq, Repr

/-- Modelled from the spec: the leaves whose header line is a length followed by that many
bytes and a CRLF. -/
def DataType.isBulk : DataType → Bool
  | .blobError | .verbatimString | .blobString | .streamedStringPart => true
  | _ => false

/-- Modelled from the spec: the error kinds of the codec. -/
inductive Error
  | unknownType | notANumber
  deriving DecidableEq, Repr

/-- Modelled from the spec: the size of a streamed aggregate, `SIZE_MAX`. -/
def unknownSize : Nat := 2 ^ 64 - 1

/-- The open aggregates, innermost first, each with the children still to come: `none` for a
streamed one, which a zero-length `streamed_string_part` closes.  A frame starts as one level
of one child, the root. -/
abbrev Stack := List (Option Nat)

def advance : Stack → Stack
  | [] => []
  | none :: st => none :: st
  | some n :: st => if n ≤ 1 then advance st else some (n - 1) :: st

def openLevel (m : Nat) (st : Stack) : Stack := if m = 0 then advance st else some m :: st

/-- Modelled from the spec: what follows a header byte of type `t` once its line has arrived:
the node, the levels after it, and the bytes after it; `none` while a bulk has not all arrived. -/
def parseBody (st : Stack) (t : DataType) (line rest : List UInt8) :
    Except Error (Option (Node × Stack × List UInt8)) :=
  let depth := st.length - 1
  if t.isAggregate then
    if line = [63] then .ok (some (⟨unknownSize, depth, t, []⟩, none :: st, rest))
    else match parseSize line with
      | none => .error .notANumber
      | some s => .ok (some (⟨s, depth, t, []⟩, openLevel (s * t.elementMultiplicity) st, rest))
  else if t.isBulk then
    match parseSize line with
    | none => .error .notANumber
    | some n =>
      if t = .streamedStringPart ∧ n = 0 ∧ st.head? = some none then
        .ok (some (⟨0, depth, t, []⟩, advance st.tail, rest))
      else if rest.length < n + 2 then .ok none
      else .ok (some (⟨n, depth, t, rest.take n⟩, advance st, rest.drop (n + 2)))
  else .ok (some (⟨line.length, depth, t, line⟩, advance st, rest))

/-- Modelled from the spec: one element at the head of the buffer, at the depth of the innermost
level. -/
def parseElement (st : Stack) : List UInt8 → Except Error (Option (Node × Stack × List UInt8))
  | [] => .ok none
  | b :: bs =>
    let t := DataType.toType (Char.ofNat b.toNat)
    if t = .invalid then .error .unknownType
    else match readLine bs with
      | none => .ok none
      | some (line, rest) => parseBody st t line rest

theorem parseBody_rest {st st' : Stack} {t : DataType} {line rest rest' : List UInt8} {n : Node}
    (h : parseBody st t line rest = .ok (some (n, st', rest'))) : ∃ pre, rest = pre ++ rest' := by
  simp only [parseBody] at h
  split at h
  · split at h
    · cases h; exact ⟨[], rfl⟩
    · split at h <;> cases h; exact ⟨[], rfl⟩
  · split at h
    · split at h
      · cases h
      · split at h
        · cases h; exact ⟨[], rfl⟩
        · split at h
          · cases h
          · cases h; exact ⟨_, (List.take_append_drop _ _).symm⟩
    · cases h; exact ⟨[], rfl⟩

theorem parseElement_rest {st st' : Stack} {bs rest : List UInt8} {n : Node}
    (h : parseElement st bs = .ok (some (n, st', rest))) : rest.length < bs.length := by
  cases bs with
  | nil => cases h
  | cons b bs =>
    simp only [parseElement] at h
    split at h
    · cases h
    · split at h
      · cases h
      · next line rest₀ hl =>
        obtain ⟨pre, rfl⟩ := parseBody_rest h
        rw [readLine_eq_some hl]
        simp only [List.length_cons, List.length_append]
        omega

/-- Modelled from the spec: the loop over the elements of a frame, until its root level closes. -/
def parseLoop (st : Stack) (acc : List Node) (bs : List UInt8) :
    Except Error (Option (List Node × List UInt8)) :=
  if st = [] then .ok (some (acc, bs))
  else match h : parseElement st bs with
    | .error e => .error e
    | .ok none => .ok none
    | .ok (some (n, st', rest)) =>
      have := parseElement_rest h
      parseLoop st' (acc ++ [n]) rest
termination_by bs.length

/-- Modelled from the spec: one top-level frame at the head of the read buffer, its nodes in
order and the bytes after it; `ok none` while the frame has not all arrived. -/
def parse (bs : List UInt8) : Except Error (Option (List Node × List UInt8)) :=
  parseLoop [some 1] [] bs

@[simp] theorem parseLoop_nil (acc : List Node) (bs : List UInt8) :
    parseLoop [] acc bs = .ok (some (acc, bs)) := by
  rw [parseLoop, if_pos rfl]

theorem parseLoop_step {st st' : Stack} {acc : List Node} {bs rest : List UInt8} {n : Node}
    (hst : st ≠ []) (h : parseElement st bs = .ok (some (n, st', rest))) :
    parseLoop st acc bs = parseLoop st' (acc ++ [n]) rest := by
  rw [parseLoop, if_neg hst]
  split <;> simp_all

theorem parseLoop_error {st : Stack} {acc : List Node} {bs : List UInt8} {e : Error}
    (hst : st ≠ []) (h : parseElement st bs = .error e) : parseLoop st acc bs = .error e := by
  rw [parseLoop, if_neg hst]
  split <;> simp_all

theorem parseLoop_none {st : Stack} {acc : List Node} {bs : List UInt8}
    (hst : st ≠ []) (h : parseElement st bs = .ok none) : parseLoop st acc bs = .ok none := by
  rw [parseLoop, if_neg hst]
  split <;> simp_all

section Append

variable {st : Stack} {t : DataType} {line rest bs : List UInt8}
  (more : List UInt8)

theorem parseBody_append (h : parseBody st t line rest ≠ .ok none) :
    parseBody st t line (rest ++ more) =
      (parseBody st t line rest).map (Option.map fun r => (r.1, r.2.1, r.2.2 ++ more)) := by
  unfold parseBody at h ⊢
  by_cases ha : t.isAggregate <;> simp only [ha, if_true, if_false, Bool.false_eq_true] at h ⊢
  · by_cases hq : line = [63] <;> simp only [hq, if_true, if_false] at h ⊢
    · rfl
    · rcases parseSize line with _ | s <;> rfl
  by_cases hb : t.isBulk <;> simp only [hb, if_true, if_false, Bool.false_eq_true] at h ⊢
  · rcases hs : parseSize line with _ | m <;> simp only [hs] at h ⊢
    · rfl
    by_cases ht : t = .streamedStringPart ∧ m = 0 ∧ st.head? = some none
    · simp only [if_pos ht]; rfl
    simp only [if_neg ht] at h ⊢
    by_cases hl : rest.length < m + 2
    · simp only [if_pos hl] at h; exact absurd rfl h
    rw [if_neg hl, if_neg (by simp only [List.length_append]; omega),
      List.take_append_of_le_length (by omega), List.drop_append_of_le_length (by omega)]
    rfl
  · rfl

theorem parseElement_append (h : parseElement st bs ≠ .ok none) :
    parseElement st (bs ++ more) =
      (parseElement st bs).map (Option.map fun r => (r.1, r.2.1, r.2.2 ++ more)) := by
  cases bs with
  | nil => exact absurd rfl h
  | cons b bs =>
    simp only [parseElement, List.cons_append] at h ⊢
    by_cases hv : DataType.toType (Char.ofNat b.toNat) = .invalid
    · simp only [if_pos hv]; rfl
    simp only [if_neg hv] at h ⊢
    rcases hl : readLine bs with _ | ⟨line, rest⟩ <;> simp only [hl] at h
    · exact absurd rfl h
    · rw [readLine_append more hl]; exact parseBody_append more h

theorem parseLoop_append {acc : List Node} (h : parseLoop st acc bs ≠ .ok none) :
    parseLoop st acc (bs ++ more) =
      (parseLoop st acc bs).map (Option.map fun r => (r.1, r.2 ++ more)) := by
  induction st, acc, bs using parseLoop.induct with
  | case1 acc bs => simp only [parseLoop_nil]; rfl
  | case2 st acc bs hst e hp =>
    have he := parseElement_append more (by rw [hp]; intro h; cases h)
    rw [hp] at he
    rw [parseLoop_error hst hp, parseLoop_error hst he]; rfl
  | case3 st acc bs hst hp => exact absurd (parseLoop_none hst hp) h
  | case4 st acc bs hst n st' rest hp _ ih =>
    have he := parseElement_append more (by rw [hp]; intro h; cases h)
    rw [hp] at he
    rw [parseLoop_step hst hp] at h ⊢
    rw [parseLoop_step hst he]
    exact ih h

theorem parse_append (h : parse bs ≠ .ok none) :
    parse (bs ++ more) = (parse bs).map (Option.map fun r => (r.1, r.2 ++ more)) :=
  parseLoop_append more h

theorem parse_append_simpleString :
    parse [43, 79, 75, 13, 10] ≠ .ok none ∧
      parse ([43, 79, 75, 13, 10] ++ [36]) =
        (parse [43, 79, 75, 13, 10]).map (Option.map fun r => (r.1, r.2 ++ [36])) := by
  have he : parseElement [some 1] [43, 79, 75, 13, 10] =
      .ok (some (⟨2, 0, .simpleString, [79, 75]⟩, [], [])) := rfl
  have h : parse [43, 79, 75, 13, 10] = .ok (some ([⟨2, 0, .simpleString, [79, 75]⟩], [])) := by
    rw [parse, parseLoop_step (List.cons_ne_nil _ _) he, parseLoop_nil]
    rfl
  have hne : parse [43, 79, 75, 13, 10] ≠ .ok none := by rw [h]; exact fun h' => by cases h'
  exact ⟨hne, parse_append [36] hne⟩

theorem parse_truncated {p q : List UInt8} {ns : List Node}
    (h : parse (p ++ q ++ rest) = .ok (some (ns, rest))) (hq : q ≠ []) : parse p = .ok none := by
  by_contra hne
  have hmore : parse (p ++ (q ++ rest)) =
      (parse p).map (Option.map fun r => (r.1, r.2 ++ (q ++ rest))) :=
    parseLoop_append (q ++ rest) hne
  rw [List.append_assoc, hmore] at h
  rcases hp : parse p with e | _ | ⟨ns', r'⟩ <;> rw [hp] at h hne
  · cases h
  · exact hne rfl
  · have hlen := congrArg List.length (Prod.mk.inj (Option.some.inj (Except.ok.inj h))).2
    simp only [List.length_append] at hlen
    exact hq (List.length_eq_zero.1 (by omega))

theorem parse_truncated_simpleString : parse [43, 79, 75, 13] = .ok none := by
  have he : parseElement [some 1] [43, 79, 75, 13, 10] =
      .ok (some (⟨2, 0, .simpleString, [79, 75]⟩, [], [])) := rfl
  have h : parse ([43, 79, 75, 13] ++ [10] ++ []) =
      .ok (some ([⟨2, 0, .simpleString, [79, 75]⟩], [])) := by
    show parseLoop [some 1] [] [43, 79, 75, 13, 10] = _
    rw [parseLoop_step (List.cons_ne_nil _ _) he, parseLoop_nil]
    rfl
  exact parse_truncated h (List.cons_ne_nil _ _)

end Append

end Aedis.Resp3
