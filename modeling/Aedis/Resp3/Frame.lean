import Aedis.Resp3.Parser

namespace Aedis.Resp3

/-- Modelled from the spec: a RESP3 value.  A sized aggregate counts its children, in entries
for a map or an attribute; a streamed one ends with a zero-length `streamed_string_part`. -/
inductive Value
  | leaf (t : DataType) (data : List UInt8)
  | aggregate (t : DataType) (children : List Value)
  | streamed (t : DataType) (children : List Value)
  deriving Repr

def DataType.code (t : DataType) : UInt8 := (t.toCode.getD ' ').toNat.toUInt8

theorem DataType.toType_code {t : DataType} (h : t ≠ .invalid) :
    toType (Char.ofNat t.code.toNat) = t := by
  cases t <;> first | exact absurd rfl h | decide

def streamEnd : List UInt8 := DataType.streamedStringPart.code :: (decimal 0 ++ [13, 10])

namespace Value

mutual

/-- Modelled from the spec: the wire form of a value. -/
def encode : Value → List UInt8
  | leaf t data =>
    if t.isBulk then t.code :: (decimal data.length ++ 13 :: 10 :: (data ++ [13, 10]))
    else t.code :: (data ++ [13, 10])
  | aggregate t cs =>
    t.code :: (decimal (cs.length / t.elementMultiplicity) ++ 13 :: 10 :: encodeAll cs)
  | streamed t cs => t.code :: 63 :: 13 :: 10 :: (encodeAll cs ++ streamEnd)

def encodeAll : List Value → List UInt8
  | [] => []
  | v :: vs => encode v ++ encodeAll vs

end

mutual

def nodes (depth : Nat) : Value → List Node
  | leaf t data => [⟨data.length, depth, t, data⟩]
  | aggregate t cs => ⟨cs.length / t.elementMultiplicity, depth, t, []⟩ :: nodesAll (depth + 1) cs
  | streamed t cs =>
    ⟨unknownSize, depth, t, []⟩ :: nodesAll (depth + 1) cs ++ [⟨0, depth + 1, .streamedStringPart, []⟩]

def nodesAll (depth : Nat) : List Value → List Node
  | [] => []
  | v :: vs => nodes depth v ++ nodesAll depth vs

end

def isStreamEnd : Value → Bool
  | leaf .streamedStringPart [] => true
  | _ => false

mutual

/-- A value the wire can carry: a leaf of a leaf type, whose bytes hold no CR unless its length
is sent ahead; a sized aggregate with a whole number of entries; and no child of a streamed
aggregate that would end it early. -/
def wellFormed : Value → Bool
  | leaf t data => t != .invalid && !t.isAggregate && (t.isBulk || !data.contains 13)
  | aggregate t cs =>
    t.isAggregate && cs.length % t.elementMultiplicity == 0 && allWellFormed false cs
  | streamed t cs => t.isAggregate && allWellFormed true cs

def allWellFormed (inStream : Bool) : List Value → Bool
  | [] => true
  | v :: vs => wellFormed v && !(inStream && isStreamEnd v) && allWellFormed inStream vs

end

end Value

section Elements

variable {st : Stack} {t : DataType} {data rest : List UInt8}

theorem decimal_ne_question (n : Nat) : decimal n ≠ [63] := fun h => by
  have := (mem_decimal (h ▸ List.mem_singleton_self (63 : UInt8))).2.2
  exact this rfl

theorem parseElement_line (ht : t ≠ .invalid) (ha : t.isAggregate = false) (hb : t.isBulk = false)
    (hd : 13 ∉ data) :
    parseElement st (t.code :: (data ++ 13 :: 10 :: rest)) =
      .ok (some (⟨data.length, st.length - 1, t, data⟩, advance st, rest)) := by
  simp only [parseElement, DataType.toType_code ht, if_neg ht, List.cons_append,
    readLine_append_crlf rest hd, parseBody, ha, hb, Bool.false_eq_true, if_false]

theorem parseElement_bulk (ht : t ≠ .invalid) (ha : t.isAggregate = false) (hb : t.isBulk = true)
    (hend : st.head? = some none → ¬(t = .streamedStringPart ∧ data = [])) :
    parseElement st (t.code :: (decimal data.length ++ 13 :: 10 :: (data ++ 13 :: 10 :: rest))) =
      .ok (some (⟨data.length, st.length - 1, t, data⟩, advance st, rest)) := by
  have hl : 13 ∉ decimal data.length := fun h => (mem_decimal h).2.1 rfl
  simp only [parseElement, DataType.toType_code ht, if_neg ht, List.cons_append, List.append_assoc,
    readLine_append_crlf _ hl, parseBody, ha, hb, parseSize_decimal, Bool.false_eq_true, if_false,
    if_true]
  rw [if_neg fun h => hend h.2.2 ⟨h.1, List.length_eq_zero.1 h.2.1⟩, if_neg (by simp)]
  simp [List.take_append_of_le_length, List.drop_append_of_le_length]

theorem parseElement_header (ht : t ≠ .invalid) (ha : t.isAggregate = true) (s : Nat) :
    parseElement st (t.code :: (decimal s ++ 13 :: 10 :: rest)) =
      .ok (some (⟨s, st.length - 1, t, []⟩, openLevel (s * t.elementMultiplicity) st, rest)) := by
  have hl : 13 ∉ decimal s := fun h => (mem_decimal h).2.1 rfl
  simp only [parseElement, DataType.toType_code ht, if_neg ht, List.cons_append,
    readLine_append_crlf rest hl, parseBody, ha, if_true, if_neg (decimal_ne_question s),
    parseSize_decimal]

theorem parseElement_streamed (ht : t ≠ .invalid) (ha : t.isAggregate = true) :
    parseElement st (t.code :: 63 :: 13 :: 10 :: rest) =
      .ok (some (⟨unknownSize, st.length - 1, t, []⟩, none :: st, rest)) := by
  simp only [parseElement, DataType.toType_code ht, if_neg ht]
  simp [readLine, parseBody, ha]

theorem parseElement_streamEnd (hst : st.head? = some none) :
    parseElement st (streamEnd ++ rest) =
      .ok (some (⟨0, st.length - 1, .streamedStringPart, []⟩, advance st.tail, rest)) := by
  have hl : 13 ∉ decimal 0 := fun h => (mem_decimal h).2.1 rfl
  have hs : DataType.streamedStringPart ≠ .invalid := by decide
  have ha : DataType.streamedStringPart.isAggregate = false := rfl
  have hb : DataType.streamedStringPart.isBulk = true := rfl
  simp only [streamEnd, parseElement, DataType.toType_code hs, if_neg hs, List.cons_append,
    List.append_assoc, List.singleton_append, List.nil_append, readLine_append_crlf rest hl,
    parseBody, parseSize_decimal, ha, hb, Bool.false_eq_true, if_false, if_true]
  rw [if_pos ⟨trivial, trivial, hst⟩]

end Elements

section RoundTrip

open Value

theorem leaf_wellFormed {t : DataType} {data : List UInt8} (h : (leaf t data).wellFormed = true) :
    t ≠ .invalid ∧ t.isAggregate = false ∧ (t.isBulk = false → 13 ∉ data) := by
  simp only [wellFormed, Bool.and_eq_true, bne_iff_ne, ne_eq, Bool.not_eq_true',
    Bool.or_eq_true] at h
  refine ⟨h.1.1, h.1.2, fun hb hm => ?_⟩
  have : data.contains 13 = true := List.elem_eq_true_of_mem hm
  simp_all

mutual

theorem parseLoop_encode : ∀ (v : Value) (st : Stack) (acc : List Node) (rest : List UInt8),
    v.wellFormed = true → st ≠ [] → (st.head? = some none → v.isStreamEnd = false) →
    parseLoop st acc (v.encode ++ rest) =
      parseLoop (advance st) (acc ++ v.nodes (st.length - 1)) rest
  | leaf t data, st, acc, rest, hv, hst, hend => by
    obtain ⟨ht, ha, hd⟩ := leaf_wellFormed hv
    cases hb : t.isBulk
    · simp only [encode, hb, Bool.false_eq_true, if_false, List.cons_append, List.append_assoc,
        List.singleton_append, List.nil_append]
      rw [parseLoop_step hst (parseElement_line ht ha hb (hd hb))]
      rfl
    · simp only [encode, hb, if_true, List.cons_append, List.append_assoc, List.singleton_append,
        List.nil_append]
      have hend' : st.head? = some none → ¬(t = .streamedStringPart ∧ data = []) := by
        rintro h ⟨rfl, rfl⟩
        exact absurd (hend h) (by decide)
      rw [parseLoop_step hst (parseElement_bulk ht ha hb hend')]
      rfl
  | aggregate t cs, st, acc, rest, hv, hst, _ => by
    simp only [wellFormed, Bool.and_eq_true, beq_iff_eq] at hv
    obtain ⟨⟨ha, hmod⟩, hcs⟩ := hv
    have ht : t ≠ .invalid := by rintro rfl; cases ha
    have hlen : cs.length / t.elementMultiplicity * t.elementMultiplicity = cs.length :=
      Nat.div_mul_cancel (Nat.dvd_of_mod_eq_zero hmod)
    simp only [encode, List.cons_append, List.append_assoc, List.singleton_append,
      List.nil_append]
    rw [parseLoop_step hst (parseElement_header ht ha _), hlen]
    have hd : st.length - 1 + 1 = st.length := Nat.sub_add_cancel (List.length_pos.2 hst)
    rcases cs with _ | ⟨c, cs⟩
    · simp [openLevel, encodeAll, nodes, nodesAll]
    · rw [openLevel, if_neg (List.length_cons _ _ ▸ Nat.succ_ne_zero _),
        parseLoop_encodeAll (c :: cs) st _ rest (List.cons_ne_nil _ _) hcs]
      simp [nodes, hd]
  | streamed t cs, st, acc, rest, hv, hst, _ => by
    simp only [wellFormed, Bool.and_eq_true] at hv
    have ht : t ≠ .invalid := by rintro rfl; cases hv.1
    simp only [encode, List.cons_append, List.append_assoc]
    rw [parseLoop_step hst (parseElement_streamed ht hv.1), ← List.append_assoc,
      parseLoop_encodeStream cs st _ rest hv.2]
    have hd : st.length - 1 + 1 = st.length := Nat.sub_add_cancel (List.length_pos.2 hst)
    simp [nodes, hd]

theorem parseLoop_encodeAll : ∀ (cs : List Value) (st : Stack) (acc : List Node) (rest : List UInt8),
    cs ≠ [] → allWellFormed false cs = true →
    parseLoop (some cs.length :: st) acc (encodeAll cs ++ rest) =
      parseLoop (advance st) (acc ++ nodesAll st.length cs) rest
  | [], _, _, _, h, _ => absurd rfl h
  | c :: cs, st, acc, rest, _, hw => by
    simp only [allWellFormed, Bool.false_and, Bool.not_false, Bool.and_true, Bool.and_eq_true] at hw
    rw [encodeAll, List.append_assoc,
      parseLoop_encode c _ acc _ hw.1 (List.cons_ne_nil _ _) (fun h => by cases h)]
    simp only [List.length_cons, Nat.add_sub_cancel]
    rcases cs with _ | ⟨c', cs⟩
    · simp [advance, encodeAll, nodesAll]
    · rw [show advance (some ((c' :: cs).length + 1) :: st) = some (c' :: cs).length :: st by
        simp [advance], parseLoop_encodeAll (c' :: cs) st _ rest (List.cons_ne_nil _ _) hw.2]
      simp [nodesAll]

theorem parseLoop_encodeStream : ∀ (cs : List Value) (st : Stack) (acc : List Node) (rest : List UInt8),
    allWellFormed true cs = true →
    parseLoop (none :: st) acc (encodeAll cs ++ streamEnd ++ rest) =
      parseLoop (advance st) (acc ++ nodesAll st.length cs ++ [⟨0, st.length, .streamedStringPart, []⟩]) rest
  | [], st, acc, rest, _ => by
    rw [encodeAll, List.nil_append, parseLoop_step (List.cons_ne_nil _ _) (parseElement_streamEnd rfl)]
    simp [nodesAll]
  | c :: cs, st, acc, rest, hw => by
    simp only [allWellFormed, Bool.true_and, Bool.and_eq_true, Bool.not_eq_true'] at hw
    rw [encodeAll, List.append_assoc, List.append_assoc,
      parseLoop_encode c _ acc _ hw.1.1 (List.cons_ne_nil _ _) (fun _ => hw.1.2), ← List.append_assoc,
      show advance (none :: st) = none :: st from rfl, parseLoop_encodeStream cs st _ rest hw.2]
    simp [nodesAll]

end

theorem parse_encode (v : Value) (hv : v.wellFormed = true) (rest : List UInt8) :
    parse (v.encode ++ rest) = .ok (some (v.nodes 0, rest)) := by
  rw [parse, parseLoop_encode v [some 1] [] rest hv (List.cons_ne_nil _ _) (fun h => by cases h)]
  simp [advance]

def mapOfOne : Value := .aggregate .map [.leaf .simpleString [107], .leaf .blobString [118, 13, 10]]

theorem parse_encode_mapOfOne :
    mapOfOne.wellFormed = true ∧
      parse (mapOfOne.encode ++ [43]) = .ok (some ([⟨1, 0, .map, []⟩, ⟨1, 1, .simpleString, [107]⟩,
        ⟨3, 1, .blobString, [118, 13, 10]⟩], [43])) :=
  ⟨by decide, parse_encode mapOfOne (by decide) [43]⟩

end RoundTrip

end Aedis.Resp3
