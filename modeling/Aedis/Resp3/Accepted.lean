import Aedis.Resp3.Frame

namespace Aedis.Resp3

open Value

mutual

/-- The shape of a value: leaves of leaf types, aggregates of aggregate types with a whole
number of entries, and no child of a streamed aggregate that would end it early. -/
def Value.wellShaped : Value → Bool
  | leaf t _ => t != .invalid && !t.isAggregate
  | aggregate t cs =>
    t.isAggregate && cs.length % t.elementMultiplicity == 0 && Value.allWellShaped false cs
  | streamed t cs => t.isAggregate && Value.allWellShaped true cs

def Value.allWellShaped (inStream : Bool) : List Value → Bool
  | [] => true
  | v :: vs => v.wellShaped && !(inStream && v.isStreamEnd) && Value.allWellShaped inStream vs

end

variable {st st' : Stack} {acc : List Node} {bs rest : List UInt8} {n : Node}
  {r : List Node × List UInt8}

theorem parseElement_cases (h : parseElement st bs = .ok (some (n, st', rest))) :
    (∃ t data, (leaf t data).wellShaped = true ∧
        (st.head? = some none → (leaf t data).isStreamEnd = false) ∧
        n = ⟨data.length, st.length - 1, t, data⟩ ∧ st' = advance st) ∨
      (∃ t s, t.isAggregate = true ∧ n = ⟨s, st.length - 1, t, []⟩ ∧
        st' = openLevel (s * t.elementMultiplicity) st) ∨
      (∃ t, t.isAggregate = true ∧ n = ⟨unknownSize, st.length - 1, t, []⟩ ∧ st' = none :: st) ∨
      (st.head? = some none ∧ n = ⟨0, st.length - 1, .streamedStringPart, []⟩ ∧
        st' = advance st.tail) := by
  cases bs with
  | nil => cases h
  | cons b bs =>
    simp only [parseElement] at h
    generalize DataType.toType (Char.ofNat b.toNat) = t at h
    by_cases hv : t = .invalid
    · simp only [if_pos hv] at h; cases h
    rw [if_neg hv] at h
    rcases hl : readLine bs with _ | ⟨line, rest₀⟩ <;> simp only [hl] at h
    · cases h
    simp only [parseBody] at h
    cases ha : t.isAggregate
    · have hshape : (leaf t []).wellShaped = true := by simp [wellShaped, hv, ha]
      simp only [ha, Bool.false_eq_true, if_false] at h
      cases hb : t.isBulk
      · simp only [hb, Bool.false_eq_true, if_false] at h
        cases h
        refine .inl ⟨t, line, by simpa [wellShaped] using hshape, fun _ => ?_, rfl, rfl⟩
        cases t <;> first | rfl | cases hb
      · simp only [hb, if_true] at h
        rcases hs : parseSize line with _ | m <;> simp only [hs] at h
        · cases h
        by_cases hend : t = .streamedStringPart ∧ m = 0 ∧ st.head? = some none
        · simp only [if_pos hend] at h
          cases h
          exact .inr (.inr (.inr ⟨hend.2.2, by rw [hend.1], rfl⟩))
        simp only [if_neg hend] at h
        by_cases hlen : rest₀.length < m + 2
        · simp only [if_pos hlen] at h; cases h
        simp only [if_neg hlen] at h
        cases h
        have hl : (rest₀.take m).length = m := List.length_take_of_le (by omega)
        refine .inl ⟨t, rest₀.take m, by simpa [wellShaped] using hshape, fun hst => ?_, by rw [hl],
          rfl⟩
        cases t <;> try rfl
        cases m
        · exact absurd ⟨rfl, rfl, hst⟩ hend
        · simp [isStreamEnd, ← List.length_eq_zero, hl]
    · simp only [ha, if_true] at h
      split at h
      · cases h; exact .inr (.inr (.inl ⟨t, ha, rfl, rfl⟩))
      · rcases hs : parseSize line with _ | s <;> simp only [hs] at h
        · cases h
        · cases h; exact .inr (.inl ⟨t, s, ha, rfl, rfl⟩)

theorem parseLoop_ok (hst : st ≠ []) (h : parseLoop st acc bs = .ok (some r)) :
    ∃ n st' rest, parseElement st bs = .ok (some (n, st', rest)) ∧
      parseLoop st' (acc ++ [n]) rest = .ok (some r) := by
  rcases hp : parseElement st bs with e | _ | ⟨n, st', rest⟩
  · rw [parseLoop_error hst hp] at h; cases h
  · rw [parseLoop_none hst hp] at h; cases h
  · exact ⟨n, st', rest, rfl, parseLoop_step hst hp ▸ h⟩

/-- From a nonempty stack the loop first reads either the part that ends the innermost streamed
aggregate, or one whole child, a well-shaped value, and goes on from the stack it leaves. -/
def ChildFirst (st : Stack) (acc : List Node) (bs : List UInt8) (r : List Node × List UInt8) :
    Prop :=
  (st.head? = some none ∧ ∃ bs' : List UInt8, bs'.length < bs.length ∧
    parseLoop (advance st.tail) (acc ++ [⟨0, st.length - 1, .streamedStringPart, []⟩]) bs' =
      .ok (some r)) ∨
  ∃ (v : Value) (bs' : List UInt8), v.wellShaped = true ∧ (st.head? = some none → v.isStreamEnd = false) ∧
    bs'.length < bs.length ∧ parseLoop (advance st) (acc ++ v.nodes (st.length - 1)) bs' = .ok (some r)

section Children

variable {N : Nat} (ih : ∀ bs : List UInt8, bs.length < N → ∀ {st acc r}, st ≠ [] →
  parseLoop st acc bs = .ok (some r) → ChildFirst st acc bs r)
include ih

theorem sized_children (m : Nat) : ∀ {st acc bs r}, bs.length < N →
    parseLoop (some (m + 1) :: st) acc bs = .ok (some r) →
    ∃ cs bs', cs.length = m + 1 ∧ allWellShaped false cs = true ∧ bs'.length < bs.length ∧
      parseLoop (advance st) (acc ++ nodesAll st.length cs) bs' = .ok (some r) := by
  induction m with
  | zero =>
    intro st acc bs r hN h
    rcases ih bs hN (List.cons_ne_nil _ _) h with ⟨hnone, -⟩ | ⟨v, bs₁, hv, -, hlt, h₁⟩
    · cases hnone
    refine ⟨[v], bs₁, rfl, by simp [allWellShaped, hv], hlt, ?_⟩
    simpa [advance, nodesAll] using h₁
  | succ m ihm =>
    intro st acc bs r hN h
    rcases ih bs hN (List.cons_ne_nil _ _) h with ⟨hnone, -⟩ | ⟨v, bs₁, hv, -, hlt, h₁⟩
    · cases hnone
    rw [show advance (some (m + 1 + 1) :: st) = some (m + 1) :: st by simp [advance]] at h₁
    obtain ⟨cs, bs', hlen, hcs, hlt', h'⟩ := ihm (hlt.trans hN) h₁
    refine ⟨v :: cs, bs', by simp [hlen], by simp [allWellShaped, hv, hcs], hlt'.trans hlt, ?_⟩
    simpa [nodesAll, List.append_assoc] using h'

theorem streamed_children : ∀ {st acc bs r}, bs.length < N →
    parseLoop (none :: st) acc bs = .ok (some r) →
    ∃ cs bs', allWellShaped true cs = true ∧ bs'.length < bs.length ∧
      parseLoop (advance st) (acc ++ nodesAll st.length cs ++
        [⟨0, st.length, .streamedStringPart, []⟩]) bs' = .ok (some r) := by
  intro st acc bs r hN h
  obtain ⟨k, hk⟩ : ∃ k, bs.length ≤ k := ⟨_, le_rfl⟩
  induction k generalizing acc bs with
  | zero =>
    rcases ih bs hN (List.cons_ne_nil _ _) h with ⟨-, bs', hlt, -⟩ | ⟨-, bs', -, -, hlt, -⟩ <;> omega
  | succ k ihk =>
    rcases ih bs hN (List.cons_ne_nil _ _) h with ⟨-, bs', hlt, h'⟩ | ⟨v, bs₁, hv, hend, hlt, h₁⟩
    · exact ⟨[], bs', rfl, hlt, by simpa [nodesAll] using h'⟩
    obtain ⟨cs, bs', hcs, hlt', h'⟩ := ihk (hlt.trans hN) h₁ (by omega)
    refine ⟨v :: cs, bs', by simp [allWellShaped, hv, hend rfl, hcs], hlt'.trans hlt, ?_⟩
    simpa [nodesAll, List.append_assoc] using h'

end Children

theorem parseLoop_childFirst (bs : List UInt8) : ∀ {st acc r}, st ≠ [] →
    parseLoop st acc bs = .ok (some r) → ChildFirst st acc bs r := by
  obtain ⟨k, hk⟩ : ∃ k, bs.length < k := ⟨_, Nat.lt_succ_self _⟩
  induction k generalizing bs with
  | zero => exact absurd hk (Nat.not_lt_zero _)
  | succ k ih =>
    intro st acc r hst h
    have ih' : ∀ bs : List UInt8, bs.length < k → ∀ {st acc r}, st ≠ [] →
        parseLoop st acc bs = .ok (some r) → ChildFirst st acc bs r := fun bs hb => ih bs hb
    obtain ⟨n, st', rest, he, hl⟩ := parseLoop_ok hst h
    have hrest := parseElement_rest he
    have hN : rest.length < k := by omega
    have hd : st.length - 1 + 1 = st.length := Nat.sub_add_cancel (List.length_pos.2 hst)
    rcases parseElement_cases he with
      ⟨t, data, hv, hend, rfl, rfl⟩ | ⟨t, s, ha, rfl, rfl⟩ | ⟨t, ha, rfl, rfl⟩ | ⟨hnone, rfl, rfl⟩
    · exact Or.inr ⟨leaf t data, rest, hv, hend, hrest, by simpa [nodes] using hl⟩
    · have hmul : 0 < t.elementMultiplicity := by cases t <;> decide
      rcases hm : s * t.elementMultiplicity with _ | m
      · obtain rfl : s = 0 := by simpa [Nat.mul_eq_zero, hmul.ne'] using hm
        refine Or.inr ⟨aggregate t [], rest, by simp [wellShaped, ha, allWellShaped], fun _ => rfl,
          hrest, ?_⟩
        simpa [openLevel, nodes, nodesAll] using hl
      rw [openLevel, hm, if_neg (Nat.succ_ne_zero _)] at hl
      obtain ⟨cs, bs', hlen, hcs, hlt, h'⟩ := sized_children ih' m hN hl
      have hs : cs.length / t.elementMultiplicity = s := by
        rw [hlen, ← hm, Nat.mul_div_cancel _ hmul]
      refine Or.inr ⟨aggregate t cs, bs', ?_, fun _ => rfl, hlt.trans hrest, ?_⟩
      · simp [wellShaped, ha, hcs, hlen, ← hm]
      · simpa [nodes, hs, hd, List.append_assoc] using h'
    · obtain ⟨cs, bs', hcs, hlt, h'⟩ := streamed_children ih' hN hl
      refine Or.inr ⟨streamed t cs, bs', by simp [wellShaped, ha, hcs], fun _ => rfl,
        hlt.trans hrest, ?_⟩
      simpa [nodes, hd, List.append_assoc] using h'
    · exact Or.inl ⟨hnone, rest, hrest, hl⟩

theorem parse_wellShaped {ns : List Node} (h : parse bs = .ok (some (ns, rest))) :
    ∃ v : Value, v.wellShaped = true ∧ ns = v.nodes 0 := by
  rcases parseLoop_childFirst bs (List.cons_ne_nil _ _) h with ⟨hnone, -⟩ | ⟨v, bs', hv, -, -, h'⟩
  · cases hnone
  rw [show advance [some 1] = [] from rfl, parseLoop_nil] at h'
  cases h'
  exact ⟨v, hv, rfl⟩

theorem parse_wellShaped_leadingZero :
    parse [42, 48, 49, 13, 10, 58, 55, 13, 10] =
        .ok (some ([⟨1, 0, .array, []⟩, ⟨1, 1, .number, [55]⟩], [])) ∧
      ∃ v : Value, v.wellShaped = true ∧ [⟨1, 0, .array, []⟩, ⟨1, 1, .number, [55]⟩] = v.nodes 0 := by
  have he₁ : parseElement [some 1] [42, 48, 49, 13, 10, 58, 55, 13, 10] =
      .ok (some (⟨1, 0, .array, []⟩, [some 1, some 1], [58, 55, 13, 10])) := rfl
  have he₂ : parseElement [some 1, some 1] [58, 55, 13, 10] =
      .ok (some (⟨1, 1, .number, [55]⟩, [], [])) := rfl
  have h : parse [42, 48, 49, 13, 10, 58, 55, 13, 10] =
      .ok (some ([⟨1, 0, .array, []⟩, ⟨1, 1, .number, [55]⟩], [])) := by
    rw [parse, parseLoop_step (List.cons_ne_nil _ _) he₁, parseLoop_step (List.cons_ne_nil _ _) he₂,
      parseLoop_nil]
    rfl
  exact ⟨h, parse_wellShaped h⟩

end Aedis.Resp3
