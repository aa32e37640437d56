import Aedis.Resp3.Frame

namespace Aedis.Resp3

variable {st : Stack} {acc ns : List Node} {bs rest more r : List UInt8} {fs : List (List Node)}

theorem parseLoop_rest (h : parseLoop st acc bs = .ok (some (ns, rest))) :
    rest.length ≤ bs.length ∧ (st ≠ [] → rest.length < bs.length) := by
  induction st, acc, bs using parseLoop.induct with
  | case1 acc bs =>
    rw [parseLoop_nil] at h
    cases h
    exact ⟨le_rfl, fun h => absurd rfl h⟩
  | case2 st acc bs hst e hp => rw [parseLoop_error hst hp] at h; cases h
  | case3 st acc bs hst hp => rw [parseLoop_none hst hp] at h; cases h
  | case4 st acc bs hst n st' rest' hp _ ih =>
    rw [parseLoop_step hst hp] at h
    have h₁ := parseElement_rest hp
    have h₂ := (ih h).1
    exact ⟨by omega, fun _ => by omega⟩

theorem parse_rest (h : parse bs = .ok (some (ns, rest))) : rest.length < bs.length :=
  (parseLoop_rest h).2 (List.cons_ne_nil _ _)

theorem parse_nil : parse [] = .ok none := parseLoop_none (List.cons_ne_nil _ _) rfl

/-- Modelled from the spec: the frames complete at the head of the reader's buffer, decoded one
after another until one has not all arrived, and the bytes left for the next read. -/
def frames (bs : List UInt8) : Except Error (List (List Node) × List UInt8) :=
  match h : parse bs with
  | .error e => .error e
  | .ok none => .ok ([], bs)
  | .ok (some (ns, rest)) =>
    have := parse_rest h
    (frames rest).map fun r => (ns :: r.1, r.2)
termination_by bs.length

theorem frames_error {e : Error} (h : parse bs = .error e) : frames bs = .error e := by
  rw [frames]; split <;> simp_all

theorem frames_none (h : parse bs = .ok none) : frames bs = .ok ([], bs) := by
  rw [frames]; split <;> simp_all

theorem frames_some (h : parse bs = .ok (some (ns, rest))) :
    frames bs = (frames rest).map fun r => (ns :: r.1, r.2) := by
  rw [frames]; split <;> simp_all

theorem frames_rest (h : frames bs = .ok (fs, r)) : parse r = .ok none := by
  induction bs using frames.induct generalizing fs with
  | case1 bs e hp => rw [frames_error hp] at h; cases h
  | case2 bs hp => rw [frames_none hp] at h; cases h; exact hp
  | case3 bs ns rest hp _ ih =>
    rw [frames_some hp] at h
    rcases hf : frames rest with e | ⟨fs', r'⟩ <;> rw [hf] at h <;> cases h
    exact ih hf

theorem frames_append (bs more : List UInt8) :
    frames (bs ++ more) =
      (frames bs).bind fun r => (frames (r.2 ++ more)).map fun g => (r.1 ++ g.1, g.2) := by
  have hmore : ∀ bs, parse bs ≠ .ok none →
      parse (bs ++ more) = (parse bs).map (Option.map fun r => (r.1, r.2 ++ more)) :=
    fun _ => parseLoop_append more
  induction bs using frames.induct with
  | case1 bs e hp =>
    have h := hmore bs (by rw [hp]; exact fun h => by cases h)
    rw [hp] at h
    rw [frames_error h, frames_error hp]; rfl
  | case2 bs hp =>
    rw [frames_none hp]
    show _ = (frames (bs ++ more)).map _
    cases frames (bs ++ more) <;> rfl
  | case3 bs ns rest hp _ ih =>
    have h := hmore bs (by rw [hp]; exact fun h => by cases h)
    rw [hp] at h
    rw [frames_some h, frames_some hp, ih]
    rcases frames rest with e | ⟨fs', r'⟩
    · rfl
    · show Except.map _ (Except.map _ (frames (r' ++ more))) = Except.map _ (frames (r' ++ more))
      cases frames (r' ++ more) <;> rfl

def Value.dataType : Value → DataType
  | .leaf t _ | .aggregate t _ | .streamed t _ => t

theorem frames_encodeAll (vs : List Value) (hv : ∀ v ∈ vs, v.wellFormed = true)
    (hr : parse rest = .ok none) :
    frames (Value.encodeAll vs ++ rest) = .ok (vs.map (·.nodes 0), rest) := by
  induction vs with
  | nil => exact frames_none hr
  | cons v vs ih =>
    have hp : parse (v.encode ++ (Value.encodeAll vs ++ rest)) =
        .ok (some (v.nodes 0, Value.encodeAll vs ++ rest)) := by
      rw [parse, parseLoop_encode v [some 1] [] _ (hv v (List.mem_cons_self _ _))
        (List.cons_ne_nil _ _) (fun h => by cases h)]
      simp [advance]
    rw [Value.encodeAll, List.append_assoc, frames_some hp,
      ih fun v h => hv v (List.mem_cons_of_mem _ h)]
    rfl

end Aedis.Resp3
