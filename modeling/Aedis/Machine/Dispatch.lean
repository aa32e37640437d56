import Aedis.Machine.Order

namespace Aedis.Machine

open Connection

variable {c c' : Connection} {a : Action} {as : List Action} {E E' L : List Nat} {x : Nat}

def replyTarget (c : Connection) : Action → Option Nat
  | .read t =>
    if t = .push then none else (c.reqs.find? fun e => e.written && 0 < e.cmds).map (·.id)
  | _ => none

def repliesWhen (ok : Connection → Action → Bool) (c : Connection) (as : List Action) : List Nat :=
  emitted (fun c a => (replyTarget c a).toList) ok c as

def replies (c : Connection) (as : List Action) : List Nat := repliesWhen (fun _ _ => true) c as

def Due (e : ReqInfo) : Prop := e.written = false ∨ 0 < e.cmds

def InOrder (E : List Nat) (i j : Nat) : Prop := i = j ∨ [i, j].Sublist E

theorem InOrder.mono (h : E.Sublist E') {i j : Nat} : InOrder E i j → InOrder E' i j :=
  Or.imp_right fun hij => hij.trans h

theorem pair_sublist_append_singleton {y : Nat} (hx : x ∈ E) : [x, y].Sublist (E ++ [y]) := by
  simpa using (List.singleton_sublist.2 hx).append (List.Sublist.refl [y])

/-- What the reader and the queue maintain between the replies dispatched so far, `L`, the ids
enqueued so far, `E`, and the queue. -/
structure DispatchInv (E L : List Nat) (c : Connection) : Prop where
  writtenPrefix : WrittenPrefix c.reqs
  ids : (c.reqs.map (·.id)).Sublist E
  log_mem : ∀ x ∈ L, x ∈ E
  log_before : ∀ x ∈ L, ∀ e ∈ c.reqs, e.id ≠ x → Due e → [x, e.id].Sublist E
  log_order : L.Pairwise (InOrder E)

theorem step_read_reply {t : Resp3.DataType} (h : step c (.read t) = some c') (ht : t ≠ .push) :
    ∃ ws z us, c.reqs = ws ++ z :: us ∧ (∀ w ∈ ws, ¬(w.written = true ∧ 0 < w.cmds)) ∧
      z.written = true ∧ 0 < z.cmds ∧
      c'.reqs = ws ++ (if z.cmds = 1 then us else { z with cmds := z.cmds - 1 } :: us) ∧
      replyTarget c (.read t) = some z.id := by
  obtain ⟨reqs, hd, rfl⟩ := ((step_read h).resolve_left fun h' => ht h'.1).2
  obtain ⟨ws, z, us, hl, hws, hw, hc, rfl⟩ := deliver_cases hd
  refine ⟨ws, z, us, hl, hws, hw, hc, rfl, ?_⟩
  have hnone : ws.find? (fun e => e.written && 0 < e.cmds) = none :=
    List.find?_eq_none.2 fun w hw' => by simpa using hws w hw'
  simp [replyTarget, ht, hl, List.find?_append, hnone, List.find?_cons, hw, hc]

theorem mem_writeFirst {n : Nat} {e' : ReqInfo} (he : e' ∈ (writeFirst n c).reqs) :
    ∃ e ∈ c.reqs, e.id = e'.id ∧ (Due e' → Due e) := by
  simp only [writeFirst, List.mem_append, List.mem_map] at he
  rcases he with ⟨e, he, rfl⟩ | he
  · exact ⟨e, List.mem_of_mem_take he, rfl, fun hd => hd.elim (by simp) .inr⟩
  · exact ⟨e', List.mem_of_mem_drop he, rfl, id⟩

theorem not_due_of_mem_front {ws us : List ReqInfo} {z : ReqInfo}
    (h : WrittenPrefix (ws ++ z :: us)) (hz : z.written = true)
    (hws : ∀ w ∈ ws, ¬(w.written = true ∧ 0 < w.cmds)) : ∀ w ∈ ws, ¬Due w := fun w hw hd => by
  simp only [WrittenPrefix, List.map_append, List.map_cons, List.pairwise_append] at h
  have hwr : w.written = true := h.2.2 _ (List.mem_map_of_mem _ hw) _ (List.mem_cons_self _ _) hz
  exact hws w hw ⟨hwr, hd.resolve_left (by simp [hwr])⟩

theorem DispatchInv.quiet (hc : DispatchInv E L c) (hE : E.Sublist E')
    (hwp : WrittenPrefix c'.reqs) (hids : (c'.reqs.map (·.id)).Sublist E')
    (hsrc : ∀ e' ∈ c'.reqs,
      (∃ e ∈ c.reqs, e.id = e'.id ∧ (Due e' → Due e)) ∨ ∀ x ∈ E, [x, e'.id].Sublist E') :
    DispatchInv E' L c' := by
  refine ⟨hwp, hids, fun x hx => hE.subset (hc.log_mem x hx), fun x hx e' he' hne hdue => ?_,
    hc.log_order.imp (InOrder.mono hE)⟩
  rcases hsrc e' he' with ⟨e, he, hid, hd⟩ | hnew
  · exact hid ▸ (hc.log_before x hx e he (hid ▸ hne) (hd hdue)).trans hE
  · exact hnew x (hc.log_mem x hx)

theorem DispatchInv.reply (hc : DispatchInv E L c) {ws us : List ReqInfo} {z : ReqInfo}
    (hl : c.reqs = ws ++ z :: us) (hfront : ∀ w ∈ ws, ¬Due w) (hzc : 0 < z.cmds)
    (hreqs : c'.reqs = ws ++ (if z.cmds = 1 then us else { z with cmds := z.cmds - 1 } :: us))
    (hwp : WrittenPrefix c'.reqs) (hids : (c'.reqs.map (·.id)).Sublist E) :
    DispatchInv E (L ++ [z.id]) c' := by
  have hz : z ∈ c.reqs := hl ▸ List.mem_append_right _ (List.mem_cons_self _ _)
  have hus : ∀ {u}, u ∈ us → u ∈ c.reqs :=
    fun hu => hl ▸ List.mem_append_right _ (List.mem_cons_of_mem _ hu)
  -- a due entry afterwards sits behind `z`, or is `z` with one reply fewer
  have hdue : ∀ e' ∈ c'.reqs, Due e' → e' ∈ us ∨ e'.id = z.id := by
    intro e' he' hd
    rw [hreqs, List.mem_append] at he'
    rcases he' with hw | he'
    · exact absurd hd (hfront e' hw)
    split at he'
    · exact .inl he'
    · rcases List.mem_cons.1 he' with rfl | hu
      · exact .inr rfl
      · exact .inl hu
  refine ⟨hwp, hids, fun x hx => ?_, fun x hx e' he' hne hd => ?_, ?_⟩
  · rcases List.mem_append.1 hx with hx | hx
    · exact hc.log_mem x hx
    · exact List.mem_singleton.1 hx ▸ hc.ids.subset (List.mem_map_of_mem _ hz)
  · rcases List.mem_append.1 hx, hdue e' he' hd with ⟨hx | hx, hu | hid⟩
    · exact hc.log_before x hx e' (hus hu) hne hd
    · exact hid ▸ hc.log_before x hx z hz (hid ▸ hne) (.inr hzc)
    · -- `z` was enqueued before every entry behind it
      obtain rfl := List.mem_singleton.1 hx
      refine List.Sublist.trans ?_ hc.ids
      rw [hl, List.map_append, List.map_cons]
      exact ((List.singleton_sublist.2 (List.mem_map_of_mem _ hu)).cons₂ _).trans
        (List.sublist_append_right _ _)
    · exact absurd (hid.trans (List.mem_singleton.1 hx).symm) hne
  · rw [List.pairwise_append]
    refine ⟨hc.log_order, List.pairwise_singleton _ _, fun y hy z' hz' => ?_⟩
    obtain rfl := List.mem_singleton.1 hz'
    by_cases hyz : z.id = y
    · exact .inl hyz.symm
    · exact .inr (hc.log_before y hy z hz hyz (.inr hzc))

theorem DispatchInv.step (hc : DispatchInv E L c) (h : step c a = some c') :
    DispatchInv (E ++ enqueued [a]) (L ++ (replyTarget c a).toList) c' := by
  have hids := (step_ids h).trans (hc.ids.append_right _)
  have hwp := step_writtenPrefix hc.writtenPrefix h
  have quiet : replyTarget c a = none → (∀ e' ∈ c'.reqs,
      (∃ e ∈ c.reqs, e.id = e'.id ∧ (Due e' → Due e)) ∨
        ∀ x ∈ E, [x, e'.id].Sublist (E ++ enqueued [a])) →
      DispatchInv (E ++ enqueued [a]) (L ++ (replyTarget c a).toList) c' := fun hnone hsrc => by
    rw [hnone, Option.toList_none, List.append_nil]
    exact hc.quiet (List.sublist_append_left _ _) hwp hids hsrc
  have kept : ∀ {e'}, e' ∈ c.reqs → ∃ e ∈ c.reqs, e.id = e'.id ∧ (Due e' → Due e) :=
    fun he => ⟨_, he, rfl, id⟩
  cases a with
  | addRequestInfo id req =>
    cases h
    refine quiet rfl fun e' he' => ?_
    rcases List.mem_append.1 he' with he | he
    · exact .inl (kept he)
    · obtain rfl := List.mem_singleton.1 he
      exact .inr fun x hx => pair_sublist_append_singleton hx
  | coalesceRequests =>
    obtain ⟨-, -, -, rfl⟩ := step_coalesceRequests h
    exact quiet rfl fun e' he' => .inl (mem_writeFirst he')
  | flush => cases h; exact quiet rfl fun e' he' => .inl (kept he')
  | cancel op =>
    cases h; exact quiet rfl fun e' he' => .inl (kept ((cancel_reqs_sublist op).subset he'))
  | cancelPushRequests =>
    cases h; exact quiet rfl fun e' he' => .inl (kept (cancelPushRequests_reqs_sublist.subset he'))
  | read t =>
    by_cases ht : t = .push
    · obtain rfl := ((step_read h).resolve_right fun h' => h'.1 ht).2
      exact quiet (by simp [replyTarget, ht]) fun e' he' => .inl (kept he')
    obtain ⟨ws, z, us, hl, hws, hzw, hzc, hreqs, htarget⟩ := step_read_reply h ht
    have hE : E ++ enqueued [.read t] = E := by simp [enqueued]
    rw [htarget, Option.toList_some, hE]
    rw [hE] at hids
    exact hc.reply hl (not_due_of_mem_front (hl ▸ hc.writtenPrefix) hzw hws) hzc hreqs hwp hids

theorem replies_inOrder :
    ∀ {as E L c}, DispatchInv E L c → (L ++ replies c as).Pairwise (InOrder (E ++ enqueued as))
  | [], _, _, _, hc => by simpa [replies, repliesWhen, emitted, enqueued] using hc.log_order
  | a :: as, E, L, c, hc => by
    have henq : E ++ enqueued (a :: as) = E ++ enqueued [a] ++ enqueued as := by
      cases a <;> simp [enqueued]
    simp only [replies, repliesWhen, emitted, if_true]
    split
    · simpa using hc.log_order.imp (InOrder.mono (List.sublist_append_left _ _))
    next c' h => simpa [henq] using @replies_inOrder as _ _ _ (hc.step h)

theorem replies_in_order (h0 : c.Fresh) : (replies c as).Pairwise (InOrder (enqueued as)) := by
  have hinv : DispatchInv [] [] c := by
    obtain ⟨hr, -, -⟩ := h0
    exact ⟨by simp [hr, WrittenPrefix], by simp [hr], by simp, by simp, by simp⟩
  simpa using @replies_inOrder as _ _ _ hinv

theorem replies_in_order_hello_priority :
    let as := [Action.addRequestInfo 0 helloPriorityReq1.req, .coalesceRequests, .flush,
      .addRequestInfo 2 helloPriorityReq3.req, .read .simpleString, .coalesceRequests, .flush,
      .read .simpleString, .read .simpleString]
    replies (init {}) as = [0, 2, 2] ∧ (replies (init {}) as).Pairwise (InOrder (enqueued as)) :=
  ⟨rfl, replies_in_order (init_fresh {})⟩

theorem run_replies_filter_push (c : Connection) (as : List Action) :
    run c (as.filter (· != .read .push)) = run c as ∧
      replies c (as.filter (· != .read .push)) = replies c as := by
  induction as generalizing c with
  | nil => exact ⟨rfl, rfl⟩
  | cons a as ih =>
    by_cases ha : a = .read .push
    · subst ha
      have hs : step c (.read .push) = some c := rfl
      simp only [List.filter_cons, bne_self_eq_false, Bool.false_eq_true, if_false, run_cons, hs,
        Option.some_bind, ih c, true_and]
      simp [replies, repliesWhen, emitted, hs, replyTarget, ← (ih c).2]
    · simp only [List.filter_cons, bne_iff_ne, ne_eq, ha, not_false_eq_true, if_true, run_cons]
      simp only [replies, repliesWhen, emitted, if_true]
      cases step c a with
      | none => exact ⟨rfl, rfl⟩
      | some c' =>
        simp only [Option.some_bind]
        exact ⟨(ih c').1, congrArg _ (ih c').2⟩

end Aedis.Machine
