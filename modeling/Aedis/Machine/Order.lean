import Aedis.Machine.Step

namespace Aedis.Machine

open Connection

variable {c c' : Connection} {a : Action} {as : List Action} {l l' : List ReqInfo} {n : Nat}

/-- The written entries of the queue form a prefix of it: no written entry follows an
unwritten one. -/
def WrittenPrefix (reqs : List ReqInfo) : Prop :=
  (reqs.map (·.written)).Pairwise fun a b => b = true → a = true

theorem WrittenPrefix.of_sublist (h : (l'.map (·.written)).Sublist (l.map (·.written)))
    (hl : WrittenPrefix l) : WrittenPrefix l' :=
  List.Pairwise.sublist h hl

theorem WrittenPrefix.append_unwritten {e : ReqInfo} (he : e.written = false)
    (hl : WrittenPrefix l) : WrittenPrefix (l ++ [e]) := by
  simpa [WrittenPrefix, List.pairwise_append, he] using hl

theorem WrittenPrefix.writeFirst (h : WrittenPrefix c.reqs) :
    WrittenPrefix (writeFirst n c).reqs := by
  simp only [WrittenPrefix, Connection.writeFirst, List.map_append, List.pairwise_append]
  refine ⟨?_, h.sublist ((List.drop_sublist _ _).map _), ?_⟩
  · rw [List.pairwise_map, List.pairwise_map]
    exact List.pairwise_of_forall fun _ _ _ => markWritten_written _
  · intro a ha _ _ _
    obtain ⟨e, -, rfl⟩ := List.mem_map.1 (List.map_map _ _ _ ▸ ha)
    exact markWritten_written e

theorem step_ids (h : step c a = some c') :
    (c'.reqs.map (·.id)).Sublist (c.reqs.map (·.id) ++ enqueued [a]) := by
  cases a with
  | addRequestInfo id req => cases h; simp [enqueued, addRequestInfo, ReqInfo.fresh]
  | coalesceRequests =>
    obtain ⟨-, -, -, rfl⟩ := step_coalesceRequests h
    simp only [writeFirst, List.map_append, List.map_map, enqueued, List.append_nil]
    have : (·.id) ∘ markWritten = (·.id) := rfl
    rw [this, ← List.map_append, List.take_append_drop]
  | flush => cases h; simp [enqueued, flush]
  | read t =>
    simp only [enqueued, List.append_nil]
    rcases step_read h with ⟨-, rfl⟩ | ⟨-, reqs, hd, rfl⟩
    · exact List.Sublist.refl _
    · simpa [List.map_map] using (deliver_sublist hd).map Prod.fst
  | cancel op => cases h; simpa [enqueued] using (cancel_reqs_sublist op).map _
  | cancelPushRequests => cases h; simpa [enqueued] using cancelPushRequests_reqs_sublist.map _

theorem step_writtenPrefix (hc : WrittenPrefix c.reqs) (h : step c a = some c') :
    WrittenPrefix c'.reqs := by
  cases a with
  | addRequestInfo id req => cases h; exact hc.append_unwritten rfl
  | coalesceRequests =>
    obtain ⟨-, -, -, rfl⟩ := step_coalesceRequests h
    exact hc.writeFirst
  | flush => cases h; exact hc
  | read t =>
    rcases step_read h with ⟨-, rfl⟩ | ⟨-, reqs, hd, rfl⟩
    · exact hc
    · exact hc.of_sublist (by simpa [List.map_map] using (deliver_sublist hd).map Prod.snd)
  | cancel op => cases h; exact hc.of_sublist ((cancel_reqs_sublist op).map _)
  | cancelPushRequests => cases h; exact hc.of_sublist (cancelPushRequests_reqs_sublist.map _)

theorem run_ids {L : List Nat} :
    ∀ {as c c'}, (c.reqs.map (·.id)).Sublist L → run c as = some c' →
      (c'.reqs.map (·.id)).Sublist (L ++ enqueued as)
  | [], _, _, hc, h => by cases h; simpa [enqueued] using hc
  | a :: as, _, _, hc, h => by
    obtain ⟨c₁, h₁, h₂⟩ := Option.bind_eq_some.1 (run_cons ▸ h)
    have h₁' := (step_ids h₁).trans (hc.append_right _)
    have : enqueued (a :: as) = enqueued [a] ++ enqueued as := by cases a <;> rfl
    simpa [this] using run_ids h₁' h₂

theorem queue_order (h0 : c.Fresh) (h : run c as = some c') :
    WrittenPrefix c'.reqs ∧ (c'.reqs.map (·.id)).Sublist (enqueued as) := by
  have hnil : c.reqs = [] := h0.1
  refine ⟨run_invariant step_writtenPrefix (by simp [hnil, WrittenPrefix]) h, ?_⟩
  simpa using run_ids (show (c.reqs.map (·.id)).Sublist [] by simp [hnil]) h

theorem queue_order_hello_priority :
    let as := [Action.addRequestInfo 0 helloPriorityReq1.req, .coalesceRequests, .flush,
      .addRequestInfo 2 helloPriorityReq3.req, .cancel .run]
    let c' := (run (init {}) as).getD (init {})
    c'.reqs.map (fun e => (e.id, e.written)) = [(0, true), (2, false)] ∧
      WrittenPrefix c'.reqs ∧ (c'.reqs.map (·.id)).Sublist (enqueued as) :=
  ⟨rfl, queue_order (init_fresh {}) rfl⟩

end Aedis.Machine
