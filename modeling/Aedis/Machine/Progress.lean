import Aedis.Machine.Writes

namespace Aedis.Machine

open Connection

variable {c c₀ c' : Connection} {l : List ReqInfo} {as : List Action}

theorem deliver_of_expectedReplies_pos (h : 0 < expectedReplies l) :
    ∃ l', deliver l = some l' := by
  induction l with
  | nil => simp at h
  | cons e es ih =>
    simp only [deliver]
    split
    · exact ⟨_, rfl⟩
    next hg =>
      have he : e.expected = 0 := by
        unfold ReqInfo.expected
        split <;> simp_all
      obtain ⟨l', hl'⟩ := ih (by simpa [he] using h)
      exact ⟨_, by rw [hl']; rfl⟩

theorem step_read_eq {t : Resp3.DataType} (ht : t ≠ .push) {reqs : List ReqInfo}
    (h : deliver c.reqs = some reqs) :
    step c (.read t) = some { c with cmds := c.cmds - 1, reqs } := by
  simp [step, readFrame, ht, h]

/-- Every written entry still waits for a reply. -/
def Waiting (l : List ReqInfo) : Prop := ∀ e ∈ l, e.written = true → 0 < e.cmds

theorem deliver_waiting (hl : Waiting l) {l' : List ReqInfo} (h : deliver l = some l') :
    Waiting l' ∧ l'.filter (!·.written) = l.filter (!·.written) := by
  obtain ⟨ws, e, us, rfl, -, hw, hc, rfl⟩ := deliver_cases h
  refine ⟨fun e' he' hw' => ?_, by split <;> simp [List.filter_append, List.filter_cons, hw]⟩
  rcases List.mem_append.1 he' with he' | he'
  · exact hl e' (List.mem_append_left _ he') hw'
  split at he'
  · exact hl e' (List.mem_append_right _ (List.mem_cons_of_mem _ he')) hw'
  rcases List.mem_cons.1 he' with rfl | he'
  · show 0 < e.cmds - 1
    omega
  · exact hl e' (List.mem_append_right _ (List.mem_cons_of_mem _ he')) hw'

theorem run_reads :
    ∀ (ts : List Resp3.DataType) {c : Connection}, (∀ t ∈ ts, t ≠ .push) → Waiting c.reqs →
      expectedReplies c.reqs = ts.length →
      run c (ts.map .read) =
        some { c with cmds := c.cmds - ts.length, reqs := c.reqs.filter (!·.written) }
  | [], c, _, hw, hn => by
    have hu : ∀ e ∈ c.reqs, e.written = false := fun e he => by
      cases hwe : e.written
      · rfl
      · have := List.sum_eq_zero_iff.1 hn _ (List.mem_map_of_mem _ he)
        simp only [ReqInfo.expected, hwe, if_true] at this
        exact absurd (hw e he hwe) (by omega)
    rw [List.filter_eq_self.2 fun e he => by simp [hu e he]]
    rfl
  | t :: ts, c, ht, hw, hn => by
    obtain ⟨l', hd⟩ := deliver_of_expectedReplies_pos (show 0 < expectedReplies c.reqs by
      rw [hn]; exact Nat.succ_pos _)
    obtain ⟨hw', hf⟩ := deliver_waiting hw hd
    have hn' : expectedReplies l' = ts.length := by
      have := deliver_expectedReplies hd
      simp only [List.length_cons] at hn
      omega
    rw [List.map_cons, run_cons, step_read_eq (ht t (List.mem_cons_self _ _)) hd, Option.some_bind,
      run_reads ts (fun t' h' => ht t' (List.mem_cons_of_mem _ h')) hw' hn', hf, Nat.sub_sub,
      List.length_cons, Nat.add_comm 1]

theorem exact_pos_of_paced (h0 : c₀.Fresh) (has : ∀ a ∈ as, expectsReplies a)
    (h : runWhen paced c₀ as = some c) : Exact c ∧ ∀ e ∈ c.reqs, 0 < e.req.size := by
  have h' : runWhen (fun c a => paced c a && expectsReplies a) c₀ as = some c := by
    rw [← h]
    exact runWhen_congr fun a ha _ => by simp [has a ha]
  have hstep : ∀ {c a c'}, Exact c ∧ (∀ e ∈ c.reqs, 0 < e.req.size) →
      (paced c a && expectsReplies a) = true → step c a = some c' →
      Exact c' ∧ ∀ e ∈ c'.reqs, 0 < e.req.size := fun hc hok hs => by
    obtain ⟨hp, ha⟩ := Bool.and_eq_true_iff.1 hok
    exact ⟨step_exact hc.1 hp hs, step_pos hc.2 ha hs⟩
  exact runWhen_invariant hstep ⟨exact_fresh h0, by simp [h0.1]⟩ h'

section Batch

variable (h0 : c₀.Fresh) (has : ∀ a ∈ as, expectsReplies a)
  (h : runWhen paced c₀ as = some c) (hq : c.cmds = 0) (hb : c.writeBuffer = "") (hne : c.reqs ≠ [])
include h0 has h hq hb hne

theorem run_batch (ts : List Resp3.DataType) (ht : ∀ t ∈ ts, t ≠ .push)
    (hlen : ts.length = ((c.reqs.take c.batchSize).map (·.req.size)).sum) :
    ∃ c₂, run c [.coalesceRequests, .flush] = some c₂ ∧
      run c₂ (ts.map .read) = some { c with reqs := c.reqs.drop c.batchSize } := by
  obtain ⟨hx, hpos⟩ := exact_pos_of_paced h0 has h
  have hu := hx.unwritten hpos hq
  have hco : step c .coalesceRequests = some (writeFirst c.batchSize c) := by
    obtain ⟨e, he⟩ := List.exists_mem_of_ne_nil _ hne
    have hg : (c.writeBuffer.isEmpty && c.reqs.any (!·.written)) = true := by
      rw [hb]
      exact Bool.and_eq_true_iff.2 ⟨rfl, List.any_eq_true.2 ⟨e, he, by simp [hu e he]⟩⟩
    simp only [step, hg, if_true]
    exact coalesceRequests_eq_some.2 ⟨hb, hne, rfl⟩
  have hflush :
      step (writeFirst c.batchSize c) .flush = some (writeFirst c.batchSize c).flush := rfl
  refine ⟨_, by rw [run_cons, hco, Option.some_bind, run_cons, hflush]; rfl, ?_⟩
  -- the written batch waits for one reply per command
  have hx₂ : Exact (writeFirst c.batchSize c).flush :=
    step_exact (step_exact hx (by simp [paced, hq]) hco) (show paced _ .flush = true from rfl) rfl
  have hpos₂ := step_pos
    (step_pos hpos (show expectsReplies .coalesceRequests = true from rfl) hco)
    (show expectsReplies .flush = true from rfl) hflush
  have hw₂ : Waiting (writeFirst c.batchSize c).flush.reqs := fun e he _ =>
    (hx₂.counts e he).pos (hpos₂ e he)
  have hN : expectedReplies (writeFirst c.batchSize c).flush.reqs = ts.length := by
    rw [hx₂.expected_eq, hlen]
    simp [flush, writeFirst, hq]
  rw [run_reads ts ht hw₂ hN, hlen]
  have hf := (filter_writeFirst hu c.batchSize).2
  simp only [flush, writeFirst] at hf ⊢
  rw [hf, Nat.add_sub_cancel, ← hb]

theorem batch_completes {t : Resp3.DataType} (ht : t ≠ .push) :
    let k := if c.cfg.coalesceRequests then c.reqs.length else 1
    run c (.coalesceRequests :: .flush ::
        List.replicate ((c.reqs.take k).map (·.req.size)).sum (.read t)) =
      some { c with reqs := c.reqs.drop k } := by
  intro k
  obtain ⟨c₂, h₁, h₂⟩ := run_batch h0 has h hq hb hne (List.replicate _ t)
    (fun t' h' => List.eq_of_mem_replicate h' ▸ ht) (List.length_replicate _ _)
  rw [List.map_replicate] at h₂
  rw [show Action.coalesceRequests :: .flush :: List.replicate _ (.read t) =
    [.coalesceRequests, .flush] ++ List.replicate _ (.read t) from rfl, run_append, h₁]
  exact h₂

end Batch

theorem batch_completes_two_pings :
    let c := (runWhen paced (init {})
      [.addRequestInfo 0 pingRequest, .addRequestInfo 1 pingRequest]).getD (init {})
    c.cmds = 0 ∧ c.reqs.length = 2 ∧
      run c [.coalesceRequests, .flush, .read .simpleString, .read .simpleString] =
        some { c with reqs := [] } := by
  intro c
  have h : runWhen paced (init {})
      [.addRequestInfo 0 pingRequest, .addRequestInfo 1 pingRequest] = some c := rfl
  exact ⟨rfl, rfl,
    batch_completes (init_fresh {}) (by decide) h rfl rfl (by decide) (by decide)⟩

end Aedis.Machine
