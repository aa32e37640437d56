import Aedis.Machine.Dispatch
import Aedis.Machine.Writes

namespace Aedis.Machine

open Connection

variable {c c' : Connection} {a : Action} {as : List Action} {l : List ReqInfo} {L : Nat}

/-- The replies a step adds to `cmds_` that no entry will take. -/
def lost (c : Connection) : Action → Nat
  | .coalesceRequests => (((c.reqs.take c.batchSize).filter (·.written)).map (·.req.size)).sum
  | .cancel .exec => expectedReplies c.reqs
  | .cancel .run => expectedReplies (c.reqs.filter (·.req.closeOnRunCompletion))
  | _ => 0

theorem expectedReplies_filter_add (p : ReqInfo → Bool) (l : List ReqInfo) :
    expectedReplies (l.filter p) + expectedReplies (l.filter (!p ·)) = expectedReplies l := by
  induction l with
  | nil => rfl
  | cons e l ih => cases hp : p e <;> simp [List.filter_cons, hp, ← ih] <;> omega

theorem expectedReplies_add_size (hl : CountsOk l) :
    expectedReplies l + (l.map (·.req.size)).sum =
      (l.map (·.cmds)).sum + ((l.filter (·.written)).map (·.req.size)).sum := by
  induction l with
  | nil => rfl
  | cons e l ih =>
    have hl' := ih fun e' he' => hl e' (List.mem_cons_of_mem _ he')
    cases hw : e.written
    · have := (hl e (List.mem_cons_self _ _)).unwritten hw
      simp [List.filter_cons, hw, ReqInfo.expected, this] at hl' ⊢
      omega
    · simp [List.filter_cons, hw, ReqInfo.expected] at hl' ⊢
      omega

/-- `cmds_` against the replies the queue waits for: `L` more. -/
structure Ledger (L : Nat) (c : Connection) : Prop where
  counts : CountsOk c.reqs
  cmds_eq : c.cmds = expectedReplies c.reqs + L

theorem Ledger.step (hc : Ledger L c) (h : Machine.step c a = some c') :
    Ledger (L + lost c a) c' := by
  refine ⟨step_countsOk hc.counts h, ?_⟩
  have heq := hc.cmds_eq
  cases a with
  | addRequestInfo id req =>
    cases h; simpa [addRequestInfo, ReqInfo.fresh, ReqInfo.expected, lost] using heq
  | coalesceRequests =>
    obtain ⟨-, -, -, rfl⟩ := step_coalesceRequests h
    have hb := @expectedReplies_add_size (c.reqs.take c.batchSize) fun e he =>
      hc.counts e (List.mem_of_mem_take he)
    have := expectedReplies_take_add_drop c.reqs c.batchSize
    rw [expectedReplies_writeFirst]
    simp only [writeFirst, lost]
    omega
  | flush => cases h; exact heq
  | read t =>
    rcases step_read h with ⟨-, rfl⟩ | ⟨-, reqs, hd, rfl⟩
    · exact heq
    · have := deliver_expectedReplies hd
      simp only [lost]
      omega
  | cancel op =>
    cases op <;> cases h
    · simp [cancel, lost]
      omega
    · have := expectedReplies_filter_add (·.req.closeOnRunCompletion) c.reqs
      simp only [cancel, stablePartition, lost]
      omega
    · exact heq
    · exact heq
  | cancelPushRequests =>
    cases h
    rw [show c.cancelPushRequests.conn.reqs = c.reqs.filter _ from rfl,
      expectedReplies_filter fun e he hp => ?_]
    · exact heq
    simp only [Bool.not_eq_false', Bool.and_eq_true, beq_iff_eq] at hp
    have := (hc.counts e he).le_size
    simp only [ReqInfo.expected, hp.1, if_true]
    omega

def lostAlong (c : Connection) (as : List Action) : Nat :=
  (emitted (fun c a => [lost c a]) (fun _ _ => true) c as).sum

theorem Ledger.run_cmds :
    ∀ {as : List Action} {L : Nat} {c c' : Connection}, Ledger L c → run c as = some c' →
      c'.cmds = expectedReplies c'.reqs + L + lostAlong c as
  | [], _, _, _, hc, h => by cases h; simp [lostAlong, emitted, hc.cmds_eq]
  | a :: as, L, c, c', hc, h => by
    obtain ⟨c₁, h₁, h₂⟩ := Option.bind_eq_some.1 (run_cons ▸ h)
    have := (hc.step h₁).run_cmds h₂
    simp only [lostAlong, emitted, if_true, h₁, List.singleton_append, List.sum_cons] at this ⊢
    rw [this]
    omega

theorem Ledger.fresh (h0 : c.Fresh) : Ledger 0 c :=
  ⟨(accounting_fresh h0).counts, by simp [h0.1, h0.2.2]⟩

theorem cmds_eq_expectedReplies_add_lost (h0 : c.Fresh) (h : run c as = some c') :
    c'.cmds = expectedReplies c'.reqs + lostAlong c as := by
  simpa using (Ledger.fresh h0).run_cmds h

theorem cmds_eq_expectedReplies_add_lost_rewrite :
    let as := [Action.addRequestInfo 0 pingRequest, .coalesceRequests, .flush,
      .addRequestInfo 1 pingRequest, .coalesceRequests]
    let c' := (run (init {}) as).getD (init {})
    lostAlong (init {}) as = 1 ∧ c'.cmds = expectedReplies c'.reqs + lostAlong (init {}) as := by
  intro as c'
  have h : run (init {}) as = some c' := rfl
  exact ⟨rfl, cmds_eq_expectedReplies_add_lost (init_fresh {}) h⟩

theorem step_cmds_add (hc : Accounting c) (h : Machine.step c a = some c') :
    c'.cmds + (replyTarget c a).toList.length =
      c.cmds + ((writtenBy c a).map (·.req.size)).sum := by
  cases a with
  | addRequestInfo id req => cases h; rfl
  | coalesceRequests => obtain ⟨-, -, -, rfl⟩ := step_coalesceRequests h; rfl
  | flush => cases h; rfl
  | read t =>
    by_cases ht : t = .push
    · obtain rfl := ((step_read h).resolve_right fun h' => h'.1 ht).2
      simp [replyTarget, ht, writtenBy]
    obtain ⟨_, _, _, -, -, -, -, -, htarget⟩ := step_read_reply h ht
    obtain ⟨reqs, hd, rfl⟩ := ((step_read h).resolve_left fun h' => ht h'.1).2
    have := deliver_expectedReplies hd
    have := hc.expected_le
    simp only [htarget, Option.toList_some, List.length_singleton, writtenBy, List.map_nil,
      List.sum_nil]
    omega
  | cancel op => cases h; simp [replyTarget, writtenBy]
  | cancelPushRequests => cases h; simp [replyTarget, writtenBy]

theorem run_cmds_add :
    ∀ {as : List Action} {c c' : Connection}, Accounting c → run c as = some c' →
      c'.cmds + (replies c as).length =
        c.cmds + ((writes (fun _ _ => true) c as).map (·.req.size)).sum
  | [], _, _, _, h => by cases h; rfl
  | a :: as, c, c', hc, h => by
    obtain ⟨c₁, h₁, h₂⟩ := Option.bind_eq_some.1 (run_cons ▸ h)
    have hs := step_cmds_add hc h₁
    have ih := run_cmds_add (step_accounting hc h₁) h₂
    simp only [replies, repliesWhen, writes, emitted, if_true, h₁, List.length_append,
      List.map_append, List.sum_append] at ih hs ⊢
    omega

theorem lost_eq_zero_of_paced (hc : Exact c) (hp : paced c a = true) : lost c a = 0 := by
  cases a with
  | coalesceRequests =>
    have h0 : c.cmds = 0 := by simpa [paced] using hp
    refine List.sum_eq_zero fun n hn => ?_
    obtain ⟨e, he, rfl⟩ := List.mem_map.1 hn
    obtain ⟨he, hw⟩ := List.mem_filter.1 he
    have he' := List.mem_of_mem_take he
    exact (hc.counts e he').size_eq_zero hw
      (List.sum_eq_zero_iff.1 (hc.expected_eq.trans h0) _ (List.mem_map_of_mem _ he'))
  | cancel op => cases op <;> first | rfl | simp [paced] at hp
  | _ => rfl

theorem lostAlong_eq_zero_of_paced :
    ∀ {as : List Action} {c c' : Connection}, Exact c → runWhen paced c as = some c' →
      lostAlong c as = 0
  | [], _, _, _, _ => rfl
  | a :: as, c, c', hc, h => by
    simp only [runWhen] at h
    split at h
    next hp =>
      obtain ⟨c₁, h₁, h₂⟩ := Option.bind_eq_some.1 h
      have := lostAlong_eq_zero_of_paced (step_exact hc hp h₁) h₂
      simp only [lostAlong, emitted, if_true, h₁, List.singleton_append, List.sum_cons] at this ⊢
      rw [lost_eq_zero_of_paced hc hp, this]
    next => cases h

theorem replies_add_expectedReplies_add_lost (h0 : c.Fresh) (h : run c as = some c') :
    (replies c as).length + expectedReplies c'.reqs + lostAlong c as =
        ((writes (fun _ _ => true) c as).map (·.req.size)).sum ∧
      (runWhen paced c as = some c' →
        lostAlong c as = 0 ∧
          (replies c as).length + expectedReplies c'.reqs =
            ((writes (fun _ _ => true) c as).map (·.req.size)).sum) := by
  have h₁ := run_cmds_add (accounting_fresh h0) h
  have h₂ := (Ledger.fresh h0).run_cmds h
  rw [h0.2.2] at h₁
  refine ⟨by omega, fun hp => ?_⟩
  have hl := lostAlong_eq_zero_of_paced (exact_fresh h0) hp
  exact ⟨hl, by omega⟩

theorem replies_add_expectedReplies_add_lost_paced :
    let as := [Action.addRequestInfo 0 pingRequest, .coalesceRequests, .flush, .read .simpleString,
      .addRequestInfo 1 pingRequest, .coalesceRequests]
    let c' := (run (init {}) as).getD (init {})
    runWhen paced (init {}) as = some c' ∧
      (replies (init {}) as).length = 1 ∧ expectedReplies c'.reqs = 1 ∧
      ((replies (init {}) as).length + expectedReplies c'.reqs + lostAlong (init {}) as =
          ((writes (fun _ _ => true) (init {}) as).map (·.req.size)).sum ∧
        (runWhen paced (init {}) as = some c' →
          lostAlong (init {}) as = 0 ∧
            (replies (init {}) as).length + expectedReplies c'.reqs =
              ((writes (fun _ _ => true) (init {}) as).map (·.req.size)).sum)) := by
  intro as c'
  have h : run (init {}) as = some c' := rfl
  exact ⟨rfl, rfl, rfl, replies_add_expectedReplies_add_lost (init_fresh {}) h⟩

end Aedis.Machine
