import Mathlib.Algebra.Order.BigOperators.Group.List
import Aedis.Machine.Step

namespace Aedis.Machine

open Connection

variable {c c' : Connection} {a : Action} {as : List Action} {l l' : List ReqInfo}
  {e : ReqInfo} {n : Nat}

/-- The count an entry can carry: at most its request's size, all of it while the entry is
unwritten, and never zero while a reply is still due. -/
structure CountOk (e : ReqInfo) : Prop where
  le_size : e.cmds ≤ e.req.size
  unwritten : e.written = false → e.cmds = e.req.size
  pos : 0 < e.req.size → 0 < e.cmds

def CountsOk (reqs : List ReqInfo) : Prop := ∀ e ∈ reqs, CountOk e

theorem countOk_fresh (id : Nat) (req : Request) : CountOk (.fresh id req) :=
  ⟨le_rfl, fun _ => rfl, fun h => h⟩

theorem CountOk.markWritten (h : CountOk e) : CountOk (markWritten e) :=
  ⟨h.le_size, (fun hw => by cases hw), h.pos⟩

theorem CountOk.pred (h : CountOk e) (hw : e.written = true) (hc : 1 < e.cmds) :
    CountOk { e with cmds := e.cmds - 1 } :=
  ⟨by have := h.le_size; dsimp only; omega, fun h' => by simp [hw] at h', fun _ => by
    dsimp only; omega⟩

theorem CountOk.size_eq_zero (h : CountOk e) (hw : e.written = true) (he : e.expected = 0) :
    e.req.size = 0 := by
  simp only [ReqInfo.expected, hw, if_true] at he
  exact Nat.eq_zero_of_not_pos fun hs => (h.pos hs).ne' he

theorem step_countsOk (hc : CountsOk c.reqs) (h : step c a = some c') : CountsOk c'.reqs := by
  cases a with
  | addRequestInfo id req =>
    cases h
    intro e he
    rcases List.mem_append.1 he with he | he
    · exact hc e he
    · rw [List.mem_singleton.1 he]; exact countOk_fresh id req
  | coalesceRequests =>
    obtain ⟨-, -, -, rfl⟩ := step_coalesceRequests h
    simp only [CountsOk, writeFirst, List.forall_mem_append, List.forall_mem_map]
    exact ⟨fun e he => (hc e (List.mem_of_mem_take he)).markWritten,
      fun e he => hc e (List.mem_of_mem_drop he)⟩
  | flush => cases h; exact hc
  | read t =>
    rcases step_read h with ⟨-, rfl⟩ | ⟨-, reqs, hd, rfl⟩
    · exact hc
    obtain ⟨ws, e, us, hl, -, hw, hpos, rfl⟩ := deliver_cases hd
    simp only [CountsOk, hl, List.forall_mem_append, List.forall_mem_cons] at hc ⊢
    refine ⟨hc.1, ?_⟩
    split
    · exact hc.2.2
    · exact List.forall_mem_cons.2 ⟨hc.2.1.pred hw (by omega), hc.2.2⟩
  | cancel op => cases h; exact fun e he => hc e ((cancel_reqs_sublist op).subset he)
  | cancelPushRequests => cases h; exact fun e he => hc e (cancelPushRequests_reqs_sublist.subset he)

theorem expectedReplies_le_of_sublist (h : l'.Sublist l) :
    expectedReplies l' ≤ expectedReplies l :=
  (h.map _).sum_le_sum fun _ _ => Nat.zero_le _

theorem expectedReplies_writeFirst :
    expectedReplies (writeFirst n c).reqs =
      ((c.reqs.take n).map (·.cmds)).sum + expectedReplies (c.reqs.drop n) := by
  simp [writeFirst, expectedReplies, ReqInfo.expected, markWritten, Function.comp_def]

theorem expectedReplies_take_add_drop (l : List ReqInfo) (n : Nat) :
    expectedReplies (l.take n) + expectedReplies (l.drop n) = expectedReplies l := by
  rw [← expectedReplies_append, List.take_append_drop]

/-- `cmds_` covers the replies the written entries wait for. -/
structure Accounting (c : Connection) : Prop where
  counts : CountsOk c.reqs
  expected_le : expectedReplies c.reqs ≤ c.cmds

theorem step_accounting (hc : Accounting c) (h : step c a = some c') : Accounting c' := by
  refine ⟨step_countsOk hc.counts h, ?_⟩
  have hle := hc.expected_le
  cases a with
  | addRequestInfo id req =>
    cases h; simpa [addRequestInfo, ReqInfo.fresh, ReqInfo.expected] using hle
  | coalesceRequests =>
    obtain ⟨-, -, -, rfl⟩ := step_coalesceRequests h
    have hsum : ((c.reqs.take c.batchSize).map (·.cmds)).sum ≤
        ((c.reqs.take c.batchSize).map (·.req.size)).sum :=
      List.sum_le_sum fun e he => (hc.counts e (List.mem_of_mem_take he)).le_size
    have := expectedReplies_take_add_drop c.reqs c.batchSize
    rw [expectedReplies_writeFirst]
    simp only [writeFirst]
    omega
  | flush => cases h; exact hle
  | read t =>
    rcases step_read h with ⟨-, rfl⟩ | ⟨-, reqs, hd, rfl⟩
    · exact hle
    · have := deliver_expectedReplies hd
      simp only
      omega
  | cancel op =>
    cases h; simpa using (expectedReplies_le_of_sublist (cancel_reqs_sublist op)).trans hle
  | cancelPushRequests =>
    cases h; exact (expectedReplies_le_of_sublist cancelPushRequests_reqs_sublist).trans hle

theorem accounting_fresh (h0 : c.Fresh) : Accounting c := by
  obtain ⟨hr, -, hc⟩ := h0
  exact ⟨by simp [CountsOk, hr], by simp [hr, hc]⟩

theorem expectedReplies_le_cmds (h0 : c.Fresh) (h : run c as = some c') :
    expectedReplies c'.reqs ≤ c'.cmds ∧ ∀ reqs, deliver c'.reqs = some reqs → 0 < c'.cmds := by
  have hc := run_invariant step_accounting (accounting_fresh h0) h
  refine ⟨hc.expected_le, fun reqs hd => ?_⟩
  have := deliver_expectedReplies hd
  have := hc.expected_le
  omega

def pingRequest : Request := ⟨"*1\r\n$4\r\nPING\r\n", 1, ["PING"], true, false, false⟩

theorem cmds_ne_expectedReplies :
    (run (init {}) [.addRequestInfo 0 pingRequest, .coalesceRequests, .cancel .exec]).map
        (fun c => (c.cmds, expectedReplies c.reqs)) = some (1, 0) ∧
      (run (init {}) [.addRequestInfo 0 pingRequest, .coalesceRequests, .flush,
        .addRequestInfo 1 pingRequest, .coalesceRequests]).map
        (fun c => (c.cmds, expectedReplies c.reqs)) = some (3, 2) :=
  ⟨rfl, rfl⟩

theorem expectedReplies_le_cmds_ping :
    let as := [Action.addRequestInfo 0 pingRequest, .coalesceRequests, .cancel .exec]
    let c' := (run (init {}) as).getD (init {})
    expectedReplies c'.reqs ≤ c'.cmds ∧ ∀ reqs, deliver c'.reqs = some reqs → 0 < c'.cmds := by
  intro as c'
  exact expectedReplies_le_cmds (init_fresh {}) (rfl : run (init {}) as = some c')

/-- The schedule the connection keeps while neither `exec` nor `run` is cancelled: the writer
coalesces only when no reply is outstanding, which is when `add_request_info` and the reader
wake it. -/
def paced (c : Connection) : Action → Bool
  | .coalesceRequests => c.cmds == 0
  | .cancel .exec | .cancel .run => false
  | _ => true

/-- `cmds_` counts exactly the replies the written entries wait for. -/
structure Exact (c : Connection) : Prop where
  counts : CountsOk c.reqs
  expected_eq : expectedReplies c.reqs = c.cmds

theorem expectedReplies_filter {p : ReqInfo → Bool} (h : ∀ e ∈ l, p e = false → e.expected = 0) :
    expectedReplies (l.filter p) = expectedReplies l := by
  induction l with
  | nil => rfl
  | cons e l ih =>
    rw [List.forall_mem_cons] at h
    cases hp : p e <;> simp [List.filter_cons, hp, ih h.2, h.1]

theorem Exact.cmds_eq_size (hc : Exact c) (h0 : c.cmds = 0) : ∀ e ∈ c.reqs, e.cmds = e.req.size := by
  intro e he
  have ok := hc.counts e he
  cases hw : e.written
  · exact ok.unwritten hw
  · have hz : e.expected = 0 :=
      List.sum_eq_zero_iff.1 (hc.expected_eq.trans h0) _ (List.mem_map_of_mem _ he)
    rw [ok.size_eq_zero hw hz]
    simpa [ReqInfo.expected, hw] using hz

theorem step_exact (hc : Exact c) (hp : paced c a) (h : step c a = some c') : Exact c' := by
  refine ⟨step_countsOk hc.counts h, ?_⟩
  have heq := hc.expected_eq
  cases a with
  | addRequestInfo id req =>
    cases h; simpa [addRequestInfo, ReqInfo.fresh, ReqInfo.expected] using heq
  | coalesceRequests =>
    obtain ⟨-, -, -, rfl⟩ := step_coalesceRequests h
    have h0 : c.cmds = 0 := by simpa [paced] using hp
    have := expectedReplies_take_add_drop c.reqs c.batchSize
    rw [expectedReplies_writeFirst,
      List.map_congr_left fun e he => hc.cmds_eq_size h0 e (List.mem_of_mem_take he)]
    simp only [writeFirst]
    omega
  | flush => cases h; exact heq
  | read t =>
    rcases step_read h with ⟨-, rfl⟩ | ⟨-, reqs, hd, rfl⟩
    · exact heq
    · have := deliver_expectedReplies hd
      simp only
      omega
  | cancel op =>
    cases op
    case exec | run => simp [paced] at hp
    all_goals cases h; exact heq
  | cancelPushRequests =>
    cases h
    refine (expectedReplies_filter fun e he hp => ?_).trans heq
    simp only [Bool.not_eq_false', Bool.and_eq_true, beq_iff_eq] at hp
    have := (hc.counts e he).le_size
    simp only [ReqInfo.expected, hp.1, if_true]
    omega

theorem exact_fresh (h0 : c.Fresh) : Exact c := by
  obtain ⟨hr, -, hc⟩ := h0
  exact ⟨by simp [CountsOk, hr], by simp [hr, hc]⟩

theorem expectedReplies_eq_cmds_of_paced (h0 : c.Fresh) (h : runWhen paced c as = some c') :
    expectedReplies c'.reqs = c'.cmds :=
  (runWhen_invariant step_exact (exact_fresh h0) h).expected_eq

theorem expectedReplies_eq_cmds_of_paced_ping :
    let as := [Action.addRequestInfo 0 pingRequest, .coalesceRequests, .flush,
      .addRequestInfo 1 pingRequest, .read .simpleString, .coalesceRequests]
    let c' := (runWhen paced (init {}) as).getD (init {})
    expectedReplies c'.reqs = c'.cmds := by
  intro as c'
  exact expectedReplies_eq_cmds_of_paced (init_fresh {}) (rfl : runWhen paced (init {}) as = some c')

theorem written_size_eq_zero_of_paced (h0 : c.Fresh) (h : runWhen paced c as = some c')
    (hz : c'.cmds = 0) : ∀ e ∈ c'.reqs, e.written = true → e.req.size = 0 := by
  have hc := runWhen_invariant step_exact (exact_fresh h0) h
  intro e he hw
  exact (hc.counts e he).size_eq_zero hw
    (List.sum_eq_zero_iff.1 (hc.expected_eq.trans hz) _ (List.mem_map_of_mem _ he))

def subscribeRequest : Request :=
  ⟨"*2\r\n$9\r\nSUBSCRIBE\r\n$7\r\nchannel\r\n", 0, ["SUBSCRIBE"], true, false, false⟩

theorem written_size_eq_zero_of_paced_subscribe :
    let as := [Action.addRequestInfo 0 subscribeRequest, .coalesceRequests, .flush]
    let c' := (runWhen paced (init {}) as).getD (init {})
    c'.cmds = 0 ∧ ∀ e ∈ c'.reqs, e.written = true → e.req.size = 0 := by
  intro as c'
  have h : runWhen paced (init {}) as = some c' := rfl
  exact ⟨rfl, written_size_eq_zero_of_paced (init_fresh {}) h rfl⟩

end Aedis.Machine
