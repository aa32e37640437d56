import Aedis.Machine.Dispatch
import Aedis.Machine.Writes

namespace Aedis.Machine

open Connection

variable {c c' : Connection} {a : Action} {as : List Action} {R : List Nat} {W : List ReqInfo}

def owners (count : ReqInfo → Nat) (es : List ReqInfo) : List Nat :=
  es.flatMap fun e => List.replicate (count e) e.id

@[simp] theorem owners_append (count : ReqInfo → Nat) (es es' : List ReqInfo) :
    owners count (es ++ es') = owners count es ++ owners count es' :=
  List.flatMap_append _ _ _

/-- The replies so far, `R`, then the replies the written entries of the queue still wait for,
are one per command of the entries written so far, `W`, in order. -/
structure RouteInv (R : List Nat) (W : List ReqInfo) (c : Connection) : Prop where
  exact : Exact c
  pos : ∀ e ∈ c.reqs, 0 < e.req.size
  routed : R ++ owners (·.cmds) (c.reqs.filter (·.written)) = owners (·.req.size) W

theorem RouteInv.step (hc : RouteInv R W c) (hp : paced c a) (ha : expectsReplies a)
    (h : step c a = some c') :
    RouteInv (R ++ (replyTarget c a).toList) (W ++ writtenBy c a) c' := by
  refine ⟨step_exact hc.exact hp h, step_pos hc.pos ha h, ?_⟩
  have hcmds : ∀ e ∈ c.reqs, 0 < e.cmds := fun e he => (hc.exact.counts e he).pos (hc.pos e he)
  -- the steps that send no reply, write nothing and leave the written entries alone
  have same : c'.reqs.filter (·.written) = c.reqs.filter (·.written) →
      replyTarget c a = none → writtenBy c a = [] →
      R ++ (replyTarget c a).toList ++ owners (·.cmds) (c'.reqs.filter (·.written)) =
        owners (·.req.size) (W ++ writtenBy c a) := fun hr ht hw => by
    rw [hr, ht, hw, Option.toList_none, List.append_nil, List.append_nil, hc.routed]
  cases a with
  | addRequestInfo id req =>
    cases h
    exact same (by simp [addRequestInfo, List.filter_append, ReqInfo.fresh]) rfl rfl
  | coalesceRequests =>
    obtain ⟨-, -, -, rfl⟩ := step_coalesceRequests h
    have h0 : c.cmds = 0 := by simpa [paced] using hp
    have hu := hc.exact.unwritten hc.pos h0
    have hnone : c.reqs.filter (·.written) = [] :=
      List.filter_eq_nil_iff.2 fun e he => by simp [hu e he]
    have hsize : owners (·.cmds) ((c.reqs.take c.batchSize).map markWritten) =
        owners (·.req.size) (c.reqs.take c.batchSize) := by
      simp only [owners, List.flatMap_map]
      refine List.flatMap_congr fun e he => ?_
      rw [show (markWritten e).cmds = e.req.size from
        hc.exact.cmds_eq_size h0 e (List.mem_of_mem_take he)]
      rfl
    have hR := hc.routed
    rw [hnone, owners, List.flatMap_nil, List.append_nil] at hR
    rw [show replyTarget c .coalesceRequests = none from rfl, Option.toList_none, List.append_nil,
      (filter_writeFirst hu _).1, hsize, hR,
      show writtenBy c .coalesceRequests = c.reqs.take c.batchSize from rfl, owners_append]
  | flush => cases h; exact same rfl rfl rfl
  | read t =>
    by_cases ht : t = .push
    · obtain rfl := ((step_read h).resolve_right fun h' => h'.1 ht).2
      exact same rfl (by simp [replyTarget, ht]) rfl
    obtain ⟨ws, z, us, hl, hws, hzw, hzc, hreqs, htarget⟩ := step_read_reply h ht
    -- every entry waits for a reply, so the ones in front of `z` are not written
    have hfront : ws.filter (·.written) = [] := List.filter_eq_nil_iff.2 fun w hw hww =>
      hws w hw ⟨hww, hcmds w (hl ▸ List.mem_append_left _ hw)⟩
    have hR := hc.routed
    rw [hl, List.filter_append, hfront, List.nil_append, List.filter_cons_of_pos hzw] at hR
    obtain ⟨k, hk⟩ : ∃ k, z.cmds = k + 1 := ⟨z.cmds - 1, by omega⟩
    rw [htarget, Option.toList_some, hreqs, List.filter_append, hfront, List.nil_append,
      show writtenBy c (.read t) = [] from rfl, List.append_nil, ← hR]
    split <;> simp_all [owners, List.filter_cons, List.replicate_succ]
  | cancel op =>
    cases op
    case exec | run => simp [paced] at hp
    all_goals cases h; exact same rfl rfl rfl
  | cancelPushRequests =>
    cases h
    refine same ?_ rfl rfl
    simp only [cancelPushRequests, stablePartition, List.filter_filter]
    exact List.filter_congr fun e he => by simp [(hc.pos e he).ne']

theorem RouteInv.routed_run :
    ∀ {as : List Action} {R : List Nat} {W : List ReqInfo} {c : Connection},
    RouteInv R W c → (∀ a ∈ as, expectsReplies a) →
    R ++ repliesWhen paced c as <+: owners (·.req.size) (W ++ writes paced c as)
  | [], R, W, c, hc, _ => by
    simp only [repliesWhen, writes, emitted, List.append_nil]
    rw [← hc.routed]; exact List.prefix_append _ _
  | a :: as, R, W, c, hc, ha => by
    have hpre : R <+: owners (·.req.size) W := by rw [← hc.routed]; exact List.prefix_append _ _
    simp only [repliesWhen, writes, emitted]
    by_cases hp : paced c a
    · simp only [hp, if_true]
      cases h : Machine.step c a with
      | none => simpa using hpre
      | some c' =>
        have := (hc.step hp (ha a (List.mem_cons_self _ _)) h).routed_run
          fun a' h' => ha a' (List.mem_cons_of_mem _ h')
        simpa [repliesWhen, writes, List.append_assoc] using this
    · simpa [hp] using hpre

theorem replies_routed (h0 : c.Fresh) (has : ∀ a ∈ as, expectsReplies a) :
    repliesWhen paced c as <+: owners (·.req.size) (writes paced c as) := by
  have hinv : RouteInv [] [] c := ⟨exact_fresh h0, by simp [h0.1], by simp [h0.1, owners]⟩
  simpa using hinv.routed_run has

theorem replies_routed_hello_priority :
    let as := [Action.addRequestInfo 0 helloPriorityReq1.req, .coalesceRequests, .flush,
      .addRequestInfo 2 helloPriorityReq3.req, .read .simpleString, .coalesceRequests, .flush,
      .read .simpleString, .read .simpleString]
    repliesWhen paced (init {}) as = [0, 2, 2] ∧
      repliesWhen paced (init {}) as <+: owners (·.req.size) (writes paced (init {}) as) :=
  ⟨rfl, replies_routed (init_fresh {}) (by decide)⟩

end Aedis.Machine
