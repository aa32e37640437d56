import Aedis.Machine.Dispatch
import Aedis.Machine.Writes

namespace Aedis.Machine

open Connection

variable {c c' : Connection} {a : Action} {as : List Action} {l : List ReqInfo}

/-- Modelled from the spec: the entry a reply completes, which leaves the queue with its last
reply and whose `async_exec` is woken; none while the entry still waits for more. -/
def completes (l : List ReqInfo) : List ReqInfo :=
  ((l.find? fun e => e.written && 0 < e.cmds).filter (·.cmds == 1)).toList

def wokenBy (c : Connection) : Action → List ReqInfo
  | .read t => if t = .push then [] else completes c.reqs
  | .cancel op => (c.cancel op).woken
  | .cancelPushRequests => c.cancelPushRequests.woken
  | _ => []

theorem completes_append_cons {ws us : List ReqInfo} {z : ReqInfo}
    (hws : ∀ w ∈ ws, ¬(w.written = true ∧ 0 < w.cmds)) (hz : z.written = true) (hc : 0 < z.cmds) :
    completes (ws ++ z :: us) = if z.cmds = 1 then [z] else [] := by
  have hf : (ws ++ z :: us).find? (fun e => e.written && 0 < e.cmds) = some z := by
    rw [List.find?_append, List.find?_eq_none.2 (by simpa using hws)]
    simp [hz, hc]
  by_cases h1 : z.cmds = 1 <;> simp [completes, hf, h1, Option.filter]

theorem deliver_completes_perm {l' : List ReqInfo} (h : deliver l = some l') :
    ((completes l).map (·.id) ++ l'.map (·.id)).Perm (l.map (·.id)) := by
  obtain ⟨ws, e, us, rfl, hws, hw, hc, rfl⟩ := deliver_cases h
  rw [completes_append_cons hws hw hc]
  by_cases h1 : e.cmds = 1
  · simpa [h1] using List.perm_middle.symm
  · simp [h1]

theorem step_woken_perm (h : Machine.step c a = some c') :
    ((wokenBy c a).map (·.id) ++ c'.reqs.map (·.id)).Perm (c.reqs.map (·.id) ++ enqueued [a]) := by
  cases a with
  | addRequestInfo id req => cases h; simp [wokenBy, enqueued, addRequestInfo, ReqInfo.fresh]
  | coalesceRequests =>
    obtain ⟨-, -, -, rfl⟩ := step_coalesceRequests h
    simp only [wokenBy, writeFirst, List.map_append, List.map_map, enqueued, List.append_nil,
      List.map_nil, List.nil_append]
    have : (·.id) ∘ markWritten = (·.id) := rfl
    rw [this, ← List.map_append, List.take_append_drop]
  | flush => cases h; simp [wokenBy, enqueued, flush]
  | read t =>
    simp only [wokenBy, enqueued, List.append_nil]
    rcases step_read h with ⟨ht, rfl⟩ | ⟨ht, reqs, hd, rfl⟩
    · simp [ht]
    · simpa [ht] using deliver_completes_perm hd
  | cancel op =>
    cases h
    simp only [wokenBy, enqueued, List.append_nil, ← List.map_append]
    cases op
    · exact cancel_exec_removesExactly.perm setStop_id
    · exact cancel_run_removesExactly.perm setStop_id
    · exact List.Perm.refl _
    · exact List.Perm.refl _
  | cancelPushRequests =>
    cases h
    simp only [wokenBy, enqueued, List.append_nil, ← List.map_append]
    exact cancelPushRequests_removesExactly.perm fun _ => rfl

def wokenAlong (c : Connection) (as : List Action) : List ReqInfo :=
  emitted wokenBy (fun _ _ => true) c as

theorem run_woken_perm :
    ∀ {as : List Action} {c c' : Connection}, run c as = some c' →
      ((wokenAlong c as).map (·.id) ++ c'.reqs.map (·.id)).Perm (c.reqs.map (·.id) ++ enqueued as)
  | [], _, _, h => by cases h; simp [wokenAlong, emitted, enqueued]
  | a :: as, c, c', h => by
    obtain ⟨c₁, h₁, h₂⟩ := Option.bind_eq_some.1 (run_cons ▸ h)
    have hs := step_woken_perm h₁
    have ih := run_woken_perm h₂
    simp only [wokenAlong, emitted, if_true, h₁, List.map_append] at ih ⊢
    rw [enqueued_cons, ← List.append_assoc, List.append_assoc _ _ (c'.reqs.map _)]
    exact ((ih.append_left _).trans (by simpa using hs.append_right _))

theorem woken_add_queued_perm_enqueued (h0 : c.Fresh) (h : run c as = some c') :
    ((wokenAlong c as).map (·.id) ++ c'.reqs.map (·.id)).Perm (enqueued as) := by
  simpa [h0.1] using run_woken_perm h

theorem woken_add_queued_perm_enqueued_three :
    let as := [Action.addRequestInfo 0 pingRequest, .addRequestInfo 1 subscribeRequest,
      .addRequestInfo 2 pingRequest, .coalesceRequests, .flush, .read .simpleString,
      .cancelPushRequests, .cancel .exec]
    let c' := (run (init {}) as).getD (init {})
    (wokenAlong (init {}) as).map (·.id) = [0, 1, 2] ∧
      ((wokenAlong (init {}) as).map (·.id) ++ c'.reqs.map (·.id)).Perm (enqueued as) := by
  intro as c'
  have h : run (init {}) as = some c' := rfl
  exact ⟨rfl, woken_add_queued_perm_enqueued (init_fresh {}) h⟩

def aborts : Action → Bool
  | .cancel .exec | .cancel .run => true
  | _ => false

def wokenAborted (c : Connection) (as : List Action) : List (ReqInfo × Bool) :=
  emitted (fun c a => (wokenBy c a).map (·, aborts a)) (fun _ _ => true) c as

/-- No queued entry is stopped. -/
def Unstopped (l : List ReqInfo) : Prop := ∀ e ∈ l, e.stop = false

theorem Unstopped.filter (hl : Unstopped l) (p : ReqInfo → Bool) : Unstopped (l.filter p) :=
  fun e he => hl e (List.mem_of_mem_filter he)

theorem mem_of_mem_completes {e : ReqInfo} (he : e ∈ completes l) : e ∈ l := by
  cases hf : l.find? (fun e => e.written && 0 < e.cmds) with
  | none => simp [completes, hf] at he
  | some e' =>
    simp only [completes, hf, Option.filter] at he
    split at he <;> simp only [Option.toList, List.mem_singleton, List.not_mem_nil] at he
    exact he ▸ List.mem_of_find?_eq_some hf

theorem Unstopped.deliver {l' : List ReqInfo} (hl : Unstopped l) (h : deliver l = some l') :
    Unstopped l' := by
  obtain ⟨ws, z, us, rfl, -, -, -, rfl⟩ := deliver_cases h
  intro e he
  rcases List.mem_append.1 he with he | he
  · exact hl e (List.mem_append_left _ he)
  split at he
  · exact hl e (List.mem_append_right _ (List.mem_cons_of_mem _ he))
  rcases List.mem_cons.1 he with rfl | he
  · exact hl z (List.mem_append_right _ (List.mem_cons_self _ _))
  · exact hl e (List.mem_append_right _ (List.mem_cons_of_mem _ he))

theorem Unstopped.removesExactly {α : Type} {p : ReqInfo → Bool} {upd : ReqInfo → ReqInfo}
    {o : Outcome α} {b : Bool} (hc : Unstopped c.reqs) (h : RemovesExactly p upd c o)
    (hupd : ∀ e, e.stop = false → (upd e).stop = b) :
    Unstopped o.conn.reqs ∧ ∀ e ∈ o.woken, e.stop = b := by
  refine ⟨h.kept ▸ hc.filter _, fun e he => ?_⟩
  rw [h.woken] at he
  obtain ⟨e₀, he₀, rfl⟩ := List.mem_map.1 he
  exact hupd e₀ (hc e₀ (List.mem_of_mem_filter he₀))

theorem step_unstopped (hc : Unstopped c.reqs) (h : Machine.step c a = some c') :
    Unstopped c'.reqs ∧ ∀ e ∈ wokenBy c a, e.stop = aborts a := by
  cases a with
  | addRequestInfo id req =>
    cases h
    refine ⟨fun e he => ?_, fun _ => nofun⟩
    rcases List.mem_append.1 he with he | he
    · exact hc e he
    · rw [List.mem_singleton.1 he]; rfl
  | coalesceRequests =>
    obtain ⟨-, -, -, rfl⟩ := step_coalesceRequests h
    refine ⟨fun e he => ?_, fun _ => nofun⟩
    rcases List.mem_append.1 he with he | he
    · obtain ⟨e₀, he₀, rfl⟩ := List.mem_map.1 he
      exact hc e₀ (List.mem_of_mem_take he₀)
    · exact hc e (List.mem_of_mem_drop he)
  | flush => cases h; exact ⟨hc, fun _ => nofun⟩
  | read t =>
    rcases step_read h with ⟨ht, rfl⟩ | ⟨ht, reqs, hd, rfl⟩
    · exact ⟨hc, by simp [wokenBy, ht]⟩
    · simp only [wokenBy, ht, if_false, aborts]
      exact ⟨hc.deliver hd, fun e he => hc e (mem_of_mem_completes he)⟩
  | cancel op =>
    cases h
    cases op
    · exact hc.removesExactly cancel_exec_removesExactly fun _ _ => rfl
    · exact hc.removesExactly cancel_run_removesExactly fun _ _ => rfl
    · exact ⟨hc, fun _ => nofun⟩
    · exact ⟨hc, fun _ => nofun⟩
  | cancelPushRequests => cases h; exact hc.removesExactly cancelPushRequests_removesExactly fun _ h => h

theorem run_unstopped :
    ∀ {as : List Action} {c c' : Connection}, Unstopped c.reqs → run c as = some c' →
      Unstopped c'.reqs ∧ ∀ p ∈ wokenAborted c as, p.1.stop = p.2
  | [], _, _, hc, h => by cases h; exact ⟨hc, by simp [wokenAborted, emitted]⟩
  | a :: as, c, c', hc, h => by
    obtain ⟨c₁, h₁, h₂⟩ := Option.bind_eq_some.1 (run_cons ▸ h)
    obtain ⟨hc₁, hw⟩ := step_unstopped hc h₁
    obtain ⟨hc', ih⟩ := run_unstopped hc₁ h₂
    refine ⟨hc', fun p hp => ?_⟩
    simp only [wokenAborted, emitted, if_true, h₁, List.mem_append, List.mem_map] at hp ih
    rcases hp with ⟨e, he, rfl⟩ | hp
    · exact hw e he
    · exact ih p hp

theorem woken_stop_eq_aborts (h0 : c.Fresh) (h : run c as = some c') :
    (∀ e ∈ c'.reqs, e.stop = false) ∧ ∀ p ∈ wokenAborted c as, p.1.stop = p.2 :=
  run_unstopped (by simp [Unstopped, h0.1]) h

theorem woken_stop_eq_aborts_three :
    let as := [Action.addRequestInfo 0 pingRequest, .addRequestInfo 1 subscribeRequest,
      .addRequestInfo 2 pingRequest, .coalesceRequests, .flush, .read .simpleString,
      .cancelPushRequests, .cancel .exec]
    let c' := (run (init {}) as).getD (init {})
    (wokenAborted (init {}) as).map (fun p => (p.1.id, p.2)) = [(0, false), (1, false), (2, true)] ∧
      (∀ e ∈ c'.reqs, e.stop = false) ∧ ∀ p ∈ wokenAborted (init {}) as, p.1.stop = p.2 := by
  intro as c'
  have h : run (init {}) as = some c' := rfl
  exact ⟨rfl, woken_stop_eq_aborts (init_fresh {}) h⟩

section Tally

variable {R : List Nat} {W : List (ReqInfo × Bool)} {E : List Nat}

/-- The replies handed over so far, `R`, against the entries: a queued entry has been handed its
request's size less what it still waits for, and so has an entry `W` records as woken, less
nothing when it was not aborted; and every reply went to one of them. -/
structure Tally (R : List Nat) (W : List (ReqInfo × Bool)) (c : Connection) : Prop where
  queued : ∀ e ∈ c.reqs, R.count e.id + e.cmds = e.req.size
  woken : ∀ p ∈ W, R.count p.1.id + (if p.2 then p.1.cmds else 0) = p.1.req.size
  routed : ∀ i ∈ R, i ∈ W.map (·.1.id) ++ c.reqs.map (·.id)

/-- The ids of the entries woken, of those queued and of those still to enqueue are distinct. -/
def Distinct (W : List (ReqInfo × Bool)) (c : Connection) (E : List Nat) : Prop :=
  (W.map (·.1.id) ++ c.reqs.map (·.id) ++ E).Nodup

theorem mem_ids_of_replyTarget {i : Nat} (hi : i ∈ (replyTarget c a).toList) :
    i ∈ c.reqs.map (·.id) := by
  cases a
  case read t =>
    simp only [replyTarget] at hi
    split at hi
    · simp at hi
    obtain ⟨e, he, rfl⟩ : ∃ e, c.reqs.find? (fun e => e.written && 0 < e.cmds) = some e ∧ e.id = i := by
      simpa using hi
    exact List.mem_map_of_mem _ (List.mem_of_find?_eq_some he)
  all_goals simp [replyTarget] at hi

theorem Distinct.step (hd : Distinct W c (enqueued [a] ++ E)) (h : Machine.step c a = some c') :
    Distinct (W ++ (wokenBy c a).map (·, aborts a)) c' E := by
  have hp := (step_woken_perm h).append_right E |>.append_left (W.map (·.1.id))
  have := hp.nodup_iff.2 (by simpa [Distinct, List.append_assoc] using hd)
  simpa [Distinct, Function.comp_def, List.append_assoc] using this

theorem Tally.removesExactly {α : Type} {p : ReqInfo → Bool} {upd : ReqInfo → ReqInfo}
    {o : Outcome α} {b : Bool} (ht : Tally R W c) (h : RemovesExactly p upd c o)
    (hupd : ∀ e ∈ c.reqs, p e = true →
      R.count (upd e).id + (if b then (upd e).cmds else 0) = (upd e).req.size) :
    (∀ e ∈ o.conn.reqs, R.count e.id + e.cmds = e.req.size) ∧
      ∀ q ∈ W ++ o.woken.map (·, b), R.count q.1.id + (if q.2 then q.1.cmds else 0) = q.1.req.size := by
  refine ⟨fun e he => ht.queued e (List.mem_of_mem_filter (h.kept ▸ he)), fun q hq => ?_⟩
  rcases List.mem_append.1 hq with hq | hq
  · exact ht.woken q hq
  rw [h.woken, List.map_map] at hq
  obtain ⟨e, he, rfl⟩ := List.mem_map.1 hq
  obtain ⟨he, hpe⟩ := List.mem_filter.1 he
  exact hupd e he hpe

theorem Tally.reply {ws us : List ReqInfo} {z : ReqInfo} (ht : Tally R W c)
    (hl : c.reqs = ws ++ z :: us) (hids : (W.map (·.1.id) ++ c.reqs.map (·.id)).Nodup)
    (hzc : 0 < z.cmds) :
    (∀ e ∈ ws ++ (if z.cmds = 1 then us else { z with cmds := z.cmds - 1 } :: us),
        (R ++ [z.id]).count e.id + e.cmds = e.req.size) ∧
      ∀ q ∈ W ++ (if z.cmds = 1 then [z] else []).map (·, false),
        (R ++ [z.id]).count q.1.id + (if q.2 then q.1.cmds else 0) = q.1.req.size := by
  rw [hl, List.map_append, List.map_cons] at hids
  obtain ⟨-, hcn, hdisj⟩ := List.nodup_append.1 hids
  obtain ⟨⟨hzws, hzus⟩, -⟩ := by simpa using List.nodup_middle.1 hcn
  have hother : ∀ {i}, i ≠ z.id → (R ++ [z.id]).count i = R.count i := fun hi => by
    simp [List.count_append, List.count_singleton, Ne.symm hi]
  have hself : (R ++ [z.id]).count z.id = R.count z.id + 1 := by simp [List.count_append]
  have hz := ht.queued z (hl ▸ List.mem_append_right _ (List.mem_cons_self _ _))
  have hold : ∀ e ∈ ws ++ us, (R ++ [z.id]).count e.id + e.cmds = e.req.size := fun e he => by
    rw [hother ((List.mem_append.1 he).elim (hzws e) (hzus e))]
    exact ht.queued e (hl ▸ List.mem_append.2 ((List.mem_append.1 he).imp id (List.mem_cons_of_mem _)))
  refine ⟨fun e he => ?_, fun q hq => ?_⟩
  · rcases List.mem_append.1 he with he | he
    · exact hold e (List.mem_append_left _ he)
    split at he
    · exact hold e (List.mem_append_right _ he)
    rcases List.mem_cons.1 he with rfl | he
    · show (R ++ [z.id]).count z.id + (z.cmds - 1) = z.req.size
      omega
    · exact hold e (List.mem_append_right _ he)
  · rcases List.mem_append.1 hq with hq | hq
    · rw [hother fun hze => hdisj (List.mem_map_of_mem (fun p : ReqInfo × Bool => p.1.id) hq)
        (by simp [hze])]
      exact ht.woken q hq
    split at hq
    next h1 =>
      obtain rfl := List.mem_singleton.1 hq
      show (R ++ [z.id]).count z.id + 0 = z.req.size
      omega
    · simp at hq

theorem Tally.step (ht : Tally R W c) (hd : Distinct W c (enqueued [a]))
    (h : Machine.step c a = some c') :
    Tally (R ++ (replyTarget c a).toList) (W ++ (wokenBy c a).map (·, aborts a)) c' := by
  have hp := step_woken_perm h
  have hrouted : ∀ i ∈ R ++ (replyTarget c a).toList,
      i ∈ (W ++ (wokenBy c a).map (·, aborts a)).map (·.1.id) ++ c'.reqs.map (·.id) := by
    intro i hi
    have : i ∈ W.map (·.1.id) ++ c.reqs.map (·.id) :=
      (List.mem_append.1 hi).elim (ht.routed i) fun hi => List.mem_append_right _ (mem_ids_of_replyTarget hi)
    simp only [List.map_append, List.map_map, Function.comp_def, List.append_assoc]
    rcases List.mem_append.1 this with hi | hi
    · exact List.mem_append_left _ hi
    · exact List.mem_append_right _ (hp.symm.subset (List.mem_append_left _ hi))
  suffices (∀ e ∈ c'.reqs, (R ++ (replyTarget c a).toList).count e.id + e.cmds = e.req.size) ∧
      ∀ q ∈ W ++ (wokenBy c a).map (·, aborts a),
        (R ++ (replyTarget c a).toList).count q.1.id + (if q.2 then q.1.cmds else 0) = q.1.req.size from
    ⟨this.1, this.2, hrouted⟩
  cases a with
  | addRequestInfo id req =>
    cases h
    have hnew : id ∉ R := fun hi =>
      (List.nodup_append.1 hd).2.2 (ht.routed id hi) (List.mem_singleton_self _)
    simp only [replyTarget, wokenBy, Option.toList, List.append_nil, List.map_nil]
    refine ⟨fun e he => ?_, ht.woken⟩
    rcases List.mem_append.1 he with he | he
    · exact ht.queued e he
    · rw [List.mem_singleton.1 he]
      simp [ReqInfo.fresh, List.count_eq_zero_of_not_mem hnew]
  | coalesceRequests =>
    obtain ⟨-, -, -, rfl⟩ := step_coalesceRequests h
    simp only [replyTarget, wokenBy, Option.toList, List.append_nil, List.map_nil]
    refine ⟨fun e he => ?_, ht.woken⟩
    rcases List.mem_append.1 he with he | he
    · obtain ⟨e₀, he₀, rfl⟩ := List.mem_map.1 he
      exact ht.queued e₀ (List.mem_of_mem_take he₀)
    · exact ht.queued e (List.mem_of_mem_drop he)
  | flush =>
    cases h
    simp only [replyTarget, wokenBy, Option.toList, List.append_nil, List.map_nil]
    exact ⟨ht.queued, ht.woken⟩
  | read t =>
    by_cases htp : t = .push
    · obtain rfl := ((step_read h).resolve_right fun h' => h'.1 htp).2
      simp only [replyTarget, wokenBy, htp, if_true, Option.toList, List.append_nil, List.map_nil]
      exact ⟨ht.queued, ht.woken⟩
    obtain ⟨ws, z, us, hl, hws, hzw, hzc, hreqs, htarget⟩ := step_read_reply h htp
    rw [htarget, hreqs]
    simp only [Option.toList, wokenBy, htp, if_false, completes_append_cons hws hzw hzc, hl, aborts]
    exact ht.reply hl (by simpa [Distinct, enqueued] using hd) hzc
  | cancel op =>
    cases h
    simp only [replyTarget, Option.toList, List.append_nil]
    cases op
    · exact ht.removesExactly cancel_exec_removesExactly fun e he _ => ht.queued e he
    · exact ht.removesExactly cancel_run_removesExactly fun e he _ => ht.queued e he
    · rw [show wokenBy c (.cancel .receiveEvent) = [] from rfl, List.map_nil, List.append_nil]
      exact ⟨ht.queued, ht.woken⟩
    · rw [show wokenBy c (.cancel .receivePush) = [] from rfl, List.map_nil, List.append_nil]
      exact ⟨ht.queued, ht.woken⟩
  | cancelPushRequests =>
    cases h
    simp only [replyTarget, Option.toList, List.append_nil]
    refine ht.removesExactly cancelPushRequests_removesExactly fun e he hpe => ?_
    have := ht.queued e he
    simp only [Bool.and_eq_true, beq_iff_eq] at hpe
    simp only [id, aborts, Bool.false_eq_true, if_false]
    omega

theorem Tally.run :
    ∀ {as : List Action} {R : List Nat} {W : List (ReqInfo × Bool)} {c c' : Connection},
      Tally R W c → Distinct W c (enqueued as) → run c as = some c' →
      Tally (R ++ replies c as) (W ++ wokenAborted c as) c'
  | [], _, _, _, _, ht, _, h => by cases h; simpa [replies, repliesWhen, wokenAborted, emitted] using ht
  | a :: as, R, W, c, c', ht, hd, h => by
    obtain ⟨c₁, h₁, h₂⟩ := Option.bind_eq_some.1 (run_cons ▸ h)
    rw [enqueued_cons] at hd
    have ht₁ := ht.step (hd.sublist ((List.sublist_append_left _ _).append_left _)) h₁
    have := ht₁.run (hd.step h₁) h₂
    simpa [replies, repliesWhen, wokenAborted, emitted, h₁, List.append_assoc] using this

theorem replies_count_add_owed_eq_size (h0 : c.Fresh) (hnd : (enqueued as).Nodup)
    (h : run c as = some c') :
    (∀ e ∈ c'.reqs, (replies c as).count e.id + e.cmds = e.req.size) ∧
      ∀ p ∈ wokenAborted c as,
        (replies c as).count p.1.id + (if p.2 then p.1.cmds else 0) = p.1.req.size := by
  have ht : Tally [] [] c := ⟨by simp [h0.1], by simp, by simp⟩
  have := ht.run (by simpa [Distinct, h0.1] using hnd) h
  exact ⟨by simpa using this.queued, by simpa using this.woken⟩

theorem replies_count_add_owed_eq_size_hello :
    let as := [Action.addRequestInfo 0 helloPriorityReq3.req, .addRequestInfo 1 pingRequest,
      .coalesceRequests, .flush, .read .map, .read .simpleString, .cancel .exec]
    let c' := (run (init {}) as).getD (init {})
    replies (init {}) as = [0, 0] ∧
      (wokenAborted (init {}) as).map (fun p => (p.1.id, p.2)) = [(0, false), (1, true)] ∧
      (∀ e ∈ c'.reqs, (replies (init {}) as).count e.id + e.cmds = e.req.size) ∧
      ∀ p ∈ wokenAborted (init {}) as,
        (replies (init {}) as).count p.1.id + (if p.2 then p.1.cmds else 0) = p.1.req.size := by
  intro as c'
  have h : run (init {}) as = some c' := rfl
  exact ⟨rfl, rfl, replies_count_add_owed_eq_size (init_fresh {}) (by decide) h⟩

end Tally

end Aedis.Machine
