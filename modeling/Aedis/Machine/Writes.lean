import Aedis.Machine.Accounting

namespace Aedis.Machine

open Connection

variable {c c' : Connection} {a : Action} {as : List Action} {W E : List Nat}
  {l l' : List ReqInfo}

def writtenBy (c : Connection) : Action → List ReqInfo
  | .coalesceRequests => c.reqs.take c.batchSize
  | _ => []

def writes (ok : Connection → Action → Bool) (c : Connection) (as : List Action) : List ReqInfo :=
  emitted writtenBy ok c as

def expectsReplies : Action → Bool
  | .addRequestInfo _ req => 0 < req.size
  | _ => true

def pending (reqs : List ReqInfo) : List Nat := (reqs.filter (!·.written)).map (·.id)

theorem enqueued_cons (a : Action) (as : List Action) :
    enqueued (a :: as) = enqueued [a] ++ enqueued as := by
  cases a <;> rfl

theorem deliver_pending (h : deliver l = some l') :
    pending l' = pending l ∧ ∀ e' ∈ l', ∃ e ∈ l, e'.req = e.req := by
  obtain ⟨ws, z, us, rfl, -, hw, -, rfl⟩ := deliver_cases h
  refine ⟨by split <;> simp [pending, List.filter_append, List.filter_cons, hw],
    fun e' he' => ?_⟩
  rcases List.mem_append.1 he' with he | he
  · exact ⟨e', List.mem_append_left _ he, rfl⟩
  split at he
  · exact ⟨e', List.mem_append_right _ (List.mem_cons_of_mem _ he), rfl⟩
  · rcases List.mem_cons.1 he with rfl | he
    · exact ⟨z, List.mem_append_right _ (List.mem_cons_self _ _), rfl⟩
    · exact ⟨e', List.mem_append_right _ (List.mem_cons_of_mem _ he), rfl⟩

theorem pending_cancelPushRequests : pending c.cancelPushRequests.conn.reqs = pending c.reqs := by
  simp only [pending, cancelPushRequests, stablePartition, List.filter_filter]
  congr 2
  funext e
  cases e.written <;> simp

theorem Exact.unwritten (hc : Exact c) (hpos : ∀ e ∈ c.reqs, 0 < e.req.size) (h0 : c.cmds = 0) :
    ∀ e ∈ c.reqs, e.written = false := by
  intro e he
  cases hw : e.written
  · rfl
  · have hz : e.expected = 0 :=
      List.sum_eq_zero_iff.1 (hc.expected_eq.trans h0) _ (List.mem_map_of_mem _ he)
    exact absurd ((hc.counts e he).size_eq_zero hw hz) (hpos e he).ne'

theorem filter_writeFirst (hu : ∀ e ∈ c.reqs, e.written = false) (n : Nat) :
    (writeFirst n c).reqs.filter (·.written) = (c.reqs.take n).map markWritten ∧
      (writeFirst n c).reqs.filter (!·.written) = c.reqs.drop n := by
  have hm : ∀ e ∈ (c.reqs.take n).map markWritten, e.written = true := by
    intro e he
    obtain ⟨e₀, -, rfl⟩ := List.mem_map.1 he
    rfl
  have hd : ∀ e ∈ c.reqs.drop n, e.written = false := fun e he => hu e (List.mem_of_mem_drop he)
  simp only [writeFirst, List.filter_append]
  constructor
  · rw [List.filter_eq_self.2 (by simpa using hm), List.filter_eq_nil_iff.2 (by simpa using hd),
      List.append_nil]
  · rw [List.filter_eq_nil_iff.2 (by simpa using hm), List.filter_eq_self.2 (by simpa using hd),
      List.nil_append]

theorem step_pos (hpos : ∀ e ∈ c.reqs, 0 < e.req.size) (ha : expectsReplies a)
    (h : step c a = some c') : ∀ e ∈ c'.reqs, 0 < e.req.size := by
  cases a with
  | addRequestInfo id req =>
    cases h
    intro e he
    rcases List.mem_append.1 he with he | he
    · exact hpos e he
    · rw [List.mem_singleton.1 he]; simpa [expectsReplies] using ha
  | coalesceRequests =>
    obtain ⟨-, -, -, rfl⟩ := step_coalesceRequests h
    intro e he
    simp only [writeFirst, List.mem_append, List.mem_map] at he
    rcases he with ⟨e₀, he₀, rfl⟩ | he
    · exact hpos e₀ (List.mem_of_mem_take he₀)
    · exact hpos e (List.mem_of_mem_drop he)
  | flush => cases h; exact hpos
  | read t =>
    rcases step_read h with ⟨-, rfl⟩ | ⟨-, reqs, hd, rfl⟩
    · exact hpos
    · intro e he
      obtain ⟨e₀, he₀, heq⟩ := (deliver_pending hd).2 e he
      exact heq ▸ hpos e₀ he₀
  | cancel op => cases h; exact fun e he => hpos e ((cancel_reqs_sublist op).subset he)
  | cancelPushRequests =>
    cases h; exact fun e he => hpos e (cancelPushRequests_reqs_sublist.subset he)

/-- What the writer has written so far, `W`, against what was enqueued so far, `E`: the ids
written, then the ids still to write in the queue, are the ids enqueued. -/
structure SendInv (W E : List Nat) (c : Connection) : Prop where
  exact : Exact c
  pos : ∀ e ∈ c.reqs, 0 < e.req.size
  ids : W ++ pending c.reqs = E

theorem SendInv.step (hc : SendInv W E c) (hp : paced c a) (ha : expectsReplies a)
    (h : step c a = some c') :
    SendInv (W ++ (writtenBy c a).map (·.id)) (E ++ enqueued [a]) c' := by
  refine ⟨step_exact hc.exact hp h, step_pos hc.pos ha h, ?_⟩
  cases a with
  | addRequestInfo id req =>
    cases h
    simp [writtenBy, enqueued, pending, addRequestInfo, ReqInfo.fresh, ← hc.ids]
  | coalesceRequests =>
    obtain ⟨-, -, -, rfl⟩ := step_coalesceRequests h
    have hu := hc.exact.unwritten hc.pos (by simpa [paced] using hp)
    have hall : pending c.reqs = c.reqs.map (·.id) := by
      rw [pending, List.filter_eq_self.2 fun e he => by simp [hu e he]]
    have hdrop :
        pending (writeFirst c.batchSize c).reqs = (c.reqs.drop c.batchSize).map (·.id) := by
      rw [pending, (filter_writeFirst hu _).2]
    simp only [← hc.ids, hall, writtenBy, hdrop, enqueued, List.append_nil, List.append_assoc,
      ← List.map_append, List.take_append_drop]
  | flush => cases h; simpa [writtenBy, enqueued] using hc.ids
  | read t =>
    rcases step_read h with ⟨-, rfl⟩ | ⟨-, reqs, hd, rfl⟩
    · simpa [writtenBy, enqueued] using hc.ids
    · simpa [writtenBy, enqueued, (deliver_pending hd).1] using hc.ids
  | cancel op =>
    cases op
    case exec | run => simp [paced] at hp
    all_goals cases h; simpa [writtenBy, enqueued] using hc.ids
  | cancelPushRequests =>
    cases h
    simpa [writtenBy, enqueued, pending_cancelPushRequests] using hc.ids

theorem SendInv.written_prefix_enqueued : ∀ {as : List Action} {W E : List Nat} {c : Connection},
    SendInv W E c → (∀ a ∈ as, expectsReplies a) →
    W ++ (writes paced c as).map (·.id) <+: E ++ enqueued as
  | [], W, E, c, hc, _ => by
    rw [← hc.ids]; simp [writes, emitted]
  | a :: as, W, E, c, hc, ha => by
    have hpre : W <+: E ++ enqueued (a :: as) := by
      rw [← hc.ids, List.append_assoc]; exact List.prefix_append _ _
    simp only [writes, emitted]
    split
    · split
      · simpa using hpre
      · next c' h =>
        have := (hc.step ‹_› (ha a (List.mem_cons_self _ _)) h).written_prefix_enqueued
          fun a' h' => ha a' (List.mem_cons_of_mem _ h')
        simpa [writes, enqueued_cons a as, List.append_assoc] using this
    · simpa using hpre

theorem writes_prefix_enqueued (h0 : c.Fresh) (has : ∀ a ∈ as, expectsReplies a) :
    (writes paced c as).map (·.id) <+: enqueued as := by
  have hinv : SendInv [] [] c := ⟨exact_fresh h0, by simp [h0.1], by simp [h0.1, pending]⟩
  simpa using hinv.written_prefix_enqueued has

theorem writes_prefix_enqueued_ping :
    let as := [Action.addRequestInfo 0 pingRequest, .coalesceRequests, .flush,
      .addRequestInfo 1 pingRequest, .read .simpleString, .coalesceRequests]
    (writes paced (init {}) as).map (·.id) = [0, 1] ∧
      (writes paced (init {}) as).map (·.id) <+: enqueued as :=
  ⟨rfl, writes_prefix_enqueued (init_fresh {}) (by decide)⟩

end Aedis.Machine
