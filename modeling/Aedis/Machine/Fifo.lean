import Aedis.Machine.Dispatch
import Aedis.Machine.Writes

/-! What the request queue is for: a first-in first-out queue of requests, each waiting for as
many replies as it has commands.  A submission joins at the back, a reply goes to the request
at the front, which leaves with its last reply, and a cancellation drops requests and keeps
the others in their order.  The connection's `reqs_` refines it: with requests that all expect
replies, every run of the connection, in any interleaving of its steps, is a run of the FIFO,
and each reply reaches the request the FIFO gives it to. -/

namespace Aedis.Fifo

structure Entry where
  id : Nat
  req : Request
  owed : Nat
  deriving DecidableEq, Repr

inductive Op
  | submit (id : Nat) (req : Request)
  | reply
  | cancelAll
  | cancelOnRunCompletion
  deriving DecidableEq, Repr

/-- One operation on the queue; `none` for a reply with no request waiting. -/
def step (q : List Entry) : Op → Option (List Entry)
  | .submit id req => some (q ++ [⟨id, req, req.size⟩])
  | .reply =>
    match q with
    | [] => none
    | e :: q => some (if e.owed ≤ 1 then q else { e with owed := e.owed - 1 } :: q)
  | .cancelAll => some []
  | .cancelOnRunCompletion => some (q.filter (!·.req.closeOnRunCompletion))

def target (q : List Entry) : Op → Option Nat
  | .reply => q.head?.map (·.id)
  | _ => none

def run (q : List Entry) : List Op → Option (List Entry)
  | [] => some q
  | op :: ops => (step q op).bind (run · ops)

def replies (q : List Entry) : List Op → List Nat
  | [] => []
  | op :: ops =>
    match step q op with
    | none => []
    | some q' => (target q op).toList ++ replies q' ops

end Aedis.Fifo

namespace Aedis.Machine

open Connection

variable {c c' : Connection} {a : Action} {as : List Action}

/-- The FIFO a queue stands for: its entries in order, each with its request and the replies it
still waits for. -/
def abs (reqs : List ReqInfo) : List Fifo.Entry := reqs.map fun e => ⟨e.id, e.req, e.cmds⟩

def Action.op : Action → Option Fifo.Op
  | .addRequestInfo id req => some (.submit id req)
  | .read t => if t = .push then none else some .reply
  | .cancel .exec => some .cancelAll
  | .cancel .run => some .cancelOnRunCompletion
  | _ => none

/-- The facts about a queue the refinement rests on, all kept by every step whose request
expects replies. -/
structure Refines (c : Connection) : Prop where
  writtenPrefix : WrittenPrefix c.reqs
  counts : CountsOk c.reqs
  pos : ∀ e ∈ c.reqs, 0 < e.req.size

theorem Refines.step (hc : Refines c) (ha : expectsReplies a) (h : Machine.step c a = some c') :
    Refines c' :=
  ⟨step_writtenPrefix hc.writtenPrefix h, step_countsOk hc.counts h, step_pos hc.pos ha h⟩

theorem abs_writeFirst (n : Nat) : abs (writeFirst n c).reqs = abs c.reqs := by
  have hm : (fun e : ReqInfo => (⟨e.id, e.req, e.cmds⟩ : Fifo.Entry)) ∘ markWritten =
      fun e => ⟨e.id, e.req, e.cmds⟩ := rfl
  simp only [abs, writeFirst, List.map_append, List.map_map, hm]
  rw [← List.map_append, List.take_append_drop]

theorem Refines.front (hc : Refines c) {ws us : List ReqInfo} {z : ReqInfo}
    (hl : c.reqs = ws ++ z :: us) (hws : ∀ w ∈ ws, ¬(w.written = true ∧ 0 < w.cmds))
    (hz : z.written = true) : ws = [] := by
  rcases ws with _ | ⟨w, ws⟩
  · rfl
  have hw : w ∈ c.reqs := hl ▸ List.mem_cons_self _ _
  have hwc := (hc.counts w hw).pos (hc.pos w hw)
  have hpre := hc.writtenPrefix
  rw [WrittenPrefix, hl, List.cons_append, List.map_cons, List.pairwise_cons] at hpre
  have hww := hpre.1 z.written (List.mem_map_of_mem _ (List.mem_append_right _ (List.mem_cons_self _ _))) hz
  exact absurd ⟨hww, hwc⟩ (hws w (List.mem_cons_self _ _))

theorem Refines.simulates (hc : Refines c) (h : Machine.step c a = some c') :
    match a.op with
    | none => abs c'.reqs = abs c.reqs ∧ replyTarget c a = none
    | some op => Fifo.step (abs c.reqs) op = some (abs c'.reqs) ∧
        replyTarget c a = Fifo.target (abs c.reqs) op := by
  cases a with
  | addRequestInfo id req =>
    cases h
    exact ⟨by simp [abs, addRequestInfo, ReqInfo.fresh, Fifo.step], rfl⟩
  | coalesceRequests =>
    obtain ⟨-, -, -, rfl⟩ := step_coalesceRequests h
    exact ⟨abs_writeFirst _, rfl⟩
  | flush => cases h; exact ⟨rfl, rfl⟩
  | read t =>
    by_cases ht : t = .push
    · obtain rfl := ((step_read h).resolve_right fun h' => h'.1 ht).2
      simp [Action.op, ht, replyTarget]
    obtain ⟨ws, z, us, hl, hws, hzw, hzc, hreqs, htarget⟩ := step_read_reply h ht
    obtain rfl := hc.front hl hws hzw
    simp only [Action.op, ht, if_false]
    refine ⟨?_, by rw [htarget, hl]; rfl⟩
    rw [hl, hreqs]
    by_cases h1 : z.cmds = 1
    · simp [abs, Fifo.step, h1]
    · simp [abs, Fifo.step, h1, show ¬z.cmds ≤ 1 by omega]
  | cancel op =>
    cases op <;> cases h
    · exact ⟨rfl, rfl⟩
    · simp [Action.op, cancel, stablePartition, abs, Fifo.step, List.filter_map,
        Function.comp_def, replyTarget, Fifo.target]
    · exact ⟨rfl, rfl⟩
    · exact ⟨rfl, rfl⟩
  | cancelPushRequests =>
    cases h
    refine ⟨?_, rfl⟩
    simp only [cancelPushRequests, stablePartition]
    rw [List.filter_eq_self.2 fun e he => by simp [(hc.pos e he).ne']]

theorem Refines.run_abs :
    ∀ {as : List Action} {c c' : Connection}, Refines c → (∀ a ∈ as, expectsReplies a) →
      run c as = some c' →
      Fifo.run (abs c.reqs) (as.filterMap Action.op) = some (abs c'.reqs) ∧
        replies c as = Fifo.replies (abs c.reqs) (as.filterMap Action.op)
  | [], _, _, _, _, h => by cases h; exact ⟨rfl, rfl⟩
  | a :: as, c, c', hc, ha, h => by
    obtain ⟨c₁, h₁, h₂⟩ := Option.bind_eq_some.1 (run_cons ▸ h)
    obtain ⟨ih₁, ih₂⟩ := (hc.step (ha a (List.mem_cons_self _ _)) h₁).run_abs
      (fun a' h' => ha a' (List.mem_cons_of_mem _ h')) h₂
    have hs := hc.simulates h₁
    have hrep : replies c (a :: as) = (replyTarget c a).toList ++ replies c₁ as := by
      simp only [replies, repliesWhen, emitted, if_true, h₁]
    rw [hrep]
    cases hop : a.op with
    | none =>
      rw [hop] at hs
      rw [hs.1] at ih₁ ih₂
      simp only [List.filterMap_cons, hop, hs.2, Option.toList_none, List.nil_append]
      exact ⟨ih₁, ih₂⟩
    | some op =>
      rw [hop] at hs
      simp only [List.filterMap_cons, hop, Fifo.run, Fifo.replies, hs.1, hs.2, Option.some_bind]
      exact ⟨ih₁, by rw [ih₂]⟩

theorem queue_refines_fifo (h0 : c.Fresh) (has : ∀ a ∈ as, expectsReplies a)
    (h : run c as = some c') :
    Fifo.run [] (as.filterMap Action.op) = some (abs c'.reqs) ∧
      replies c as = Fifo.replies [] (as.filterMap Action.op) := by
  have hc : Refines c := ⟨by simp [h0.1, WrittenPrefix], by simp [h0.1, CountsOk], by simp [h0.1]⟩
  simpa [h0.1, abs] using hc.run_abs has h

theorem queue_refines_fifo_pings :
    let as := [Action.addRequestInfo 0 pingRequest, .coalesceRequests, .read .push,
      .addRequestInfo 1 pingRequest, .flush, .read .simpleString, .cancel .receivePush,
      .coalesceRequests, .flush, .read .simpleString]
    let c' := (run (init {}) as).getD (init {})
    Fifo.run [] (as.filterMap Action.op) = some (abs c'.reqs) ∧
      replies (init {}) as = Fifo.replies [] (as.filterMap Action.op) := by
  intro as c'
  have h : run (init {}) as = some c' := rfl
  exact queue_refines_fifo (init_fresh {}) (by decide) h

end Aedis.Machine
