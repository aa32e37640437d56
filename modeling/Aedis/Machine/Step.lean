import Aedis.Connection.Cancel
import Aedis.Connection.Queue
import Aedis.Connection.Reader

namespace Aedis.Machine

open Connection

inductive Action
  | addRequestInfo (id : Nat) (req : Request)
  | coalesceRequests
  | flush
  | read (t : Resp3.DataType)
  | cancel (op : Operation)
  | cancelPushRequests
  deriving DecidableEq, Repr

variable {c c' c'' : Connection} {a : Action} {as : List Action}

/-- One step.  The writer calls `coalesce_requests` once the previous write has been flushed and
some entry is still unwritten. -/
def step (c : Connection) : Action → Option Connection
  | .addRequestInfo id req => some (c.addRequestInfo (.fresh id req)).conn
  | .coalesceRequests =>
    if c.writeBuffer.isEmpty && c.reqs.any (!·.written) then c.coalesceRequests else none
  | .flush => some c.flush
  | .read t => c.readFrame t
  | .cancel op => some (c.cancel op).conn
  | .cancelPushRequests => some c.cancelPushRequests.conn

def runWhen (ok : Connection → Action → Bool) (c : Connection) : List Action → Option Connection
  | [] => some c
  | a :: as => if ok c a then (step c a).bind (runWhen ok · as) else none

def run (c : Connection) (as : List Action) : Option Connection := runWhen (fun _ _ => true) c as

theorem run_cons : run c (a :: as) = (step c a).bind (run · as) := rfl

theorem run_append (as bs : List Action) : run c (as ++ bs) = (run c as).bind (run · bs) := by
  induction as generalizing c with
  | nil => rfl
  | cons a as ih => simp only [List.cons_append, run_cons, ih, Option.bind_assoc]

def emitted {β : Type} (out : Connection → Action → List β) (ok : Connection → Action → Bool)
    (c : Connection) : List Action → List β
  | [] => []
  | a :: as =>
    if ok c a then
      match step c a with
      | none => []
      | some c' => out c a ++ emitted out ok c' as
    else []

def enqueued : List Action → List Nat
  | [] => []
  | .addRequestInfo id _ :: as => id :: enqueued as
  | _ :: as => enqueued as

theorem runWhen_invariant {ok : Connection → Action → Bool} {P : Connection → Prop}
    (hstep : ∀ {c a c'}, P c → ok c a → step c a = some c' → P c') :
    ∀ {as c c'}, P c → runWhen ok c as = some c' → P c'
  | [], _, _, hc, h => by cases h; exact hc
  | a :: _, c, _, hc, h => by
    simp only [runWhen] at h
    split at h
    next hok =>
      obtain ⟨c₁, h₁, h₂⟩ := Option.bind_eq_some.1 h
      exact runWhen_invariant hstep (hstep hc hok h₁) h₂
    next => cases h

theorem runWhen_congr {ok ok' : Connection → Action → Bool} :
    ∀ {as c}, (∀ a ∈ as, ∀ c, ok c a = ok' c a) → runWhen ok c as = runWhen ok' c as
  | [], _, _ => rfl
  | a :: as, c, h => by
    simp only [runWhen, h a (List.mem_cons_self _ _)]
    split
    · congr 1
      funext c'
      exact runWhen_congr fun a' ha' => h a' (List.mem_cons_of_mem _ ha')
    · rfl

theorem run_invariant {P : Connection → Prop}
    (hstep : ∀ {c a c'}, P c → step c a = some c' → P c') (hc : P c) (h : run c as = some c') :
    P c' :=
  runWhen_invariant (fun hc _ h => hstep hc h) hc h

theorem step_coalesceRequests (h : step c .coalesceRequests = some c') :
    (∃ e ∈ c.reqs, e.written = false) ∧ c.writeBuffer = "" ∧ c.reqs ≠ [] ∧
      c' = writeFirst c.batchSize c := by
  simp only [step] at h
  split at h
  next hg =>
    obtain ⟨-, hu⟩ := Bool.and_eq_true_iff.1 hg
    exact ⟨by simpa using hu, coalesceRequests_eq_some.1 h⟩
  next => cases h

theorem step_read {t : Resp3.DataType} (h : step c (.read t) = some c') :
    t = .push ∧ c' = c ∨
      t ≠ .push ∧ ∃ reqs, deliver c.reqs = some reqs ∧ c' = { c with cmds := c.cmds - 1, reqs } := by
  simp only [step, readFrame] at h
  split at h
  next ht => exact .inl ⟨ht, (Option.some.inj h).symm⟩
  next ht =>
    obtain ⟨reqs, hd, rfl⟩ := Option.map_eq_some'.1 h
    exact .inr ⟨ht, reqs, hd, rfl⟩

end Aedis.Machine
