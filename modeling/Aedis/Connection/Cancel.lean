import Aedis.Connection.Basic

namespace Aedis.Connection

variable {α : Type} {c : Connection}

def stablePartition (p : α → Bool) (l : List α) : List α × List α :=
  (l.filter p, l.filter fun a => !p a)

def setStop (e : ReqInfo) : ReqInfo := { e with stop := true }

def cancel (c : Connection) : Operation → Outcome Nat
  | .exec =>
    ⟨{ c with reqs := [] }, c.reqs.map fun e => .cancelOne (setStop e), c.reqs.length⟩
  | .run =>
    let (keep, drop) := stablePartition (fun e => !e.req.closeOnRunCompletion) c.reqs
    ⟨{ c with socket := c.socket.map fun _ => false, reqs := keep },
      [.readTimer, .checkIdleTimer, .writerTimer, .pingTimer] ++
        drop.map fun e => .cancel (setStop e), 1⟩
  | .receiveEvent => ⟨c, [.eventChannel], 1⟩
  | .receivePush => ⟨c, [.pushChannel], 1⟩

def cancelPushRequests (c : Connection) : Outcome Unit :=
  let (keep, drop) := stablePartition (fun e => !(e.written && e.req.size == 0)) c.reqs
  ⟨{ c with reqs := keep }, drop.map .cancel, ()⟩

/-- `o` takes out of `reqs_` exactly the entries satisfying `p`, keeps the others unchanged and
in their order, and wakes exactly the ones it took out, each as `upd` leaves it. -/
structure RemovesExactly (p : ReqInfo → Bool) (upd : ReqInfo → ReqInfo) (c : Connection)
    (o : Outcome α) : Prop where
  kept : o.conn.reqs = c.reqs.filter fun e => !p e
  woken : o.woken = (c.reqs.filter p).map upd

theorem RemovesExactly.perm {p : ReqInfo → Bool} {upd : ReqInfo → ReqInfo} {o : Outcome α}
    (h : RemovesExactly p upd c o) (hupd : ∀ e, (upd e).id = e.id) :
    ((o.woken ++ o.conn.reqs).map (·.id)).Perm (c.reqs.map (·.id)) := by
  rw [h.kept, h.woken, List.map_append, List.map_map]
  have : (·.id) ∘ upd = (·.id) := funext hupd
  rw [this, ← List.map_append]
  exact (List.filter_append_perm p c.reqs).map _

@[simp] theorem setStop_id (e : ReqInfo) : (setStop e).id = e.id := rfl

theorem cancel_exec_removesExactly : RemovesExactly (fun _ => true) setStop c (c.cancel .exec) :=
  ⟨by simp [cancel], by
    rw [List.filter_true]
    exact Signal.filterMap_wakes_map (by intro; rfl) _⟩

theorem cancel_run_removesExactly :
    RemovesExactly (·.req.closeOnRunCompletion) setStop c (c.cancel .run) :=
  ⟨rfl, by
    show ([Signal.readTimer, .checkIdleTimer, .writerTimer, .pingTimer] ++ _).filterMap
      Signal.wakes = _
    simp only [Bool.not_not]
    exact Signal.filterMap_wakes_map (by intro; rfl) _⟩

theorem cancelPushRequests_removesExactly :
    RemovesExactly (fun e => e.written && e.req.size == 0) id c c.cancelPushRequests :=
  ⟨rfl, by
    show (List.map _ _).filterMap Signal.wakes = _
    simp only [Bool.not_not]
    exact Signal.filterMap_wakes_map (by intro; rfl) _⟩

theorem cancel_exec_cancel_exec :
    ((c.cancel .exec).conn.cancel .exec).ret = 0 ∧ ((c.cancel .exec).conn.cancel .exec).signals = [] :=
  ⟨rfl, rfl⟩

@[simp] theorem cancel_cmds (op : Operation) : (c.cancel op).conn.cmds = c.cmds := by
  cases op <;> rfl

@[simp] theorem cancel_writeBuffer (op : Operation) :
    (c.cancel op).conn.writeBuffer = c.writeBuffer := by
  cases op <;> rfl

@[simp] theorem cancelPushRequests_cmds : c.cancelPushRequests.conn.cmds = c.cmds := rfl

@[simp] theorem cancelPushRequests_writeBuffer :
    c.cancelPushRequests.conn.writeBuffer = c.writeBuffer := rfl

theorem cancel_reqs_sublist (op : Operation) : (c.cancel op).conn.reqs.Sublist c.reqs := by
  cases op
  case exec => exact List.nil_sublist _
  case run => exact List.filter_sublist _
  all_goals exact List.Sublist.refl _

theorem cancelPushRequests_reqs_sublist : c.cancelPushRequests.conn.reqs.Sublist c.reqs :=
  List.filter_sublist _

theorem cancel_exact (c : Connection) :
    (RemovesExactly (fun _ => true) (fun e => { e with stop := true }) c (c.cancel .exec) ∧
        (c.cancel .exec).ret = c.reqs.length ∧
        ((c.cancel .exec).conn.cancel .exec).ret = 0 ∧
        ((c.cancel .exec).conn.cancel .exec).signals = []) ∧
      RemovesExactly (·.req.closeOnRunCompletion) (fun e => { e with stop := true }) c
        (c.cancel .run) ∧
      RemovesExactly (fun e => e.written && e.req.size == 0) (fun e => e) c c.cancelPushRequests :=
  ⟨⟨cancel_exec_removesExactly, rfl, cancel_exec_cancel_exec⟩, cancel_run_removesExactly,
    cancelPushRequests_removesExactly⟩

end Aedis.Connection
