import Aedis.Connection.Basic
import Aedis.Resp3.Type

/-! The reader and the writer's flush.  `reader_op`, `exec_read_op` and `writer_op` live in
`detail/connection_ops.hpp`, outside the sources; what they do to the queue is modelled from
the spec. -/

namespace Aedis.Connection

variable {c : Connection} {l l' : List ReqInfo}

/-- Modelled from the spec: the reader hands a reply to the first written entry that still
waits for replies, whose count drops by one; the entry leaves the queue with its last reply.
`none` when no entry waits. -/
def deliver : List ReqInfo → Option (List ReqInfo)
  | [] => none
  | e :: es =>
    if e.written && 0 < e.cmds then
      some (if e.cmds = 1 then es else { e with cmds := e.cmds - 1 } :: es)
    else (deliver es).map (e :: ·)

/-- Modelled from the spec: one complete top-level frame, by the type of its root node.  A push
goes to the push channel and leaves the queue alone; any other frame is a reply, and `cmds_`
counts it. -/
def readFrame (c : Connection) (t : Resp3.DataType) : Option Connection :=
  if t = .push then some c
  else (deliver c.reqs).map fun reqs => { c with cmds := c.cmds - 1, reqs }

/-- Modelled from the spec: the writer clears `write_buffer_` once `async_write` completes. -/
def flush (c : Connection) : Connection := { c with writeBuffer := "" }

theorem deliver_cases (h : deliver l = some l') :
    ∃ ws e us, l = ws ++ e :: us ∧ (∀ w ∈ ws, ¬(w.written = true ∧ 0 < w.cmds)) ∧
      e.written = true ∧ 0 < e.cmds ∧
      l' = ws ++ (if e.cmds = 1 then us else { e with cmds := e.cmds - 1 } :: us) := by
  induction l generalizing l' with
  | nil => cases h
  | cons e es ih =>
    simp only [deliver] at h
    split at h
    next hg =>
      obtain ⟨hw, hc⟩ : e.written = true ∧ 0 < e.cmds := by simpa using hg
      exact ⟨[], e, es, rfl, by simp, hw, hc, (Option.some.inj h).symm⟩
    next hg =>
      obtain ⟨l'', hl, rfl⟩ := Option.map_eq_some'.1 h
      obtain ⟨ws, e', us, rfl, hws, hw, hc, rfl⟩ := ih hl
      refine ⟨e :: ws, e', us, rfl, List.forall_mem_cons.2 ⟨?_, hws⟩, hw, hc, rfl⟩
      simpa using hg

theorem deliver_expectedReplies (h : deliver l = some l') :
    expectedReplies l' + 1 = expectedReplies l := by
  obtain ⟨ws, e, us, rfl, -, hw, hc, rfl⟩ := deliver_cases h
  split <;> simp [ReqInfo.expected, hw] <;> omega

theorem deliver_sublist (h : deliver l = some l') :
    (l'.map fun e => (e.id, e.written)).Sublist (l.map fun e => (e.id, e.written)) := by
  obtain ⟨ws, e, us, rfl, -, -, -, rfl⟩ := deliver_cases h
  simp only [List.map_append, List.map_cons]
  refine List.Sublist.append_left ?_ _
  split
  · exact List.sublist_cons_self _ _
  · exact List.Sublist.refl _

end Aedis.Connection
