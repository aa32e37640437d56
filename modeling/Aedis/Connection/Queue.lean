import Aedis.Connection.Basic

namespace Aedis.Connection

variable {c c' : Connection} {n : Nat}

def addRequestInfo (c : Connection) (info : ReqInfo) : Outcome Unit :=
  ⟨{ c with reqs := c.reqs ++ [info] },
    if c.socket == some true && c.cmds == 0 && c.writeBuffer.isEmpty then [.writerTimer] else [],
    ()⟩

def helloPriorityReq1 : ReqInfo :=
  ⟨0, ⟨"*2\r\n$4\r\nPING\r\n$4\r\nreq1\r\n", 1, ["PING"], false, false, false⟩, 1, false, false⟩

def helloPriorityReq3 : ReqInfo :=
  ⟨2, ⟨"*2\r\n$5\r\nHELLO\r\n$1\r\n3\r\n*2\r\n$4\r\nPING\r\n$4\r\nreq3\r\n", 2, ["HELLO", "PING"],
    false, false, true⟩, 2, false, false⟩

theorem addRequestInfo_hello_behind_unwritten :
    ({ init with reqs := [helloPriorityReq1] }.addRequestInfo helloPriorityReq3).conn.reqs =
        [helloPriorityReq1, helloPriorityReq3] ∧
      helloPriorityReq1.written = false ∧ helloPriorityReq3.req.helloWithPriority = true ∧
      helloPriorityReq3.req.commands.head? = some "HELLO" :=
  ⟨rfl, rfl, rfl, rfl⟩

def markWritten (e : ReqInfo) : ReqInfo := { e with written := true }

@[simp] theorem markWritten_id (e : ReqInfo) : (markWritten e).id = e.id := rfl

@[simp] theorem markWritten_written (e : ReqInfo) : (markWritten e).written = true := rfl

def coalesceAt (c : Connection) (i : Nat) : Option Connection :=
  c.reqs[i]?.map fun e => { c with
    writeBuffer := c.writeBuffer ++ e.req.payload
    cmds := c.cmds + e.req.size
    reqs := c.reqs.set i (markWritten e) }

def batchSize (c : Connection) : Nat := if c.cfg.coalesceRequests then c.reqs.length else 1

def coalesceRequests (c : Connection) : Option Connection :=
  if c.writeBuffer.isEmpty && !c.reqs.isEmpty then (List.range c.batchSize).foldlM coalesceAt c
  else none

def writeFirst (n : Nat) (c : Connection) : Connection :=
  { c with
    writeBuffer := c.writeBuffer ++ String.join ((c.reqs.take n).map (·.req.payload))
    cmds := c.cmds + ((c.reqs.take n).map (·.req.size)).sum
    reqs := (c.reqs.take n).map markWritten ++ c.reqs.drop n }

theorem String.join_append_singleton (l : List String) (s : String) :
    String.join (l ++ [s]) = String.join l ++ s := by
  simp [String.join, List.foldl_append]

theorem getElem?_markFirst (l : List ReqInfo) (n : Nat) :
    ((l.take n).map markWritten ++ l.drop n)[n]? = l[n]? := by
  induction l generalizing n with
  | nil => simp
  | cons a l ih =>
    cases n with
    | zero => rfl
    | succ n =>
      simp only [List.take_succ_cons, List.drop_succ_cons, List.map_cons, List.cons_append,
        List.getElem?_cons_succ, ih]

theorem set_markFirst {l : List ReqInfo} {e : ReqInfo} (h : l[n]? = some e) :
    ((l.take n).map markWritten ++ l.drop n).set n (markWritten e) =
      (l.take (n + 1)).map markWritten ++ l.drop (n + 1) := by
  induction l generalizing n with
  | nil => simp at h
  | cons a l ih =>
    cases n with
    | zero =>
      obtain rfl : a = e := by simpa using h
      rfl
    | succ n =>
      simp only [List.take_succ_cons, List.drop_succ_cons, List.map_cons, List.cons_append,
        List.set_cons_succ, ih (by simpa using h)]

theorem coalesceAt_writeFirst (h : n < c.reqs.length) :
    coalesceAt (writeFirst n c) n = some (writeFirst (n + 1) c) := by
  obtain ⟨e, he⟩ : ∃ e, c.reqs[n]? = some e := ⟨_, List.getElem?_eq_getElem h⟩
  simp only [coalesceAt, writeFirst, getElem?_markFirst, he, set_markFirst he, List.take_succ,
    Option.toList_some, List.map_append, String.join_append_singleton, String.append_assoc,
    List.sum_append, List.map_cons, List.map_nil, List.sum_cons, List.sum_nil, Nat.add_zero,
    Nat.add_assoc, Option.map_some', List.append_assoc, List.singleton_append]

theorem foldlM_coalesceAt (h : n ≤ c.reqs.length) :
    (List.range n).foldlM coalesceAt c = some (writeFirst n c) := by
  induction n with
  | zero => cases c; simp [writeFirst, String.join]
  | succ n ih =>
    have hn : n < c.reqs.length := by omega
    rw [List.range_succ, List.foldlM_append, ih hn.le]
    simp [coalesceAt_writeFirst hn]

theorem coalesceRequests_eq_some :
    c.coalesceRequests = some c' ↔
      c.writeBuffer = "" ∧ c.reqs ≠ [] ∧ c' = writeFirst c.batchSize c := by
  unfold coalesceRequests
  by_cases hb : c.writeBuffer = ""
  · by_cases hr : c.reqs = []
    · simp [hr]
    · have := List.length_pos.2 hr
      have hk : c.batchSize ≤ c.reqs.length := by unfold batchSize; split <;> omega
      rw [if_pos (by simp [hb, hr, String.isEmpty_iff]), foldlM_coalesceAt hk, Option.some.injEq]
      exact ⟨fun h => ⟨hb, hr, h.symm⟩, fun h => h.2.2.symm⟩
  · rw [if_neg (by simp [String.isEmpty_iff, hb])]
    simp [hb]

theorem coalesceRequests_batch (h : c.coalesceRequests = some c') :
    let k := if c.cfg.coalesceRequests then c.reqs.length else 1
    0 < k ∧ k ≤ c.reqs.length ∧
      c'.writeBuffer = String.join ((c.reqs.take k).map (·.req.payload)) ∧
      c'.cmds = c.cmds + ((c.reqs.take k).map (·.req.size)).sum ∧
      c'.reqs = (c.reqs.take k).map (fun e => { e with written := true }) ++ c.reqs.drop k ∧
      c'.cfg = c.cfg ∧ c'.socket = c.socket := by
  obtain ⟨hb, hr, rfl⟩ := coalesceRequests_eq_some.1 h
  have := List.length_pos.2 hr
  refine ⟨?_, ?_, by simp [writeFirst, hb, batchSize], rfl, rfl, rfl, rfl⟩ <;> split <;> omega

theorem coalesceRequests_batch_hello_priority :
    let c := { init with reqs := [helloPriorityReq1, helloPriorityReq3] }
    let c' := c.coalesceRequests.getD c
    let k := if c.cfg.coalesceRequests then c.reqs.length else 1
    0 < k ∧ k ≤ c.reqs.length ∧
      c'.writeBuffer = String.join ((c.reqs.take k).map (·.req.payload)) ∧
      c'.cmds = c.cmds + ((c.reqs.take k).map (·.req.size)).sum ∧
      c'.reqs = (c.reqs.take k).map (fun e => { e with written := true }) ++ c.reqs.drop k ∧
      c'.cfg = c.cfg ∧ c'.socket = c.socket :=
  coalesceRequests_batch rfl

theorem coalesceRequests_batches_uncoalesced :
    ({ init with reqs := [helloPriorityReq1, helloPriorityReq3] }.coalesceRequests).map
        (fun c : Connection => c.reqs.map ReqInfo.written) = some [true, true] ∧
      helloPriorityReq3.req.coalesce = false :=
  ⟨rfl, rfl⟩

end Aedis.Connection
