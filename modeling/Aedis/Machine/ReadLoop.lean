import Aedis.Resp3.Stream
import Aedis.Machine.Progress

namespace Aedis.Machine

open Connection Resp3

variable {oc : Option Connection} {buf : List UInt8} {chs : List (List UInt8)}

def rootType (ns : List Node) : DataType := (ns.head?.map (·.dataType)).getD .invalid

theorem rootType_nodes (d : Nat) (v : Value) : rootType (v.nodes d) = v.dataType := by
  cases v <;> rfl

def reads (fs : List (List Node)) : List Action := fs.map fun ns => .read (rootType ns)

/-- Modelled from the spec: the reader on its buffer.  It reads every frame complete at the head
of the buffer into the queue, in order, and keeps the bytes of a frame not yet all arrived; the
queue is `none` once a reply came that no entry waits for, and a decoding error ends the
reader. -/
def readBuffer (oc : Option Connection) (bs : List UInt8) :
    Except Error (Option Connection × List UInt8) :=
  (frames bs).map fun r => (oc.bind (run · (reads r.1)), r.2)

/-- Modelled from the spec: the reader's loop.  The bytes of each read from the socket are
appended to the buffer, and the frames they complete are read into the queue. -/
def readChunks (oc : Option Connection) (buf : List UInt8) :
    List (List UInt8) → Except Error (Option Connection × List UInt8)
  | [] => .ok (oc, buf)
  | ch :: chs => (readBuffer oc (buf ++ ch)).bind fun r => readChunks r.1 r.2 chs

theorem readChunks_eq (hbuf : parse buf = .ok none) :
    readChunks oc buf chs = readBuffer oc (buf ++ chs.flatten) := by
  induction chs generalizing oc buf with
  | nil =>
    rw [readChunks, List.flatten_nil, List.append_nil, readBuffer, frames_none hbuf]
    cases oc <;> rfl
  | cons ch chs ih =>
    rw [readChunks, List.flatten_cons, ← List.append_assoc, readBuffer, readBuffer,
      frames_append (buf ++ ch)]
    rcases hf : frames (buf ++ ch) with e | ⟨fs, r⟩
    · rfl
    · change readChunks _ r chs = Except.map _ (Except.map _ (frames (r ++ chs.flatten)))
      rw [ih (frames_rest hf), readBuffer]
      rcases frames (r ++ chs.flatten) with e | ⟨gs, r'⟩
      · rfl
      · simp [Except.map, reads, run_append, Option.bind_assoc]

theorem readChunks_eq_readBuffer (oc : Option Connection) (chs : List (List UInt8)) :
    readChunks oc [] chs = readBuffer oc chs.flatten :=
  readChunks_eq parse_nil

theorem readChunks_encodeAll (c : Connection) (vs : List Value)
    (hv : ∀ v ∈ vs, v.wellFormed = true) (rest : List UInt8) (hr : parse rest = .ok none)
    (chs : List (List UInt8)) (hchs : chs.flatten = Value.encodeAll vs ++ rest) :
    readChunks (some c) [] chs = .ok (run c (vs.map fun v => .read v.dataType), rest) := by
  rw [readChunks_eq parse_nil, List.nil_append, hchs, readBuffer, frames_encodeAll vs hv hr]
  simp [Except.map, reads, Function.comp_def, rootType_nodes]

theorem readChunks_encodeAll_pong :
    let c := (run (init {}) [.addRequestInfo 0 pingRequest, .coalesceRequests, .flush]).getD (init {})
    readChunks (some c) [] [[43, 80], [79, 78, 71, 13, 10, 62, 49, 13, 10], [43, 120, 13, 10, 36, 51]] =
      .ok (run c [.read .simpleString, .read .push], [36, 51]) :=
  readChunks_encodeAll _ [.leaf .simpleString [80, 79, 78, 71], .aggregate .push [.leaf .simpleString [120]]]
    (by decide) [36, 51] (parseLoop_none (List.cons_ne_nil _ _) rfl) _ rfl

theorem replies_complete_batch {c₀ c : Connection} {as : List Action} (h0 : c₀.Fresh)
    (has : ∀ a ∈ as, expectsReplies a) (h : runWhen paced c₀ as = some c) (hq : c.cmds = 0)
    (hb : c.writeBuffer = "") (hne : c.reqs ≠ []) (vs : List Value)
    (hv : ∀ v ∈ vs, v.wellFormed = true) (hpush : ∀ v ∈ vs, v.dataType ≠ .push)
    (hlen : vs.length =
      ((c.reqs.take (if c.cfg.coalesceRequests then c.reqs.length else 1)).map (·.req.size)).sum)
    (rest : List UInt8) (hr : parse rest = .ok none) (chs : List (List UInt8))
    (hchs : chs.flatten = Value.encodeAll vs ++ rest) :
    ∃ c₂, run c [.coalesceRequests, .flush] = some c₂ ∧
      readChunks (some c₂) [] chs = .ok (some { c with
        reqs := c.reqs.drop (if c.cfg.coalesceRequests then c.reqs.length else 1) }, rest) := by
  obtain ⟨c₂, h₁, h₂⟩ := run_batch h0 has h hq hb hne (vs.map (·.dataType))
    (by simpa using hpush) (by simpa using hlen)
  refine ⟨c₂, h₁, ?_⟩
  simp only [List.map_map, Function.comp_def] at h₂
  rw [readChunks_eq parse_nil, List.nil_append, hchs, readBuffer, frames_encodeAll vs hv hr]
  simp [Except.map, reads, Function.comp_def, rootType_nodes, h₂, Connection.batchSize]

theorem replies_complete_batch_two_pongs :
    let c := (runWhen paced (init {})
      [.addRequestInfo 0 pingRequest, .addRequestInfo 1 pingRequest]).getD (init {})
    ∃ c₂, run c [.coalesceRequests, .flush] = some c₂ ∧
      readChunks (some c₂) [] [[43, 80, 79, 78, 71, 13, 10, 43, 80], [79, 78, 71, 13, 10]] =
        .ok (some { c with reqs := [] }, []) := by
  intro c
  have h : runWhen paced (init {})
      [.addRequestInfo 0 pingRequest, .addRequestInfo 1 pingRequest] = some c := rfl
  exact replies_complete_batch (init_fresh {}) (by decide) h rfl rfl (by decide)
    [.leaf .simpleString [80, 79, 78, 71], .leaf .simpleString [80, 79, 78, 71]] (by decide)
    (by decide) rfl [] parse_nil _ rfl

end Aedis.Machine
