import Mathlib.Algebra.BigOperators.Group.List
import Mathlib.Data.String.Basic
import Mathlib.Algebra.Order.Ring.Nat

/-! The state `connection` keeps for its request queue (`connection.hpp`): the members `cfg_`,
`socket_`, `write_buffer_`, `cmds_` and `reqs_`, the `req_info` entries of `reqs_`, and the
notifications the member functions send to timers and channels. -/

namespace Aedis

/-- The part of `resp3::request` the queue reads.  `request.hpp` is outside the sources:
`payload` and `size` are the accessors `connection` calls, the flags those of the request's
config, and `commands` the names of the commands in the order they were pushed. -/
structure Request where
  payload : String
  size : Nat
  commands : List String
  coalesce : Bool
  closeOnRunCompletion : Bool
  helloWithPriority : Bool
  deriving DecidableEq, Repr

/-- An entry of `reqs_`, a `req_info` behind a `shared_ptr`.  `id` stands for the pointer: it
names the entry and its `timer`, on which the `async_exec` owning the entry waits. -/
structure ReqInfo where
  id : Nat
  req : Request
  cmds : Nat
  stop : Bool
  written : Bool
  deriving DecidableEq, Repr

namespace ReqInfo

/-- Modelled from the spec: the entry `async_exec` builds before it calls `add_request_info`
(`exec_op` is outside the sources): not written, not stopped, and waiting for one reply per
command of its request. -/
def fresh (id : Nat) (req : Request) : ReqInfo := ⟨id, req, req.size, false, false⟩

def expected (e : ReqInfo) : Nat := if e.written then e.cmds else 0

end ReqInfo

def expectedReplies (reqs : List ReqInfo) : Nat := (reqs.map ReqInfo.expected).sum

@[simp] theorem expectedReplies_nil : expectedReplies [] = 0 := rfl

@[simp] theorem expectedReplies_cons (e : ReqInfo) (reqs : List ReqInfo) :
    expectedReplies (e :: reqs) = e.expected + expectedReplies reqs := List.sum_cons

@[simp] theorem expectedReplies_append (l l' : List ReqInfo) :
    expectedReplies (l ++ l') = expectedReplies l + expectedReplies l' := by
  simp [expectedReplies]

structure Config where
  coalesceRequests : Bool := true
  deriving DecidableEq, Repr

inductive Operation
  | exec | run | receiveEvent | receivePush
  deriving DecidableEq, Repr

inductive Signal
  /-- `e->timer.cancel_one()` on the timer of entry `e`, as `e` is when it is signalled. -/
  | cancelOne (e : ReqInfo)
  /-- `e->timer.cancel()`. -/
  | cancel (e : ReqInfo)
  | writerTimer | readTimer | checkIdleTimer | pingTimer
  | eventChannel | pushChannel
  deriving DecidableEq, Repr

def Signal.wakes : Signal → Option ReqInfo
  | cancelOne e | cancel e => some e
  | _ => none

theorem Signal.filterMap_wakes_map {g : ReqInfo → Signal} {f : ReqInfo → ReqInfo}
    (h : ∀ e, (g e).wakes = some (f e)) (l : List ReqInfo) :
    (l.map g).filterMap Signal.wakes = l.map f := by
  induction l with
  | nil => rfl
  | cons e l ih => simp [h, ih]

structure Connection where
  cfg : Config
  /-- `socket_`: `none` while it is null, otherwise whether it is open. -/
  socket : Option Bool
  writeBuffer : String
  cmds : Nat
  reqs : List ReqInfo
  deriving DecidableEq, Repr

namespace Connection

/-- The queue part of a newly constructed connection: `reqs_` and `write_buffer_` empty and
`cmds_ = 0`, whatever the config and the socket. -/
def Fresh (c : Connection) : Prop := c.reqs = [] ∧ c.writeBuffer = "" ∧ c.cmds = 0

def init (cfg : Config := {}) : Connection := ⟨cfg, none, "", 0, []⟩

theorem init_fresh (cfg : Config) : (init cfg).Fresh := ⟨rfl, rfl, rfl⟩

end Connection

structure Outcome (α : Type) where
  conn : Connection
  signals : List Signal
  ret : α

def Outcome.woken (o : Outcome α) : List ReqInfo := o.signals.filterMap Signal.wakes

end Aedis
