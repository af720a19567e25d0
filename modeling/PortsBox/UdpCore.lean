import PortsBox.RuntimeCore

/-!
# One UDP relay

The shard loop of one socket, the `open_session` tasks it spawns and the
`relay_downstream` task each of them turns into. They share the session map,
which only changes under its lock, so one change of it is one step. What the
quota, the target pool, the sockets and the clock decide is part of the step:
every step may go every way. Left out is what none of these properties can see:
the bytes going down to the client and the health of the targets.
-/

set_option autoImplicit false

namespace PortsBox

def maxPendingPackets : Nat := 32
def maxSessions : Nat := 4096

/-- A received packet. `Pending` is its last two fields; `number` counts arrivals. -/
structure Packet where
  number : Nat
  peer : SocketAddr
  data : List UInt8
  stride : Nat
  deriving DecidableEq, Repr

/-- A session is known by the task that opened it: each task opens one at most. -/
inductive Slot where
  | opening (pending : List Packet)
  | opened (session : Nat)
  deriving DecidableEq, Repr

def Slot.isOpening : Slot → Bool
  | opening _ => true
  | opened _ => false

/-- Where a task is, from its spawn in `dispatch` to its end. -/
inductive Stage where
  /-- In `connect_active`. -/
  | connecting
  /-- Forwarding what it took from its slot; with nothing left, about to look again. -/
  | sending (rest : List Packet)
  /-- Connecting or a send failed, the slot is still there. -/
  | failed
  /-- In the loop of `relay_downstream`. -/
  | relaying
  /-- Out of the loop, about to `remove_open`. -/
  | closing
  | ended
  deriving DecidableEq, Repr

/-- The stages that have an `Opening` slot. -/
def Stage.isOpening : Stage → Bool
  | connecting | sending _ | failed => true
  | relaying | closing | ended => false

/-- The stages of a `relay_downstream` that has not ended. -/
def Stage.isRelaying : Stage → Bool
  | relaying | closing => true
  | connecting | sending _ | failed | ended => false

/-- What it has taken from its slot and not forwarded. -/
def Stage.batch : Stage → List Packet
  | sending rest => rest
  | connecting | failed | relaying | closing | ended => []

structure SessionTask where
  peer : SocketAddr
  stage : Stage
  deriving DecidableEq, Repr

/-- Where the shard loop is. -/
inductive ShardAt where
  /-- Between two calls of `dispatch`, or in `recv` when nothing is left. -/
  | dispatching (rest : List Packet)
  /-- In `forward`, with a clone of the session. -/
  | forwarding (session : Nat) (packet : Packet) (rest : List Packet)
  /-- The send failed, about to `remove_open`. -/
  | shedding (session : Nat) (packet : Packet) (rest : List Packet)
  | stopped
  deriving DecidableEq, Repr

/-- What `forward` ends with. -/
inductive Forwarded where
  /-- `try_consume` said no. -/
  | refused
  | sent
  | failed
  deriving DecidableEq, Repr

/-- A call of `send` on a session's upstream socket. -/
structure Send where
  session : Nat
  packet : Packet
  ok : Bool
  deriving DecidableEq, Repr

/-- What has happened, for the properties to speak of; no code reads it. -/
structure History where
  arrivals : Nat := 0
  dispatched : List Packet := []
  /-- The packets that `dispatch` met an `Opening` slot for, or made one, with its task. -/
  offered : List (Nat × Packet) := []
  /-- Those it did not queue, with the length of the queue. -/
  overflowed : List (Packet × Nat) := []
  refused : List Packet := []
  sends : List Send := []
  /-- The tasks that failed before their session was open. -/
  failed : List Nat := []
  deriving Repr

structure Relay where
  maxSessions : Nat
  sessions : HashMap SocketAddr Slot := ∅
  tasks : List SessionTask := []
  shard : ShardAt := .dispatching []
  history : History := {}

namespace Relay

/-- The task that opens a peer's session. -/
def opener (r : Relay) (peer : SocketAddr) : Nat :=
  r.tasks.findIdx fun task => task.peer == peer && task.stage.isOpening

def setStage (r : Relay) (i : Nat) (peer : SocketAddr) (stage : Stage) : Relay :=
  { r with tasks := r.tasks.set i { peer, stage } }

/-! ## `dispatch`, `forward` and `remove_open` -/

/-- The queue after `pending.push`, when there is room. -/
def pushPending (pending : List Packet) (packet : Packet) : List Packet :=
  if pending.length < maxPendingPackets then pending ++ [packet] else pending

/-- What a packet adds to the history as `dispatch` looks at the slot of its peer. -/
def note (r : Relay) (packet : Packet) : History :=
  let h := { r.history with dispatched := r.history.dispatched ++ [packet] }
  match r.sessions.lookup packet.peer with
  | some (.opened _) => h
  | some (.opening pending) =>
    let h := { h with offered := h.offered ++ [(r.opener packet.peer, packet)] }
    if pending.length < maxPendingPackets then h
    else { h with overflowed := h.overflowed ++ [(packet, pending.length)] }
  | none =>
    if r.sessions.entries.length ≥ r.maxSessions then h
    else { h with offered := h.offered ++ [(r.tasks.length, packet)] }

/-- The part of `dispatch` under the lock. -/
def dispatch (r : Relay) (packet : Packet) (rest : List Packet) : Relay :=
  let r := { r with history := r.note packet, shard := .dispatching rest }
  match r.sessions.lookup packet.peer with
  | some (.opened session) => { r with shard := .forwarding session packet rest }
  | some (.opening pending) =>
    { r with sessions := r.sessions.insert packet.peer (.opening (pushPending pending packet)) }
  | none =>
    if r.sessions.entries.length ≥ r.maxSessions then r
    else
      { r with
        sessions := r.sessions.insert packet.peer (.opening [packet])
        tasks := r.tasks ++ [{ peer := packet.peer, stage := .connecting }] }

def forward (h : History) (session : Nat) (packet : Packet) : Forwarded → History
  | .refused => { h with refused := h.refused ++ [packet] }
  | .sent => { h with sends := h.sends ++ [{ session, packet, ok := true }] }
  | .failed => { h with sends := h.sends ++ [{ session, packet, ok := false }] }

def removeOpen (r : Relay) (peer : SocketAddr) (session : Nat) : Relay :=
  if r.sessions.lookup peer = some (.opened session) then
    { r with sessions := r.sessions.erase peer }
  else r

/-! ## Steps -/

inductive Step where
  /-- `recv` in the shard loop, and the check of the quota. -/
  | recv (batch : List (SocketAddr × List UInt8 × Nat)) (exhausted : Bool)
  | dispatch
  | forward (outcome : Forwarded)
  | shed
  | stop
  /-- `connect_active` returns. -/
  | connected (task : Nat) (ok : Bool)
  /-- The top of the loop of `open_session`. -/
  | collect (task : Nat)
  | flush (task : Nat) (outcome : Forwarded)
  /-- The `remove` after a failure. -/
  | giveUp (task : Nat)
  /-- `relay_downstream` leaves its loop: idle, exhausted, stopped, target moved or an error. -/
  | finish (task : Nat)
  | close (task : Nat)
  deriving DecidableEq, Repr

/-- The task that takes the step; the shard loop has none. -/
def Step.task : Step → Option Nat
  | .connected i _ | .collect i | .flush i _ | .giveUp i | .finish i | .close i => some i
  | _ => none

/-- The packets of a batch, with their arrival numbers. -/
def numbered (first : Nat) : List (SocketAddr × List UInt8 × Nat) → List Packet
  | [] => []
  | (peer, data, stride) :: rest =>
    { number := first, peer, data, stride } :: numbered (first + 1) rest

def shardStep (r : Relay) : Step → Option Relay
  | .recv batch exhausted =>
    match r.shard with
    | .dispatching [] =>
      some { r with
        shard := .dispatching (if exhausted then [] else numbered r.history.arrivals batch)
        history.arrivals := r.history.arrivals + batch.length }
    | _ => none
  | .dispatch =>
    match r.shard with
    | .dispatching (packet :: rest) => some (r.dispatch packet rest)
    | _ => none
  | .forward outcome =>
    match r.shard with
    | .forwarding session packet rest =>
      some { r with
        history := forward r.history session packet outcome
        shard := if outcome = .failed then .shedding session packet rest else .dispatching rest }
    | _ => none
  | .shed =>
    match r.shard with
    | .shedding session packet rest =>
      some { r.removeOpen packet.peer session with shard := .dispatching rest }
    | _ => none
  | .stop => some { r with shard := .stopped }
  | _ => none

def taskStep (r : Relay) (i : Nat) (task : SessionTask) : Step → Option Relay
  | .connected _ ok =>
    match task.stage with
    | .connecting =>
      if ok then some (r.setStage i task.peer (.sending []))
      else
        some { r.setStage i task.peer .failed with
          history.failed := r.history.failed ++ [i] }
    | _ => none
  | .collect _ =>
    match task.stage with
    | .sending [] =>
      match r.sessions.lookup task.peer with
      | some (.opening (packet :: pending)) =>
        some { r.setStage i task.peer (.sending (packet :: pending)) with
          sessions := r.sessions.insert task.peer (.opening []) }
      | _ =>
        some { r.setStage i task.peer .relaying with
          sessions := r.sessions.insert task.peer (.opened i) }
    | _ => none
  | .flush _ outcome =>
    match task.stage with
    | .sending (packet :: rest) =>
      let h := forward r.history i packet outcome
      if outcome = .failed then
        some { r.setStage i task.peer .failed with history := { h with failed := h.failed ++ [i] } }
      else some { r.setStage i task.peer (.sending rest) with history := h }
    | _ => none
  | .giveUp _ =>
    match task.stage with
    | .failed =>
      some { r.setStage i task.peer .ended with sessions := r.sessions.erase task.peer }
    | _ => none
  | .finish _ =>
    match task.stage with
    | .relaying => some (r.setStage i task.peer .closing)
    | _ => none
  | .close _ =>
    match task.stage with
    | .closing => some ((r.removeOpen task.peer i).setStage i task.peer .ended)
    | _ => none
  | _ => none

def step (r : Relay) (step : Step) : Option Relay :=
  match step.task with
  | none => r.shardStep step
  | some i => (r.tasks[i]?).bind fun task => r.taskStep i task step

/-- Several steps in a row. -/
def steps (r : Relay) : List Step → Option Relay
  | [] => some r
  | step :: rest => (r.step step).bind fun next => next.steps rest

/-- The relays that any order of steps reaches. -/
inductive Reachable (maxSessions : Nat) : Relay → Prop
  | start : Reachable maxSessions { maxSessions }
  | step {r next : Relay} {step : Step} (before : Reachable maxSessions r)
      (hstep : r.step step = some next) : Reachable maxSessions next

/-! ## What the properties speak of -/

/-- The slots being opened and the upstream sessions whose downstream task has not ended. -/
def live (r : Relay) : Nat :=
  (r.sessions.entries.countP fun entry => entry.2.isOpening) +
    r.tasks.countP fun task => task.stage.isRelaying

/-- A task that is opening the session of a peer. -/
def Opens (r : Relay) (i : Nat) (peer : SocketAddr) : Prop :=
  ∃ stage, r.tasks[i]? = some { peer, stage } ∧ stage.isOpening = true

def sendsOf (r : Relay) (session : Nat) : List Packet :=
  (r.history.sends.filter fun send => send.session == session).map Send.packet

def dispatchedFrom (r : Relay) (peer : SocketAddr) : List Packet :=
  r.history.dispatched.filter fun packet => packet.peer == peer

/-- The packets queued in a peer's slot. -/
def queueOf (r : Relay) (peer : SocketAddr) : List Packet :=
  match r.sessions.lookup peer with
  | some (.opening pending) => pending
  | _ => []

/-- The packets that a task has taken from its slot, then those still in it. -/
def held (r : Relay) (i : Nat) : List Packet :=
  match r.tasks[i]? with
  | some task => task.stage.batch ++ if task.stage.isOpening then r.queueOf task.peer else []
  | none => []

/-- The packet that the shard loop is forwarding for a session. -/
def inFlight (r : Relay) (i : Nat) : List Packet :=
  match r.shard with
  | .forwarding session packet _ => if session = i then [packet] else []
  | _ => []

end Relay

/-! ## The listener -/

/-- `max_sessions.div_ceil(shards)` -/
def perShard (maxSessions shards : Nat) : Nat :=
  (maxSessions + max shards 1 - 1) / max shards 1

/-- The relays of one address, one a socket. -/
structure Listener where
  shards : List Relay

namespace Listener

/-- What `serve_with_limit` starts. -/
def serve (shards maxSessions : Nat) : Listener where
  shards := List.replicate shards { maxSessions := perShard maxSessions shards }

def step (l : Listener) (k : Nat) (step : Relay.Step) : Option Listener :=
  (l.shards[k]?).bind fun r => (r.step step).map fun next => { shards := l.shards.set k next }

def live (l : Listener) : Nat := (l.shards.map Relay.live).sum

end Listener

end PortsBox
