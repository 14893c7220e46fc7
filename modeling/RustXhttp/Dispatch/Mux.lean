import RustXhttp.Dispatch.Writer
import RustXhttp.Dispatch.Xudp
import RustXhttp.Lib.Machine
import Mathlib.Data.List.AList

/-!
# The XUDP mux (`src/dispatcher.rs`, `serve_xudp` and `spawn_association`)

One loop reads the frames of the client. A NEW frame opens an association: a channel of 32
messages, a socket, and a task that takes messages out of the channel and sends them, or receives
datagrams and writes them to the client. The loop keeps the senders of the channels in a map that
only NEW and END frames edit. A task ends by itself when it was idle for too long or when its
socket or a resolution fails; its receiver is dropped with it, and the map is not told.

`mux` is the loop with all of its tasks, over every interleaving: the client's frames, the
timers, the failures and the scheduling of the tasks are the actions.
-/

namespace Xhttp.Xudp

open Xhttp.Dispatch (SendError)

structure AssociationMessage where
  target : Target
  payload : Bytes
  deriving DecidableEq

/-- The errors of `DispatchError` with which the loop or a task ends. -/
inductive MuxError where
  | xudp (e : FrameError)
  | io
  | send (e : SendError)
  | missingAddress
  | udpIdle
  | associationClosed
  | unknownAssociation (id : UInt16)
  | unsupportedXudpStatus (status : UInt8)
  | shuttingDown
  deriving DecidableEq, Repr

/-! ## Associations -/

/-- Where a task is: not spawned yet (`spawn_association` resolves the target and binds the
socket), in its `select!`, in one of the arms, or ended. -/
inductive AssociationTask where
  | opening
  | selecting
  | sending (m : AssociationMessage)
  | replying (f : Frame)
  | ended (e : MuxError)
  deriving DecidableEq

structure Association where
  sessionId : UInt16
  /-- The messages in the channel. -/
  queue : List AssociationMessage
  task : AssociationTask
  /-- The messages that the socket has sent. -/
  sent : List AssociationMessage
  deriving DecidableEq

namespace AssociationTask

/-- The receiver of the channel exists. -/
def alive : AssociationTask → Bool
  | .ended _ => false
  | _ => true

/-- The message that the task has taken out of the channel and not sent yet. -/
def held : AssociationTask → List AssociationMessage
  | .sending m => [m]
  | _ => []

/-- The errors with which the task can end where it is. `closed` tells whether `rx.recv()` would
return `None`. The timer is around both arms of the `select!`. -/
def mayEnd (closed : Bool) : AssociationTask → MuxError → Bool
  | .opening, _ => false
  | .ended _, _ => false
  | _, .udpIdle => true
  | .selecting, .io => true
  | .selecting, .associationClosed => closed
  | .sending _, .io => true
  | .sending _, .missingAddress => true
  | .replying _, .send _ => true
  | _, _ => false

end AssociationTask

namespace Association

variable (a : Association)

def alive : Bool := a.task.alive

/-- The messages that the association has got, in order. -/
def received : List AssociationMessage := a.sent ++ a.task.held ++ a.queue

/-- `tokio::spawn`. -/
def spawn : Option Association :=
  match a.task with
  | .opening => some { a with task := .selecting }
  | _ => none

/-- `message = rx.recv()`. -/
def recv : Option Association :=
  match a.task, a.queue with
  | .selecting, m :: rest => some { a with task := .sending m, queue := rest }
  | _, _ => none

/-- The message is resolved and sent. -/
def sentOne : Option Association :=
  match a.task with
  | .sending m => some { a with task := .selecting, sent := a.sent ++ [m] }
  | _ => none

/-- `received = socket.recv_from(..)`: the frame for the client. -/
def reply (source : Target) (payload : Bytes) : Frame where
  sessionId := a.sessionId
  status := statusKeep
  option := optionData
  target := some source
  globalId := none
  payload := payload.take 65535

def recvFrom (source : Target) (payload : Bytes) : Option Association :=
  match a.task with
  | .selecting => some { a with task := .replying (a.reply source payload) }
  | _ => none

def replied : Option (Association × Frame) :=
  match a.task with
  | .replying f => some ({ a with task := .selecting }, f)
  | _ => none

/-- The task returns, and the receiver is dropped with what is in the channel. -/
def finish (e : MuxError) : Association := { a with task := .ended e, queue := [] }

end Association

/-! ## The loop -/

/-- Where the loop is: in `read_frame`; in `acquire_owned` and then in `spawn_association` for a
NEW frame; in `tx.send` to the association `k`; or returned. -/
inductive MuxLoop where
  | reading
  | acquiring (f : Frame) (target : Target)
  | opening (f : Frame) (target : Target) (k : Nat)
  | sending (k : Nat) (m : AssociationMessage)
  | ended (e : MuxError)
  deriving DecidableEq

structure Mux where
  /-- The map of the senders: the association that the sender of an id belongs to. -/
  associations : AList fun _ : UInt16 => Nat
  /-- The associations opened so far. -/
  tasks : List Association
  loop : MuxLoop
  /-- The frames read so far. -/
  frames : List Frame
  /-- The frames written to the client. -/
  downlink : List Frame

/-- `readFails e`: `read_frame` fails, and `idle`: its timer fires. `acquired` and `closed`: the
semaphore of the targets. `opened` and `openFails e`: `spawn_association` returns. `send`: a poll of
`tx.send`. The others are moves of the task of the association `k`. -/
inductive MuxAction where
  | frame (f : WireFrame)
  | readFails (e : FrameError)
  | idle
  | acquired
  | closed
  | opened
  | openFails (e : MuxError)
  | send
  | recv (k : Nat)
  | sent (k : Nat)
  | recvFrom (k : Nat) (source : Target) (payload : Bytes)
  | replied (k : Nat)
  | taskEnds (k : Nat) (e : MuxError)

namespace Mux

variable (s : Mux)

/-- The loop returns, and the map is dropped. -/
def finish (e : MuxError) : Mux := { s with loop := .ended e, associations := ∅ }

/-- The sender of the association `k` that the loop holds besides the map. -/
def loopHolds (k : Nat) : Bool :=
  match s.loop with
  | .opening _ _ k' => k' == k
  | .sending k' _ => k' == k
  | _ => false

def hasSender (k : Nat) : Bool := s.associations.entries.any (·.2 == k) || s.loopHolds k

def alive (k : Nat) : Bool := (s.tasks[k]?).any Association.alive

/-- The `match` on the frame. -/
def dispatch (f : Frame) : Mux :=
  if f.status = statusNew then
    match f.target with
    | none => s.finish .missingAddress
    | some target => { s with loop := .acquiring f target }
  else if f.status = statusKeep then
    if f.hasData = false then s
    else
      match s.associations.lookup f.sessionId with
      | none => s.finish (.unknownAssociation f.sessionId)
      | some k =>
        match f.target with
        | none => s.finish .missingAddress
        | some target => { s with loop := .sending k ⟨target, f.payload⟩ }
  else if f.status = statusEnd then
    { s with associations := s.associations.erase f.sessionId }
  else if f.status = statusKeepAlive then s
  else s.finish (.unsupportedXudpStatus f.status)

/-- A frame is read and dispatched. -/
def onFrame (f : Frame) : Mux := dispatch { s with frames := s.frames ++ [f] } f

/-- The channel of a NEW association, whose sender replaces that of an older one. -/
def insert (f : Frame) (target : Target) : Mux :=
  { s with
    associations := s.associations.insert f.sessionId s.tasks.length
    tasks := s.tasks ++ [⟨f.sessionId, [], .opening, []⟩]
    loop := .opening f target s.tasks.length }

/-- The association `k` becomes `a`. -/
def setTask (k : Nat) (a : Association) : Mux := { s with tasks := s.tasks.set k a }

/-- A poll of `tx.send(m)`: an error if the receiver is gone, and no progress if the channel is
full. -/
def pollSend (k : Nat) (m : AssociationMessage) : Option Mux :=
  match s.tasks[k]? with
  | none => none
  | some a =>
    if a.alive = false then some (s.finish .associationClosed)
    else if a.queue.length < 32 then
      some { s.setTask k { a with queue := a.queue ++ [m] } with loop := .reading }
    else none

/-- A move of the task of the association `k`. -/
def moveTask (k : Nat) (f : Association → Option Association) : Option Mux :=
  (s.tasks[k]?).bind fun a => (f a).map (s.setTask k)

def step (act : MuxAction) : Option Mux :=
  match act, s.loop with
  | .frame f, .reading => some (s.onFrame f.val)
  | .readFails e, .reading => some (s.finish (.xudp e))
  | .idle, .reading => some (s.finish .udpIdle)
  | .acquired, .acquiring f target => some (s.insert f target)
  | .closed, .acquiring _ _ => some (s.finish .shuttingDown)
  | .opened, .opening f target k =>
    (s.moveTask k Association.spawn).map fun s' =>
      { s' with loop := if f.hasData then .sending k ⟨target, f.payload⟩ else .reading }
  | .openFails e, .opening _ _ k =>
    -- `resolve_target` or the bind of the socket
    if e = .io ∨ e = .missingAddress then
      (s.tasks[k]?).map fun a => (s.setTask k (a.finish e)).finish e
    else none
  | .send, .sending k m => s.pollSend k m
  | .recv k, _ => s.moveTask k Association.recv
  | .sent k, _ => s.moveTask k Association.sentOne
  | .recvFrom k source payload, _ => s.moveTask k (·.recvFrom source payload)
  | .replied k, _ =>
    (s.tasks[k]?).bind fun a => a.replied.map fun (a', f) =>
      { s.setTask k a' with downlink := s.downlink ++ [f] }
  | .taskEnds k e, _ =>
    s.moveTask k fun a =>
      if a.task.mayEnd (a.queue.isEmpty && !s.hasSender k) e then some (a.finish e) else none
  | _, _ => none

end Mux

/-- `serve_xudp`. -/
def mux : Machine Mux MuxAction where
  init := ⟨∅, [], .reading, [], []⟩
  step := Mux.step

end Xhttp.Xudp
