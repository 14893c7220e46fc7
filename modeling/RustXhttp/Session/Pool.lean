import RustXhttp.Session.Reorder

/-!
# Uplinks that share one budget (`src/buffer.rs`, `src/session/reorder.rs`)

`Session.Reorder` runs one uplink in the stretches of code between two await points. Here any
number of uplinks share one `MemoryBudget`, and every access of its atomic counter is a step of its
own: the load of `try_reserve`, each turn of its compare-and-swap loop, the subtraction of a
`Reservation::drop`. Between two of them, other sessions and the reader may run.

* A push is a task with a program counter (`Pc`). It holds the lock of its uplink from `load` on.
* An item that is discarded (read to its end, refused by the channel, cancelled, cleared) becomes a
  task that drops it (`Pc.drop`), so that other tasks may run before its reservation is released.
* `made` and `released` are the history: the payload of each reservation, in the order of their
  numbers, and the numbers of the reservations that were released.
-/

namespace Xhttp.Budget

open Reorder (Config Push PushResult MemoryBudget)

/-- `Reservation`, with the number that tells it from the others. -/
structure Reservation where
  id : Nat
  bytes : Nat
  deriving DecidableEq, Repr

/-- `BudgetedBytes` of a sink with a budget. -/
structure BudgetedBytes where
  bytes : Bytes
  reservation : Reservation
  deriving DecidableEq, Repr

/-- `Shared`, `State`, the channel and `UplinkReader` of one session. -/
structure Line where
  nextSeq : Nat
  sequenceExhausted : Bool
  pending : AList fun _ : Nat => BudgetedBytes
  pendingBytes : Nat
  pendingCount : Nat
  /-- A push holds the lock of `State`. -/
  locked : Bool
  /-- `Shared` exists. -/
  sinkAlive : Bool
  /-- `tx` is the sender of the reader's channel. -/
  txOpen : Bool
  queue : List BudgetedBytes
  readerAlive : Bool
  cur : Option BudgetedBytes
  deriving DecidableEq

/-- `channel_with_budget`. -/
def Line.new : Line where
  nextSeq := 0
  sequenceExhausted := false
  pending := ∅
  pendingBytes := 0
  pendingCount := 0
  locked := false
  sinkAlive := true
  txOpen := true
  queue := []
  readerAlive := true
  cur := none

/-- Where a task is: the step that it takes next. `k` is its session. -/
inductive Pc where
  -- `push`
  | lock (k : Nat) (p : Push)
  | load (k : Nat) (p : Push)
  | cas (k : Nat) (p : Push) (cur : Nat)
  | reserved (k : Nat) (p : Push) (item : BudgetedBytes)
  | send (k : Nat) (item : BudgetedBytes)
  | drain (k : Nat)
  | returned (r : PushResult)
  | cancelled
  -- the drop of an item
  | drop (item : BudgetedBytes)
  | dropped
  deriving DecidableEq, Repr

/-- The session whose `Shared` the task refers to. -/
def Pc.session : Pc → Option Nat
  | .lock k _ | .load k _ | .cas k _ _ | .reserved k _ _ | .send k _ | .drain k => some k
  | .returned _ | .cancelled | .drop _ | .dropped => none

namespace Line

variable (cfg : Config) (line : Line)

/-- What a `push` finds out before it reserves its payload: `none` if it goes on. -/
def check (p : Push) : Option PushResult :=
  let seq := p.seq.toNat
  if line.sequenceExhausted ∨ seq < line.nextSeq then some .duplicate
  else if seq > line.nextSeq then
    if (line.pending.lookup seq).isSome then some .duplicate
    else if line.pending.keys.length ≥ max cfg.maxPackets 1 then some .tooManyPending
    else
      let nextBytes := line.pendingBytes + p.payload.length
      if nextBytes > u64Max then some .tooManyPendingBytes
      else if cfg.maxBytes ≠ 0 ∧ nextBytes > cfg.maxBytes then some .tooManyPendingBytes
      else none
  else none

/-- A send on `tx` finds its receiver. -/
def isOpen : Bool := line.txOpen && line.readerAlive

/-- The bounded channel has room. -/
def hasRoom : Bool := line.queue.length < max cfg.channelDepth 1

/-- `st.pending.insert(seq, payload)`, with its counters. -/
def insert (seq : Nat) (item : BudgetedBytes) : Line :=
  { line with
    pendingBytes := line.pendingBytes + item.bytes.length
    pendingCount := wrappingAdd line.pendingCount 1
    pending := line.pending.insert seq item
    locked := false }

/-- `st.pending.remove(&nxt)` found `b`. -/
def takeFollower (b : BudgetedBytes) : Line :=
  { line with
    pending := line.pending.erase line.nextSeq
    pendingBytes := wrappingSub line.pendingBytes b.bytes.length
    pendingCount := wrappingSub line.pendingCount 1 }

/-- The sequence number after a `send_in_order`: the push goes on with its followers, or returns
after the last number. -/
def advance (k : Nat) : Line × Pc :=
  if line.nextSeq = u64Max then
    ({ line with sequenceExhausted := true, locked := false }, .returned .accepted)
  else ({ line with nextSeq := line.nextSeq + 1 }, .drain k)

/-- The items in `pending`. -/
def pendingItems : List BudgetedBytes := line.pending.entries.map Sigma.snd

/-- At most `n` bytes of the chunk `b` go to the reader; what is left becomes the current chunk. -/
def putSlice (b : BudgetedBytes) (n : Nat) : Line × List BudgetedBytes :=
  let b := { b with bytes := b.bytes.drop n }
  if b.bytes = [] then ({ line with cur := none }, [b]) else ({ line with cur := some b }, [])

/-- The next chunk of the channel becomes the current one. -/
def fetch (n : Nat) : Line × List BudgetedBytes :=
  match line.queue with
  | [] => (line, [])
  | b :: rest =>
    let r := { line with queue := rest }.putSlice b n
    (r.1, line.cur.toList ++ r.2)

/-- `UplinkReader::poll_read` with a buffer of `n` bytes, and the items that it drops. -/
def pollRead (n : Nat) : Line × List BudgetedBytes :=
  match line.cur with
  | some b => if b.bytes = [] then line.fetch n else line.putSlice b n
  | none => line.fetch n

/-- `UplinkSink::close`: without effect while a push holds the lock. -/
def close : Line × List BudgetedBytes :=
  if line.locked then (line, [])
  else ({ line with txOpen := false, pending := ∅ }, line.pendingItems)

/-- `Shared` is dropped, with `pending` and `tx`. -/
def dropSink : Line × List BudgetedBytes :=
  ({ line with sinkAlive := false, txOpen := false, pending := ∅ }, line.pendingItems)

/-- The reader is dropped, with its current chunk and what is left in the channel. -/
def dropReader : Line × List BudgetedBytes :=
  ({ line with readerAlive := false, queue := [], cur := none }, line.queue ++ line.cur.toList)

end Line

/-- The sessions of one budget, and the tasks. -/
structure Pool where
  budget : MemoryBudget
  lines : List Line
  tasks : List Pc
  made : List Bytes
  released : List Nat
  deriving DecidableEq

/-- `MemoryBudget::new`. -/
def Pool.new (limit : Nat) : Pool where
  budget := ⟨0, limit⟩
  lines := []
  tasks := []
  made := []
  released := []

namespace Pool

variable (cfg : Config) (s : Pool)

/-- Session `k` and task `i` have gone on, and the items `gone` are discarded. -/
def update (k i : Nat) (line : Line) (pc : Pc) (gone : List BudgetedBytes) : Pool :=
  { s with lines := s.lines.set k line, tasks := s.tasks.set i pc ++ gone.map Pc.drop }

/-- Session `k` has gone on, and the items `gone` are discarded. -/
def updateLine (k : Nat) (r : Line × List BudgetedBytes) : Pool :=
  { s with lines := s.lines.set k r.1, tasks := s.tasks ++ r.2.map Pc.drop }

def setPc (i : Nat) (pc : Pc) : Pool := { s with tasks := s.tasks.set i pc }

/-- `try_reserve` has succeeded, and left `used` in the counter: the push has its payload in a
reservation. -/
def reserve (i k : Nat) (p : Push) (used : Nat) : Pool :=
  let item : BudgetedBytes := ⟨p.payload, ⟨s.made.length, p.payload.length⟩⟩
  { s with
    budget := { s.budget with used := used }
    made := s.made ++ [p.payload]
    tasks := s.tasks.set i (.reserved k p item) }

/-- The next step of task `i`, which is at `pc`; `none` while it waits. -/
def runTask (i : Nat) : Pc → Option Pool
  | .lock k p =>
    (s.lines[k]?).bind fun line =>
      if line.locked then none
      else
        match line.check cfg p with
        | some r => some (s.setPc i (.returned r))
        | none => some (s.update k i { line with locked := true } (.load k p) [])
  | .load k p =>
    if s.budget.limit ≠ 0 then some (s.setPc i (.cas k p s.budget.used))
    else some (s.reserve i k p (wrappingAdd s.budget.used p.payload.length))
  | .cas k p cur =>
    (s.lines[k]?).map fun line =>
      let next := saturatingAdd cur p.payload.length
      if next > s.budget.limit then
        s.update k i { line with locked := false } (.returned .globalBufferExceeded) []
      else if s.budget.used = cur then s.reserve i k p next
      else s.setPc i (.cas k p s.budget.used)
  | .reserved k p item =>
    (s.lines[k]?).map fun line =>
      if p.seq.toNat > line.nextSeq then
        s.update k i (line.insert p.seq.toNat item) (.returned .accepted) []
      else s.setPc i (.send k item)
  | .send k item =>
    (s.lines[k]?).bind fun line =>
      if item.bytes = [] then
        let r := line.advance k
        some (s.update k i r.1 r.2 [item])
      else if ¬ line.isOpen then
        some (s.update k i { line with locked := false } (.returned .closed) [item])
      else if line.hasRoom cfg then
        let r := { line with queue := line.queue ++ [item] }.advance k
        some (s.update k i r.1 r.2 [])
      else none
  | .drain k =>
    (s.lines[k]?).map fun line =>
      match line.pending.lookup line.nextSeq with
      | none => s.update k i { line with locked := false } (.returned .accepted) []
      | some b => s.update k i (line.takeFollower b) (.send k b) []
  | .drop item =>
    some { s.setPc i .dropped with
      budget := s.budget.release item.reservation.bytes
      released := s.released ++ [item.reservation.id] }
  | .returned _ | .cancelled | .dropped => none

inductive PoolAction where
  | openSession
  | call (k : Nat) (p : Push)
  | run (i : Nat)
  | spurious (i : Nat)
  | cancel (i : Nat)
  | read (k n : Nat)
  | close (k : Nat)
  | dropSink (k : Nat)
  | dropReader (k : Nat)
  deriving DecidableEq, Repr

def step (a : PoolAction) : Option Pool :=
  match a with
  | .openSession => some { s with lines := s.lines ++ [.new] }
  | .call k p =>
    if (s.lines[k]?).any Line.sinkAlive then some { s with tasks := s.tasks ++ [Pc.lock k p] }
    else none
  | .run i => (s.tasks[i]?).bind fun pc => s.runTask cfg i pc
  -- `compare_exchange_weak` may fail although the value is the expected one
  | .spurious i =>
    match s.tasks[i]? with
    | some (.cas k p cur) =>
      if saturatingAdd cur p.payload.length > s.budget.limit then none
      else some (s.setPc i (.cas k p s.budget.used))
    | _ => none
  -- the future of a push is dropped at an await point
  | .cancel i =>
    match s.tasks[i]? with
    | some (.lock _ _) => some (s.setPc i .cancelled)
    | some (.send k item) =>
      -- an empty payload is not sent
      if item.bytes = [] then none
      else
        (s.lines[k]?).map fun line => s.update k i { line with locked := false } .cancelled [item]
    | _ => none
  | .read k n =>
    (s.lines[k]?).bind fun line =>
      if line.readerAlive then some (s.updateLine k (line.pollRead n)) else none
  | .close k =>
    (s.lines[k]?).bind fun line =>
      if line.sinkAlive then some (s.updateLine k line.close) else none
  | .dropSink k =>
    (s.lines[k]?).bind fun line =>
      if line.sinkAlive ∧ s.tasks.all (fun pc => pc.session ≠ some k) then
        some (s.updateLine k line.dropSink)
      else none
  | .dropReader k =>
    (s.lines[k]?).bind fun line =>
      if line.readerAlive then some (s.updateLine k line.dropReader) else none

end Pool

/-- The sessions of a budget of `limit` bytes under every schedule. -/
def pool (cfg : Config) (limit : Nat) : Machine Pool Pool.PoolAction where
  init := .new limit
  step := Pool.step cfg

end Xhttp.Budget
