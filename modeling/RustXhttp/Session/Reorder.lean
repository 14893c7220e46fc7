import RustXhttp.Lib.Bytes
import RustXhttp.Lib.Machine
import RustXhttp.Lib.Word
import Mathlib.Data.List.AList

/-!
# The uplink reorder buffer (`src/session/reorder.rs`, `src/buffer.rs`)

`UplinkSink::push` is an `async fn` with two kinds of await points: the lock of `State`, and
`tx.send` on the bounded channel, which suspends only while the channel is full. The machine
`uplink` has one action for each stretch of code between two of them, so its runs are the
interleavings of any number of pushes with the reader:

* `call p`, `acquire i`: a push waits at the lock; the `i`-th waiting one takes it and runs to its
  next await point. It returns, or it is suspended in a send and holds the lock (`Holder`).
* `resume`: the suspended send completes, and the push runs on.
* `cancelWaiting i`, `cancelHolder`: the future of a push is dropped at its await point.
* `read n`, `close`, `dropReader`: `UplinkReader::poll_read` with a buffer of `n` bytes,
  `UplinkSink::close`, the end of the reader.
* `otherSessions bytes`: the other sessions now have `bytes` of the shared budget.

`returned`, `forwarded` and `read` are the history of a run: the pushes that returned, the packets
handed on in order, and the bytes read.
-/

namespace Xhttp.Reorder

/-- An entry that is erased, and the others. -/
theorem entries_perm_erase {β : Type} {m : AList fun _ : Nat => β} {k : Nat} {b : β}
    (h : m.lookup k = some b) : m.entries.Perm (⟨k, b⟩ :: (m.erase k).entries) := by
  have hmem : k ∈ m.entries.keys := AList.mem_keys.mp (AList.lookup_isSome.mp (by rw [h]; rfl))
  obtain ⟨b', l₁, l₂, hnot, heq, herase⟩ := List.exists_of_kerase hmem
  have hb : b' = b := by
    have hl : m.lookup k = some b' := by
      rw [AList.lookup, heq, List.dlookup_append]
      simp [List.dlookup_eq_none.mpr hnot]
    rw [h] at hl
    exact (Option.some.inj hl).symm
  subst hb
  have hentries : (m.erase k).entries = l₁ ++ l₂ := herase
  rw [heq, hentries]
  exact List.perm_middle

inductive PushResult where
  | accepted | duplicate | tooManyPending | tooManyPendingBytes | globalBufferExceeded | closed
  deriving DecidableEq, Repr

/-! ## The global budget -/

/-- `MemoryBudget`: the bytes in use and the limit (`0`: unlimited). -/
structure MemoryBudget where
  used : Nat
  limit : Nat
  deriving DecidableEq, Repr

/-- `try_reserve`, at the step of its compare-and-swap loop that decides it. -/
def MemoryBudget.tryReserve (b : MemoryBudget) (bytes : Nat) : Option MemoryBudget :=
  if b.limit ≠ 0 then
    let next := saturatingAdd b.used bytes
    if next > b.limit then none else some { b with used := next }
  else some { b with used := wrappingAdd b.used bytes }

/-- `Reservation::drop`. -/
def MemoryBudget.release (b : MemoryBudget) (bytes : Nat) : MemoryBudget :=
  { b with used := wrappingSub b.used bytes }

/-- `BudgetedBytes`: the bytes, and what they are charged at when there is a budget. -/
structure BudgetedBytes where
  bytes : Bytes
  reservation : Option Nat
  deriving DecidableEq, Repr

/-! ## Sink and reader -/

/-- The arguments of `channel_with_budget`, the budget apart. -/
structure Config where
  maxPackets : Nat
  maxBytes : Nat
  channelDepth : Nat

/-- The arguments of a `push`. -/
structure Push where
  seq : UInt64
  payload : Bytes
  deriving DecidableEq, Repr

/-- A push that holds the lock, suspended in the send of `item`: its own packet, or a follower
that it took out of `pending`. -/
structure Holder where
  call : Push
  item : BudgetedBytes
  follower : Bool
  deriving DecidableEq, Repr

/-- `Shared`, `State`, the channel and `UplinkReader`, with the pushes in flight and the history. -/
structure Uplink where
  nextSeq : Nat
  sequenceExhausted : Bool
  pending : AList fun _ : Nat => BudgetedBytes
  /-- `tx` is the sender of the reader's channel: `close` has not replaced it. -/
  txOpen : Bool
  pendingBytes : Nat
  pendingCount : Nat
  budget : Option MemoryBudget
  /-- What other sessions have of the budget. -/
  others : Nat
  queue : List BudgetedBytes
  readerAlive : Bool
  cur : Option BudgetedBytes
  waiting : List Push
  holder : Option Holder
  returned : List (Push × PushResult)
  forwarded : List (Nat × Bytes)
  read : Bytes
  deriving DecidableEq

/-- `channel_with_budget`. -/
def Uplink.new (budget : Option MemoryBudget) : Uplink where
  nextSeq := 0
  sequenceExhausted := false
  pending := ∅
  txOpen := true
  pendingBytes := 0
  pendingCount := 0
  budget := budget
  others := (budget.map MemoryBudget.used).getD 0
  queue := []
  readerAlive := true
  cur := none
  waiting := []
  holder := none
  returned := []
  forwarded := []
  read := []

namespace Uplink

variable (cfg : Config) (u : Uplink)

/-- `reserve_payload`. -/
def reservePayload (payload : Bytes) : Option (BudgetedBytes × Uplink) :=
  match u.budget with
  | none => some (⟨payload, none⟩, u)
  | some b =>
    (b.tryReserve payload.length).map fun b' =>
      (⟨payload, some payload.length⟩, { u with budget := some b' })

/-- The drop of budgeted bytes: their reservation is released. -/
def drop (b : BudgetedBytes) : Uplink :=
  { u with budget := u.budget.map fun m => m.release (b.reservation.getD 0) }

/-- A send on `tx` finds its receiver. -/
def isOpen : Bool := u.txOpen && u.readerAlive

/-- The bounded channel has room. -/
def hasRoom : Bool := u.queue.length < max cfg.channelDepth 1

/-- A `send_in_order` that completes, and the step to the next sequence number after it. An empty
payload is dropped instead of sent. -/
def deliver (item : BudgetedBytes) : Uplink :=
  let u' := if item.bytes = [] then u.drop item else { u with queue := u.queue ++ [item] }
  let u' := { u' with forwarded := u.forwarded ++ [(u.nextSeq, item.bytes)] }
  if u.nextSeq = u64Max then { u' with sequenceExhausted := true }
  else { u' with nextSeq := u.nextSeq + 1 }

/-- `st.pending.remove(&nxt)` found `b`. -/
def takeFollower (b : BudgetedBytes) : Uplink :=
  { u with
    pending := u.pending.erase u.nextSeq
    pendingBytes := wrappingSub u.pendingBytes b.bytes.length
    pendingCount := wrappingSub u.pendingCount 1 }

end Uplink

/-- Where the code between two await points ends: the push returns, or a send suspends it. -/
inductive Flow where
  | done (r : PushResult)
  | send (item : BudgetedBytes) (follower : Bool)
  deriving DecidableEq, Repr

/-- The loop over the contiguous followers, with more fuel than there are pending packets. -/
def drain (cfg : Config) : Nat → Uplink → Uplink × Flow
  | 0, u => (u, .done .accepted)
  | fuel + 1, u =>
    if u.sequenceExhausted then (u, .done .accepted)
    else
      match u.pending.lookup u.nextSeq with
      | none => (u, .done .accepted)
      | some b =>
        let u := u.takeFollower b
        if b.bytes ≠ [] ∧ ¬ u.isOpen then (u.drop b, .done .closed)
        else if b.bytes = [] ∨ u.hasRoom cfg then drain cfg fuel (u.deliver b)
        else (u, .send b true)

/-- `drain` with enough fuel. -/
def drainAll (cfg : Config) (u : Uplink) : Uplink × Flow :=
  drain cfg (u.pending.keys.length + 1) u

/-- `push` from the lock to its next await point. -/
def enter (cfg : Config) (u : Uplink) (p : Push) : Uplink × Flow :=
  let seq := p.seq.toNat
  if u.sequenceExhausted ∨ seq < u.nextSeq then (u, .done .duplicate)
  else if seq > u.nextSeq then
    if (u.pending.lookup seq).isSome then (u, .done .duplicate)
    else if u.pending.keys.length ≥ max cfg.maxPackets 1 then (u, .done .tooManyPending)
    else
      let nextBytes := u.pendingBytes + p.payload.length
      if nextBytes > u64Max then (u, .done .tooManyPendingBytes)
      else if cfg.maxBytes ≠ 0 ∧ nextBytes > cfg.maxBytes then (u, .done .tooManyPendingBytes)
      else
        match u.reservePayload p.payload with
        | none => (u, .done .globalBufferExceeded)
        | some (item, u) =>
          ({ u with
              pendingBytes := nextBytes
              pendingCount := wrappingAdd u.pendingCount 1
              pending := u.pending.insert seq item }, .done .accepted)
  else
    match u.reservePayload p.payload with
    | none => (u, .done .globalBufferExceeded)
    | some (item, u) =>
      if item.bytes ≠ [] ∧ ¬ u.isOpen then (u.drop item, .done .closed)
      else if item.bytes = [] ∨ u.hasRoom cfg then drainAll cfg (u.deliver item)
      else (u, .send item false)

/-- The push `p` has run to its next await point or to its end. -/
def settle (p : Push) : Uplink × Flow → Uplink
  | (u, .done r) => { u with holder := none, returned := u.returned ++ [(p, r)] }
  | (u, .send item follower) => { u with holder := some ⟨p, item, follower⟩ }

/-- At most `n` bytes of the chunk `b` go to the reader; what is left becomes the current chunk. -/
def Uplink.putSlice (u : Uplink) (b : BudgetedBytes) (n : Nat) : Uplink :=
  let u := { u with read := u.read ++ b.bytes.take n }
  let b := { b with bytes := b.bytes.drop n }
  if b.bytes = [] then { u.drop b with cur := none } else { u with cur := some b }

/-- The next chunk of the channel becomes the current one. An empty channel leaves the reader
pending, or at EOF once every sender is gone; neither changes the state. -/
def Uplink.fetch (u : Uplink) (n : Nat) : Uplink :=
  match u.queue with
  | [] => u
  | b :: rest => (u.cur.toList.foldl Uplink.drop { u with queue := rest }).putSlice b n

/-- `UplinkReader::poll_read` with a buffer of `n` bytes. -/
def Uplink.pollRead (u : Uplink) (n : Nat) : Uplink :=
  match u.cur with
  | some b => if b.bytes = [] then u.fetch n else u.putSlice b n
  | none => u.fetch n

/-- `UplinkSink::close`: without effect while a push holds the lock. -/
def Uplink.close (u : Uplink) : Uplink :=
  if u.holder.isSome then u
  else
    let u' := u.pending.entries.foldl (fun v e => v.drop e.2) u
    { u' with txOpen := false, pending := ∅ }

/-- The reader is dropped, with its current chunk and what is left in the channel. -/
def Uplink.dropReader (u : Uplink) : Uplink :=
  let u' := (u.queue ++ u.cur.toList).foldl Uplink.drop u
  { u' with readerAlive := false, queue := [], cur := none }

inductive Action where
  | call (p : Push)
  | acquire (i : Nat)
  | resume
  | cancelWaiting (i : Nat)
  | cancelHolder
  | read (n : Nat)
  | close
  | dropReader
  | otherSessions (bytes : Nat)
  deriving DecidableEq, Repr

def step (cfg : Config) (u : Uplink) : Action → Option Uplink
  | .call p => some { u with waiting := u.waiting ++ [p] }
  | .acquire i =>
    match u.holder, u.waiting[i]? with
    | none, some p =>
      let u := { u with waiting := u.waiting.eraseIdx i }
      some (settle p (enter cfg u p))
    | _, _ => none
  | .resume =>
    match u.holder with
    | none => none
    | some h =>
      if ¬ u.isOpen then some (settle h.call (u.drop h.item, .done .closed))
      else if u.hasRoom cfg then some (settle h.call (drainAll cfg (u.deliver h.item)))
      else none
  | .cancelWaiting i =>
    if i < u.waiting.length then some { u with waiting := u.waiting.eraseIdx i } else none
  | .cancelHolder => u.holder.map fun h => { u.drop h.item with holder := none }
  | .read n => if u.readerAlive then some (u.pollRead n) else none
  | .close => some u.close
  | .dropReader => if u.readerAlive then some u.dropReader else none
  | .otherSessions bytes =>
    some { u with
      others := bytes
      budget := u.budget.map fun b =>
        { b with used := wrappingAdd (wrappingSub b.used u.others) bytes } }

/-- A sink and its reader under every schedule. -/
def uplink (cfg : Config) (budget : Option MemoryBudget) : Machine Uplink Action where
  init := .new budget
  step := step cfg

end Xhttp.Reorder
