import RustXhttp.Session.Reorder

/-!
# The session table (`src/session/mod.rs`, and its callers in `src/origin.rs`)

Requests for one session id race with each other, with the grace reaper and with the end of the
download. The machine `table` runs every request and every reaper as a task with a program counter
(`Pc`): an action lets one task take its next atomic step, so the runs are the interleavings of
the critical sections and of the atomic accesses.

* A POST is `push_uplink` and what `finish_upload` does with its result. A GET is `open_download`
  and the `DownloadState` whose drop removes the session.
* `upsert` holds the lock of its shard from the lookup to the update of the counters. Every other
  use of the map is one critical section.
* The handle in `grace_reaper` is taken and aborted under its own lock. An abort stops a reaper
  that still sleeps and no other.

The uplink of a session is the subject of `Session.Reorder`: here a push returns any result.
-/

namespace Xhttp.Sessions

open Reorder (PushResult)

/-- The bytes of a session id. -/
abbrev SessionId := Bytes

/-- FNV-1a over the bytes of an id. -/
def fnv1a (bytes : Bytes) : UInt64 :=
  bytes.foldl (fun h b => (h ^^^ b.toUInt64) * 0x100000001b3) 0xcbf29ce484222325

/-- The request that reached `upsert`. -/
inductive Request where
  | upload
  | download
  deriving DecidableEq, Repr

/-- A session object. It is named by its place in the heap of all objects ever created. -/
structure Session where
  id : SessionId
  idHash : UInt64
  /-- `downlink_reader` has not been taken. -/
  downlinkReader : Bool
  fullyConnected : Bool
  /-- The task whose abort handle is stored. -/
  graceReaper : Option Nat
  deriving DecidableEq, Repr

/-- Where a task is: the step that it takes next. `s` is a session object, `r` a reaper task. -/
inductive Pc where
  -- `upsert`
  | lookup (req : Request) (id : SessionId)
  | loadActive (req : Request) (id : SessionId)
  | insert (req : Request) (id : SessionId)
  | addActive (req : Request) (s : Nat)
  | addGauge (req : Request) (s : Nat)
  | handler (req : Request) (s : Nat)
  | spawnReaper (s : Nat)
  | storeReaper (s r : Nat)
  | recheckConnected (s r : Nat)
  | recheckStored (s r : Nat)
  | abortReaper (s r : Nat)
  | clearReaper (s : Nat)
  -- the rest of `push_uplink` and `open_download`
  | push (s : Nat)
  | connect (s : Nat)
  | takeReaper (s : Nat)
  | takeReader (s : Nat)
  | downloading (s : Nat)
  -- `remove_inner` on behalf of `cause`; the reaper expects to find `cause`
  | remove (cause : Nat) (id : SessionId) (reaper : Bool)
  | cancelReaper (s : Nat)
  | subActive (s : Nat)
  | subGauge (s : Nat)
  -- the grace reaper
  | sleeping (s : Nat)
  | upgrade (s : Nat)
  | loadConnected (s : Nat)
  | finished
  | aborted
  deriving DecidableEq, Repr

/-- The session object that the step is about. -/
def Pc.session : Pc → Option Nat
  | .addActive _ s | .addGauge _ s | .handler _ s | .spawnReaper s | .storeReaper s _
  | .recheckConnected s _ | .recheckStored s _ | .abortReaper s _ | .clearReaper s | .push s
  | .connect s | .takeReaper s | .takeReader s | .downloading s | .remove s _ _ | .cancelReaper s
  | .subActive s | .subGauge s | .sleeping s | .upgrade s | .loadConnected s => some s
  | .lookup .. | .loadActive .. | .insert .. | .finished | .aborted => none

/-- The task owns an `Arc` of the object `s`. -/
def Pc.holds (s : Nat) : Pc → Bool
  | .downloading _ | .remove _ _ false | .sleeping _ | .upgrade _ => false
  | pc => pc.session == some s

/-- `AbortHandle::abort`: a task past its last await point is not stopped. -/
def Pc.abort : Pc → Pc
  | .sleeping _ => .aborted
  | pc => pc

/-- `Metrics::add_gauge`, on an `AtomicI64`. -/
def addGauge (g delta : Int) : Int := (g + delta).bmod (2 ^ 64)

structure SessionConfig where
  shards : Nat
  maxSessions : Nat

/-- `SessionTable` with the heap of session objects and the tasks. `handled` and `removed` are the
history: the objects handed to the protocol handler and those removed from a shard. -/
structure SessionTable where
  maps : List (AList fun _ : SessionId => Nat)
  locks : List (Option Nat)
  sessions : List Session
  active : Nat
  gauge : Int
  sessionTimeouts : Nat
  tasks : List Pc
  handled : List Nat
  removed : List Nat
  deriving DecidableEq

namespace SessionTable

def new (cfg : SessionConfig) : SessionTable where
  maps := List.replicate (max cfg.shards 1) ∅
  locks := List.replicate (max cfg.shards 1) none
  sessions := []
  active := 0
  gauge := 0
  sessionTimeouts := 0
  tasks := []
  handled := []
  removed := []

variable (cfg : SessionConfig) (t : SessionTable)

def shardOf (id : SessionId) : Nat := (fnv1a id).toNat % t.maps.length

/-- `map.get(id)` in the shard of `id`. -/
def stored (id : SessionId) : Option Nat := (t.maps.getD (t.shardOf id) ∅).lookup id

/-- The task that holds the lock of the shard of `id` across its steps. -/
def owner (id : SessionId) : Option Nat := t.locks.getD (t.shardOf id) none

/-- The id of the object `s`. -/
def sessionId (s : Nat) : Option SessionId := t.sessions[s]?.map Session.id

def setOwner (id : SessionId) (o : Option Nat) : SessionTable :=
  { t with locks := t.locks.set (t.shardOf id) o }

def setPc (i : Nat) (pc : Pc) : SessionTable := { t with tasks := t.tasks.set i pc }

def modifySession (s : Nat) (f : Session → Session) : SessionTable :=
  { t with sessions := t.sessions.modify s f }

def modifyMap (id : SessionId)
    (f : (AList fun _ : SessionId => Nat) → AList fun _ : SessionId => Nat) : SessionTable :=
  { t with maps := t.maps.modify (t.shardOf id) f }

/-- `AbortHandle::abort` of the task `r`. -/
def abort (r : Nat) : SessionTable := { t with tasks := t.tasks.modify r Pc.abort }

/-- An `Arc` of the object `s` exists. -/
def alive (s : Nat) : Bool :=
  (t.sessionId s).any (fun id => t.stored id == some s) || t.tasks.any (Pc.holds s)

/-- `grace_reaper.lock().take()` and the abort of the handle. -/
def takeReaper (s : Nat) : SessionTable :=
  match (t.sessions[s]?).bind Session.graceReaper with
  | none => t
  | some r => (t.modifySession s fun x => { x with graceReaper := none }).abort r

/-- What a request does with the session that `upsert` returned. -/
def afterUpsert : Request → Nat → Pc
  | .upload, s => .push s
  | .download, s => .connect s

/-- The next atomic step of task `i`, which is at `pc`; `none` while it waits for a lock, for a
push, for the end of a download or for its timer. -/
def runTask (i : Nat) : Pc → Option SessionTable
  | .lookup req id =>
    if t.owner id ≠ none then none
    else
      match t.stored id with
      | some s => some (t.setPc i (afterUpsert req s))
      | none => some ((t.setOwner id (some i)).setPc i (.loadActive req id))
  | .loadActive req id =>
    if t.active ≥ cfg.maxSessions then some ((t.setOwner id none).setPc i .finished)
    else some (t.setPc i (.insert req id))
  | .insert req id =>
    let s := t.sessions.length
    let session : Session := ⟨id, fnv1a id, true, req = .download, none⟩
    let t := { t.modifyMap id (·.insert id s) with sessions := t.sessions ++ [session] }
    some (t.setPc i (.addActive req s))
  | .addActive req s => some ({ t with active := wrappingAdd t.active 1 }.setPc i (.addGauge req s))
  | .addGauge req s =>
    (t.sessionId s).map fun id =>
      ({ t with gauge := addGauge t.gauge 1 }.setOwner id none).setPc i (.handler req s)
  | .handler req s =>
    let t := { t with handled := t.handled ++ [s] }
    match req with
    | .download => some (t.setPc i (.connect s))
    | .upload => some (t.setPc i (.spawnReaper s))
  | .spawnReaper s =>
    some ({ t with tasks := t.tasks ++ [Pc.sleeping s] }.setPc i (.storeReaper s t.tasks.length))
  | .storeReaper s r =>
    some ((t.modifySession s fun x => { x with graceReaper := some r }).setPc i
      (.recheckConnected s r))
  | .recheckConnected s r =>
    if (t.sessions[s]?).any Session.fullyConnected then some (t.setPc i (.abortReaper s r))
    else some (t.setPc i (.recheckStored s r))
  | .recheckStored s r =>
    (t.sessionId s).bind fun id =>
      if t.owner id ≠ none then none
      else if t.stored id = some s then some (t.setPc i (.push s))
      else some (t.setPc i (.abortReaper s r))
  | .abortReaper s r => some ((t.abort r).setPc i (.clearReaper s))
  | .clearReaper s =>
    some ((t.modifySession s fun x => { x with graceReaper := none }).setPc i (.push s))
  | .connect s =>
    some ((t.modifySession s fun x => { x with fullyConnected := true }).setPc i (.takeReaper s))
  | .takeReaper s => some ((t.takeReaper s).setPc i (.takeReader s))
  | .takeReader s =>
    -- opened, or a conflict with an earlier download
    if (t.sessions[s]?).any Session.downlinkReader then
      some ((t.modifySession s fun x => { x with downlinkReader := false }).setPc i
        (.downloading s))
    else some (t.setPc i .finished)
  | .remove cause id reaper =>
    if t.owner id ≠ none then none
    else if reaper = true ∧ t.stored id ≠ some cause then some (t.setPc i .finished)
    else
      match t.stored id with
      | none => some (t.setPc i .finished)
      | some s =>
        let t := { t.modifyMap id (·.erase id) with removed := t.removed ++ [s] }
        some (t.setPc i (if reaper then .subActive s else .cancelReaper s))
  | .cancelReaper s => some ((t.takeReaper s).setPc i (.subActive s))
  | .subActive s => some ({ t with active := wrappingSub t.active 1 }.setPc i (.subGauge s))
  | .subGauge _ => some ({ t with gauge := addGauge t.gauge (-1) }.setPc i .finished)
  | .upgrade s => some (t.setPc i (if t.alive s then .loadConnected s else .finished))
  | .loadConnected s =>
    if (t.sessions[s]?).any Session.fullyConnected then some (t.setPc i .finished)
    else
      (t.sessionId s).map fun id =>
        { t with sessionTimeouts := t.sessionTimeouts + 1 }.setPc i (.remove s id true)
  | .push _ | .downloading _ | .sleeping _ | .finished | .aborted => none

inductive TableAction where
  | request (req : Request) (id : SessionId)
  | run (i : Nat)
  | pushed (i : Nat) (r : PushResult)
  | cancelPush (i : Nat)
  | endDownload (i : Nat)
  | wake (i : Nat)
  deriving DecidableEq, Repr

def step (a : TableAction) : Option SessionTable :=
  match a with
  | .request req id => some { t with tasks := t.tasks ++ [Pc.lookup req id] }
  | .run i => (t.tasks[i]?).bind fun pc => t.runTask cfg i pc
  | .pushed i r =>
    match t.tasks[i]? with
    | some (.push s) =>
      if r = .tooManyPending ∨ r = .tooManyPendingBytes then
        (t.sessionId s).map fun id => t.setPc i (.remove s id false)
      else some (t.setPc i .finished)
    | _ => none
  | .cancelPush i =>
    match t.tasks[i]? with
    | some (.push _) => some (t.setPc i .finished)
    | _ => none
  | .endDownload i =>
    match t.tasks[i]? with
    | some (.downloading s) => (t.sessionId s).map fun id => t.setPc i (.remove s id false)
    | _ => none
  | .wake i =>
    match t.tasks[i]? with
    | some (.sleeping s) => some (t.setPc i (.upgrade s))
    | _ => none

/-! ## What a step of a task can do -/

/-- The steps of task `i`, by the place it is at, each with the condition it is taken under. -/
inductive TaskStep (i : Nat) : Pc → SessionTable → Prop
  | found {req : Request} {id : SessionId} {s : Nat} (ho : t.owner id = none)
      (hst : t.stored id = some s) :
      TaskStep i (.lookup req id) (t.setPc i (afterUpsert req s))
  | lock {req : Request} {id : SessionId} (ho : t.owner id = none) (hst : t.stored id = none) :
      TaskStep i (.lookup req id) ((t.setOwner id (some i)).setPc i (.loadActive req id))
  | full {req : Request} {id : SessionId} (hfull : t.active ≥ cfg.maxSessions) :
      TaskStep i (.loadActive req id) ((t.setOwner id none).setPc i .finished)
  | room {req : Request} {id : SessionId} (hroom : t.active < cfg.maxSessions) :
      TaskStep i (.loadActive req id) (t.setPc i (.insert req id))
  | insert {req : Request} {id : SessionId} :
      TaskStep i (.insert req id) (setPc { t.modifyMap id (·.insert id t.sessions.length) with
        sessions := t.sessions ++ [⟨id, fnv1a id, true, req = .download, none⟩] } i
          (.addActive req t.sessions.length))
  | addActive {req : Request} {s n : Nat} (hn : n = wrappingAdd t.active 1) :
      TaskStep i (.addActive req s) (setPc { t with active := n } i (.addGauge req s))
  | addGauge {req : Request} {s : Nat} {id : SessionId} (hid : t.sessionId s = some id) :
      TaskStep i (.addGauge req s)
        ((setOwner { t with gauge := addGauge t.gauge 1 } id none).setPc i (.handler req s))
  | handle {req : Request} {s : Nat} : TaskStep i (.handler req s)
      (setPc { t with handled := t.handled ++ [s] } i
        (if req = .download then .connect s else .spawnReaper s))
  | spawn {s : Nat} : TaskStep i (.spawnReaper s)
      (setPc { t with tasks := t.tasks ++ [Pc.sleeping s] } i (.storeReaper s t.tasks.length))
  | store {s r : Nat} : TaskStep i (.storeReaper s r)
      ((t.modifySession s fun x => { x with graceReaper := some r }).setPc i
        (.recheckConnected s r))
  | seesConnected {s r : Nat} (hc : (t.sessions[s]?).any Session.fullyConnected = true) :
      TaskStep i (.recheckConnected s r) (t.setPc i (.abortReaper s r))
  | notConnected {s r : Nat} (hc : (t.sessions[s]?).any Session.fullyConnected = false) :
      TaskStep i (.recheckConnected s r) (t.setPc i (.recheckStored s r))
  | stillStored {s r : Nat} {id : SessionId} (hst : t.stored id = some s) :
      TaskStep i (.recheckStored s r) (t.setPc i (.push s))
  | gone {s r : Nat} : TaskStep i (.recheckStored s r) (t.setPc i (.abortReaper s r))
  | abort {s r : Nat} : TaskStep i (.abortReaper s r) ((t.abort r).setPc i (.clearReaper s))
  | clear {s : Nat} : TaskStep i (.clearReaper s)
      ((t.modifySession s fun x => { x with graceReaper := none }).setPc i (.push s))
  | connect {s : Nat} : TaskStep i (.connect s)
      ((t.modifySession s fun x => { x with fullyConnected := true }).setPc i (.takeReaper s))
  | takeReaper {s : Nat} : TaskStep i (.takeReaper s) ((t.takeReaper s).setPc i (.takeReader s))
  | opened {s : Nat} (hreader : (t.sessions[s]?).any Session.downlinkReader = true) :
      TaskStep i (.takeReader s)
        ((t.modifySession s fun x => { x with downlinkReader := false }).setPc i (.downloading s))
  | conflict {s : Nat} (hreader : ¬ (t.sessions[s]?).any Session.downlinkReader = true) :
      TaskStep i (.takeReader s) (t.setPc i .finished)
  | notThere {cause : Nat} {id : SessionId} {reaper : Bool} (ho : t.owner id = none)
      (hst : t.stored id = none ∧ reaper = false ∨ reaper = true ∧ t.stored id ≠ some cause) :
      TaskStep i (.remove cause id reaper) (t.setPc i .finished)
  | remove {cause s : Nat} {id : SessionId} {reaper : Bool} (ho : t.owner id = none)
      (hst : t.stored id = some s) (hcause : reaper = true → s = cause) :
      TaskStep i (.remove cause id reaper)
        (setPc { t.modifyMap id (·.erase id) with removed := t.removed ++ [s] } i
          (if reaper then .subActive s else .cancelReaper s))
  | cancelReaper {s : Nat} : TaskStep i (.cancelReaper s) ((t.takeReaper s).setPc i (.subActive s))
  | subActive {s n : Nat} (hn : n = wrappingSub t.active 1) :
      TaskStep i (.subActive s) (setPc { t with active := n } i (.subGauge s))
  | subGauge {s : Nat} :
      TaskStep i (.subGauge s) (setPc { t with gauge := addGauge t.gauge (-1) } i .finished)
  | upgrade {s : Nat} : TaskStep i (.upgrade s)
      (t.setPc i (if t.alive s then .loadConnected s else .finished))
  | keep {s : Nat} (hc : (t.sessions[s]?).any Session.fullyConnected = true) :
      TaskStep i (.loadConnected s) (t.setPc i .finished)
  | expire {s : Nat} {id : SessionId} (hid : t.sessionId s = some id)
      (hc : (t.sessions[s]?).any Session.fullyConnected = false) :
      TaskStep i (.loadConnected s)
        (setPc { t with sessionTimeouts := t.sessionTimeouts + 1 } i (.remove s id true))

variable {cfg t}

theorem runTask_cases {t' : SessionTable} {i : Nat} {pc : Pc} (hs : t.runTask cfg i pc = some t') :
    TaskStep cfg t i pc t' := by
  cases pc with
  | lookup req id =>
    simp only [runTask] at hs
    split at hs
    · cases hs
    case isFalse ho =>
      split at hs
      case h_1 s hst =>
        cases hs
        exact .found (Classical.not_not.mp ho) hst
      case h_2 hst =>
        cases hs
        exact .lock (Classical.not_not.mp ho) hst
  | loadActive req id =>
    simp only [runTask] at hs
    split at hs
    case isTrue hfull =>
      cases hs
      exact .full hfull
    case isFalse hroom =>
      cases hs
      exact .room (Nat.lt_of_not_le hroom)
  | insert req id =>
    cases hs
    exact .insert
  | addActive req s =>
    cases hs
    exact .addActive rfl
  | addGauge req s =>
    obtain ⟨id, hid, rfl⟩ := Option.map_eq_some_iff.mp hs
    exact .addGauge hid
  | handler req s =>
    cases req with
    | download | upload =>
      cases hs
      exact .handle
  | spawnReaper s =>
    cases hs
    exact .spawn
  | storeReaper s r =>
    cases hs
    exact .store
  | recheckConnected s r =>
    simp only [runTask] at hs
    split at hs
    case isTrue hc =>
      cases hs
      exact .seesConnected hc
    case isFalse hc =>
      cases hs
      exact .notConnected (Bool.eq_false_iff.mpr hc)
  | recheckStored s r =>
    obtain ⟨id, hid, hs⟩ := Option.bind_eq_some_iff.mp hs
    split at hs
    · cases hs
    split at hs
    case isTrue hst =>
      cases hs
      exact .stillStored hst
    case isFalse =>
      cases hs
      exact .gone
  | abortReaper s r =>
    cases hs
    exact .abort
  | clearReaper s =>
    cases hs
    exact .clear
  | connect s =>
    cases hs
    exact .connect
  | takeReaper s =>
    cases hs
    exact .takeReaper
  | takeReader s =>
    simp only [runTask] at hs
    split at hs
    case isTrue hreader =>
      cases hs
      exact .opened hreader
    case isFalse hreader =>
      cases hs
      exact .conflict hreader
  | remove cause id reaper =>
    simp only [runTask] at hs
    split at hs
    · cases hs
    case isFalse ho =>
      have ho : t.owner id = none := Classical.not_not.mp ho
      split at hs
      case isTrue hne =>
        cases hs
        exact .notThere ho (.inr hne)
      case isFalse hexp =>
        split at hs
        case h_1 hst =>
          cases hs
          refine .notThere ho (.inl ⟨hst, ?_⟩)
          rw [hst] at hexp
          simpa using hexp
        case h_2 s hst =>
          cases hs
          refine .remove ho hst fun hr => ?_
          rw [hst] at hexp
          simpa [hr] using hexp
  | cancelReaper s =>
    cases hs
    exact .cancelReaper
  | subActive s =>
    cases hs
    exact .subActive rfl
  | subGauge s =>
    cases hs
    exact .subGauge
  | upgrade s =>
    cases hs
    exact .upgrade
  | loadConnected s =>
    simp only [runTask] at hs
    split at hs
    case isTrue hc =>
      cases hs
      exact .keep hc
    case isFalse hc =>
      obtain ⟨id, hid, rfl⟩ := Option.map_eq_some_iff.mp hs
      exact .expire hid (Bool.eq_false_iff.mpr hc)
  | push s | downloading s | sleeping s | finished | aborted => cases hs

end SessionTable

/-- A session table under every schedule. -/
def table (cfg : SessionConfig) : Machine SessionTable SessionTable.TableAction where
  init := .new cfg
  step := SessionTable.step cfg

end Xhttp.Sessions
