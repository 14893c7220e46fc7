import RustXhttp.Session.Generations
import Mathlib.Logic.Function.Basic

/-!
# What the tasks of a session table are up to

Most steps of a task only bring it forward. The **view** of a table keeps the maps, the session
objects without their reaper handles, the history, and of each task what it still owes to one
object (`Role`); it forgets the locks, the counters and the rest of the program counters.

* `View.Step`: all that a step can do to the view, with its guard. Two kinds of step are events: a
  download opens an object, and a reaper removes one.
* `view_step`: every step of the table is a step of its view.
-/

namespace Xhttp.Sessions

open List Option

/-- What a task has begun on an object and not finished. -/
inductive Role where
  | idle
  /-- `upsert` put the object into the map and holds the lock of its shard. -/
  | inserting (s : Nat)
  /-- `upsert` has not called the protocol handler. -/
  | announcing (s : Nat)
  /-- `open_download` has marked the object and not asked for its reader. -/
  | opening (s : Nat)
  /-- The reaper found the object not connected and has not removed it. -/
  | reaping (s : Nat)
  deriving DecidableEq, Repr

def Pc.role : Pc → Role
  | .addActive _ s | .addGauge _ s => .inserting s
  | .handler _ s => .announcing s
  | .takeReaper s | .takeReader s => .opening s
  | .remove s _ true => .reaping s
  | _ => .idle

theorem Pc.role_abort (pc : Pc) : pc.abort.role = pc.role := by
  cases pc <;> rfl

/-- A session object without the handle of its reaper. -/
structure Object where
  id : SessionId
  idHash : UInt64
  downlinkReader : Bool
  fullyConnected : Bool
  deriving DecidableEq, Repr

def Session.object (x : Session) : Object := ⟨x.id, x.idHash, x.downlinkReader, x.fullyConnected⟩

structure View where
  maps : List (AList fun _ : SessionId => Nat)
  objects : List Object
  handled : List Nat
  removed : List Nat
  role : Nat → Role

/-- The steps that concern the opening of a download and its end by the grace reaper. -/
inductive Event where
  | opened (s : Nat)
  | reaped (s : Nat)
  deriving DecidableEq, Repr

namespace View

variable (v : View)

def shardOf (id : SessionId) : Nat := (fnv1a id).toNat % v.maps.length

/-- `map.get(id)` in the shard of `id`. -/
def stored (id : SessionId) : Option Nat := (v.maps.getD (v.shardOf id) ∅).lookup id

def setRole (i : Nat) (r : Role) : View := { v with role := Function.update v.role i r }

theorem role_setRole (i : Nat) (r : Role) (j : Nat) :
    (v.setRole i r).role j = if j = i then r else v.role j :=
  Function.update_apply v.role i r j

variable {v} in
/-- A role that was not taken up was there before. -/
theorem role_of_setRole {i j : Nat} {r r' : Role} (hj : (v.setRole i r).role j = r')
    (hr : r ≠ r') : v.role j = r' := by
  rw [role_setRole] at hj
  split at hj
  · exact absurd hj hr
  · exact hj

/-- What a step can do to the view. -/
inductive Step (v : View) : Option Event → View → Prop where
  | stay : Step v none v
  | create (i : Nat) (id : SessionId) (fully : Bool) (hi : v.role i = .idle)
      (hid : v.stored id = none) :
    Step v none (setRole { v with
      maps := v.maps.modify (v.shardOf id) (·.insert id v.objects.length)
      objects := v.objects ++ [⟨id, fnv1a id, true, fully⟩] } i (.inserting v.objects.length))
  | release (i s : Nat) (hi : v.role i = .inserting s) : Step v none (v.setRole i (.announcing s))
  | announce (i s : Nat) (hi : v.role i = .announcing s) :
    Step v none (setRole { v with handled := v.handled ++ [s] } i .idle)
  | connect (i s : Nat) (hi : v.role i = .idle) (hs : s < v.objects.length) :
    Step v none (setRole { v with
      objects := v.objects.modify s fun x => { x with fullyConnected := true } } i (.opening s))
  | opened (i s : Nat) (hi : v.role i = .opening s)
      (hs : (v.objects[s]?).any Object.downlinkReader = true) :
    Step v (some (.opened s)) (setRole { v with
      objects := v.objects.modify s fun x => { x with downlinkReader := false } } i .idle)
  | conflict (i s : Nat) (hi : v.role i = .opening s) : Step v none (v.setRole i .idle)
  | expire (i s : Nat) (hi : v.role i = .idle) (hs : s < v.objects.length)
      (hfully : (v.objects[s]?).any Object.fullyConnected = false) :
    Step v none (v.setRole i (.reaping s))
  | remove (i s : Nat) (id : SessionId) (hi : v.role i = .idle) (hs : v.stored id = some s)
      (hfree : ∀ j, v.role j ≠ .inserting s) :
    Step v none { v with
      maps := v.maps.modify (v.shardOf id) (·.erase id)
      removed := v.removed ++ [s] }
  | reap (i s : Nat) (id : SessionId) (hi : v.role i = .reaping s) (hs : v.stored id = some s)
      (hfree : ∀ j, v.role j ≠ .inserting s) :
    Step v (some (.reaped s)) (setRole { v with
      maps := v.maps.modify (v.shardOf id) (·.erase id)
      removed := v.removed ++ [s] } i .idle)
  | giveUp (i s : Nat) (hi : v.role i = .reaping s) : Step v none (v.setRole i .idle)

end View

namespace SessionTable

def role (t : SessionTable) (i : Nat) : Role := ((t.tasks[i]?).map Pc.role).getD .idle

def view (t : SessionTable) : View where
  maps := t.maps
  objects := t.sessions.map Session.object
  handled := t.handled
  removed := t.removed
  role := t.role

/-- The event of the next step of a task, if it is one. -/
def taskEvent (t : SessionTable) : Pc → Option Event
  | .takeReader s =>
    if (t.sessions[s]?).any Session.downlinkReader then some (.opened s) else none
  | .remove s id true =>
    if t.owner id = none ∧ t.stored id = some s then some (.reaped s) else none
  | _ => none

def event (t : SessionTable) : TableAction → Option Event
  | .run i => (t.tasks[i]?).bind t.taskEvent
  | _ => none

/-! ## The view after an update -/

section Frame

variable {t u : SessionTable} {i : Nat}

theorem role_eq {pc : Pc} (hi : t.tasks[i]? = some pc) : t.role i = pc.role := by
  simp [role, hi]

theorem role_of_tasks (hu : u.tasks = t.tasks) : u.role = t.role := by
  funext j
  simp only [role, hu]

theorem role_of_abort {r : Nat} (hu : u.tasks = t.tasks.modify r Pc.abort) : u.role = t.role := by
  funext j
  simp only [role, hu, getElem?_modify]
  split <;> cases t.tasks[j]? <;> simp [Pc.role_abort]

/-- A task is born without an object of its own. -/
theorem role_of_snoc {pc : Pc} (hu : u.tasks = t.tasks ++ [pc]) (hpc : pc.role = .idle) :
    u.role = t.role := by
  funext j
  simp only [role, hu, getElem?_append]
  split
  · rfl
  case isFalse hlt =>
    rw [getElem?_eq_none (Nat.le_of_not_lt hlt)]
    cases j - t.tasks.length with
    | zero => simp [hpc]
    | succ k => simp

theorem role_setPc (hi : i < u.tasks.length) (pc : Pc) :
    (u.setPc i pc).role = Function.update u.role i pc.role := by
  funext j
  by_cases hj : j = i
  · subst hj
    simp [role, setPc, hi]
  · simp [role, setPc, getElem?_set_ne (Ne.symm hj), hj]

theorem view_setPc (hi : i < u.tasks.length) (pc : Pc) :
    (u.setPc i pc).view = u.view.setRole i pc.role := by
  simp only [view, View.setRole, role_setPc hi]
  rfl

/-- Task `i` goes on in the same role, after `u` has changed nothing that the view shows. -/
theorem view_same {pc pc' : Pc} (hi : t.tasks[i]? = some pc) (hlen : i < u.tasks.length)
    (hm : u.maps = t.maps) (ho : u.sessions.map Session.object = t.sessions.map Session.object)
    (hh : u.handled = t.handled) (hr : u.removed = t.removed) (hrole : u.role = t.role)
    (hpc : pc'.role = pc.role) : (u.setPc i pc').view = t.view := by
  have hset : (u.setPc i pc').role = t.role := by
    rw [role_setPc hlen, hrole, hpc, ← role_eq hi, Function.update_eq_self]
  simp only [view, hset]
  simp only [setPc, hm, ho, hh, hr]

theorem objects_modify (l : List Session) (s : Nat) {f : Session → Session} {g : Object → Object}
    (hf : ∀ x, (f x).object = g x.object) :
    (l.modify s f).map Session.object = (l.map Session.object).modify s g := by
  apply ext_getElem?
  intro j
  simp only [getElem?_map, getElem?_modify]
  split <;> cases l[j]? <;> simp [hf]

theorem objects_modify_same (l : List Session) (s : Nat) {f : Session → Session}
    (hf : ∀ x, (f x).object = x.object) :
    (l.modify s f).map Session.object = l.map Session.object := by
  rw [objects_modify l s (g := id) hf, modify_id]

theorem takeReaper_frame (t : SessionTable) (s : Nat) : (t.takeReaper s).maps = t.maps ∧
    (t.takeReaper s).sessions.map Session.object = t.sessions.map Session.object ∧
    (t.takeReaper s).handled = t.handled ∧ (t.takeReaper s).removed = t.removed ∧
    (t.takeReaper s).role = t.role ∧ (t.takeReaper s).tasks.length = t.tasks.length := by
  unfold takeReaper
  split
  · exact ⟨rfl, rfl, rfl, rfl, rfl, rfl⟩
  · exact ⟨rfl, objects_modify_same _ s fun _ => rfl, rfl, rfl, role_of_abort rfl,
      length_modify ..⟩

end Frame

/-! ## Every step is a step of the view -/

theorem stay_of_eq {v v' : View} (h : v' = v) : v.Step none v' := h ▸ .stay

theorem any_object (t : SessionTable) (s : Nat) (p : Object → Bool) :
    ((t.view.objects)[s]?).any p = (t.sessions[s]?).any fun x => p x.object := by
  simp only [view, getElem?_map]
  cases t.sessions[s]? <;> rfl

theorem lt_objects {t : SessionTable} {s : Nat} (h : (t.sessionId s).isSome = true) :
    s < t.view.objects.length := by
  obtain ⟨id, hid⟩ := isSome_iff_exists.mp h
  obtain ⟨x, hx, -⟩ := map_eq_some_iff.mp hid
  simpa [view] using (List.getElem?_eq_some_iff.mp hx).1

/-- An object whose shard is not locked has been released by the task that inserted it. -/
theorem Inv.role_ne_inserting {t : SessionTable} (h : Inv t) {id : SessionId} {s : Nat}
    (ho : t.owner id = none) (hs : t.sessionId s = some id) (j : Nat) :
    t.role j ≠ .inserting s := by
  have hlocked : ∀ i, (∃ id, t.sessionId s = some id ∧ t.owner id = some i) → False := by
    rintro i ⟨id', hid', hown⟩
    obtain rfl : id' = id := Option.some.inj (hid'.symm.trans hs)
    rw [ho] at hown
    cases hown
  intro hrole
  cases hj : t.tasks[j]? with
  | none => simp [role, hj] at hrole
  | some pc =>
    rw [role_eq hj] at hrole
    have hok := h.tasks j pc hj
    cases pc
    case addActive req s' => cases hrole; exact hlocked j hok
    case addGauge req s' => cases hrole; exact hlocked j hok
    case remove s' id' reaper => cases reaper <;> cases hrole
    all_goals cases hrole

section Step

variable {cfg : SessionConfig} {t t' : SessionTable} {i : Nat} (h : Inv t)

include h

theorem view_insert {req : Request} {id : SessionId} (hi : t.tasks[i]? = some (.insert req id))
    (hs : t.runTask cfg i (.insert req id) = some t') : t.view.Step none t'.view := by
  have hok := h.tasks i _ hi
  have hview : ∀ u : SessionTable,
      u.maps = t.maps.modify (t.shardOf id) (·.insert id t.sessions.length) →
      u.sessions = t.sessions ++ [⟨id, fnv1a id, true, req = .download, none⟩] →
      u.handled = t.handled → u.removed = t.removed → u.tasks = t.tasks →
      t.view.Step none (u.setPc i (.addActive req t.sessions.length)).view := by
    intro u hm hs hh hr ht
    have hu : u.view = { t.view with
        maps := t.view.maps.modify (t.view.shardOf id) (·.insert id t.view.objects.length)
        objects := t.view.objects ++ [⟨id, fnv1a id, true, req = .download⟩] } := by
      simp [view, hm, hs, hh, hr, role_of_tasks ht, shardOf, View.shardOf, Session.object]
    have hn : t.sessions.length = t.view.objects.length := (length_map _).symm
    rw [view_setPc (ht ▸ (List.getElem?_eq_some_iff.mp hi).1), hu, hn]
    exact .create i id _ (role_eq hi) hok.2
  cases hs
  exact hview _ rfl rfl rfl rfl rfl

theorem view_remove {cause : Nat} {id : SessionId} {reaper : Bool}
    (hi : t.tasks[i]? = some (.remove cause id reaper))
    (hs : t.runTask cfg i (.remove cause id reaper) = some t') :
    t.view.Step (t.taskEvent (.remove cause id reaper)) t'.view := by
  have hlen := (List.getElem?_eq_some_iff.mp hi).1
  have hrole := role_eq hi
  have hview : ∀ (u : SessionTable) (s : Nat) (pc : Pc) (e : Option Event),
      t.view.Step e (View.setRole { t.view with
        maps := t.view.maps.modify (t.view.shardOf id) (·.erase id)
        removed := t.view.removed ++ [s] } i .idle) →
      u.maps = t.maps.modify (t.shardOf id) (·.erase id) → u.sessions = t.sessions →
      u.handled = t.handled → u.removed = t.removed ++ [s] → u.tasks = t.tasks →
      pc.role = .idle → t.view.Step e (u.setPc i pc).view := by
    intro u s pc e hstep hm hs hh hr ht hpc
    have hu : u.view = { t.view with
        maps := t.view.maps.modify (t.view.shardOf id) (·.erase id)
        removed := t.view.removed ++ [s] } := by
      simp [view, hm, hs, hh, hr, role_of_tasks ht, shardOf, View.shardOf]
    rw [view_setPc (ht ▸ hlen), hu, hpc]
    exact hstep
  cases runTask_cases hs with
  | notThere ho hst =>
    obtain ⟨-, rfl⟩ | ⟨rfl, hne⟩ := hst
    · exact stay_of_eq (view_same hi hlen rfl rfl rfl rfl rfl rfl)
    · rw [view_setPc hlen, taskEvent, if_neg (fun e => hne e.2)]
      exact .giveUp i cause hrole
  | @remove _ s _ _ ho hst hcause =>
    have hfree := h.role_ne_inserting ho (h.stored_id id s hst).1
    cases reaper with
    | true =>
      obtain rfl : s = cause := hcause rfl
      rw [taskEvent, if_pos ⟨ho, hst⟩]
      exact hview _ s _ _ (.reap i s id hrole hst hfree) rfl rfl rfl rfl rfl rfl
    | false =>
      refine hview _ s _ none ?_ rfl rfl rfl rfl rfl rfl
      have hset : ∀ v : View, v.role = t.role → v.setRole i .idle = v := by
        intro v hv
        have : v.role i = .idle := by rw [hv]; exact hrole
        rw [View.setRole, ← this, Function.update_eq_self]
      rw [hset _ rfl]
      exact .remove i s id hrole hst hfree

theorem view_runTask {pc : Pc} (hi : t.tasks[i]? = some pc)
    (hs : t.runTask cfg i pc = some t') : t.view.Step (t.taskEvent pc) t'.view := by
  have hok := h.tasks i pc hi
  have hlen := (List.getElem?_eq_some_iff.mp hi).1
  have hrole := role_eq hi
  -- a step that only moves the task, to a place of the same role
  have hsame : ∀ (u : SessionTable) (pc' : Pc), u.maps = t.maps →
      u.sessions.map Session.object = t.sessions.map Session.object → u.handled = t.handled →
      u.removed = t.removed → u.tasks = t.tasks → pc'.role = pc.role →
      t.view.Step none (u.setPc i pc').view := by
    intro u pc' hm ho hh hr ht hpc
    exact stay_of_eq (view_same hi (ht ▸ hlen) hm ho hh hr (role_of_tasks ht) hpc)
  -- and one whose change of an object is not seen
  have hmodify : ∀ (s : Nat) (f : Session → Session) (pc' : Pc),
      (∀ x, (f x).object = x.object) → pc'.role = pc.role →
      t.view.Step none ((t.modifySession s f).setPc i pc').view := by
    intro s f pc' hf hpc
    exact hsame _ _ rfl (objects_modify_same _ s hf) rfl rfl rfl hpc
  have htake : ∀ (s : Nat) (pc' : Pc), pc'.role = pc.role →
      t.view.Step none ((t.takeReaper s).setPc i pc').view := by
    intro s pc' hpc
    obtain ⟨hm, ho, hh, hr, hrole', hlen'⟩ := takeReaper_frame t s
    exact stay_of_eq (view_same hi (hlen' ▸ hlen) hm ho hh hr hrole' hpc)
  cases runTask_cases hs with
  | @found req => exact hsame _ _ rfl rfl rfl rfl rfl (by cases req <;> rfl)
  | insert => exact view_insert h hi hs
  | @addGauge req s =>
    rw [view_setPc (by exact hlen)]
    exact .release i s hrole
  | @handle req s =>
    have hpc : (if req = .download then Pc.connect s else .spawnReaper s).role = .idle := by
      split <;> rfl
    rw [view_setPc (by exact hlen), hpc]
    exact .announce i s hrole
  | spawn =>
    refine stay_of_eq (view_same hi ?_ rfl rfl rfl rfl (role_of_snoc rfl rfl) rfl)
    simp only [length_append]
    omega
  | abort =>
    refine stay_of_eq (view_same hi ?_ rfl rfl rfl rfl (role_of_abort rfl) rfl)
    simp only [abort, length_modify]
    exact hlen
  | store | clear => exact hmodify _ _ _ (fun _ => rfl) rfl
  | takeReaper | cancelReaper => exact htake _ _ rfl
  | @connect s =>
    rw [view_setPc (by exact hlen)]
    have hu : (t.modifySession s fun x => { x with fullyConnected := true }).view =
        { t.view with
          objects := t.view.objects.modify s fun x => { x with fullyConnected := true } } := by
      simp only [view, modifySession]
      congr 1
      exact objects_modify _ s fun _ => rfl
    rw [hu]
    exact .connect i s hrole (lt_objects (hok s rfl))
  | @opened s hreader =>
    rw [view_setPc (by exact hlen), taskEvent, if_pos hreader]
    have hu : (t.modifySession s fun x => { x with downlinkReader := false }).view =
        { t.view with
          objects := t.view.objects.modify s fun x => { x with downlinkReader := false } } := by
      simp only [view, modifySession]
      congr 1
      exact objects_modify _ s fun _ => rfl
    rw [hu]
    exact .opened i s hrole ((any_object t s _).trans hreader)
  | @conflict s hreader =>
    rw [view_setPc hlen, taskEvent, if_neg hreader]
    exact .conflict i s hrole
  | notThere | remove => exact view_remove h hi hs
  | upgrade => exact hsame _ _ rfl rfl rfl rfl rfl (by split <;> rfl)
  | @expire s id hid hc =>
    rw [view_setPc (by exact hlen)]
    refine .expire i s hrole (lt_objects (hok s rfl)) ?_
    rw [any_object]
    exact hc
  | lock | full | room | addActive | seesConnected | notConnected | stillStored | gone
  | subActive | subGauge | keep => exact hsame _ _ rfl rfl rfl rfl rfl rfl

/-- **The table refines its view.** -/
theorem view_step {a : TableAction} (hs : t.step cfg a = some t') :
    t.view.Step (t.event a) t'.view := by
  unfold SessionTable.step at hs
  -- the actions other than the steps of a task move it from one place without a role to another
  have hmove : ∀ {i : Nat} {pc pc' : Pc}, t.tasks[i]? = some pc → pc'.role = pc.role →
      t.view.Step none (t.setPc i pc').view := by
    intro i pc pc' hi hpc
    exact stay_of_eq
      (view_same hi (List.getElem?_eq_some_iff.mp hi).1 rfl rfl rfl rfl rfl hpc)
  split at hs
  case h_1 req id =>
    cases hs
    have hrole : role { t with tasks := t.tasks ++ [Pc.lookup req id] } = t.role :=
      role_of_snoc rfl rfl
    refine stay_of_eq ?_
    simp only [view, hrole]
  case h_2 i =>
    obtain ⟨pc, hpc, hs⟩ := bind_eq_some_iff.mp hs
    simp only [event, hpc, bind_some]
    exact view_runTask h hpc hs
  case h_3 i r =>
    split at hs
    case h_1 s hpc =>
      split at hs
      · obtain ⟨id, hid, rfl⟩ := map_eq_some_iff.mp hs
        exact hmove hpc rfl
      · cases hs
        exact hmove hpc rfl
    case h_2 => cases hs
  case h_4 i =>
    split at hs
    case h_1 s hpc =>
      cases hs
      exact hmove hpc rfl
    case h_2 => cases hs
  case h_5 i =>
    split at hs
    case h_1 s hpc =>
      obtain ⟨id, hid, rfl⟩ := map_eq_some_iff.mp hs
      exact hmove hpc rfl
    case h_2 => cases hs
  case h_6 i =>
    split at hs
    case h_1 s hpc =>
      cases hs
      exact hmove hpc rfl
    case h_2 => cases hs

end Step

end SessionTable

end Xhttp.Sessions
