import RustXhttp.Session.Generations
import RustXhttp.Session.Timer

/-!
# The grace timers of a session table

* `timer`: the timer of an object, read off the table.
* `timer_step`: every step of the table is a step of the timer of every object.
* `no_orphan_reaper`: the result for runs.
-/

namespace Xhttp.Sessions

open List Option

/-- What the next step of a task is about. -/
def Pc.act : Pc → Part
  | .addActive _ _ | .addGauge _ _ | .handler _ _ | .spawnReaper _ => .unborn
  | .storeReaper _ r => .storing r
  | .recheckConnected _ r => .rechecking r
  | .recheckStored _ r => .confirming r
  | .abortReaper _ r => .aborting r
  | .clearReaper _ => .clearing
  | .takeReaper _ | .cancelReaper _ => .cancelling
  | .sleeping _ => .sleeping
  | .upgrade _ | .loadConnected _ | .remove _ _ true => .woken
  | .lookup .. | .loadActive .. | .insert .. | .push _ | .connect _ | .takeReader _
  | .downloading _ | .remove _ _ false | .subActive _ | .subGauge _ | .finished | .aborted => .idle

/-- The part of a task in the timer of the object `s`. -/
def Pc.part (s : Nat) (pc : Pc) : Part := if pc.session = some s then pc.act else .idle

namespace SessionTable

/-- The timer of the object `s`. -/
def timer (t : SessionTable) (s : Nat) : Timer where
  part i := ((t.tasks[i]?).map (Pc.part s)).getD .idle
  handle := (t.sessions[s]?).bind Session.graceReaper
  created := (t.sessions[s]?).isSome
  connected := (t.sessions[s]?).any Session.fullyConnected
  removed := t.removed.contains s

section Frame

variable {t u : SessionTable} {i s : Nat} {pc : Pc}

theorem part_self (h : pc.session = some s) : pc.part s = pc.act := if_pos h

theorem part_ne (h : pc.session ≠ some s) : pc.part s = .idle := if_neg h

theorem part_idle (h : pc.act = .idle) : pc.part s = .idle := by
  unfold Pc.part
  split
  · exact h
  · rfl

theorem part_eq (hi : t.tasks[i]? = some pc) : (t.timer s).part i = pc.part s := by
  simp [timer, hi]

theorem timer_congr (ht : u.tasks = t.tasks) (hs : u.sessions = t.sessions)
    (hr : u.removed = t.removed) : u.timer s = t.timer s := by
  simp only [timer, ht, hs, hr]

theorem timer_setPc (hi : i < u.tasks.length) (pc : Pc) :
    (u.setPc i pc).timer s = (u.timer s).set i (pc.part s) := by
  simp only [Timer.set, timer]
  congr 1
  funext j
  by_cases hj : j = i
  · subst hj
    simp [setPc, hi]
  · simp [setPc, getElem?_set_ne (Ne.symm hj), hj]

/-- A new task. -/
theorem timer_snoc (pc : Pc) : timer { t with tasks := t.tasks ++ [pc] } s =
    (t.timer s).set t.tasks.length (pc.part s) := by
  simp only [Timer.set, timer]
  congr 1
  funext j
  rw [Function.update_apply, getElem?_append]
  grind

theorem part_length : (t.timer s).part t.tasks.length = .idle := by
  simp [timer]

variable {x : Session} {s' : Nat}

/-- A new object. -/
theorem timer_create (ht : u.tasks = t.tasks) (hs : u.sessions = t.sessions ++ [x])
    (hr : u.removed = t.removed) : u.timer s = if t.sessions.length = s then
      { t.timer s with handle := x.graceReaper, created := true, connected := x.fullyConnected }
    else t.timer s := by
  split
  case isTrue he => simp [timer, ht, hs, hr, ← he]
  case isFalse he =>
    have hx : (t.sessions ++ [x])[s]? = t.sessions[s]? := by grind
    simp only [timer, ht, hs, hr, hx]

/-- The object `s'` is removed. -/
theorem timer_removed (ht : u.tasks = t.tasks) (hs : u.sessions = t.sessions)
    (hr : u.removed = t.removed ++ [s']) :
    u.timer s = if s' = s then { t.timer s with removed := true } else t.timer s := by
  split
  case isTrue he => simp [timer, ht, hs, hr, he]
  case isFalse he => simp [timer, ht, hs, hr, Ne.symm he]

theorem act_sleeping {pc : Pc} (h : pc.act = .sleeping) : ∃ s, pc = .sleeping s := by
  unfold Pc.act at h
  split at h <;> first | exact ⟨_, rfl⟩ | cases h

theorem part_abort (s : Nat) (pc : Pc) :
    pc.abort.part s = if pc.part s = .sleeping then .idle else pc.part s := by
  unfold Pc.abort
  split
  case h_1 s' =>
    by_cases hs : s' = s <;> simp [Pc.part, Pc.session, Pc.act, hs]
  case h_2 hne =>
    rw [if_neg]
    intro hp
    unfold Pc.part at hp
    split at hp
    · obtain ⟨s', rfl⟩ := act_sleeping hp
      exact hne s' rfl
    · cases hp

theorem timer_abort (r : Nat) : (t.abort r).timer s = (t.timer s).abort r := by
  have hpart : (t.abort r).timer s = { t.timer s with part := ((t.timer s).abort r).part } := by
    simp only [timer, abort]
    congr 1
    funext j
    rw [Timer.part_abort, getElem?_modify]
    by_cases hj : r = j
    · subst hj
      cases hpc : t.tasks[r]? with
      | none => simp [hpc]
      | some pc => simp [hpc, part_abort]
    · simp [hj, Ne.symm hj]
  rw [hpart]
  unfold Timer.abort
  split <;> rfl

/-- A step on another object. -/
theorem timer_modify_ne (hs : s' ≠ s) (f : Session → Session) :
    (t.modifySession s' f).timer s = t.timer s := by
  simp [timer, modifySession, hs]

theorem timer_modify (hs : s < t.sessions.length) (f : Session → Session) :
    ∃ x, t.sessions[s]? = some x ∧ (t.modifySession s f).timer s =
      { t.timer s with handle := (f x).graceReaper, connected := (f x).fullyConnected } := by
  refine ⟨t.sessions[s], getElem?_eq_getElem hs, ?_⟩
  simp [timer, modifySession, hs]

theorem lt_sessions (h : (t.sessionId s).isSome = true) : s < t.sessions.length := by
  simpa [sessionId] using h

theorem handle_eq (hx : t.sessions[s]? = some x) : (t.timer s).handle = x.graceReaper := by
  simp [timer, hx]

theorem connected_eq (hx : t.sessions[s]? = some x) : (t.timer s).connected = x.fullyConnected := by
  simp [timer, hx]

theorem length_takeReaper (s : Nat) : (t.takeReaper s).tasks.length = t.tasks.length := by
  unfold takeReaper
  split
  · rfl
  · exact length_modify ..

theorem timer_takeReaper : (t.takeReaper s).timer s = (t.timer s).take := by
  unfold takeReaper Timer.take
  cases hx : t.sessions[s]? with
  | none => simp [timer, hx]
  | some x =>
    have hlt := (List.getElem?_eq_some_iff.mp hx).1
    rw [handle_eq hx, bind_some]
    cases x.graceReaper with
    | none => rfl
    | some r =>
      obtain ⟨y, hy, hmod⟩ := timer_modify hlt fun x => { x with graceReaper := none }
      cases hx.symm.trans hy
      rw [timer_abort, hmod, ← connected_eq hx]

theorem timer_takeReaper_ne (hs : s' ≠ s) :
    (t.takeReaper s').timer s = t.timer s ∨
      ∃ r, (t.takeReaper s').timer s = (t.timer s).abort r := by
  unfold takeReaper
  split
  · exact .inl rfl
  case h_2 r hr => exact .inr ⟨r, by rw [timer_abort, timer_modify_ne hs]⟩

end Frame

/-! ## Every step is a step of each timer -/

section Moves

variable {t u : SessionTable} {i s s' : Nat} {pc pc' : Pc}

theorem part_other (hss : s' ≠ s) (hpc : pc.session = some s' ∨ pc.act = .idle) :
    pc.part s = .idle := by
  rcases hpc with hpc | hpc
  · exact part_ne fun he => hss (Option.some.inj (hpc.symm.trans he))
  · exact part_idle hpc

/-- The task stays outside the timers. -/
theorem part_outside (hact : pc.act = .idle) (hact' : pc'.act = .idle) : pc'.part s = pc.part s :=
  (part_idle hact').trans (part_idle hact).symm

variable (hi : t.tasks[i]? = some pc)

include hi

theorem part_act (hpc : pc.session = some s) : (t.timer s).part i = pc.act :=
  (part_eq hi).trans (part_self hpc)

/-- The task goes on, and the objects are as before. -/
theorem timer_move (ht : u.tasks = t.tasks) (hs : u.sessions = t.sessions)
    (hr : u.removed = t.removed) (hstep : (t.timer s).Step ((t.timer s).set i (pc'.part s))) :
    (t.timer s).Step ((u.setPc i pc').timer s) := by
  rw [timer_setPc (ht ▸ (List.getElem?_eq_some_iff.mp hi).1), timer_congr ht hs hr]
  exact hstep

theorem timer_keep (hpc : pc'.part s = pc.part s) :
    (t.timer s).Step ((t.timer s).set i (pc'.part s)) := by
  rw [hpc, Timer.set_self (part_eq hi)]
  exact .stay

variable (hpc : pc.session = some s') (hpc' : pc'.session = some s' ∨ pc'.act = .idle)

include hpc hpc'

/-- A task of the object `s'` goes on: only the timer of `s'` sees it. -/
theorem timer_own (hown : (t.timer s').Step ((t.timer s').set i pc'.act)) :
    (t.timer s).Step ((t.timer s).set i (pc'.part s)) := by
  by_cases hss : s' = s
  · subst hss
    have hact : pc'.part s' = pc'.act := by
      rcases hpc' with hpc' | hpc'
      · exact part_self hpc'
      · exact (part_idle hpc').trans hpc'.symm
    rw [hact]
    exact hown
  · exact timer_keep hi ((part_other hss hpc').trans (part_other hss (.inl hpc)).symm)

/-- It changes its object. -/
theorem timer_modifySession {f : Session → Session} (hlt : s' < t.sessions.length)
    (hown : ∀ x, t.sessions[s']? = some x → (t.timer s').Step (Timer.set { t.timer s' with
      handle := (f x).graceReaper, connected := (f x).fullyConnected } i (pc'.part s'))) :
    (t.timer s).Step (((t.modifySession s' f).setPc i pc').timer s) := by
  rw [timer_setPc (by exact (List.getElem?_eq_some_iff.mp hi).1)]
  by_cases hss : s' = s
  · subst hss
    obtain ⟨x, hx, hmod⟩ := timer_modify hlt f
    rw [hmod]
    exact hown x hx
  · rw [timer_modify_ne hss]
    exact timer_keep hi ((part_other hss hpc').trans (part_other hss (.inl hpc)).symm)

/-- It aborts a reaper, which another object's timer may see as well. -/
theorem timer_abort_step (r : Nat) (hact : pc.act = .aborting r) (hact' : pc'.part s' = .clearing) :
    (t.timer s).Step (((t.abort r).setPc i pc').timer s) := by
  have hlen := (List.getElem?_eq_some_iff.mp hi).1
  rw [timer_setPc (by rw [abort, length_modify]; exact hlen), timer_abort]
  by_cases hss : s' = s
  · subst hss
    rw [hact']
    exact .abort i r ((part_act hi hpc).trans hact)
  · have hidle : ((t.timer s).abort r).part i = .idle := by
      rw [Timer.part_abort, part_eq hi, part_other hss (.inl hpc)]
      split <;> rfl
    rw [part_other hss hpc', Timer.set_self hidle]
    exact .die r

omit hpc' in
/-- It takes the handle of its object, as `open_download` and `remove` do. -/
theorem timer_takeReaper_step (hact : pc.act = .cancelling) (hact' : pc'.act = .idle) :
    (t.timer s).Step (((t.takeReaper s').setPc i pc').timer s) := by
  have hlen := (List.getElem?_eq_some_iff.mp hi).1
  rw [timer_setPc (by rw [length_takeReaper]; exact hlen), part_idle hact']
  by_cases hss : s' = s
  · subst hss
    rw [timer_takeReaper]
    exact .cancel i ((part_act hi hpc).trans hact)
  · have hidle : (t.timer s).part i = .idle := (part_eq hi).trans (part_other hss (.inl hpc))
    rcases timer_takeReaper_ne (t := t) hss with he | ⟨r, he⟩
    · rw [he, Timer.set_self hidle]
      exact .stay
    · have hidle' : ((t.timer s).abort r).part i = .idle := by
        rw [Timer.part_abort, hidle]
        split <;> rfl
      rw [he, Timer.set_self hidle']
      exact .die r

end Moves

section Step

variable {cfg : SessionConfig} {t t' : SessionTable} {i : Nat} {pc : Pc}

theorem timer_insert (s : Nat) {req : Request} {id : SessionId}
    (hi : t.tasks[i]? = some (.insert req id))
    (hs : t.runTask cfg i (.insert req id) = some t') : (t.timer s).Step (t'.timer s) := by
  have hlen := (List.getElem?_eq_some_iff.mp hi).1
  have hidle : (t.timer s).part i = .idle := (part_eq hi).trans (part_idle rfl)
  have hnew : ∀ (u : SessionTable) (pc' : Pc), u.tasks = t.tasks →
      u.sessions = t.sessions ++ [⟨id, fnv1a id, true, req = .download, none⟩] →
      u.removed = t.removed → (u.setPc i pc').timer s = (if t.sessions.length = s then
        { t.timer s with handle := none, created := true, connected := req = .download }
        else t.timer s).set i (pc'.part s) := by
    intro u pc' ht hu hr
    rw [timer_setPc (ht ▸ hlen), timer_create ht hu hr]
  cases hs
  rw [hnew _ _ (by rfl) (by rfl) (by rfl)]
  by_cases hss : t.sessions.length = s
  · subst hss
    have hhandle : (t.timer t.sessions.length).handle = none := by simp [timer]
    rw [if_pos rfl, part_self rfl, ← hhandle]
    exact .create i _ hidle (by simp [timer]) (by simp [timer])
  · rw [if_neg hss, part_ne (by exact fun he => hss (Option.some.inj he)), Timer.set_self hidle]
    exact .stay

variable (h : Inv t)

include h

/-- The removal of an object: only a reaper removes without taking the handle. -/
theorem timer_remove (s : Nat) {cause : Nat} {id : SessionId} {reaper : Bool}
    (hi : t.tasks[i]? = some (.remove cause id reaper))
    (hs : t.runTask cfg i (.remove cause id reaper) = some t') : (t.timer s).Step (t'.timer s) := by
  have hlen := (List.getElem?_eq_some_iff.mp hi).1
  have hpart : (t.timer s).part i = (Pc.remove cause id reaper).part s := part_eq hi
  -- nothing of this object is removed
  have hfinish : (t.timer s).Step ((t.timer s).set i .idle) := by
    cases reaper with
    | false =>
      rw [Timer.set_self (hpart.trans (part_idle rfl))]
      exact .stay
    | true =>
      have hpc : Pc.finished.part s = .idle := part_idle rfl
      rw [← hpc]
      exact timer_own hi rfl (.inr rfl) (.finish i (part_act hi rfl))
  cases runTask_cases hs with
  | notThere =>
    rw [timer_setPc hlen, part_idle rfl]
    exact hfinish
  | @remove _ s' _ _ ho hst hcause =>
    have hgone : ∀ (u : SessionTable) (pc' : Pc), u.tasks = t.tasks → u.sessions = t.sessions →
        u.removed = t.removed ++ [s'] → (u.setPc i pc').timer s =
          (if s' = s then { t.timer s with removed := true } else t.timer s).set i
            (pc'.part s) := by
      intro u pc' ht hu hr
      rw [timer_setPc (ht ▸ hlen), timer_removed ht hu hr]
    rw [hgone _ _ (by rfl) (by rfl) (by rfl)]
    have hx : (t.sessionId s').isSome = true := by
      rw [(h.stored_id id s' hst).1]
      rfl
    cases reaper with
    | false =>
      have hidle : (t.timer s).part i = .idle := hpart.trans (part_idle rfl)
      rw [if_neg Bool.false_ne_true]
      by_cases hss : s' = s
      · subst hss
        rw [if_pos rfl, part_self rfl]
        exact .remove i hidle (by simpa [timer] using lt_sessions hx)
      · rw [if_neg hss, part_other hss (.inl rfl), Timer.set_self hidle]
        exact .stay
    | true =>
      obtain rfl : s' = cause := hcause rfl
      rw [if_pos rfl, part_idle rfl]
      by_cases hss : s' = s
      · subst hss
        rw [if_pos rfl]
        exact .reap i (part_act hi rfl)
      · rw [if_neg hss]
        exact hfinish

theorem timer_runTask (s : Nat) (hi : t.tasks[i]? = some pc)
    (hs : t.runTask cfg i pc = some t') : (t.timer s).Step (t'.timer s) := by
  have hok := h.tasks i pc hi
  have hlen := (List.getElem?_eq_some_iff.mp hi).1
  cases runTask_cases hs with
  | @found req =>
    exact timer_move hi rfl rfl rfl (timer_keep hi (part_outside rfl (by cases req <;> rfl)))
  | lock | full | room | conflict | subActive | subGauge =>
    exact timer_move hi rfl rfl rfl (timer_keep hi (part_outside rfl rfl))
  | insert => exact timer_insert s hi hs
  | addActive | addGauge | expire => exact timer_move hi rfl rfl rfl (timer_keep hi rfl)
  | @handle req s' =>
    refine timer_move hi rfl rfl rfl ?_
    cases req with
    | upload => exact timer_keep hi rfl
    | download => exact timer_own hi rfl (.inr rfl) (.skip i (part_act hi rfl))
  | @spawn s' =>
    rw [timer_setPc (by simp only [length_append]; omega), timer_snoc]
    by_cases hss : s' = s
    · subst hss
      rw [part_self rfl, part_self rfl]
      exact .spawn i _ (part_act hi rfl) part_length
    · rw [part_other hss (.inl rfl), Timer.set_self part_length]
      exact timer_keep hi ((part_other hss (.inl rfl)).trans (part_other hss (.inl rfl)).symm)
  | @store s' r =>
    refine timer_modifySession hi rfl (.inl rfl) (lt_sessions (hok s' rfl)) fun x hx => ?_
    rw [part_self rfl, ← connected_eq hx]
    exact .store i r (part_act hi rfl)
  | seesConnected =>
    exact timer_move hi rfl rfl rfl
      (timer_own hi rfl (.inl rfl) (.giveUp i _ (.inl (part_act hi rfl))))
  | notConnected hc =>
    exact timer_move hi rfl rfl rfl
      (timer_own hi rfl (.inl rfl) (.recheck i _ (part_act hi rfl) hc))
  | @stillStored s' r id hst =>
    have hkept : s' ∉ t.removed := (h.stored_id id s' hst).2
    exact timer_move hi rfl rfl rfl (timer_own hi rfl (.inr rfl)
      (.confirm i r (part_act hi rfl) (by simpa [timer] using hkept)))
  | gone =>
    exact timer_move hi rfl rfl rfl
      (timer_own hi rfl (.inl rfl) (.giveUp i _ (.inr (part_act hi rfl))))
  | @abort s' r => exact timer_abort_step hi rfl (.inl rfl) r rfl (part_self rfl)
  | @clear s' =>
    refine timer_modifySession hi rfl (.inr rfl) (lt_sessions (hok s' rfl)) fun x hx => ?_
    rw [part_idle rfl, ← connected_eq hx]
    exact .clear i (part_act hi rfl)
  | @connect s' =>
    refine timer_modifySession hi rfl (.inl rfl) (lt_sessions (hok s' rfl)) fun x hx => ?_
    rw [part_self rfl, ← handle_eq hx]
    exact .connect i (part_act hi rfl) (by simp [timer, hx])
  | takeReaper | cancelReaper => exact timer_takeReaper_step hi rfl rfl rfl
  | @opened s' =>
    refine timer_modifySession hi rfl (.inr rfl) (lt_sessions (hok s' rfl)) fun x hx => ?_
    rw [← handle_eq hx, ← connected_eq hx]
    exact timer_keep hi (part_outside rfl rfl)
  | notThere | remove => exact timer_remove h s hi hs
  | @upgrade s' =>
    refine timer_move hi rfl rfl rfl ?_
    split
    · exact timer_keep hi rfl
    · exact timer_own hi rfl (.inr rfl) (.finish i (part_act hi rfl))
  | keep =>
    exact timer_move hi rfl rfl rfl
      (timer_own hi rfl (.inr rfl) (.finish i (part_act hi rfl)))

/-- **The table refines the timer of each object.** -/
theorem timer_step (s : Nat) {a : TableAction} (hs : t.step cfg a = some t') :
    (t.timer s).Step (t'.timer s) := by
  have hmove : ∀ {i : Nat} {pc pc' : Pc}, t.tasks[i]? = some pc → pc.act = .idle →
      pc'.act = .idle → (t.timer s).Step ((t.setPc i pc').timer s) :=
    fun hi hpc hpc' => timer_move hi rfl rfl rfl (timer_keep hi (part_outside hpc hpc'))
  unfold SessionTable.step at hs
  split at hs
  case h_1 req id =>
    cases hs
    rw [timer_snoc, part_idle rfl, Timer.set_self part_length]
    exact .stay
  case h_2 i =>
    obtain ⟨pc, hpc, hs⟩ := bind_eq_some_iff.mp hs
    exact timer_runTask h s hpc hs
  case h_3 i r =>
    split at hs
    case h_1 s' hpc =>
      split at hs
      · obtain ⟨id, hid, rfl⟩ := map_eq_some_iff.mp hs
        exact hmove hpc rfl rfl
      · cases hs
        exact hmove hpc rfl rfl
    case h_2 => cases hs
  case h_4 i =>
    split at hs
    case h_1 s' hpc =>
      cases hs
      exact hmove hpc rfl rfl
    case h_2 => cases hs
  case h_5 i =>
    split at hs
    case h_1 s' hpc =>
      obtain ⟨id, hid, rfl⟩ := map_eq_some_iff.mp hs
      exact hmove hpc rfl rfl
    case h_2 => cases hs
  case h_6 i =>
    split at hs
    case h_1 s' hpc =>
      cases hs
      exact timer_move hpc rfl rfl rfl
        (timer_own hpc rfl (.inl rfl) (.wake i (part_act hpc rfl)))
    case h_2 => cases hs

end Step

/-! ## Every run -/

/-- The object whose handle a step takes, for an `open_download` or a `remove`. -/
def cancels (t : SessionTable) : TableAction → Option Nat
  | .run i =>
    match t.tasks[i]? with
    | some (.takeReaper s) | some (.cancelReaper s) => some s
    | _ => none
  | .request .. | .pushed .. | .cancelPush _ | .endDownload _ | .wake _ => none

/-- The timers are safe, and an object whose handle was taken is connected or removed. -/
structure Timed (log : List Nat) (t : SessionTable) : Prop where
  inv : Inv t
  safe : ∀ s, (t.timer s).Safe
  marked : ∀ s ∈ log, (t.timer s).connected = true ∨ (t.timer s).removed = true

theorem timed_new (cfg : SessionConfig) : Timed [] (.new cfg) := by
  have hidle : ∀ s i, ((new cfg).timer s).part i = .idle := fun _ _ => rfl
  refine ⟨inv_new cfg, fun s => ⟨fun _ => hidle s, ?_, ?_, ?_, ?_, ?_, ?_⟩, fun s hs => by cases hs⟩
  all_goals simp [hidle, Part.IsReaper]

theorem marked_of_cancels {t : SessionTable} {a : TableAction} {s : Nat} (h : (t.timer s).Safe)
    (ha : t.cancels a = some s) : (t.timer s).connected = true ∨ (t.timer s).removed = true := by
  unfold cancels at ha
  split at ha
  case h_1 i =>
    split at ha
    case h_1 s' hi =>
      cases ha
      exact h.cause i ((part_eq hi).trans (part_self rfl))
    case h_2 s' hi =>
      cases ha
      exact h.cause i ((part_eq hi).trans (part_self rfl))
    case h_3 => cases ha
  all_goals cases ha

theorem Timed.step {cfg : SessionConfig} {log : List Nat} {t t' : SessionTable} {a : TableAction}
    (h : Timed log t) (hs : t.step cfg a = some t') : Timed (log ++ (t.cancels a).toList) t' := by
  refine ⟨h.inv.step hs, fun s => (h.safe s).step (timer_step h.inv s hs), fun s hlog => ?_⟩
  have hmarked : (t.timer s).connected = true ∨ (t.timer s).removed = true := by
    rcases mem_append.mp hlog with hlog | hlog
    · exact h.marked s hlog
    · exact marked_of_cancels (h.safe s) (mem_toList.mp hlog)
  obtain ⟨hconnected, hremoved⟩ := (timer_step h.inv s hs).marks
  exact hmarked.imp hconnected hremoved

end SessionTable

open SessionTable

/-- The task is inside an `upsert`, an `open_download` or a `remove` of the object `s`. A `remove`
that has not been at the map is of no object yet. -/
def Pc.operates (s : Nat) (pc : Pc) : Bool :=
  match pc with
  | .addActive _ s' | .addGauge _ s' | .handler _ s' | .spawnReaper s' | .storeReaper s' _
  | .recheckConnected s' _ | .recheckStored s' _ | .abortReaper s' _ | .clearReaper s'
  | .connect s' | .takeReaper s' | .takeReader s' | .cancelReaper s' | .subActive s'
  | .subGauge s' => s' == s
  | .lookup .. | .loadActive .. | .insert .. | .push _ | .downloading _ | .remove .. | .sleeping _
  | .upgrade _ | .loadConnected _ | .finished | .aborted => false

theorem Pc.not_covers {s : Nat} {pc : Pc} (h : pc.operates s = false) : ¬ (pc.part s).Covers := by
  by_cases hs : pc.session = some s
  · rw [part_self hs]
    cases pc with
    | remove s' sid reaper => cases reaper <;> exact id
    | storeReaper | recheckConnected | recheckStored | abortReaper | takeReaper | cancelReaper =>
      -- these belong to an operation
      cases hs
      simp [Pc.operates] at h
    | _ => exact id
  · rw [part_ne hs]
    exact id

/-- **No orphan timer.** In every reachable state in which no `upsert`, `open_download` or `remove`
of an object is under way: a reaper of it that still sleeps finds it in the table and not connected,
and no `open_download` or `remove` has got to it. -/
theorem no_orphan_reaper (cfg : SessionConfig) (as : List TableAction) (t : SessionTable)
    (h : (table cfg).run as = some t) (s r : Nat) (hr : t.tasks[r]? = some (.sleeping s))
    (hdone : ∀ pc ∈ t.tasks, pc.operates s = false) :
    (∃ x, t.sessions[s]? = some x ∧ t.stored x.id = some s ∧ x.fullyConnected = false) ∧
      s ∉ (table cfg).events cancels (table cfg).init as := by
  have htimed : Timed ((table cfg).events cancels (table cfg).init as) t :=
    Machine.events_inv (G := fun _ _ => True) (timed_new cfg) (fun _ _ _ _ _ hj hs => hj.step hs)
      (Machine.along_true _ _) h
  have hquiet : ∀ i, ¬ ((t.timer s).part i).Covers := by
    intro i
    cases hi : t.tasks[i]? with
    | none => simp [timer, hi, Part.Covers]
    | some pc =>
      rw [part_eq hi]
      exact Pc.not_covers (hdone pc (mem_of_getElem? hi))
  obtain ⟨hc, hm⟩ := (htimed.safe s).quiet hquiet ((part_eq hr).trans (part_self rfl))
  have hsome := htimed.inv.tasks r _ hr s rfl
  obtain ⟨x, hx⟩ := isSome_iff_exists.mp (isSome_map ▸ hsome)
  refine ⟨⟨x, hx, ?_, (connected_eq hx).symm.trans hc⟩, fun hlog => ?_⟩
  · have hid : t.sessionId s = some x.id := by rw [sessionId, hx]; rfl
    refine (htimed.inv.kept s x.id hid).resolve_right fun hrem => ?_
    simp [timer, hrem] at hm
  · rcases htimed.marked s hlog with he | he
    · rw [hc] at he
      cases he
    · rw [hm] at he
      cases he

/-- An upload creates a session, and goes on to its push. -/
def uploadFirst : List TableAction := .request .upload [97] :: List.replicate 10 (.run 0)

theorem no_orphan_reaper_uploadFirst :
    ∃ t, (table ⟨1, 10⟩).run uploadFirst = some t ∧ t.tasks = [.push 0, .sleeping 0] ∧
      ∃ x, t.sessions[0]? = some x ∧ t.stored x.id = some 0 ∧ x.fullyConnected = false :=
  ⟨_, rfl, rfl, (no_orphan_reaper ⟨1, 10⟩ uploadFirst _ rfl 0 1 rfl (by decide)).1⟩

end Xhttp.Sessions
