import RustXhttp.Session.Table
import Mathlib.Tactic.ByContra

/-!
# Generations of a session id

The same id can be removed and created again while a request of an earlier generation is still
alive. A removal finds its session by id; only the grace reaper also compares the object.

* `Inv`: every object ever created is stored under its id until it is removed, and never again
  after that. `upsert` inserts under the lock under which it found nothing.
* `removal_spares_others_iff`: exactly when a removal on behalf of `g` leaves every other object
  in the table.
* `stale_download_removes_successor`: the end of a download whose session was torn down by an
  over-limit push removes the session that took its id.
-/

namespace Xhttp.Sessions

open List Option

namespace SessionTable

/-! ## Reading the table after an update -/

section Frame

variable (t : SessionTable)

theorem stored_modifyMap (h : 0 < t.maps.length) (id : SessionId)
    (f : (AList fun _ : SessionId => Nat) → AList fun _ : SessionId => Nat)
    (hf : ∀ m id', id' ≠ id → (f m).lookup id' = m.lookup id') (id' : SessionId) :
    (t.modifyMap id f).stored id' =
      if id' = id then (f (t.maps.getD (t.shardOf id) ∅)).lookup id else t.stored id' := by
  have hlt : t.shardOf id < t.maps.length := Nat.mod_lt _ h
  have hshard : (t.modifyMap id f).shardOf id' = t.shardOf id' := by
    simp [shardOf, modifyMap]
  unfold stored
  rw [hshard]
  simp only [modifyMap, getD_eq_getElem?_getD, getElem?_modify]
  by_cases hid : id' = id
  · subst hid
    simp [hlt]
  · rw [if_neg hid]
    by_cases hk : t.shardOf id = t.shardOf id'
    · have hlt' : t.shardOf id' < t.maps.length := hk ▸ hlt
      simp [hk, hlt', hf _ _ hid]
    · simp [hk]

theorem owner_setOwner (hl : t.locks.length = t.maps.length) (h : 0 < t.maps.length)
    (id id' : SessionId) (o : Option Nat) :
    (t.setOwner id o).owner id' = if t.shardOf id' = t.shardOf id then o else t.owner id' := by
  have hlt : t.shardOf id < t.locks.length := hl ▸ Nat.mod_lt _ h
  have hshard : (t.setOwner id o).shardOf id' = t.shardOf id' := rfl
  unfold owner
  rw [hshard]
  simp only [setOwner, getD_eq_getElem?_getD, getElem?_set]
  by_cases hk : t.shardOf id = t.shardOf id'
  · rw [if_pos hk, if_pos hk.symm, if_pos hlt]
    rfl
  · rw [if_neg hk, if_neg (Ne.symm hk)]

/-- A field of an object that is not its id changes. -/
theorem sessionId_modifySession (s : Nat) (f : Session → Session) (hf : ∀ x, (f x).id = x.id)
    (s' : Nat) : (t.modifySession s f).sessionId s' = t.sessionId s' := by
  simp only [sessionId, modifySession, getElem?_modify]
  split
  · cases t.sessions[s']? <;> simp [hf]
  · cases t.sessions[s']? <;> rfl

theorem sessionId_takeReaper (s s' : Nat) : (t.takeReaper s).sessionId s' = t.sessionId s' := by
  unfold takeReaper
  split
  · rfl
  · exact sessionId_modifySession t s (fun x => { x with graceReaper := none }) (fun _ => rfl) s'

end Frame

/-! ## The invariant -/

/-- What is true where a task is at `pc`. -/
def PcOk (t : SessionTable) (i : Nat) : Pc → Prop
  | .loadActive _ id | .insert _ id => t.owner id = some i ∧ t.stored id = none
  | .addActive _ s | .addGauge _ s => ∃ id, t.sessionId s = some id ∧ t.owner id = some i
  | .remove s id _ => t.sessionId s = some id
  | pc => ∀ s, pc.session = some s → (t.sessionId s).isSome = true

structure Inv (t : SessionTable) : Prop where
  shards : 0 < t.maps.length
  locks : t.locks.length = t.maps.length
  stored_id : ∀ id s, t.stored id = some s → t.sessionId s = some id ∧ s ∉ t.removed
  kept : ∀ s id, t.sessionId s = some id → t.stored id = some s ∨ s ∈ t.removed
  removed_some : ∀ s ∈ t.removed, (t.sessionId s).isSome = true
  tasks : ∀ i pc, t.tasks[i]? = some pc → t.PcOk i pc

/-- The facts at a program counter survive steps of the other tasks. -/
theorem PcOk.frame {t t' : SessionTable} {i : Nat} {pc : Pc} (h : t.PcOk i pc)
    (hs : ∀ s id, t.sessionId s = some id → t'.sessionId s = some id)
    (ho : ∀ id, t.owner id = some i → t'.owner id = some i ∧ t'.stored id = t.stored id) :
    t'.PcOk i pc := by
  have hsome : ∀ s, (t.sessionId s).isSome = true → (t'.sessionId s).isSome = true := by
    intro s h
    obtain ⟨id, hid⟩ := isSome_iff_exists.mp h
    rw [hs s id hid]
    rfl
  cases pc
  case loadActive req id => exact ⟨(ho id h.1).1, (ho id h.1).2.trans h.2⟩
  case insert req id => exact ⟨(ho id h.1).1, (ho id h.1).2.trans h.2⟩
  case addActive req s =>
    obtain ⟨id, hid, hown⟩ := h
    exact ⟨id, hs s id hid, (ho id hown).1⟩
  case addGauge req s =>
    obtain ⟨id, hid, hown⟩ := h
    exact ⟨id, hs s id hid, (ho id hown).1⟩
  case remove s id reaper => exact hs s id h
  all_goals exact fun s e => hsome s (h s e)

theorem PcOk.abort {t : SessionTable} {i : Nat} {pc : Pc} (h : t.PcOk i pc) :
    t.PcOk i pc.abort := by
  unfold Pc.abort
  split
  · rintro _ ⟨⟩
  · exact h

/-! ## The steps of a task -/

namespace Inv

variable {t t' : SessionTable}

/-- A step that leaves the maps, the locks, the ids and the history alone. -/
theorem quiet (h : Inv t) (hm : t'.maps = t.maps) (hl : t'.locks = t.locks)
    (hr : t'.removed = t.removed) (hs : ∀ s, t'.sessionId s = t.sessionId s)
    (ht : ∀ i pc, t'.tasks[i]? = some pc → t.PcOk i pc) : Inv t' := by
  have hstored : ∀ id, t'.stored id = t.stored id := fun id => by simp only [stored, shardOf, hm]
  have howner : ∀ id, t'.owner id = t.owner id := fun id => by
    simp only [owner, shardOf, hm, hl]
  refine ⟨hm ▸ h.shards, by rw [hl, hm]; exact h.locks, ?_, ?_, ?_, ?_⟩
  · intro id s hid
    rw [hs, hr]
    exact h.stored_id id s (hstored id ▸ hid)
  · intro s id hid
    rw [hstored, hr]
    exact h.kept s id (hs s ▸ hid)
  · intro s hs'
    rw [hs]
    exact h.removed_some s (hr ▸ hs')
  · intro i pc hpc
    refine (ht i pc hpc).frame (fun s id hid => (hs s).trans hid) fun id hid => ?_
    exact ⟨(howner id).trans hid, hstored id⟩

section

variable {i s : Nat} {pc : Pc} {id : SessionId} {cfg : SessionConfig}

/-- `quiet` for a step that only moves task `i`. -/
theorem move (h : Inv t) (hpc : t.PcOk i pc) : Inv (t.setPc i pc) :=
  h.quiet rfl rfl rfl (fun _ => rfl) (forall_set (fun j pc _ => h.tasks j pc) hpc)

theorem setActive (h : Inv t) (n : Nat) (hpc : t.PcOk i pc) :
    Inv ({ t with active := n }.setPc i pc) :=
  h.quiet rfl rfl rfl (fun _ => rfl) (forall_set (fun j pc _ => h.tasks j pc) hpc)

theorem modifySession (h : Inv t) (s : Nat) {f : Session → Session} (hf : ∀ x, (f x).id = x.id)
    (hpc : t.PcOk i pc) : Inv ((t.modifySession s f).setPc i pc) :=
  h.quiet rfl rfl rfl (sessionId_modifySession t s f hf)
    (forall_set (fun j pc _ => h.tasks j pc) hpc)

theorem takeReaper (h : Inv t) (hpc : t.PcOk i pc) : Inv ((t.takeReaper s).setPc i pc) := by
  have hframe : (t.takeReaper s).maps = t.maps ∧ (t.takeReaper s).locks = t.locks ∧
      (t.takeReaper s).removed = t.removed := by
    unfold SessionTable.takeReaper
    split <;> exact ⟨rfl, rfl, rfl⟩
  have htasks : ∀ j pc, (t.takeReaper s).tasks[j]? = some pc → t.PcOk j pc := by
    unfold SessionTable.takeReaper
    split
    · exact h.tasks
    · exact forall_modify h.tasks fun pc hpc => hpc.abort
  exact h.quiet hframe.1 hframe.2.1 hframe.2.2 (sessionId_takeReaper t s)
    (forall_set (fun j pc _ => htasks j pc) hpc)

/-- The lock of a free shard is taken by task `i`. -/
theorem acquire (h : Inv t) (ho : t.owner id = none) (hpc : (t.setOwner id (some i)).PcOk i pc) :
    Inv ((t.setOwner id (some i)).setPc i pc) := by
  refine ⟨h.shards, ?_, h.stored_id, h.kept, h.removed_some, forall_set ?_ hpc⟩
  · simp only [setOwner, setPc, length_set]
    exact h.locks
  · intro j pc' _ hj
    refine (h.tasks j pc' hj).frame (fun _ _ e => e) fun id' hid' => ⟨?_, rfl⟩
    change (t.setOwner id (some i)).owner id' = some j
    rw [owner_setOwner t h.locks h.shards]
    split
    case isTrue hk =>
      rw [owner, hk, ← owner, ho] at hid'
      cases hid'
    case isFalse => exact hid'

/-- Task `i` releases its lock. -/
theorem release (h : Inv t) (ho : t.owner id = some i) (hpc : (t.setOwner id none).PcOk i pc) :
    Inv ((t.setOwner id none).setPc i pc) := by
  refine ⟨h.shards, ?_, h.stored_id, h.kept, h.removed_some, forall_set ?_ hpc⟩
  · simp only [setOwner, setPc, length_set]
    exact h.locks
  · intro j pc' hji hj
    refine (h.tasks j pc' hj).frame (fun _ _ e => e) fun id' hid' => ⟨?_, rfl⟩
    change (t.setOwner id none).owner id' = some j
    rw [owner_setOwner t h.locks h.shards]
    split
    case isTrue hk =>
      rw [owner, hk, ← owner, ho] at hid'
      exact absurd (Option.some.inj hid').symm hji
    case isFalse => exact hid'

/-- Task `i`, which found nothing under `id` and holds the lock, inserts a new object. -/
theorem insert (h : Inv t) (x : Session) (hx : x.id = id) (ho : t.owner id = some i)
    (hn : t.stored id = none)
    (ht : t' = { t.modifyMap id (·.insert id t.sessions.length) with
      sessions := t.sessions ++ [x] }) (hpc : t'.PcOk i pc) : Inv (t'.setPc i pc) := by
  have hstored : ∀ id', t'.stored id' =
      if id' = id then some t.sessions.length else t.stored id' := by
    intro id'
    have := t.stored_modifyMap h.shards id (·.insert id t.sessions.length)
      (fun _ _ hne => AList.lookup_insert_ne hne) id'
    rw [AList.lookup_insert] at this
    rw [ht]
    exact this
  have howner : ∀ id', t'.owner id' = t.owner id' := by
    intro id'
    simp [ht, owner, shardOf, modifyMap]
  have hnew : t'.sessionId t.sessions.length = some id := by
    simp [ht, sessionId, hx]
  have hold : ∀ s id', t.sessionId s = some id' → t'.sessionId s = some id' := by
    intro s id' hs
    obtain ⟨y, hy, rfl⟩ := map_eq_some_iff.mp hs
    have hlt : s < t.sessions.length := (List.getElem?_eq_some_iff.mp hy).1
    simp [ht, sessionId, getElem?_append_left hlt, hy]
  have hinv : ∀ s id', t'.sessionId s = some id' →
      (s = t.sessions.length ∧ id' = id) ∨ t.sessionId s = some id' := by
    intro s id' hs
    by_cases hlt : s < t.sessions.length
    · right
      simpa [ht, sessionId, getElem?_append_left hlt] using hs
    · left
      have hlen : s = t.sessions.length := by
        obtain ⟨y, hy, -⟩ := map_eq_some_iff.mp hs
        have := (List.getElem?_eq_some_iff.mp hy).1
        simp only [ht, length_append, length_singleton] at this
        omega
      rw [hlen, hnew] at hs
      exact ⟨hlen, (Option.some.inj hs).symm⟩
  have hfresh : t.sessionId t.sessions.length = none := by simp [sessionId]
  refine ⟨?_, ?_, ?_, ?_, ?_, forall_set ?_ hpc⟩
  · simpa [ht, setPc, modifyMap] using h.shards
  · simpa [ht, setPc, modifyMap] using h.locks
  · intro id' s hid
    change t'.stored id' = some s at hid
    change t'.sessionId s = some id' ∧ s ∉ t'.removed
    rw [hstored] at hid
    have hrem : t'.removed = t.removed := by rw [ht]; rfl
    rw [hrem]
    split at hid
    case isTrue hii =>
      cases hid
      refine ⟨hii ▸ hnew, fun hmem => ?_⟩
      have := h.removed_some _ hmem
      rw [hfresh] at this
      cases this
    case isFalse =>
      obtain ⟨hs, hr⟩ := h.stored_id id' s hid
      exact ⟨hold s id' hs, hr⟩
  · intro s id' hs
    change t'.stored id' = some s ∨ s ∈ t'.removed
    have hrem : t'.removed = t.removed := by rw [ht]; rfl
    rw [hstored, hrem]
    obtain ⟨rfl, rfl⟩ | hs := hinv s id' hs
    · exact .inl (if_pos rfl)
    · obtain hk | hk := h.kept s id' hs
      · left
        rw [if_neg, hk]
        rintro rfl
        rw [hn] at hk
        cases hk
      · exact .inr hk
  · intro s hmem
    have hrem : t'.removed = t.removed := by rw [ht]; rfl
    obtain ⟨id', hid'⟩ := isSome_iff_exists.mp (h.removed_some s (hrem ▸ hmem))
    change (t'.sessionId s).isSome = true
    rw [hold s id' hid']
    rfl
  · intro j pc' hji hj
    have hj' : t.tasks[j]? = some pc' := by rw [ht] at hj; exact hj
    refine (h.tasks j pc' hj').frame hold fun id' hid' => ⟨(howner id').trans hid', ?_⟩
    change t'.stored id' = t.stored id'
    rw [hstored, if_neg]
    rintro rfl
    rw [ho] at hid'
    exact hji (Option.some.inj hid').symm

/-- The object stored under `id` is removed. -/
theorem remove (h : Inv t) (ho : t.owner id = none) (hs : t.stored id = some s)
    (ht : t' = { t.modifyMap id (·.erase id) with removed := t.removed ++ [s] })
    (hpc : t'.PcOk i pc) : Inv (t'.setPc i pc) := by
  have hstored : ∀ id', t'.stored id' = if id' = id then none else t.stored id' := by
    intro id'
    have := t.stored_modifyMap h.shards id (·.erase id)
      (fun _ _ hne => AList.lookup_erase_ne hne) id'
    rw [AList.lookup_erase] at this
    rw [ht]
    exact this
  have howner : ∀ id', t'.owner id' = t.owner id' := by
    intro id'
    simp [ht, owner, shardOf, modifyMap]
  have hids : ∀ s, t'.sessionId s = t.sessionId s := fun s => by rw [ht]; rfl
  have hrem : t'.removed = t.removed ++ [s] := by rw [ht]
  obtain ⟨hsid, -⟩ := h.stored_id id s hs
  refine ⟨?_, ?_, ?_, ?_, ?_, forall_set ?_ hpc⟩
  · simpa [ht, setPc, modifyMap] using h.shards
  · simpa [ht, setPc, modifyMap] using h.locks
  · intro id' s' hid
    change t'.stored id' = some s' at hid
    change t'.sessionId s' = some id' ∧ s' ∉ t'.removed
    rw [hstored] at hid
    split at hid
    · cases hid
    case isFalse hne =>
      obtain ⟨hs', hr⟩ := h.stored_id id' s' hid
      rw [hids, hrem]
      refine ⟨hs', ?_⟩
      rw [mem_append, mem_singleton]
      rintro (hmem | rfl)
      · exact hr hmem
      · rw [hsid] at hs'
        exact hne (Option.some.inj hs').symm
  · intro s' id' hs'
    change t'.stored id' = some s' ∨ s' ∈ t'.removed
    rw [hstored, hrem, mem_append, mem_singleton]
    obtain hk | hk := h.kept s' id' ((hids s').symm.trans hs')
    · by_cases hii : id' = id
      · subst hii
        rw [hs] at hk
        exact .inr (.inr (Option.some.inj hk).symm)
      · exact .inl ((if_neg hii).trans hk)
    · exact .inr (.inl hk)
  · intro s' hmem
    change (t'.sessionId s').isSome = true
    have hmem' : s' ∈ t'.removed := hmem
    rw [hids]
    rw [hrem, mem_append, mem_singleton] at hmem'
    obtain hmem' | rfl := hmem'
    · exact h.removed_some s' hmem'
    · rw [hsid]
      rfl
  · intro j pc' _ hj
    have hj' : t.tasks[j]? = some pc' := by rw [ht] at hj; exact hj
    refine (h.tasks j pc' hj').frame (fun s' id' e => (hids s').trans e) fun id' hid' =>
      ⟨(howner id').trans hid', ?_⟩
    change t'.stored id' = t.stored id'
    rw [hstored, if_neg]
    rintro rfl
    rw [ho] at hid'
    cases hid'

/-- Every step of every task keeps the invariant. -/
theorem runTask (h : Inv t) (hpc : t.tasks[i]? = some pc) (hs : t.runTask cfg i pc = some t') :
    Inv t' := by
  have hok := h.tasks i pc hpc
  -- a place that belongs to no object
  have hnone : ∀ {u : SessionTable}, u.PcOk i .finished := by
    intro u s hs
    cases hs
  cases runTask_cases hs with
  | @found req id s ho hst =>
    refine h.move ?_
    have hsome : (t.sessionId s).isSome = true := by rw [(h.stored_id id s hst).1]; rfl
    cases req <;> (rintro _ ⟨⟩; exact hsome)
  | lock ho hst =>
    refine h.acquire ho ⟨?_, hst⟩
    rw [owner_setOwner t h.locks h.shards, if_pos rfl]
  | full => exact h.release hok.1 hnone
  | room | seesConnected | notConnected | stillStored | gone => exact h.move hok
  | @insert req id =>
    refine h.insert ⟨id, fnv1a id, true, req = .download, none⟩ rfl hok.1 hok.2 rfl
      ⟨id, by simp [sessionId], ?_⟩
    rw [← hok.1]
    simp [owner, shardOf, modifyMap]
  | addActive => exact h.setActive _ hok
  | subActive => exact h.setActive _ hok
  | @addGauge req s id hid =>
    obtain ⟨id', hid', ho⟩ := hok
    obtain rfl : id' = id := Option.some.inj (hid'.symm.trans hid)
    have h' : Inv { t with gauge := addGauge t.gauge 1 } :=
      h.quiet rfl rfl rfl (fun _ => rfl) h.tasks
    refine h'.release ho ?_
    rintro _ ⟨⟩
    exact isSome_iff_exists.mpr ⟨id', hid⟩
  | @handle req s =>
    have h' : Inv { t with handled := t.handled ++ [s] } :=
      h.quiet rfl rfl rfl (fun _ => rfl) h.tasks
    have hsome := hok s rfl
    refine h'.move ?_
    split <;> (rintro _ ⟨⟩; exact hsome)
  | @spawn s =>
    have hsome := hok s rfl
    have htasks : ∀ j pc, (t.tasks ++ [Pc.sleeping s])[j]? = some pc → t.PcOk j pc :=
      forall_snoc h.tasks (by rintro _ ⟨⟩; exact hsome)
    exact h.quiet rfl rfl rfl (fun _ => rfl)
      (forall_set (fun j pc _ => htasks j pc) (by rintro _ ⟨⟩; exact hsome))
  | store | clear | connect | opened => exact h.modifySession _ (by exact fun _ => rfl) hok
  | @abort s r =>
    have htasks := forall_modify (r := r) h.tasks fun pc hpc => hpc.abort
    exact h.quiet rfl rfl rfl (fun _ => rfl) (forall_set (fun j pc _ => htasks j pc) hok)
  | takeReaper => exact h.takeReaper hok
  | cancelReaper => exact h.takeReaper hok
  | conflict | notThere | keep => exact h.move hnone
  | @remove cause s id reaper ho hst =>
    refine h.remove ho hst rfl ?_
    have hsome : (t.sessionId s).isSome = true := by rw [(h.stored_id id s hst).1]; rfl
    split <;> (rintro _ ⟨⟩; exact hsome)
  | subGauge =>
    exact h.quiet rfl rfl rfl (fun _ => rfl) (forall_set (fun j pc _ => h.tasks j pc) hnone)
  | upgrade =>
    refine h.move ?_
    split
    · exact hok
    · exact hnone
  | expire hid =>
    have h' : Inv { t with sessionTimeouts := t.sessionTimeouts + 1 } :=
      h.quiet rfl rfl rfl (fun _ => rfl) h.tasks
    exact h'.move hid

theorem step (h : Inv t) {a : TableAction} (hs : t.step cfg a = some t') : Inv t' := by
  unfold SessionTable.step at hs
  split at hs
  case h_1 req id =>
    cases hs
    exact h.quiet rfl rfl rfl (fun _ => rfl) (forall_snoc h.tasks (by rintro _ ⟨⟩))
  case h_2 i =>
    obtain ⟨pc, hpc, hs⟩ := bind_eq_some_iff.mp hs
    exact h.runTask hpc hs
  case h_3 i r =>
    split at hs
    case h_1 s hpc =>
      split at hs
      · obtain ⟨id, hid, rfl⟩ := map_eq_some_iff.mp hs
        exact h.move hid
      · cases hs
        exact h.move (by rintro _ ⟨⟩)
    case h_2 => cases hs
  case h_4 i =>
    split at hs
    · cases hs
      exact h.move (by rintro _ ⟨⟩)
    · cases hs
  case h_5 i =>
    split at hs
    case h_1 s hpc =>
      obtain ⟨id, hid, rfl⟩ := map_eq_some_iff.mp hs
      exact h.move hid
    case h_2 => cases hs
  case h_6 i =>
    split at hs
    case h_1 s hpc =>
      cases hs
      have hsome : (t.sessionId s).isSome = true := h.tasks i _ hpc s rfl
      exact h.move (by rintro _ ⟨⟩; exact hsome)
    case h_2 => cases hs

end

end Inv

theorem inv_new (cfg : SessionConfig) : Inv (.new cfg) := by
  have hshards : 0 < (new cfg).maps.length := by
    simp only [new, length_replicate]
    omega
  have hstored : ∀ id, (new cfg).stored id = none := by
    intro id
    have hlt : (new cfg).shardOf id < (new cfg).maps.length :=
      Nat.mod_lt _ hshards
    simp only [new, length_replicate] at hlt
    simp only [stored, getD_eq_getElem?_getD]
    simp only [new, getElem?_replicate, if_pos hlt, getD_some]
    rfl
  refine ⟨hshards, by simp [new], ?_, ?_, by simp [new], by simp [new]⟩
  · intro id s hs
    rw [hstored] at hs
    cases hs
  · intro s id hs
    simp [new, sessionId] at hs

theorem inv_run {cfg : SessionConfig} {as : List TableAction} {t : SessionTable}
    (h : (table cfg).run as = some t) : Inv t :=
  Machine.run_inv_all (inv_new cfg) (fun _ _ _ hi hs => hi.step hs) h

end SessionTable

open SessionTable

/-- **When a removal spares the other generations.** In every reachable state: the removal on
behalf of the object `g` leaves every other object under the id in the table exactly if it is the
reaper's, or `g` is still in the table, or no object is. -/
theorem removal_spares_others_iff (cfg : SessionConfig) (as : List TableAction)
    (t t' : SessionTable) (i g : Nat) (id : SessionId) (reaper : Bool)
    (h : (table cfg).run as = some t) (hpc : t.tasks[i]? = some (.remove g id reaper))
    (hs : t.step cfg (.run i) = some t') :
    (∀ g', g' ≠ g → t.stored id = some g' → t'.stored id = some g') ↔
      reaper = true ∨ g ∉ t.removed ∨ t.stored id = none := by
  have hinv := inv_run h
  have hg : t.sessionId g = some id := hinv.tasks i _ hpc
  simp only [SessionTable.step, hpc, bind_some, runTask] at hs
  split at hs
  · cases hs
  case isFalse ho =>
    constructor
    · intro hspare
      by_contra hcon
      simp only [not_or, Bool.not_eq_true, Classical.not_not] at hcon
      obtain ⟨rfl, hrem, hsome⟩ := hcon
      obtain ⟨g', hg'⟩ := ne_none_iff_exists'.mp hsome
      have hne : g' ≠ g := fun e => (hinv.stored_id id g' hg').2 (e ▸ hrem)
      have hafter := hspare g' hne hg'
      simp only [Bool.false_eq_true, false_and, if_false, hg', Option.some.injEq] at hs
      subst hs
      rw [show (SessionTable.setPc _ i (Pc.cancelReaper g')).stored id =
        (t.modifyMap id (·.erase id)).stored id from rfl,
        t.stored_modifyMap hinv.shards id _ (fun _ _ hne => AList.lookup_erase_ne hne), if_pos rfl,
        AList.lookup_erase] at hafter
      cases hafter
    · intro hcond g' hne hg'
      have hng : t.stored id ≠ some g := by
        rw [hg']
        exact fun e => hne (Option.some.inj e)
      obtain rfl | hrem | hnone := hcond
      · rw [if_pos ⟨rfl, hng⟩] at hs
        cases hs
        exact hg'
      · exact absurd ((hinv.kept g id hg).resolve_right hrem) hng
      · rw [hnone] at hg'
        cases hg'

/-- An upload creates generation `0`, whose reaper wakes up and is about to remove it; meanwhile an
over-limit push removes it and a second upload creates generation `1`. -/
def lateReaper : List TableAction :=
  .request .upload [1] :: List.replicate 10 (.run 0) ++
    [.wake 1, .run 1, .run 1, .pushed 0 .tooManyPending, .run 0, .request .upload [1]] ++
    List.replicate 5 (.run 2)

theorem removal_spares_others_late_reaper : ∃ t t',
    (table ⟨1, 10⟩).run lateReaper = some t ∧ t.tasks[1]? = some (.remove 0 [1] true) ∧
      t.step ⟨1, 10⟩ (.run 1) = some t' ∧ t'.stored [1] = some 1 :=
  ⟨_, _, rfl, rfl, rfl, (removal_spares_others_iff ⟨1, 10⟩ lateReaper _ _ 1 0 [1] true rfl rfl
    rfl).mpr (.inl rfl) 1 (by decide) rfl⟩

/-- A download of generation `0` is under way when an over-limit push removes that generation; a
later upload creates generation `1`, and then the download ends. -/
def staleDownload : List TableAction :=
  .request .download [1] :: List.replicate 9 (.run 0) ++
    [.request .upload [1], .run 1, .pushed 1 .tooManyPending, .run 1, .request .upload [1]] ++
    List.replicate 5 (.run 2) ++ [.endDownload 0]

/-- `DownloadState::drop` of the old generation takes the new one out of the table. -/
theorem stale_download_removes_successor : ∃ t t',
    (table ⟨1, 10⟩).run staleDownload = some t ∧ t.tasks[0]? = some (.remove 0 [1] false) ∧
      t.stored [1] = some 1 ∧ t.step ⟨1, 10⟩ (.run 0) = some t' ∧ t'.stored [1] = none :=
  ⟨_, _, rfl, rfl, rfl, rfl, rfl⟩

end Xhttp.Sessions
