import RustXhttp.Session.Ledger
import RustXhttp.Session.View
import Mathlib.Data.List.Perm.Basic

/-!
# The accounting of the session table

* `Books`: every id is in its shard, with its hash; an object is handed to the protocol handler
  once, by the task that inserted it.
* `accounting`: where the ids are, what the counters say, and how often the handler was called, in
  every reachable state.
-/

namespace Xhttp.Sessions

open List Option

namespace View

/-- The books of a view. `creator` tells the task that inserted an object. -/
structure Books (v : View) (creator : Nat → Nat) : Prop where
  shards : 0 < v.maps.length
  placed : ∀ k m id, v.maps[k]? = some m → id ∈ m → k = v.shardOf id
  hashed : ∀ x ∈ v.objects, x.idHash = fnv1a x.id
  removed_nodup : v.removed.Nodup
  handled_nodup : v.handled.Nodup
  handled_lt : ∀ s ∈ v.handled, s < v.objects.length
  inserting : ∀ j s, v.role j = .inserting s →
    creator s = j ∧ s < v.objects.length ∧ s ∉ v.handled ∧ s ∉ v.removed
  announcing : ∀ j s, v.role j = .announcing s →
    creator s = j ∧ s < v.objects.length ∧ s ∉ v.handled
  announced : ∀ s < v.objects.length,
    s ∈ v.handled ∨ v.role (creator s) = .inserting s ∨ v.role (creator s) = .announcing s

namespace Books

variable {v : View} {creator : Nat → Nat} (h : Books v creator)

include h

/-- The map of one shard changes, and gets no id but one of that shard. -/
theorem placed_modify (id : SessionId)
    {f : (AList fun _ : SessionId => Nat) → AList fun _ : SessionId => Nat}
    (hf : ∀ m id', id' ∈ f m → id' = id ∨ id' ∈ m) :
    ∀ k m id', (v.maps.modify (v.shardOf id) f)[k]? = some m → id' ∈ m → k = v.shardOf id' := by
  intro k m id' hk hid
  rw [getElem?_modify] at hk
  obtain ⟨m', hm', rfl⟩ := map_eq_some_iff.mp hk
  split at hid
  case isTrue heq =>
    obtain rfl | hid := hf m' id' hid
    · exact heq.symm
    · exact h.placed k m' id' hm' hid
  case isFalse => exact h.placed k m' id' hm' hid

/-- A task takes up or ends a role that is not about the creation of an object. -/
theorem setRole {i : Nat} {r : Role} (hi : ∀ s, v.role i ≠ .inserting s)
    (hi' : ∀ s, v.role i ≠ .announcing s) (hr : ∀ s, r ≠ .inserting s)
    (hr' : ∀ s, r ≠ .announcing s) : Books (v.setRole i r) creator := by
  refine ⟨h.shards, h.placed, h.hashed, h.removed_nodup, h.handled_nodup, h.handled_lt, ?_, ?_, ?_⟩
  · intro j s hj
    exact h.inserting j s (role_of_setRole hj (hr s))
  · intro j s hj
    exact h.announcing j s (role_of_setRole hj (hr' s))
  · intro s hs
    rw [role_setRole]
    obtain hs' | hs' | hs' := h.announced s hs
    · exact .inl hs'
    · have hne : creator s ≠ i := fun e => hi s (by rw [← e, hs'])
      rw [if_neg hne]
      exact .inr (.inl hs')
    · have hne : creator s ≠ i := fun e => hi' s (by rw [← e, hs'])
      rw [if_neg hne]
      exact .inr (.inr hs')

/-- The flags of an object change. -/
theorem modifyObject (s : Nat) {f : Object → Object}
    (hf : ∀ x, (f x).id = x.id ∧ (f x).idHash = x.idHash) :
    Books { v with objects := v.objects.modify s f } creator := by
  have hlen : (v.objects.modify s f).length = v.objects.length := length_modify ..
  refine ⟨h.shards, h.placed, ?_, h.removed_nodup, h.handled_nodup, ?_, ?_, ?_, ?_⟩
  · intro x hx
    obtain ⟨k, hk⟩ := mem_iff_getElem?.mp hx
    rw [getElem?_modify] at hk
    obtain ⟨y, hy, rfl⟩ := map_eq_some_iff.mp hk
    have hy' := h.hashed y (mem_of_getElem? hy)
    split
    · rw [(hf y).1, (hf y).2]
      exact hy'
    · exact hy'
  all_goals simp only [hlen]
  · exact h.handled_lt
  · exact h.inserting
  · exact h.announcing
  · exact h.announced

/-- A new object: no task knows its number yet. -/
theorem create (hremoved : ∀ s ∈ v.removed, s < v.objects.length) {i : Nat}
    (hi : v.role i = .idle) (id : SessionId) (fully : Bool) :
    Books (View.setRole { v with
      maps := v.maps.modify (v.shardOf id) (·.insert id v.objects.length)
      objects := v.objects ++ [⟨id, fnv1a id, true, fully⟩] } i (.inserting v.objects.length))
      (Function.update creator v.objects.length i) := by
  have hlen : (v.objects ++ [(⟨id, fnv1a id, true, fully⟩ : Object)]).length =
      v.objects.length + 1 := by simp
  have hold : ∀ s, s < v.objects.length →
      Function.update creator v.objects.length i s = creator s :=
    fun s hs => Function.update_of_ne (Nat.ne_of_lt hs) _ _
  refine ⟨?_, ?_, ?_, h.removed_nodup, h.handled_nodup, ?_, ?_, ?_, ?_⟩
  · simpa [View.setRole] using h.shards
  · have := h.placed_modify id (f := (·.insert id v.objects.length))
      fun m _ hid => (AList.mem_insert m).mp hid
    simpa [View.setRole, View.shardOf] using this
  · intro x hx
    obtain hx | hx := mem_append.mp hx
    · exact h.hashed x hx
    · rw [mem_singleton.mp hx]
  · intro s hs
    have := h.handled_lt s hs
    simp only [View.setRole, hlen]
    omega
  · intro j s hj
    simp only [View.setRole, Function.update_apply, hlen] at hj ⊢
    split at hj
    case isTrue hji =>
      cases hj
      refine ⟨by simp [hji], by omega, fun hmem => ?_, fun hmem => ?_⟩
      · exact absurd (h.handled_lt _ hmem) (Nat.lt_irrefl _)
      · exact absurd (hremoved _ hmem) (Nat.lt_irrefl _)
    case isFalse =>
      obtain ⟨hc, hlt, hnot⟩ := h.inserting j s hj
      rw [if_neg (Nat.ne_of_lt hlt)]
      exact ⟨hc, by omega, hnot⟩
  · intro j s hj
    obtain ⟨hc, hlt, hnot⟩ := h.announcing j s (role_of_setRole hj fun h => by cases h)
    simp only [View.setRole, hlen]
    exact ⟨(hold s hlt).trans hc, by omega, hnot⟩
  · intro s hs
    simp only [View.setRole, Function.update_apply, hlen] at hs ⊢
    by_cases hn : s = v.objects.length
    · right
      left
      simp [hn]
    · rw [if_neg hn]
      obtain hs' | hs' := h.announced s (by omega)
      · exact .inl hs'
      · right
        have hne : creator s ≠ i := by
          rintro rfl
          rw [hi] at hs'
          obtain hs' | hs' := hs' <;> cases hs'
        rw [if_neg hne]
        exact hs'

theorem release {i s : Nat} (hi : v.role i = .inserting s) :
    Books (v.setRole i (.announcing s)) creator := by
  obtain ⟨hc, hlt, hnot, -⟩ := h.inserting i s hi
  refine ⟨h.shards, h.placed, h.hashed, h.removed_nodup, h.handled_nodup, h.handled_lt, ?_, ?_, ?_⟩
  · intro j s' hj
    exact h.inserting j s' (role_of_setRole hj fun h => by cases h)
  · intro j s' hj
    rw [role_setRole] at hj
    split at hj
    case isTrue hji =>
      cases hj
      exact ⟨hc.trans hji.symm, hlt, hnot⟩
    case isFalse => exact h.announcing j s' hj
  · intro s' hs'
    rw [role_setRole]
    obtain hh | hh := h.announced s' hs'
    · exact .inl hh
    · right
      by_cases hci : creator s' = i
      · -- task `i` is at the creation of one object only
        rw [if_pos hci]
        rw [hci, hi] at hh
        obtain hh | hh := hh <;> cases hh
        exact .inr rfl
      · rw [if_neg hci]
        exact hh

theorem announce {i s : Nat} (hi : v.role i = .announcing s) :
    Books (View.setRole { v with handled := v.handled ++ [s] } i .idle) creator := by
  obtain ⟨hc, hlt, hnot⟩ := h.announcing i s hi
  -- another task is at the creation of another object
  have hother : ∀ j s', j ≠ i → creator s' = j → s' ∉ v.handled → s' ∉ v.handled ++ [s] := by
    intro j s' hji hc' hn' hmem
    obtain hmem | hmem := mem_append.mp hmem
    · exact hn' hmem
    · rw [mem_singleton.mp hmem, hc] at hc'
      exact hji hc'.symm
  refine ⟨h.shards, h.placed, h.hashed, h.removed_nodup, ?_, ?_, ?_, ?_, ?_⟩
  · exact nodup_append.mpr ⟨h.handled_nodup, nodup_singleton s, by
      rintro a ha b hb rfl
      rw [mem_singleton.mp hb] at ha
      exact hnot ha⟩
  · intro s' hs'
    obtain hs' | hs' := mem_append.mp hs'
    · exact h.handled_lt s' hs'
    · rw [mem_singleton.mp hs']
      exact hlt
  · intro j s' hj
    simp only [View.setRole, Function.update_apply] at hj ⊢
    split at hj
    · cases hj
    case isFalse hji =>
      obtain ⟨hc', hlt', hn', hr'⟩ := h.inserting j s' hj
      exact ⟨hc', hlt', hother j s' hji hc' hn', hr'⟩
  · intro j s' hj
    simp only [View.setRole, Function.update_apply] at hj ⊢
    split at hj
    · cases hj
    case isFalse hji =>
      obtain ⟨hc', hlt', hn'⟩ := h.announcing j s' hj
      exact ⟨hc', hlt', hother j s' hji hc' hn'⟩
  · intro s' hs'
    simp only [View.setRole, Function.update_apply, mem_append, mem_singleton]
    obtain hh | hh := h.announced s' hs'
    · exact .inl (.inl hh)
    · by_cases hci : creator s' = i
      · rw [hci, hi] at hh
        obtain hh | hh := hh <;> cases hh
        exact .inl (.inr rfl)
      · rw [if_neg hci]
        exact .inr hh

/-- An object leaves its map. -/
theorem remove {s : Nat} (id : SessionId) (hs : s ∉ v.removed)
    (hfree : ∀ j, v.role j ≠ .inserting s) :
    Books { v with
      maps := v.maps.modify (v.shardOf id) (·.erase id)
      removed := v.removed ++ [s] } creator := by
  refine ⟨?_, ?_, h.hashed, ?_, h.handled_nodup, h.handled_lt, ?_, h.announcing, h.announced⟩
  · simpa using h.shards
  · have := h.placed_modify id (f := (·.erase id))
      fun m id' hid => .inr (AList.mem_erase.mp hid).2
    simpa [View.shardOf] using this
  · exact nodup_append.mpr ⟨h.removed_nodup, nodup_singleton s, by
      rintro a ha b hb rfl
      rw [mem_singleton.mp hb] at ha
      exact hs ha⟩
  · intro j s' hj
    obtain ⟨hc, hlt, hh, hr⟩ := h.inserting j s' hj
    refine ⟨hc, hlt, hh, fun hmem => ?_⟩
    obtain hmem | hmem := mem_append.mp hmem
    · exact hr hmem
    · rw [mem_singleton.mp hmem] at hj
      exact hfree j hj

theorem step (hremoved : ∀ s ∈ v.removed, s < v.objects.length)
    (hstored : ∀ id s, v.stored id = some s → s ∉ v.removed) {e : Option Event} {v' : View}
    (hs : v.Step e v') : ∃ creator', Books v' creator' := by
  cases hs with
  | stay => exact ⟨creator, h⟩
  | create i id fully hi hid => exact ⟨_, h.create hremoved hi id fully⟩
  | release i s hi => exact ⟨creator, h.release hi⟩
  | announce i s hi => exact ⟨creator, h.announce hi⟩
  | connect i s hi hs | opened i s hi hs =>
    refine ⟨creator, (h.modifyObject s ?_).setRole ?_ ?_ nofun nofun⟩
    · exact fun _ => ⟨rfl, rfl⟩
    all_goals
      intro s' hs'
      cases hi.symm.trans hs'
  | conflict i s hi | expire i s hi hs hfully | giveUp i s hi =>
    exact ⟨creator, h.setRole (fun _ e => nomatch hi.symm.trans e)
      (fun _ e => nomatch hi.symm.trans e) nofun nofun⟩
  | remove i s id hi hs hfree => exact ⟨creator, h.remove id (hstored id s hs) hfree⟩
  | reap i s id hi hs hfree =>
    exact ⟨creator, (h.remove id (hstored id s hs) hfree).setRole
      (fun _ e => nomatch hi.symm.trans e) (fun _ e => nomatch hi.symm.trans e) nofun nofun⟩

end Books

end View

/-! ## The state of the accounts in a run -/

namespace SessionTable

/-- The ids in the table, shard by shard. -/
def ids (t : SessionTable) : List SessionId := t.maps.flatMap AList.keys

/-- The number of sessions over all shards. -/
def live (t : SessionTable) : Nat := t.ids.length

variable {t : SessionTable} {creator : Nat → Nat}

theorem mem_ids (h : t.view.Books creator) (id : SessionId) :
    id ∈ t.ids ↔ ∃ s, t.stored id = some s := by
  simp only [ids, mem_flatMap]
  constructor
  · rintro ⟨m, hm, hid⟩
    obtain ⟨k, hk⟩ := mem_iff_getElem?.mp hm
    obtain rfl : k = t.shardOf id := h.placed k m id hk hid
    refine isSome_iff_exists.mp ?_
    rw [stored, getD_eq_getElem?_getD, hk]
    exact AList.lookup_isSome.mpr hid
  · rintro ⟨s, hs⟩
    have hlt : t.shardOf id < t.maps.length := Nat.mod_lt _ h.shards
    rw [stored, getD_eq_getElem?_getD, getElem?_eq_getElem hlt] at hs
    exact ⟨_, getElem_mem hlt, AList.lookup_isSome.mp (isSome_iff_exists.mpr ⟨s, hs⟩)⟩

theorem ids_nodup (h : t.view.Books creator) : t.ids.Nodup := by
  refine nodup_flatMap.mpr ⟨fun m _ => m.keys_nodup, ?_⟩
  refine pairwise_iff_getElem.mpr fun i j hi hj hij => ?_
  intro id hid hid'
  have hki := h.placed i _ id (getElem?_eq_getElem hi) (AList.mem_keys.mpr hid)
  have hkj := h.placed j _ id (getElem?_eq_getElem hj) (AList.mem_keys.mpr hid')
  omega

/-- An object is in the table or has been removed. -/
theorem live_add_removed (hi : Inv t) (h : t.view.Books creator) :
    t.live + t.removed.length = t.sessions.length := by
  have hobj : ∀ id ∈ t.ids, ∃ s, t.stored id = some s ∧ t.sessionId s = some id ∧
      s ∉ t.removed := by
    intro id hid
    obtain ⟨s, hs⟩ := (mem_ids h id).mp hid
    exact ⟨s, hs, hi.stored_id id s hs⟩
  have hlt : ∀ s, s < t.sessions.length ↔ ∃ id, t.sessionId s = some id := by
    intro s
    rw [← isSome_iff_exists]
    simp [sessionId]
  have hperm : ((t.ids.map fun id => (t.stored id).getD 0) ++ t.removed).Perm
      (List.range t.sessions.length) := by
    refine (perm_ext_iff_of_nodup ?_ nodup_range).mpr ?_
    · refine nodup_append.mpr ⟨?_, h.removed_nodup, ?_⟩
      · refine List.Nodup.map_on ?_ (ids_nodup h)
        intro id hid id' hid' heq
        obtain ⟨s, hs, hsid, -⟩ := hobj id hid
        obtain ⟨s', hs', hsid', -⟩ := hobj id' hid'
        simp only [hs, hs', getD_some] at heq
        rw [heq, hsid'] at hsid
        exact (Option.some.inj hsid).symm
      · rintro _ ha b hb rfl
        obtain ⟨id, hid, rfl⟩ := mem_map.mp ha
        obtain ⟨s, hs, -, hr⟩ := hobj id hid
        rw [hs] at hb
        exact hr hb
    · intro s
      rw [mem_append, mem_range, hlt]
      constructor
      · rintro (hs | hs)
        · obtain ⟨id, hid, rfl⟩ := mem_map.mp hs
          obtain ⟨s, hs, hsid, -⟩ := hobj id hid
          exact ⟨id, by rw [hs]; exact hsid⟩
        · exact isSome_iff_exists.mp (hi.removed_some s hs)
      · rintro ⟨id, hid⟩
        obtain hs | hs := hi.kept s id hid
        · exact .inl (mem_map.mpr ⟨id, (mem_ids h id).mpr ⟨s, hs⟩, by rw [hs]; rfl⟩)
        · exact .inr hs
  have := hperm.length_eq
  simpa [live] using this

/-- The objects that are not counted yet are in the table: each is in a shard that its task has
locked. -/
theorem adding_le_live (hi : Inv t) (h : t.view.Books creator) :
    t.ledger.tasks .adding ≤ t.live := by
  refine countP_le_length_of_keys (R := fun i id => t.owner id = some i) ?_ ?_
  · intro i pc hpc hst
    have hok := hi.tasks i pc hpc
    cases pc
    case addActive req s =>
      obtain ⟨id, hid, hown⟩ := hok
      refine ⟨id, (mem_ids h id).mpr ⟨s, ?_⟩, hown⟩
      exact (hi.kept s id hid).resolve_right (h.inserting i s (role_eq hpc)).2.2.2
    all_goals cases hst
  · intro i j id hi hj
    rw [hi] at hj
    exact Option.some.inj hj

structure Accounts (t : SessionTable) : Prop where
  inv : Inv t
  books : ∃ creator, t.view.Books creator
  balanced : ∃ n m, t.ledger.Balanced n m

theorem Accounts.step {cfg : SessionConfig} {t t' : SessionTable} {a : TableAction}
    (h : Accounts t) (hs : t.step cfg a = some t') : Accounts t' := by
  obtain ⟨hi, ⟨creator, hb⟩, n, m, hn⟩ := h
  refine ⟨hi.step hs, hb.step ?_ ?_ (view_step hi hs), hn.step ?_ (ledger_step hs)⟩
  · exact fun s hs => lt_objects (hi.removed_some s hs)
  · exact fun id s hs => (hi.stored_id id s hs).2
  · have := live_add_removed hi hb
    have := adding_le_live hi hb
    simp only [ledger] at this ⊢
    omega

theorem accounts_new (cfg : SessionConfig) : Accounts (.new cfg) := by
  have hmaps : ∀ (k : Nat) m, (new cfg).maps[k]? = some m → m = ∅ := by
    intro k m hm
    exact (mem_replicate.mp (mem_of_getElem? hm)).2
  refine ⟨inv_new cfg, ⟨fun _ => 0, ?_⟩, 0, 0, rfl, rfl, rfl, rfl⟩
  refine ⟨(inv_new cfg).shards, ?_, nofun, nodup_nil, nodup_nil, nofun, ?_, ?_, nofun⟩
  · intro k m id hm hid
    rw [hmaps k m hm] at hid
    exact absurd hid (AList.notMem_empty id)
  · intro j s hj
    simp [view, role, new] at hj
  · intro j s hj
    simp [view, role, new] at hj

theorem accounts_run {cfg : SessionConfig} {as : List TableAction} {t : SessionTable}
    (h : (table cfg).run as = some t) : Accounts t :=
  Machine.run_inv_all (accounts_new cfg) (fun _ _ _ hi hs => hi.step hs) h

/-- A task on the way to the protocol handler never waits. -/
theorem creating_runs (cfg : SessionConfig) (hi : Inv t) {i : Nat} {pc : Pc} {s : Nat}
    (hpc : t.tasks[i]? = some pc) (hrole : pc.role = .inserting s ∨ pc.role = .announcing s) :
    (t.step cfg (.run i)).isSome = true := by
  have hok := hi.tasks i pc hpc
  simp only [step, hpc, bind_some]
  cases pc
  case addActive => rfl
  case addGauge req s' =>
    obtain ⟨id, hid, -⟩ := hok
    simp [runTask, hid]
  case handler req s' => cases req <;> rfl
  case remove s' id reaper => cases reaper <;> simp [Pc.role] at hrole
  all_goals simp [Pc.role] at hrole

end SessionTable

open SessionTable

/-- **Accounting.** In every reachable state:

* every id is in the table at most once, in the shard of its hash, and its object has that hash;
* a removal never finds `active` at zero, and `active` and the gauge are the number of sessions as
  soon as no task is between its update of a map and its update of the counter. Both have 64 bits,
  the gauge one of them for its sign: the objects in the maps, or in the hands of a removal, are as
  many as an address space holds;
* no object is handed to the protocol handler twice, and each has been handed to it, or the task
  that inserted it is on the way there and does not wait. -/
theorem accounting (cfg : SessionConfig) (as : List TableAction) (t : SessionTable)
    (h : (table cfg).run as = some t) :
    (t.ids.Nodup ∧ ∀ k m id s, t.maps[k]? = some m → m.lookup id = some s →
      k = (fnv1a id).toNat % t.maps.length ∧
        ∃ x, t.sessions[s]? = some x ∧ x.id = id ∧ x.idHash = fnv1a id) ∧
    (t.live + (t.tasks.countP fun pc => pc.stage = .removing) ≤ u64Max →
      (∀ i s : Nat, t.tasks[i]? = some (.subActive s) → 0 < t.active) ∧
      ((∀ pc ∈ t.tasks, pc.stage ≠ .adding ∧ pc.stage ≠ .removing) → t.active = t.live)) ∧
    (t.live < 2 ^ 63 → (∀ pc ∈ t.tasks, pc.stage = .idle ∨ pc.stage = .checked) →
      t.gauge = t.live) ∧
    t.handled.Nodup ∧ (∀ s ∈ t.handled, s < t.sessions.length) ∧
    ∀ s < t.sessions.length, s ∈ t.handled ∨ ∃ i pc, t.tasks[i]? = some pc ∧
      (pc.role = .inserting s ∨ pc.role = .announcing s) ∧
      (t.step cfg (.run i)).isSome = true := by
  obtain ⟨hi, ⟨creator, hb⟩, n, m, hn⟩ := accounts_run h
  have htotal := live_add_removed hi hb
  have hadding := adding_le_live hi hb
  have hnone : ∀ st, (∀ pc ∈ t.tasks, pc.stage ≠ st) → t.ledger.tasks st = 0 := by
    intro st hst
    exact countP_eq_zero.mpr fun pc hpc => by simpa using hst pc hpc
  have hcounted : n + t.ledger.tasks .adding + t.removed.length =
      t.sessions.length + t.ledger.tasks .removing := hn.counted
  refine ⟨⟨ids_nodup hb, ?_⟩, ?_, ?_, hb.handled_nodup, ?_, ?_⟩
  · intro k m id s hk hm
    have hmem : id ∈ m := AList.lookup_isSome.mp (by rw [hm]; rfl)
    obtain rfl : k = t.shardOf id := hb.placed k m id hk hmem
    have hst : t.stored id = some s := by
      rw [stored, getD_eq_getElem?_getD, hk]
      exact hm
    obtain ⟨x, hx, hid⟩ := map_eq_some_iff.mp (hi.stored_id id s hst).1
    have hhash : x.idHash = fnv1a x.id :=
      hb.hashed x.object (mem_map.mpr ⟨x, mem_of_getElem? hx, rfl⟩)
    exact ⟨rfl, x, hx, hid, hid ▸ hhash⟩
  · intro hmem
    change t.live + t.ledger.tasks .removing ≤ u64Max at hmem
    have hactive : t.active = n := by
      refine hn.active.trans (Nat.mod_eq_of_lt ?_)
      unfold u64Max at hmem
      omega
    rw [hactive]
    constructor
    · intro i s hpc
      have : 0 < t.ledger.tasks .removing := countP_pos_of_getElem? hpc rfl
      omega
    · intro hquiet
      have hadd := hnone .adding fun pc hpc => (hquiet pc hpc).1
      have hrem := hnone .removing fun pc hpc => (hquiet pc hpc).2
      omega
  · intro hmem hquiet
    have hzero : ∀ st, st ≠ .idle → st ≠ .checked → t.ledger.tasks st = 0 := by
      intro st hst hst'
      refine hnone st ?_
      rintro pc hpc rfl
      exact (hquiet pc hpc).elim hst hst'
    have hgauged : m + t.ledger.tasks .adding + t.ledger.tasks .gauging + t.removed.length =
      t.sessions.length + t.ledger.tasks .removing + t.ledger.tasks .lowering := hn.gauged
    rw [hzero .adding (by decide) (by decide), hzero .gauging (by decide) (by decide),
      hzero .removing (by decide) (by decide), hzero .lowering (by decide) (by decide)] at hgauged
    obtain rfl : m = t.live := by omega
    exact hn.gauge.trans (Int.bmod_eq_of_le (by omega) (by omega))
  · intro s hs
    simpa [view] using hb.handled_lt s hs
  · intro s hs
    obtain hh | hh := hb.announced s (by simpa [view] using hs)
    · exact .inl hh
    · right
      cases hpc : t.tasks[creator s]? with
      | none => simp [view, role, hpc] at hh
      | some pc =>
        have hrole : t.role (creator s) = pc.role := role_eq hpc
        have hh' : pc.role = .inserting s ∨ pc.role = .announcing s := hrole ▸ hh
        exact ⟨creator s, pc, hpc, hh', creating_runs cfg hi hpc hh'⟩

/-- An upload creates an object that an over-limit push removes again; a download creates a second
one in the other shard. -/
def removedAndCreated : List TableAction :=
  .request .upload [1] :: List.replicate 10 (.run 0) ++ [.pushed 0 .tooManyPending] ++
    List.replicate 4 (.run 0) ++ [.request .download [2]] ++ List.replicate 7 (.run 2)

theorem accounting_removedAndCreated : ∃ t, (table ⟨2, 10⟩).run removedAndCreated = some t ∧
    t.removed = [0] ∧ t.handled = [0, 1] ∧ t.active = t.live ∧ t.gauge = t.live ∧
      t.ids.Nodup := by
  obtain ⟨⟨hids, -⟩, hactive, hgauge, -⟩ := accounting ⟨2, 10⟩ removedAndCreated _ rfl
  exact ⟨_, rfl, rfl, rfl, (hactive (by decide)).2 (by decide), hgauge (by decide) (by decide),
    hids⟩

end Xhttp.Sessions
