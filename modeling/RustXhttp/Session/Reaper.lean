import RustXhttp.Session.Accounting

/-!
# Downloads and the grace reaper

A reaper that finds `fully_connected` unset removes the object in a later step. A download may open
the object in between: its abort comes too late for a reaper that has passed its only await point.

* `View.Opens`: an object whose reader was taken is marked as connected, and the reader is taken
  once.
* `View.Spares`: a reaper that is about to remove an object was there before the download opened it.
* `opened_not_reaped`: no object is opened twice; and in every run in which no download opens an
  object while a reaper is about to remove it, no reaper removes an object that was opened.
* `reaper_removes_opened`: the reaper checks, the download opens, the reaper removes.
-/

namespace Xhttp.Sessions

open List Option

namespace View

/-- The object `s` is marked as connected. -/
def Fully (v : View) (s : Nat) : Prop := ∃ x, v.objects[s]? = some x ∧ x.fullyConnected = true

/-- The reader of the object `s` has been taken. -/
def Taken (v : View) (s : Nat) : Prop := ∃ x, v.objects[s]? = some x ∧ x.downlinkReader = false

/-- What the downloads opened so far, `log`, have done. -/
structure Opens (log : List Event) (v : View) : Prop where
  opening : ∀ j s, v.role j = .opening s → v.Fully s
  taken : ∀ s, v.Taken s → v.Fully s
  opened : ∀ s, .opened s ∈ log → v.Taken s
  once : ∀ s, log.count (.opened s) ≤ 1

/-- No reaper is about to remove an object that a download has opened. -/
structure Spares (log : List Event) (v : View) : Prop where
  reaping : ∀ j s, v.role j = .reaping s → .opened s ∈ log → s ∈ v.removed
  order : log.Pairwise fun e e' => ∀ s, e = .opened s → e' ≠ .reaped s

variable {log : List Event} {v v' : View}

/-- What a step does to the flags of an object, and to the roles that concern them. -/
theorem Opens.mono (h : Opens log v) (hfully : ∀ s, v.Fully s → v'.Fully s)
    (htaken : ∀ s, v'.Taken s ↔ v.Taken s)
    (hrole : ∀ j s, v'.role j = .opening s → v.role j = .opening s ∨ v'.Fully s) :
    Opens log v' := by
  refine ⟨?_, ?_, ?_, h.once⟩
  · intro j s hj
    obtain hj | hj := hrole j s hj
    · exact hfully s (h.opening j s hj)
    · exact hj
  · intro s hs
    exact hfully s (h.taken s ((htaken s).mp hs))
  · intro s hs
    exact (htaken s).mpr (h.opened s hs)

/-- A step that leaves the objects alone and begins no opening. -/
theorem Opens.quiet (h : Opens log v) (ho : v'.objects = v.objects)
    (hrole : ∀ j s, v'.role j = .opening s → v.role j = .opening s) : Opens log v' := by
  have hfully : ∀ s, v.Fully s → v'.Fully s := fun s hs => by rwa [Fully, ho]
  have htaken : ∀ s, v'.Taken s ↔ v.Taken s := fun s => by rw [Taken, Taken, ho]
  exact h.mono hfully htaken fun j s hj => .inl (hrole j s hj)

section Modify

variable (s : Nat) {f : Object → Object} {s' : Nat}

theorem fully_modify (hf : ∀ x, x.fullyConnected = true → (f x).fullyConnected = true)
    (h : v.Fully s') : View.Fully { v with objects := v.objects.modify s f } s' := by
  obtain ⟨x, hx, hfully⟩ := h
  refine ⟨if s = s' then f x else x, ?_, ?_⟩
  · simp [getElem?_modify, hx]
  · split
    · exact hf x hfully
    · exact hfully

theorem taken_modify (hf : ∀ x, (f x).downlinkReader = x.downlinkReader) :
    View.Taken { v with objects := v.objects.modify s f } s' ↔ v.Taken s' := by
  constructor
  · rintro ⟨y, hy, ht⟩
    simp only [getElem?_modify] at hy
    obtain ⟨x, hx, rfl⟩ := map_eq_some_iff.mp hy
    refine ⟨x, hx, ?_⟩
    split at ht
    · exact (hf x).symm.trans ht
    · exact ht
  · rintro ⟨x, hx, ht⟩
    refine ⟨if s = s' then f x else x, ?_, ?_⟩
    · simp [getElem?_modify, hx]
    · split
      · exact (hf x).trans ht
      · exact ht

end Modify

/-- A new object: its reader is there. -/
theorem Opens.create (h : Opens log v) (id : SessionId) (fully : Bool)
    (ho : v'.objects = v.objects ++ [⟨id, fnv1a id, true, fully⟩])
    (hrole : ∀ j s, v'.role j = .opening s → v.role j = .opening s) : Opens log v' := by
  have hold : ∀ (s : Nat) x, v.objects[s]? = some x → v'.objects[s]? = some x := by
    intro s x hx
    rw [ho, getElem?_append_left (List.getElem?_eq_some_iff.mp hx).1]
    exact hx
  refine h.mono ?_ ?_ fun j s hj => .inl (hrole j s hj)
  · rintro s ⟨x, hx, hfully⟩
    exact ⟨x, hold s x hx, hfully⟩
  · intro s
    constructor
    · rintro ⟨x, hx, ht⟩
      rw [ho, getElem?_append] at hx
      split at hx
      · exact ⟨x, hx, ht⟩
      · obtain rfl := mem_singleton.mp (mem_of_getElem? hx)
        cases ht
    · rintro ⟨x, hx, ht⟩
      exact ⟨x, hold s x hx, ht⟩

/-- A download marks the object `s`. -/
theorem Opens.connect (h : Opens log v) (i : Nat) {s : Nat} (hs : s < v.objects.length) :
    Opens log (View.setRole { v with
      objects := v.objects.modify s fun x => { x with fullyConnected := true } } i
      (.opening s)) := by
  have hnew : View.Fully { v with
      objects := v.objects.modify s fun x => { x with fullyConnected := true } } s :=
    ⟨{ v.objects[s] with fullyConnected := true }, by simp [hs], rfl⟩
  refine h.mono (fun s' => fully_modify s fun _ _ => rfl) (fun s' => taken_modify s fun _ => rfl) ?_
  intro j s' hj
  rw [role_setRole] at hj
  split at hj
  · cases hj
    exact .inr hnew
  · exact .inl hj

/-- A download takes the reader of the object `s`. -/
theorem Opens.open (h : Opens log v) {i s : Nat} (hi : v.role i = .opening s)
    (hs : (v.objects[s]?).any Object.downlinkReader = true) :
    Opens (log ++ [.opened s]) (View.setRole { v with
      objects := v.objects.modify s fun x => { x with downlinkReader := false } } i .idle) := by
  have hreader : ¬ v.Taken s := by
    rintro ⟨x, hx, ht⟩
    rw [hx, any_some, ht] at hs
    cases hs
  have hfully : ∀ s', v.Fully s' → View.Fully { v with
      objects := v.objects.modify s fun x => { x with downlinkReader := false } } s' :=
    fun s' => fully_modify s fun _ hx => hx
  have htaken : ∀ s', View.Taken { v with
      objects := v.objects.modify s fun x => { x with downlinkReader := false } } s' →
      s' = s ∨ v.Taken s' := by
    rintro s' ⟨y, hy, ht⟩
    simp only [getElem?_modify] at hy
    obtain ⟨x, hx, rfl⟩ := map_eq_some_iff.mp hy
    by_cases he : s = s'
    · exact .inl he.symm
    · rw [if_neg he] at ht
      exact .inr ⟨x, hx, ht⟩
  refine ⟨?_, ?_, ?_, ?_⟩
  · intro j s' hj
    exact hfully s' (h.opening j s' (role_of_setRole hj nofun))
  · intro s' ht
    obtain rfl | ht := htaken s' ht
    · exact hfully s' (h.opening i s' hi)
    · exact hfully s' (h.taken s' ht)
  · intro s' hs'
    obtain ⟨x, hx, -⟩ := h.opening i s hi
    obtain hs' | hs' := mem_append.mp hs'
    · obtain ⟨y, hy, ht⟩ := h.opened s' hs'
      refine ⟨if s = s' then { y with downlinkReader := false } else y, ?_, ?_⟩
      · simp [View.setRole, getElem?_modify, hy]
      · split
        · rfl
        · exact ht
    · cases mem_singleton.mp hs'
      exact ⟨{ x with downlinkReader := false }, by simp [View.setRole, hx], rfl⟩
  · intro s'
    rw [count_append, count_singleton]
    by_cases he : s' = s
    · -- the first opening of `s`
      subst he
      have : log.count (.opened s') = 0 :=
        count_eq_zero.mpr fun hmem => hreader (h.opened _ hmem)
      simp [this]
    · have := h.once s'
      simp [Ne.symm he, this]

theorem Opens.reap (h : Opens log v) (s : Nat) (ho : v'.objects = v.objects)
    (hrole : ∀ j s, v'.role j = .opening s → v.role j = .opening s) :
    Opens (log ++ [.reaped s]) v' := by
  have hq := h.quiet ho hrole
  refine ⟨hq.opening, hq.taken, fun s' hs' => hq.opened s' ?_, fun s' => ?_⟩
  · obtain hs' | hs' := mem_append.mp hs'
    · exact hs'
    · cases mem_singleton.mp hs'
  · rw [count_append]
    simpa using h.once s'

theorem Opens.step (h : Opens log v) {e : Option Event} (hs : v.Step e v') :
    Opens (log ++ e.toList) v' := by
  cases hs with
  | opened i s hi hreader => exact h.open hi hreader
  | reap i s id hi hst hfree => exact h.reap s rfl fun _ _ hj => role_of_setRole hj nofun
  | stay =>
    rw [toList_none, append_nil]
    exact h
  | create i id fully hi hid =>
    rw [toList_none, append_nil]
    exact h.create id fully rfl fun _ _ hj => role_of_setRole hj nofun
  | connect i s hi hlt =>
    rw [toList_none, append_nil]
    exact h.connect i hlt
  | remove i s id hi hst hfree =>
    rw [toList_none, append_nil]
    exact h.quiet rfl fun _ _ hj => hj
  | _ =>
    rw [toList_none, append_nil]
    exact h.quiet rfl fun _ _ hj => role_of_setRole hj nofun

/-- A step that adds nothing to the log, and no reaper that is about to remove an opened object. -/
theorem Spares.quiet (h : Spares log v) (hr : ∀ s ∈ v.removed, s ∈ v'.removed)
    (hrole : ∀ j s, v'.role j = .reaping s → v.role j = .reaping s ∨ .opened s ∉ log) :
    Spares log v' := by
  refine ⟨fun j s hj hlog => ?_, h.order⟩
  obtain hj | hj := hrole j s hj
  · exact hr s (h.reaping j s hj hlog)
  · exact absurd hlog hj

/-- `hstored` and `hopen` are what the step must not do: a removed object is not in the table, and
no object is opened that a reaper is about to remove. -/
theorem Spares.step (h : Spares log v) (ho : Opens log v)
    (hstored : ∀ id s, v.stored id = some s → s ∉ v.removed) {e : Option Event}
    (hopen : ∀ s, e = some (.opened s) → ∀ j, v.role j = .reaping s → s ∈ v.removed)
    (hs : v.Step e v') : Spares (log ++ e.toList) v' := by
  cases hs with
  | opened i s hi hreader =>
    refine ⟨fun j s' hj hlog => ?_, ?_⟩
    · have hj := role_of_setRole hj nofun
      obtain hlog | hlog := mem_append.mp hlog
      · exact h.reaping j s' hj hlog
      · cases mem_singleton.mp hlog
        exact hopen s rfl j hj
    · refine pairwise_append.mpr ⟨h.order, pairwise_singleton _ _, ?_⟩
      intro a _ b hb s' _
      rw [mem_singleton.mp hb]
      intro h
      cases h
  | reap i s id hi hst hfree =>
    have hnot : .opened s ∉ log := fun hlog => hstored id s hst (h.reaping i s hi hlog)
    refine ⟨fun j s' hj hlog => ?_, ?_⟩
    · have hj := role_of_setRole hj nofun
      obtain hlog | hlog := mem_append.mp hlog
      · exact mem_append_left _ (h.reaping j s' hj hlog)
      · cases mem_singleton.mp hlog
    · refine pairwise_append.mpr ⟨h.order, pairwise_singleton _ _, ?_⟩
      rintro a ha b hb s' rfl rfl
      cases mem_singleton.mp hb
      exact hnot ha
  | stay =>
    rw [toList_none, append_nil]
    exact h
  | expire i s hi hlt hfully =>
    rw [toList_none, append_nil]
    have hnot : .opened s ∉ log := by
      intro hlog
      obtain ⟨x, hx, hx'⟩ := ho.taken s (ho.opened s hlog)
      rw [hx, any_some, hx'] at hfully
      cases hfully
    refine h.quiet (fun _ hr => hr) fun j s' hj => ?_
    rw [role_setRole] at hj
    split at hj
    · cases hj
      exact .inr hnot
    · exact .inl hj
  | remove i s id hi hst hfree =>
    rw [toList_none, append_nil]
    exact h.quiet (fun _ hr => mem_append_left _ hr) fun _ _ hj => .inl hj
  | _ =>
    rw [toList_none, append_nil]
    exact h.quiet (fun _ hr => hr) fun _ _ hj => .inl (role_of_setRole hj nofun)

end View

namespace SessionTable

/-- The step does not open an object that a reaper has found not connected and is about to
remove. -/
def sparesOpened (t : SessionTable) (a : TableAction) : Bool :=
  match t.event a with
  | some (.opened s) => s ∈ t.removed || t.tasks.all fun pc => pc.role ≠ .reaping s
  | _ => true

theorem opens_new (cfg : SessionConfig) : View.Opens [] (new cfg).view := by
  refine ⟨fun j s hj => ?_, fun s hs => ?_, nofun, fun s => Nat.zero_le _⟩
  · simp [view, role, new] at hj
  · obtain ⟨x, hx, -⟩ := hs
    simp [view, new] at hx

theorem mem_removed_of_sparesOpened {t : SessionTable} {a : TableAction} {s j : Nat}
    (h : t.sparesOpened a = true) (he : t.event a = some (.opened s))
    (hj : t.view.role j = .reaping s) : s ∈ t.removed := by
  simp only [sparesOpened, he, Bool.or_eq_true, decide_eq_true_eq, List.all_eq_true] at h
  refine h.resolve_right fun hall => ?_
  cases hpc : t.tasks[j]? with
  | none => simp [view, role, hpc] at hj
  | some pc => exact hall pc (mem_of_getElem? hpc) ((role_eq hpc).symm.trans hj)

/-- The object that a step opens while a reaper is about to remove it is removed by the next step
of that reaper, if the shard is not locked. -/
theorem reaped_of_not_spares {cfg : SessionConfig} {t t' : SessionTable} {a : TableAction} {s : Nat}
    (hinv : Inv t) (he : t.event a = some (.opened s)) (h : t.sparesOpened a = false)
    (hfree : ∀ id, t.sessionId s = some id → t.owner id = none) (hs : t.step cfg a = some t') :
    ∃ j, t'.event (.run j) = some (.reaped s) := by
  simp only [sparesOpened, he, Bool.or_eq_false_iff, decide_eq_false_iff_not] at h
  obtain ⟨hrem, hall⟩ := h
  obtain ⟨pc, hmem, hrole⟩ := all_eq_false.mp hall
  obtain ⟨j, hj⟩ := mem_iff_getElem?.mp hmem
  obtain ⟨id, rfl⟩ : ∃ id, pc = .remove s id true := by
    cases pc
    case remove c id reaper => cases reaper <;> simp_all [Pc.role]
    all_goals simp [Pc.role] at hrole
  have hid : t.sessionId s = some id := hinv.tasks j _ hj
  have hst : t.stored id = some s := (hinv.kept s id hid).resolve_right hrem
  -- the step of the download leaves the shard and the reaper alone
  obtain ⟨i, hi, ht'⟩ : ∃ i, t.tasks[i]? = some (.takeReader s) ∧
      t' = (t.modifySession s fun x => { x with downlinkReader := false }).setPc i
        (.downloading s) := by
    cases a with
    | run i =>
      obtain ⟨pc, hpc, hev⟩ := bind_eq_some_iff.mp he
      cases pc
      case takeReader s' =>
        simp only [taskEvent] at hev
        split at hev
        case isTrue hreader =>
          cases hev
          simp only [step, hpc, bind_some, runTask, if_pos hreader, Option.some.injEq] at hs
          exact ⟨i, hpc, hs.symm⟩
        case isFalse => cases hev
      case remove c id' reaper =>
        cases reaper
        · cases hev
        · simp only [taskEvent] at hev
          split at hev <;> cases hev
      all_goals cases hev
    | _ => cases he
  have hne : j ≠ i := by
    rintro rfl
    cases hj.symm.trans hi
  have hj' : t'.tasks[j]? = some (.remove s id true) := by
    rw [ht', setPc, getElem?_set_ne (Ne.symm hne)]
    exact hj
  refine ⟨j, ?_⟩
  have hown : t'.owner id = none := by
    rw [ht']
    exact hfree id hid
  have hst' : t'.stored id = some s := by
    rw [ht']
    exact hst
  simp only [event, hj', bind_some, taskEvent, if_pos (And.intro hown hst')]

end SessionTable

open SessionTable

/-- **Downloads and reapers.** No object is opened twice. In every run along `sparesOpened`, no
reaper removes an object after a download opened it. A step that does not meet it is followed by
such a removal as soon as the reaper takes its next step, if no `upsert` has locked the shard. -/
theorem opened_not_reaped (cfg : SessionConfig) (as : List TableAction) (t : SessionTable)
    (h : (table cfg).run as = some t) :
    (∀ s, ((table cfg).events event (table cfg).init as).count (.opened s) ≤ 1) ∧
    ((table cfg).Along (fun t a => t.sparesOpened a = true) (table cfg).init as →
      ((table cfg).events event (table cfg).init as).Pairwise fun e e' =>
        ∀ s, e = .opened s → e' ≠ .reaped s) ∧
    ∀ a s t', t.event a = some (.opened s) → t.sparesOpened a = false →
      (∀ id, t.sessionId s = some id → t.owner id = none) → (table cfg).step t a = some t' →
      ∃ j, t'.event (.run j) = some (.reaped s) := by
  have hopens : Inv t ∧ View.Opens ((table cfg).events event (table cfg).init as) t.view := by
    refine Machine.events_inv (J := fun log t => Inv t ∧ View.Opens log t.view)
      ⟨inv_new cfg, opens_new cfg⟩ ?_ (Machine.along_true _ _) h
    rintro log s a s' - ⟨hi, ho⟩ hs
    exact ⟨hi.step hs, ho.step (view_step hi hs)⟩
  refine ⟨hopens.2.once, fun hG => ?_, fun a s t' he hsp hfree hs => ?_⟩
  · have hspares : (Inv t ∧ View.Opens ((table cfg).events event (table cfg).init as) t.view) ∧
        View.Spares ((table cfg).events event (table cfg).init as) t.view := by
      refine Machine.events_inv
        (J := fun log t => (Inv t ∧ View.Opens log t.view) ∧ View.Spares log t.view)
        ⟨⟨inv_new cfg, opens_new cfg⟩, nofun, List.Pairwise.nil⟩ ?_ hG h
      rintro log s a s' hG ⟨⟨hi, ho⟩, hsp⟩ hs
      refine ⟨⟨hi.step hs, ho.step (view_step hi hs)⟩, ?_⟩
      refine hsp.step ho (fun id s hs => (hi.stored_id id s hs).2) ?_ (view_step hi hs)
      exact fun s' he j hj => mem_removed_of_sparesOpened hG he hj
    exact hspares.2.order
  · exact reaped_of_not_spares hopens.1 he hsp hfree hs

/-- An upload creates an object; its reaper wakes up after a download has opened it. -/
def downloadInTime : List TableAction :=
  .request .upload [1] :: List.replicate 10 (.run 0) ++ [.request .download [1]] ++
    List.replicate 2 (.run 2) ++ [.wake 1, .run 1, .run 1] ++ List.replicate 2 (.run 2)

theorem opened_not_reaped_inTime :
    (table ⟨1, 10⟩).events event (table ⟨1, 10⟩).init downloadInTime = [.opened 0] ∧
      ((table ⟨1, 10⟩).events event (table ⟨1, 10⟩).init downloadInTime).Pairwise fun e e' =>
        ∀ s, e = .opened s → e' ≠ .reaped s :=
  ⟨by decide +kernel, (opened_not_reaped ⟨1, 10⟩ downloadInTime _ rfl).2.1 (by decide +kernel)⟩

/-- The reaper finds the object not connected, the download opens it, the reaper goes on. -/
def downloadTooLate : List TableAction :=
  .request .upload [1] :: List.replicate 10 (.run 0) ++ [.wake 1, .run 1, .run 1] ++
    [.request .download [1]] ++ List.replicate 4 (.run 2) ++ [.run 1]

/-- The reaper removes the object of an open download. -/
theorem reaper_removes_opened : ∃ t, (table ⟨1, 10⟩).run downloadTooLate = some t ∧
    (table ⟨1, 10⟩).events event (table ⟨1, 10⟩).init downloadTooLate = [.opened 0, .reaped 0] ∧
      t.tasks[2]? = some (.downloading 0) ∧ t.stored [1] = none :=
  ⟨_, rfl, by decide +kernel, rfl, rfl⟩

end Xhttp.Sessions
