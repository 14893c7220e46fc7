import RustXhttp.Session.Account

/-!
# Where the reservations of the upload budget go

`account_step`: every step of the pool moves reservations from one place to another, makes one or
releases one, and keeps the locks.
-/

namespace Xhttp.Budget

open List Option
open Reorder (Config Push PushResult MemoryBudget)

namespace Pool

/-! ## Every step is a step of the account -/

theorem step_move {limit : Nat} {s s' : Pool} (hb : s'.budget = s.budget) (hm : s'.made = s.made)
    (hr : s'.released = s.released) (hl : s'.live.Perm s.live) : s.account.Step limit s'.account :=
  .move hl (by rw [account, hb]; rfl) hm hr

theorem step_release {limit : Nat} {s s' : Pool} (r : Reservation)
    (hb : s'.budget = s.budget.release r.bytes) (hm : s'.made = s.made)
    (hr : s'.released = s.released ++ [r.id]) (hl : s.live.Perm (r :: s'.live)) :
    s.account.Step limit s'.account := by
  refine .release r ?_ hl hm hr
  simp only [account, hb, MemoryBudget.release]

theorem advance_locked (line : Line) (k : Nat) :
    (line.advance k).2.holds = none ∨
      (line.advance k).2.holds = some k ∧ (line.advance k).1.locked = line.locked ∧
        (line.advance k).2.reserving = none := by
  unfold Line.advance
  split
  · exact .inl rfl
  · exact .inr ⟨rfl, rfl, rfl⟩

theorem advance_reservations (line : Line) (k : Nat) :
    (line.advance k).1.reservations = line.reservations ∧
      (line.advance k).2.reservations = [] := by
  unfold Line.advance
  split <;> exact ⟨rfl, rfl⟩

/-- The locks are kept, and the step is one of the account. -/
abbrev Steps (s s' : Pool) : Prop :=
  (∃ owner, s'.Locks owner) ∧ s.account.Step s.budget.limit s'.account

section RunTask

variable {cfg : Config} {s s' : Pool} {owner : Nat → Nat} {i k : Nat} (h : s.Locks owner)

include h

variable {p : Push} {item : BudgetedBytes}

/-- A compare-and-swap that succeeds finds the counter where the push has read it. -/
theorem cas_step {cur : Nat} (hi : s.tasks[i]? = some (.cas k p cur))
    (hs : s.runTask cfg i (.cas k p cur) = some s') : s.Steps s' := by
  obtain ⟨line, hk, hs⟩ := map_eq_some_iff.mp hs
  dsimp only at hs
  split at hs
  · subst hs
    refine ⟨⟨owner, h.update hk hi rfl [] (.inl rfl)⟩, step_move rfl rfl rfl ?_⟩
    exact live_update hk hi (by simp [Line.reservations]; rfl)
  case isFalse hle =>
    split at hs
    case isTrue hcur =>
      subst hs hcur
      refine ⟨⟨owner, ?_⟩, ?_⟩
      · have hset : ∀ item, (s.setPc i (.reserved k p item)).Locks owner :=
          fun _ => h.setPc hi (.inr rfl) (.inr rfl)
        exact (hset ⟨p.payload, ⟨s.made.length, p.payload.length⟩⟩).of_lines rfl rfl
      · refine .reserve p.payload rfl (Nat.le_of_not_lt hle) (waiting_le hi) ?_ rfl rfl
        refine perm_iff_count.mpr fun r => ?_
        have := count_flatMap_set (g := Pc.reservations) hi
          (.reserved k p ⟨p.payload, ⟨s.made.length, p.payload.length⟩⟩) r
        simp only [account, live, reserve, count_append, count_cons]
        simp only [Pc.reservations, Pc.item, toList_none, toList_some, map_nil,
          map_cons, count_nil, count_cons] at this
        omega
    case isFalse =>
      subst hs
      exact ⟨⟨owner, h.setPc hi (.inr rfl) (.inr rfl)⟩, step_move rfl rfl rfl (live_setPc hi rfl)⟩

theorem reserved_step (hi : s.tasks[i]? = some (.reserved k p item))
    (hs : s.runTask cfg i (.reserved k p item) = some s') : s.Steps s' := by
  obtain ⟨line, hk, hs⟩ := map_eq_some_iff.mp hs
  obtain ⟨-, line', hk', -, hnew⟩ := h i _ hi k rfl
  obtain rfl : line = line' := Option.some.inj (hk.symm.trans hk')
  split at hs
  case isTrue hlt =>
    subst hs
    refine ⟨⟨owner, h.update hk hi rfl [] (.inl rfl)⟩, step_move rfl rfl rfl ?_⟩
    refine live_update hk hi ?_
    have hins := Line.pendingItems_insert item (hnew p rfl hlt)
    have hitems : (line.insert p.seq.toNat item).items = item :: line.items := by
      simp only [Line.items]
      rw [← cons_append, ← cons_append, ← hins]
      rfl
    simp only [Line.reservations, hitems, Pc.reservations, Pc.item, map_cons, map_nil,
      toList_none, toList_some, append_nil]
    exact (perm_append_singleton _ _).symm
  case isFalse =>
    subst hs
    exact ⟨⟨owner, h.setPc hi (.inr rfl) (.inl rfl)⟩, step_move rfl rfl rfl (live_setPc hi rfl)⟩

theorem send_step (hi : s.tasks[i]? = some (.send k item))
    (hs : s.runTask cfg i (.send k item) = some s') : s.Steps s' := by
  obtain ⟨line, hk, hs⟩ := bind_eq_some_iff.mp hs
  obtain ⟨-, line', hk', hlock, -⟩ := h i _ hi k rfl
  obtain rfl : line = line' := Option.some.inj (hk.symm.trans hk')
  have hadvance : ∀ line₁ : Line, line₁.locked = line.locked →
      (line₁.advance k).2.holds = none ∨ (line₁.advance k).2.holds = some k ∧
        (line₁.advance k).1.locked = true ∧ (line₁.advance k).2.reserving = none := by
    intro line₁ hl
    refine (advance_locked line₁ k).imp_right ?_
    rintro ⟨hh, hl', hr⟩
    exact ⟨hh, hl'.trans (hl.trans hlock), hr⟩
  split at hs
  · cases hs
    refine ⟨⟨owner, h.update hk hi rfl [item] (hadvance line rfl)⟩, step_move rfl rfl rfl ?_⟩
    obtain ⟨h1, h2⟩ := advance_reservations line k
    refine live_update hk hi ?_
    rw [h1, h2, append_nil]
    exact List.Perm.refl _
  · split at hs
    · cases hs
      refine ⟨⟨owner, h.update hk hi rfl [item] (.inl rfl)⟩, step_move rfl rfl rfl ?_⟩
      refine live_update hk hi ?_
      simp only [Pc.reservations, Pc.item, toList_none, map_nil, append_nil]
      exact List.Perm.refl _
    · split at hs
      · cases hs
        refine ⟨⟨owner, h.update hk hi rfl [] (hadvance _ rfl)⟩, step_move rfl rfl rfl ?_⟩
        obtain ⟨h1, h2⟩ := advance_reservations { line with queue := line.queue ++ [item] } k
        refine live_update hk hi ?_
        rw [h1, h2]
        -- the item goes from the task to the end of the channel
        refine perm_iff_count.mpr fun r => ?_
        simp only [Line.reservations, Line.items, Line.pendingItems, Pc.reservations, Pc.item,
          map_append, count_append, map_nil, count_nil, toList_some, map_cons]
        omega
      · cases hs

theorem drain_step (hi : s.tasks[i]? = some (.drain k))
    (hs : s.runTask cfg i (.drain k) = some s') : s.Steps s' := by
  obtain ⟨line, hk, hs⟩ := map_eq_some_iff.mp hs
  obtain ⟨-, line', hk', hlock, -⟩ := h i _ hi k rfl
  obtain rfl : line = line' := Option.some.inj (hk.symm.trans hk')
  split at hs
  · subst hs
    refine ⟨⟨owner, h.update hk hi rfl [] (.inl rfl)⟩, step_move rfl rfl rfl ?_⟩
    exact live_update hk hi (by simp [Line.reservations]; rfl)
  case h_2 b hb =>
    subst hs
    refine ⟨⟨owner, h.update hk hi rfl [] (.inr ⟨rfl, hlock, rfl⟩)⟩, step_move rfl rfl rfl ?_⟩
    refine live_update hk hi (perm_iff_count.mpr fun r => ?_)
    have hcount := perm_iff_count.mp ((Line.pendingItems_erase hb).map
      BudgetedBytes.reservation) r
    have htake : (line.takeFollower b).pendingItems =
        { line with pending := line.pending.erase line.nextSeq }.pendingItems := by
      simp only [Line.pendingItems, Line.takeFollower]
    have hqueue : (line.takeFollower b).queue = line.queue ∧
        (line.takeFollower b).cur = line.cur := ⟨rfl, rfl⟩
    simp only [Line.reservations, Line.items, Pc.reservations, Pc.item, htake, hqueue, map_append,
      count_append, map_nil, count_nil, toList_some, toList_none, map_cons, count_cons] at hcount ⊢
    omega

theorem drop_step (hi : s.tasks[i]? = some (.drop item))
    (hs : s.runTask cfg i (.drop item) = some s') : s.Steps s' := by
  cases hs
  have hset : (s.setPc i .dropped).Locks owner := h.setPc hi (.inl rfl) (.inl rfl)
  refine ⟨⟨owner, hset.of_lines rfl rfl⟩, step_release item.reservation rfl rfl rfl ?_⟩
  refine perm_iff_count.mpr fun r => ?_
  have := count_flatMap_set (g := Pc.reservations) hi .dropped r
  simp only [live, Pool.setPc, count_append, count_cons]
  simp only [Pc.reservations, Pc.item, toList_none, toList_some, map_nil,
    map_cons, count_nil, count_cons] at this
  omega

/-- Every step of a task keeps the locks and is a step of the account. -/
theorem runTask_step (hlimit : s.budget.limit ≠ 0) {pc : Pc} (hi : s.tasks[i]? = some pc)
    (hs : s.runTask cfg i pc = some s') : s.Steps s' := by
  cases pc with
  | lock k p =>
    obtain ⟨line, hk, hs⟩ := bind_eq_some_iff.mp hs
    split at hs
    · cases hs
    case isFalse hfree =>
      split at hs
      · cases hs
        exact ⟨⟨owner, h.setPc hi (.inl rfl) (.inl rfl)⟩, step_move rfl rfl rfl (live_setPc hi rfl)⟩
      case h_2 hcheck =>
        cases hs
        refine ⟨⟨_, h.acquire hk (Bool.eq_false_iff.mpr hfree) (Line.newSeq_of_check hcheck)⟩, ?_⟩
        exact step_move rfl rfl rfl (live_update hk hi (by simp [Line.reservations]; rfl))
  | load k p =>
    simp only [runTask, if_pos hlimit] at hs
    cases hs
    exact ⟨⟨owner, h.setPc hi (.inr rfl) (.inr rfl)⟩, step_move rfl rfl rfl (live_setPc hi rfl)⟩
  | cas k p cur => exact cas_step h hi hs
  | reserved k p item => exact reserved_step h hi hs
  | send k item => exact send_step h hi hs
  | drain k => exact drain_step h hi hs
  | drop item => exact drop_step h hi hs
  | returned r => cases hs
  | cancelled => cases hs
  | dropped => cases hs

end RunTask

end Pool

/-! ## The reader and the ends of a session -/

namespace Line

variable (line : Line)

theorem putSlice_perm (b : BudgetedBytes) (n : Nat) :
    ((line.putSlice b n).1.reservations ++
      (line.putSlice b n).2.map BudgetedBytes.reservation).Perm
      ({ line with cur := some b }.reservations) := by
  unfold putSlice
  dsimp only
  split <;>
  · simp only [reservations, items, pendingItems, map_append, append_assoc,
      toList_none, toList_some, map_nil, map_cons, append_nil]
    exact List.Perm.refl _

theorem fetch_perm (n : Nat) :
    ((line.fetch n).1.reservations ++ (line.fetch n).2.map BudgetedBytes.reservation).Perm
      line.reservations := by
  unfold fetch
  split
  · simp
  case h_2 b rest hq =>
    have hput := putSlice_perm { line with queue := rest } b n
    refine perm_iff_count.mpr fun r => ?_
    have := perm_iff_count.mp hput r
    simp only [reservations, items, pendingItems, hq, map_append, map_cons,
      count_append, count_cons, toList_some, map_nil, count_nil]
      at this ⊢
    omega

theorem pollRead_perm (n : Nat) :
    ((line.pollRead n).1.reservations ++ (line.pollRead n).2.map BudgetedBytes.reservation).Perm
      line.reservations := by
  unfold pollRead
  split
  case h_1 b hb =>
    split
    · exact line.fetch_perm n
    · have := line.putSlice_perm b n
      rwa [show { line with cur := some b } = line by rw [← hb]] at this
  case h_2 => exact line.fetch_perm n

theorem putSlice_frame (b : BudgetedBytes) (n : Nat) :
    (line.putSlice b n).1.locked = line.locked ∧ (line.putSlice b n).1.nextSeq = line.nextSeq ∧
      (line.putSlice b n).1.pending = line.pending := by
  unfold putSlice
  dsimp only
  split <;> exact ⟨rfl, rfl, rfl⟩

/-- The reader leaves alone what the lock protects. -/
theorem pollRead_frame (n : Nat) : (line.pollRead n).1.locked = line.locked ∧
    (line.pollRead n).1.nextSeq = line.nextSeq ∧ (line.pollRead n).1.pending = line.pending := by
  have hfetch : (line.fetch n).1.locked = line.locked ∧
      (line.fetch n).1.nextSeq = line.nextSeq ∧ (line.fetch n).1.pending = line.pending := by
    unfold fetch
    split
    · exact ⟨rfl, rfl, rfl⟩
    · exact putSlice_frame _ _ _
  unfold pollRead
  split
  · split
    · exact hfetch
    · exact line.putSlice_frame _ n
  · exact hfetch

theorem clear_perm (line' : Line) (h : line'.pending = ∅) (hq : line'.queue = line.queue)
    (hc : line'.cur = line.cur) :
    (line'.reservations ++ line.pendingItems.map BudgetedBytes.reservation).Perm
      line.reservations := by
  have hnil : line'.pendingItems = [] := by
    rw [pendingItems, h]
    rfl
  refine perm_iff_count.mpr fun r => ?_
  simp only [reservations, items, hnil, hq, hc, map_append, count_append, map_nil, count_nil]
  omega

theorem close_perm : (line.close.1.reservations ++
    line.close.2.map BudgetedBytes.reservation).Perm line.reservations := by
  unfold close
  split
  · simp
  · exact line.clear_perm _ rfl rfl rfl

theorem dropReader_perm : (line.dropReader.1.reservations ++
    line.dropReader.2.map BudgetedBytes.reservation).Perm line.reservations := by
  simp only [dropReader, reservations, items, pendingItems, map_append, append_assoc,
    toList_none, map_nil, nil_append]
  exact List.Perm.refl _

end Line

namespace Pool

variable {cfg : Config} {s s' : Pool} {owner : Nat → Nat}

/-- A step of the reader or of the owner of the sink. -/
theorem updateLine_step {k : Nat} {line : Line} {r : Line × List BudgetedBytes} (h : s.Locks owner)
    (hk : s.lines[k]? = some line)
    (hperm : (r.1.reservations ++ r.2.map BudgetedBytes.reservation).Perm line.reservations)
    (hkeep : ∀ (j : Nat) pc, s.tasks[j]? = some pc → pc.holds = some k → line.locked = true →
      r.1.locked = true ∧ r.1.nextSeq = line.nextSeq ∧ r.1.pending = line.pending) :
    s.Steps (s.updateLine k r) :=
  ⟨⟨owner, h.updateLine hk r.2 hkeep⟩, step_move rfl rfl rfl (live_updateLine hk hperm)⟩

/-- **The pool refines its account**, and keeps the locks. -/
theorem account_step (h : s.Locks owner) (hlimit : s.budget.limit ≠ 0) {a : PoolAction}
    (hs : s.step cfg a = some s') : s.Steps s' := by
  unfold step at hs
  split at hs
  case h_1 =>
    cases hs
    refine ⟨⟨owner, fun i pc hpc => (h i pc hpc).frame fun k line _ ho hl hlock => ?_⟩, ?_⟩
    · refine ⟨ho, line, ?_, hlock, rfl, rfl⟩
      rw [getElem?_append_left (List.getElem?_eq_some_iff.mp hl).1]
      exact hl
    · refine step_move rfl rfl rfl ?_
      have hnew : Line.new.reservations = [] := rfl
      simp [live, hnew]
  case h_2 k p =>
    split at hs
    · cases hs
      refine ⟨⟨owner, forall_snoc h (holds_of_none rfl)⟩, step_move rfl rfl rfl ?_⟩
      simp [live, Pc.reservations, Pc.item]
    · cases hs
  case h_3 i =>
    obtain ⟨pc, hpc, hs⟩ := bind_eq_some_iff.mp hs
    exact runTask_step h hlimit hpc hs
  case h_4 i =>
    split at hs
    case h_1 k p cur hpc =>
      split at hs
      · cases hs
      · cases hs
        exact ⟨⟨owner, h.setPc hpc (.inr rfl) (.inr rfl)⟩,
          step_move rfl rfl rfl (live_setPc hpc rfl)⟩
    case h_2 => cases hs
  case h_5 i =>
    split at hs
    case h_1 k p hpc =>
      cases hs
      exact ⟨⟨owner, h.setPc hpc (.inl rfl) (.inl rfl)⟩,
        step_move rfl rfl rfl (live_setPc hpc rfl)⟩
    case h_2 k item hpc =>
      split at hs
      · cases hs
      · obtain ⟨line, hk, rfl⟩ := map_eq_some_iff.mp hs
        refine ⟨⟨owner, h.update hk hpc rfl [item] (.inl rfl)⟩, step_move rfl rfl rfl ?_⟩
        refine live_update hk hpc ?_
        simp only [Pc.reservations, Pc.item, toList_none, map_nil, append_nil]
        exact List.Perm.refl _
    case h_3 => cases hs
  case h_6 k n =>
    obtain ⟨line, hk, hs⟩ := bind_eq_some_iff.mp hs
    split at hs
    · cases hs
      obtain ⟨hlock, hseq, hpend⟩ := line.pollRead_frame n
      exact updateLine_step h hk (line.pollRead_perm n) fun _ _ _ _ hl =>
        ⟨hlock.trans hl, hseq, hpend⟩
    · cases hs
  case h_7 k =>
    obtain ⟨line, hk, hs⟩ := bind_eq_some_iff.mp hs
    split at hs
    · cases hs
      refine updateLine_step h hk line.close_perm fun _ _ _ _ hl => ?_
      rw [Line.close, if_pos hl]
      exact ⟨hl, rfl, rfl⟩
    · cases hs
  case h_8 k =>
    obtain ⟨line, hk, hs⟩ := bind_eq_some_iff.mp hs
    split at hs
    case isTrue hno =>
      cases hs
      refine updateLine_step h hk (line.clear_perm _ rfl rfl rfl) fun j pc hj hpc _ => ?_
      -- a task that holds the lock refers to the session
      have hses : pc.session = some k := by
        cases pc <;> first | exact hpc | cases hpc
      have := all_eq_true.mp hno.2 pc (mem_of_getElem? hj)
      simp [hses] at this
    case isFalse => cases hs
  case h_9 k =>
    obtain ⟨line, hk, hs⟩ := bind_eq_some_iff.mp hs
    split at hs
    · cases hs
      exact updateLine_step h hk line.dropReader_perm fun _ _ _ _ hl => ⟨hl, rfl, rfl⟩
    · cases hs

end Pool

end Xhttp.Budget
