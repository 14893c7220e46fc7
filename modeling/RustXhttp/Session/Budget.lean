import RustXhttp.Session.Reservations

/-!
# The global upload budget

`budget_exact`: after any steps of any sessions, the counter of the budget is the sum of the live
reservations.
-/

namespace Xhttp.Budget

open List Option
open Reorder (Config Push PushResult MemoryBudget)

/-! ## Chunks that are not read to their end -/

/-- A chunk in the channel or at the reader has bytes to read. -/
def Line.Unread (line : Line) : Prop := ∀ item ∈ line.queue ++ line.cur.toList, item.bytes ≠ []

namespace Line

variable {line : Line} (n : Nat)

/-- What a read discards has been read to its end. -/
theorem pollRead_gone (line : Line) : ∀ item ∈ (line.pollRead n).2, item.bytes = [] := by
  have hput : ∀ (l : Line) b, ∀ item ∈ (l.putSlice b n).2, item.bytes = [] := by
    intro l b item hitem
    simp only [putSlice] at hitem
    split at hitem
    case isTrue hnil =>
      obtain rfl := mem_singleton.mp hitem
      exact hnil
    case isFalse => cases hitem
  have hfetch : (∀ item ∈ line.cur.toList, item.bytes = []) →
      ∀ item ∈ (line.fetch n).2, item.bytes = [] := by
    intro hcur item hitem
    unfold fetch at hitem
    split at hitem
    · cases hitem
    · obtain hitem | hitem := mem_append.mp hitem
      · exact hcur item hitem
      · exact hput _ _ item hitem
  unfold pollRead
  split
  case h_1 b hcur =>
    split
    case isTrue hnil =>
      refine hfetch fun item hitem => ?_
      rw [hcur] at hitem
      obtain rfl := mem_singleton.mp hitem
      exact hnil
    case isFalse => exact hput _ _
  case h_2 hcur =>
    refine hfetch fun item hitem => ?_
    rw [hcur] at hitem
    cases hitem

/-- It is a matter of the channel and the reader alone. -/
theorem Unread.of_eq {line' : Line} (h : line.Unread) (hq : line'.queue = line.queue)
    (hc : line'.cur = line.cur) : line'.Unread := by
  unfold Unread
  rw [hq, hc]
  exact h

theorem Unread.putSlice (h : ∀ item ∈ line.queue, item.bytes ≠ []) (b : BudgetedBytes) :
    (line.putSlice b n).1.Unread := by
  simp only [Line.putSlice]
  split
  · intro item hitem
    simp only [toList_none, append_nil] at hitem
    exact h item hitem
  case isFalse hne =>
    intro item hitem
    obtain hitem | hitem := mem_append.mp hitem
    · exact h item hitem
    · obtain rfl := mem_singleton.mp hitem
      exact hne

theorem Unread.pollRead (h : line.Unread) : (line.pollRead n).1.Unread := by
  have hfetch : (line.fetch n).1.Unread := by
    unfold fetch
    split
    · exact h
    case h_2 b rest hq =>
      refine Unread.putSlice n (fun item hitem => h item ?_) b
      simp [hq, hitem]
  unfold Line.pollRead
  split
  · split
    · exact hfetch
    · exact Unread.putSlice n (fun item hitem => h item (by simp [hitem])) _
  · exact hfetch

theorem Unread.advance (h : line.Unread) (k : Nat) : (line.advance k).1.Unread := by
  unfold Line.advance
  split <;> exact h.of_eq rfl rfl

end Line

namespace Pool

variable {cfg : Config} {s s' : Pool}

def Unread (s : Pool) : Prop := ∀ (k : Nat) line, s.lines[k]? = some line → line.Unread

theorem Unread.of_lines (h : s.Unread) (hl : s'.lines = s.lines) : s'.Unread := by
  unfold Unread
  rw [hl]
  exact h

theorem Unread.set (h : s.Unread) {k : Nat} {line : Line} (hl : line.Unread) :
    ∀ (j : Nat) l, (s.lines.set k line)[j]? = some l → l.Unread :=
  forall_set (P := fun _ l => l.Unread) (fun j l _ hj => h j l hj) hl

theorem Unread.runTask (h : s.Unread) {i : Nat} {pc : Pc} (hs : s.runTask cfg i pc = some s') :
    s'.Unread := by
  cases pc with
  | lock k p =>
    obtain ⟨line, hk, hs⟩ := bind_eq_some_iff.mp hs
    split at hs
    · cases hs
    · split at hs <;> cases hs
      · exact h.of_lines rfl
      · exact h.set ((h k line hk).of_eq rfl rfl)
  | load k p =>
    simp only [Pool.runTask] at hs
    split at hs <;> cases hs <;> exact h.of_lines rfl
  | cas k p cur =>
    obtain ⟨line, hk, rfl⟩ := map_eq_some_iff.mp hs
    by_cases hle : saturatingAdd cur p.payload.length > s.budget.limit
    · simp only [if_pos hle]
      exact h.set ((h k line hk).of_eq rfl rfl)
    · simp only [if_neg hle]
      split <;> exact h.of_lines rfl
  | reserved k p item =>
    obtain ⟨line, hk, rfl⟩ := map_eq_some_iff.mp hs
    split
    · exact h.set ((h k line hk).of_eq rfl rfl)
    · exact h.of_lines rfl
  | send k item =>
    obtain ⟨line, hk, hs⟩ := bind_eq_some_iff.mp hs
    split at hs
    · cases hs
      exact h.set ((h k line hk).advance k)
    case isFalse hne =>
      split at hs
      · cases hs
        exact h.set ((h k line hk).of_eq rfl rfl)
      · split at hs <;> cases hs
        refine h.set (Line.Unread.advance ?_ k)
        intro b hb
        simp only [mem_append, mem_singleton] at hb
        obtain (hb | rfl) | hb := hb
        · exact h k line hk b (by simp [hb])
        · exact hne
        · exact h k line hk b (by simp [hb])
  | drain k =>
    obtain ⟨line, hk, rfl⟩ := map_eq_some_iff.mp hs
    split <;> exact h.set ((h k line hk).of_eq rfl rfl)
  | drop item =>
    cases hs
    exact h.of_lines rfl
  | returned r => cases hs
  | cancelled => cases hs
  | dropped => cases hs

theorem Unread.step (h : s.Unread) {a : PoolAction} (hs : s.step cfg a = some s') : s'.Unread := by
  unfold Pool.step at hs
  split at hs
  case h_1 =>
    cases hs
    exact forall_snoc h (by simp [Line.Unread, Line.new])
  case h_2 =>
    split at hs <;> cases hs
    exact h.of_lines rfl
  case h_3 =>
    obtain ⟨pc, hpc, hs⟩ := bind_eq_some_iff.mp hs
    exact h.runTask hs
  case h_4 =>
    split at hs
    · split at hs <;> cases hs
      exact h.of_lines rfl
    · cases hs
  case h_5 =>
    split at hs
    · cases hs
      exact h.of_lines rfl
    · split at hs
      · cases hs
      · obtain ⟨line, hk, rfl⟩ := map_eq_some_iff.mp hs
        exact h.set ((h _ line hk).of_eq rfl rfl)
    · cases hs
  case h_6 k n =>
    obtain ⟨line, hk, hs⟩ := bind_eq_some_iff.mp hs
    split at hs <;> cases hs
    exact h.set ((h k line hk).pollRead n)
  case h_7 k =>
    obtain ⟨line, hk, hs⟩ := bind_eq_some_iff.mp hs
    split at hs <;> cases hs
    refine h.set ?_
    unfold Line.close
    split
    · exact h k line hk
    · exact (h k line hk).of_eq rfl rfl
  case h_8 k =>
    obtain ⟨line, hk, hs⟩ := bind_eq_some_iff.mp hs
    split at hs <;> cases hs
    exact h.set ((h k line hk).of_eq rfl rfl)
  case h_9 k =>
    obtain ⟨line, hk, hs⟩ := bind_eq_some_iff.mp hs
    split at hs <;> cases hs
    exact h.set (by simp [Line.Unread, Line.dropReader])

/-! ## Every run -/

/-- What the steps keep. -/
structure Inv (limit : Nat) (s : Pool) : Prop where
  sound : s.account.Sound limit
  limit : s.budget.limit = limit
  locks : ∃ owner, s.Locks owner
  unread : s.Unread

theorem limit_step {a : PoolAction} (hs : s.step cfg a = some s') :
    s'.budget.limit = s.budget.limit := by
  have hrun : ∀ i pc, s.runTask cfg i pc = some s' → s'.budget.limit = s.budget.limit := by
    intro i pc hs
    unfold runTask at hs
    split at hs <;> grind [update, setPc, reserve, MemoryBudget.release]
  unfold step at hs
  split at hs <;> grind [update, updateLine, setPc]

theorem inv_new (limit : Nat) : Inv limit (.new limit) where
  sound := ⟨rfl, Nat.zero_le _, List.Perm.refl _, nofun⟩
  limit := rfl
  locks := ⟨fun _ => 0, nofun⟩
  unread := nofun

theorem Inv.step {limit : Nat} (h : Inv limit s) (h0 : limit ≠ 0) (hlimit : limit ≤ u64Max)
    (hmem : limit = u64Max → s.memory ≤ u64Max) {a : PoolAction} (hs : s.step cfg a = some s') :
    Inv limit s' := by
  obtain ⟨owner, hlocks⟩ := h.locks
  obtain ⟨hlocks', hstep⟩ := account_step hlocks (h.limit ▸ h0) hs
  rw [h.limit] at hstep
  exact ⟨h.sound.step hlimit hmem hstep, (limit_step hs).trans h.limit, hlocks', h.unread.step hs⟩

end Pool

/-- **The budget is exact**: after any steps of any sessions that share it, the counter is the sum
of the live reservations, each at the size of its payload, and within the limit; the drop of a
reservation does not underflow it; every reservation ever made is live, or has been released once.
A chunk that is in a channel or at a reader has bytes to read, so its reservation is released only
after the last of them was read or the chunk was discarded. -/
theorem budget_exact (cfg : Config) (limit : Nat) (h0 : limit ≠ 0) (hlimit : limit ≤ u64Max)
    (as : List Pool.PoolAction) (s : Pool)
    (hmem : (pool cfg limit).Along (fun s _ => limit = u64Max → s.memory ≤ u64Max)
      (pool cfg limit).init as)
    (h : (pool cfg limit).run as = some s) :
    s.budget.used = sizes s.live ∧ s.budget.used ≤ limit ∧
    (∀ (i : Nat) item, s.tasks[i]? = some (.drop item) → item.reservation.bytes ≤ s.budget.used) ∧
    (∀ r ∈ s.live, ∃ payload, s.made[r.id]? = some payload ∧ r.bytes = payload.length) ∧
    (s.live.map Reservation.id ++ s.released).Perm (List.range s.made.length) ∧
    ∀ (k : Nat) line, s.lines[k]? = some line →
      (∀ item ∈ line.queue ++ line.cur.toList, item.bytes ≠ []) ∧
      ∀ n, ∀ item ∈ (line.pollRead n).2, item.bytes = [] := by
  have hinv : s.Inv limit :=
    Machine.run_inv (G := fun s _ => limit = u64Max → s.memory ≤ u64Max) (Pool.inv_new limit)
      (fun _ _ _ hm hi => hi.step h0 hlimit hm) hmem h
  have hused : s.budget.used = sizes s.live := hinv.sound.used
  refine ⟨hused, hinv.sound.limit, ?_, hinv.sound.sized, hinv.sound.once, ?_⟩
  · intro i item hi
    rw [hused]
    refine bytes_le_sizes (mem_append_right _ ?_)
    exact mem_flatMap.mpr ⟨_, mem_of_getElem? hi, mem_singleton.mpr rfl⟩
  · exact fun k line hk => ⟨hinv.unread k line hk, fun n => line.pollRead_gone n⟩

/-- Two sessions share four bytes: a packet that waits for its predecessor, a packet that is
refused, a chunk that is read in two parts, and a packet that waits for a place in the channel until
its push is cancelled. -/
def sharing : List Pool.PoolAction :=
  [.openSession, .openSession,
    .call 0 ⟨1, [7]⟩, .run 0, .run 0, .run 0, .run 0,
    .call 1 ⟨0, [1, 2, 3, 4]⟩, .run 1, .run 1, .run 1,
    .call 1 ⟨0, [8, 9]⟩, .run 2, .run 2, .spurious 2, .run 2, .run 2, .run 2, .run 2,
    .call 1 ⟨1, [5]⟩, .run 3, .run 3, .run 3, .run 3, .cancel 3, .read 1 1, .run 4,
    .read 1 1, .run 5]

theorem budget_exact_sharing :
    ∃ s, (pool ⟨4, 16, 1⟩ 4).run sharing = some s ∧ s.budget.used = 1 ∧ s.released = [2, 1] ∧
      s.budget.used = sizes s.live :=
  ⟨_, rfl, rfl, rfl, (budget_exact ⟨4, 16, 1⟩ 4 (by decide) (by decide) sharing _
    ((Machine.along_true _ _).imp fun _ _ _ h => absurd h (by decide)) rfl).1⟩

end Xhttp.Budget
