import RustXhttp.Session.Pool
import RustXhttp.Lib.Count
import Mathlib.Data.List.Sigma

/-!
# The account of the global upload budget

* `Account`: the counter, the live reservations and the history. `Account.Step` is all that a step
  can do to it: move reservations, make one, release one. `Account.Sound` is what such steps keep.
* `Pool.account`: every reservation is at one place: in `pending`, in a channel, at a reader, in the
  hands of a push or of a drop.
* `Pool.Locks`: who holds the lock of a session. The holder may rely on what it has checked.
-/

namespace Xhttp.Budget

open List
open Reorder (Config Push PushResult MemoryBudget)

/-! ## The account -/

/-- The sum of the sizes of reservations. -/
def sizes (rs : List Reservation) : Nat := rs.foldr (fun r n => r.bytes + n) 0

theorem sizes_cons (r : Reservation) (rs : List Reservation) :
    sizes (r :: rs) = r.bytes + sizes rs := rfl

theorem bytes_le_sizes {r : Reservation} {rs : List Reservation} (h : r ∈ rs) :
    r.bytes ≤ sizes rs := by
  induction rs with
  | nil => cases h
  | cons r' rs ih =>
    rw [sizes_cons]
    obtain rfl | h := mem_cons.mp h
    · omega
    · have := ih h
      omega

theorem sizes_perm {rs rs' : List Reservation} (h : rs.Perm rs') : sizes rs = sizes rs' := by
  induction h with
  | nil => rfl
  | cons r _ ih => rw [sizes_cons, sizes_cons, ih]
  | swap r r' rs =>
    simp only [sizes_cons]
    omega
  | trans _ _ ih ih' => exact ih.trans ih'

/-- `waiting` is what the pushes that have no reservation yet hold in memory. -/
structure Account where
  used : Nat
  waiting : Nat
  live : List Reservation
  made : List Bytes
  released : List Nat

namespace Account

/-- What a step can do to the account of a budget of `limit` bytes. -/
inductive Step (limit : Nat) (a a' : Account) : Prop where
  | move (hlive : a'.live.Perm a.live) (hused : a'.used = a.used) (hmade : a'.made = a.made)
      (hreleased : a'.released = a.released)
  | reserve (payload : Bytes) (hused : a'.used = saturatingAdd a.used payload.length)
      (hlimit : a'.used ≤ limit) (hwaiting : payload.length ≤ a.waiting)
      (hlive : a'.live.Perm (⟨a.made.length, payload.length⟩ :: a.live))
      (hmade : a'.made = a.made ++ [payload]) (hreleased : a'.released = a.released)
  | release (r : Reservation) (hused : a'.used = wrappingSub a.used r.bytes)
      (hlive : a.live.Perm (r :: a'.live)) (hmade : a'.made = a.made)
      (hreleased : a'.released = a.released ++ [r.id])

/-- The counter is the sum of the live reservations and within the limit. Every reservation ever
made is live or has been released, once, and has the size of its payload. -/
structure Sound (limit : Nat) (a : Account) : Prop where
  used : a.used = sizes a.live
  limit : a.used ≤ limit
  once : (a.live.map Reservation.id ++ a.released).Perm (List.range a.made.length)
  sized : ∀ r ∈ a.live, ∃ payload, a.made[r.id]? = some payload ∧ r.bytes = payload.length

variable {limit : Nat} {a a' : Account}

/-- `hfit`: at the highest limit, only the memory keeps the sum from saturating the counter. -/
theorem Sound.step (h : Sound limit a) (hlimit : limit ≤ u64Max)
    (hfit : limit = u64Max → a.waiting + sizes a.live ≤ u64Max) (hs : Step limit a a') :
    Sound limit a' := by
  cases hs with
  | move hlive hused hmade hreleased =>
    refine ⟨?_, ?_, ?_, ?_⟩
    · rw [hused, h.used, sizes_perm hlive]
    · rw [hused]
      exact h.limit
    · rw [hmade, hreleased]
      exact ((hlive.map _).append_right _).trans h.once
    · intro r hr
      rw [hmade]
      exact h.sized r (hlive.mem_iff.mp hr)
  | reserve payload hused hle hwaiting hlive hmade hreleased =>
    have hsum : a'.used = payload.length + sizes a.live := by
      rw [hused, h.used] at hle
      rw [hused, h.used]
      unfold saturatingAdd at hle ⊢
      omega
    refine ⟨?_, hle, ?_, ?_⟩
    · rw [hsum, sizes_perm hlive, sizes_cons]
    · rw [hmade, hreleased, length_append, length_singleton, range_succ]
      refine ((hlive.map _).append_right _).trans ?_
      refine (List.Perm.cons _ h.once).trans ?_
      exact (perm_append_singleton _ _).symm
    · intro r hr
      rw [hmade]
      obtain rfl | hr := mem_cons.mp (hlive.mem_iff.mp hr)
      · exact ⟨payload, by simp, rfl⟩
      · obtain ⟨q, hq, hb⟩ := h.sized r hr
        exact ⟨q, by rw [getElem?_append_left (List.getElem?_eq_some_iff.mp hq).1, hq], hb⟩
  | release r hused hlive hmade hreleased =>
    have hsum : a.used = r.bytes + sizes a'.live := by rw [h.used, sizes_perm hlive, sizes_cons]
    have hle := h.limit
    have hused' : a'.used = sizes a'.live := by
      rw [hused, hsum]
      unfold wrappingSub u64Max at *
      omega
    refine ⟨hused', by omega, ?_, ?_⟩
    · rw [hmade, hreleased]
      refine List.Perm.trans ?_ h.once
      refine List.Perm.trans ?_ ((hlive.map _).append_right _).symm
      rw [← append_assoc]
      exact perm_append_singleton _ _
    · intro q hq
      rw [hmade]
      exact h.sized q (hlive.mem_iff.mpr (mem_cons_of_mem _ hq))

end Account

/-! ## The account of a pool -/

/-- The items of a session that are in `pending`, in the channel and at the reader. -/
def Line.items (line : Line) : List BudgetedBytes :=
  line.pendingItems ++ line.queue ++ line.cur.toList

def Line.reservations (line : Line) : List Reservation :=
  line.items.map BudgetedBytes.reservation

/-- The item in the hands of a task. -/
def Pc.item : Pc → Option BudgetedBytes
  | .reserved _ _ item | .send _ item | .drop item => some item
  | _ => none

def Pc.reservations (pc : Pc) : List Reservation :=
  pc.item.toList.map BudgetedBytes.reservation

/-- The payload that a push has in memory and not in a reservation. -/
def Pc.waiting : Pc → Nat
  | .lock _ p | .load _ p | .cas _ p _ => p.payload.length
  | _ => 0

namespace Pool

/-- The live reservations, of the sessions and of the tasks. -/
def live (s : Pool) : List Reservation :=
  s.lines.flatMap Line.reservations ++ s.tasks.flatMap Pc.reservations

def waiting (s : Pool) : Nat := s.tasks.foldr (fun pc n => pc.waiting + n) 0

/-- The bytes of all payloads in memory. -/
def memory (s : Pool) : Nat := s.waiting + sizes s.live

def account (s : Pool) : Account where
  used := s.budget.used
  waiting := s.waiting
  live := s.live
  made := s.made
  released := s.released

theorem waiting_le {s : Pool} {i : Nat} {pc : Pc} (h : s.tasks[i]? = some pc) :
    pc.waiting ≤ s.waiting := by
  unfold waiting
  generalize s.tasks = l at h
  induction l generalizing i with
  | nil => cases h
  | cons x l ih =>
    cases i with
    | zero =>
      cases h
      simp
    | succ i =>
      have := ih (i := i) h
      simp only [foldr_cons]
      omega

section Moves

variable {s : Pool} {k i : Nat} {line line' : Line} {pc pc' : Pc} {gone : List BudgetedBytes}

theorem flatMap_drop (gone : List BudgetedBytes) :
    (gone.map Pc.drop).flatMap Pc.reservations = gone.map BudgetedBytes.reservation := by
  induction gone with
  | nil => rfl
  | cons item gone ih =>
    rw [map_cons, flatMap_cons, ih]
    rfl

/-- Session `k` and task `i` go on with the reservations that they had. -/
theorem live_update (hk : s.lines[k]? = some line) (hi : s.tasks[i]? = some pc)
    (h : (line'.reservations ++ pc'.reservations ++ gone.map BudgetedBytes.reservation).Perm
      (line.reservations ++ pc.reservations)) :
    (s.update k i line' pc' gone).live.Perm s.live := by
  refine perm_iff_count.mpr fun r => ?_
  have hlines := count_flatMap_set (g := Line.reservations) hk line' r
  have htasks := count_flatMap_set (g := Pc.reservations) hi pc' r
  have hmove := perm_iff_count.mp h r
  simp only [live, update, flatMap_append, count_append, flatMap_drop] at hmove ⊢
  omega

theorem live_updateLine (hk : s.lines[k]? = some line)
    (h : (line'.reservations ++ gone.map BudgetedBytes.reservation).Perm line.reservations) :
    (s.updateLine k (line', gone)).live.Perm s.live := by
  refine perm_iff_count.mpr fun r => ?_
  have hlines := count_flatMap_set (g := Line.reservations) hk line' r
  have hmove := perm_iff_count.mp h r
  simp only [live, updateLine, flatMap_append, count_append, flatMap_drop] at hmove ⊢
  omega

theorem live_setPc (hi : s.tasks[i]? = some pc) (h : pc'.reservations = pc.reservations) :
    (s.setPc i pc').live.Perm s.live := by
  refine perm_iff_count.mpr fun r => ?_
  have htasks := count_flatMap_set (g := Pc.reservations) hi pc' r
  rw [h] at htasks
  simp only [live, setPc, count_append]
  omega

end Moves

end Pool

/-- An item that is taken out of `pending` is no longer there. -/
theorem Line.pendingItems_erase {line : Line} {seq : Nat} {b : BudgetedBytes}
    (h : line.pending.lookup seq = some b) :
    line.pendingItems.Perm (b :: { line with pending := line.pending.erase seq }.pendingItems) := by
  have hperm := (Reorder.entries_perm_erase h).map Sigma.snd
  rwa [map_cons] at hperm

theorem Line.pendingItems_insert {line : Line} {seq : Nat} (item : BudgetedBytes)
    (h : line.pending.lookup seq = none) :
    { line with pending := line.pending.insert seq item }.pendingItems =
      item :: line.pendingItems := by
  have hnot : seq ∉ line.pending := AList.lookup_eq_none.mp h
  simp only [Line.pendingItems, AList.entries_insert_of_notMem hnot, map_cons]

/-! ## Who holds a lock -/

/-- The session whose lock the task holds. -/
def Pc.holds : Pc → Option Nat
  | .load k _ | .cas k _ _ | .reserved k _ _ | .send k _ | .drain k => some k
  | _ => none

/-- The push that has passed its checks and has not stored or sent its payload. -/
def Pc.reserving : Pc → Option Push
  | .load _ p | .cas _ p _ | .reserved _ p _ => some p
  | _ => none

/-- The packet of `p` is not in `pending`. -/
def Line.NewSeq (line : Line) (p : Push) : Prop :=
  line.nextSeq < p.seq.toNat → line.pending.lookup p.seq.toNat = none

theorem Line.newSeq_of_check {cfg : Config} {line : Line} {p : Push}
    (h : line.check cfg p = none) : line.NewSeq p := by
  intro hlt
  simp only [Line.check, gt_iff_lt, hlt, if_true] at h
  split at h
  · cases h
  · split at h
    · cases h
    case isFalse hsome => exact Option.not_isSome_iff_eq_none.mp hsome

namespace Pool

/-- Task `i` is the owner of the lock that it holds. -/
def Holds (s : Pool) (owner : Nat → Nat) (i : Nat) (pc : Pc) : Prop :=
  ∀ k, pc.holds = some k → owner k = i ∧ ∃ line, s.lines[k]? = some line ∧ line.locked = true ∧
    ∀ p, pc.reserving = some p → line.NewSeq p

/-- A session has at most one task that holds its lock. -/
def Locks (s : Pool) (owner : Nat → Nat) : Prop :=
  ∀ i pc, s.tasks[i]? = some pc → s.Holds owner i pc

variable {s s' : Pool} {owner : Nat → Nat}

theorem holds_of_none {i : Nat} {pc : Pc} (h : pc.holds = none) : s.Holds owner i pc := by
  intro k hk
  rw [h] at hk
  cases hk

/-- A holder keeps its lock while its session keeps what the lock protects. -/
theorem Holds.frame {i : Nat} {pc : Pc} {owner' : Nat → Nat} (h : s.Holds owner i pc)
    (hl : ∀ k line, pc.holds = some k → owner k = i → s.lines[k]? = some line →
      line.locked = true → owner' k = i ∧ ∃ line', s'.lines[k]? = some line' ∧
        line'.locked = true ∧ line'.nextSeq = line.nextSeq ∧ line'.pending = line.pending) :
    s'.Holds owner' i pc := by
  intro k hk
  obtain ⟨ho, line, hline, hlock, hnew⟩ := h k hk
  obtain ⟨ho', line', hline', hlock', hseq, hpend⟩ := hl k line hk ho hline hlock
  refine ⟨ho', line', hline', hlock', fun p hp => ?_⟩
  have := hnew p hp
  unfold Line.NewSeq at this ⊢
  rw [hseq, hpend]
  exact this

/-- The locks are a matter of the sessions and the tasks alone. -/
theorem Locks.of_lines (h : s.Locks owner) (hl : s'.lines = s.lines) (ht : s'.tasks = s.tasks) :
    s'.Locks owner := by
  intro i pc hpc
  refine (h i pc (ht ▸ hpc)).frame fun k line _ ho hline hlock => ?_
  exact ⟨ho, line, by rw [hl, hline], hlock, rfl, rfl⟩

/-- Discarded items are new tasks without a lock. -/
theorem locks_append {tasks : List Pc} (gone : List BudgetedBytes)
    (h : ∀ i pc, tasks[i]? = some pc → s.Holds owner i pc) :
    ∀ i pc, (tasks ++ gone.map Pc.drop)[i]? = some pc → s.Holds owner i pc := by
  intro i pc hpc
  rw [getElem?_append] at hpc
  split at hpc
  · exact h i pc hpc
  · obtain ⟨item, -, rfl⟩ := mem_map.mp (mem_of_getElem? hpc)
    exact holds_of_none rfl

section Step

variable {k i : Nat} {line line' : Line} {pc pc' : Pc} (h : s.Locks owner)
  (hk : s.lines[k]? = some line) (hi : s.tasks[i]? = some pc)

include h hi

/-- The task moves within its part of the code. -/
theorem Locks.setPc (hholds : pc'.holds = none ∨ pc'.holds = pc.holds)
    (hres : pc'.reserving = none ∨ pc'.reserving = pc.reserving) : (s.setPc i pc').Locks owner := by
  refine forall_set (fun j pc _ => h j pc) fun k hk => ?_
  obtain hn | he := hholds
  · rw [hn] at hk
    cases hk
  · obtain ⟨ho, line, hline, hlock, hnew⟩ := h i pc hi k (he ▸ hk)
    refine ⟨ho, line, hline, hlock, fun p hp => ?_⟩
    obtain hn | he' := hres
    · rw [hn] at hp
      cases hp
    · exact hnew p (he' ▸ hp)

include hk

/-- The holder of a lock goes on, or releases it. -/
theorem Locks.update (hpc : pc.holds = some k) (gone : List BudgetedBytes)
    (hpc' : pc'.holds = none ∨ pc'.holds = some k ∧ line'.locked = true ∧ pc'.reserving = none) :
    (s.update k i line' pc' gone).Locks owner := by
  have hown := (h i pc hi k hpc).1
  have hlt := (List.getElem?_eq_some_iff.mp hk).1
  refine locks_append gone (forall_set ?_ ?_)
  · intro j pc₁ hji hj
    refine (h j pc₁ hj).frame fun k' line₁ _ ho hline hlock => ⟨ho, line₁, ?_, hlock, rfl, rfl⟩
    have hne : k' ≠ k := by
      rintro rfl
      exact hji (ho.symm.trans hown)
    rw [Pool.update, getElem?_set_ne (Ne.symm hne)]
    exact hline
  · intro k' hk'
    obtain hn | ⟨he, hlock, hres⟩ := hpc'
    · rw [hn] at hk'
      cases hk'
    · obtain rfl : k = k' := Option.some.inj (he.symm.trans hk')
      refine ⟨hown, line', by simp [Pool.update, hlt], hlock, fun p hp => ?_⟩
      rw [hres] at hp
      cases hp

omit hi in
/-- A task takes a free lock. -/
theorem Locks.acquire {p : Push} (hfree : line.locked = false) (hnew : line.NewSeq p) :
    (s.update k i { line with locked := true } (.load k p) []).Locks
      (Function.update owner k i) := by
  have hlt := (List.getElem?_eq_some_iff.mp hk).1
  refine locks_append [] (forall_set ?_ ?_)
  · intro j pc₁ hji hj
    refine (h j pc₁ hj).frame fun k' line₁ _ ho hline hlock => ?_
    have hne : k' ≠ k := by
      rintro rfl
      rw [hk] at hline
      cases hline
      rw [hfree] at hlock
      cases hlock
    rw [Function.update_of_ne hne, Pool.update, getElem?_set_ne (Ne.symm hne)]
    exact ⟨ho, line₁, hline, hlock, rfl, rfl⟩
  · rintro k' ⟨⟩
    refine ⟨Function.update_self .., { line with locked := true }, by simp [Pool.update, hlt], rfl,
      ?_⟩
    rintro p' ⟨⟩
    exact hnew

omit hi in
/-- The reader, `close` or the end of a session change a session: not what a held lock protects. -/
theorem Locks.updateLine (gone : List BudgetedBytes)
    (hkeep : ∀ (j : Nat) pc, s.tasks[j]? = some pc → pc.holds = some k → line.locked = true →
      line'.locked = true ∧ line'.nextSeq = line.nextSeq ∧ line'.pending = line.pending) :
    (s.updateLine k (line', gone)).Locks owner := by
  have hlt := (List.getElem?_eq_some_iff.mp hk).1
  refine locks_append gone fun j pc₁ hj => ?_
  refine (h j pc₁ hj).frame fun k' line₁ hk' ho hline hlock => ⟨ho, ?_⟩
  by_cases hne : k' = k
  · subst hne
    obtain rfl : line = line₁ := Option.some.inj (hk.symm.trans hline)
    exact ⟨line', by simp [Pool.updateLine, hlt], hkeep j pc₁ hj hk' hlock⟩
  · refine ⟨line₁, ?_, hlock, rfl, rfl⟩
    rw [Pool.updateLine, getElem?_set_ne (Ne.symm hne)]
    exact hline

end Step

end Pool

end Xhttp.Budget
