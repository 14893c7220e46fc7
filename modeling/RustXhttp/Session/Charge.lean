import RustXhttp.Session.InOrder
import Mathlib.Algebra.GroupWithZero.Nat

/-!
# What a sink has of the global budget

A packet is charged to the budget before it is buffered or sent, and its reservation goes with it
until it is read or dropped.

* `Charged u extra`: the counter shows what other sessions have, what the packets of the sink are
  charged at, and `extra` for a packet in the hand of a running push.
* `charged_step`, `charged_run`: every step keeps it, as long as the bytes in use fit in memory.
-/

namespace Xhttp.Reorder

open Option

def BudgetedBytes.charge (b : BudgetedBytes) : Nat := b.reservation.getD 0

def charges (items : List BudgetedBytes) : Nat := (items.map BudgetedBytes.charge).sum

/-- The packets that are buffered, in the channel and at the reader. -/
def Uplink.held (u : Uplink) : List BudgetedBytes :=
  u.pending.entries.map (·.2) ++ u.queue ++ u.cur.toList

/-- The counter of the budget shows `total`. -/
def Counts (budget : Option MemoryBudget) (total : Nat) : Prop :=
  ∀ b, budget = some b → b.used = total % 2 ^ 64

def Charged (u : Uplink) (extra : Nat) : Prop :=
  Counts u.budget (u.others + charges u.held + extra)

/-- What a push is suspended with. -/
def Flow.charge : Flow → Nat
  | .done _ => 0
  | .send item _ => item.charge

def Uplink.inHand (u : Uplink) : Nat := (u.holder.map fun h => h.item.charge).getD 0

/-- The bytes in use and those of a push that takes the lock fit in memory. -/
def InMemory (u : Uplink) : Action → Prop
  | .acquire i => ∀ p, u.waiting[i]? = some p → ∀ b, u.budget = some b →
      b.used + p.payload.length ≤ u64Max
  | _ => True

section

variable {cfg : Config} {u v : Uplink} {item : BudgetedBytes} {total extra : Nat}

@[simp] theorem charges_nil : charges [] = 0 := rfl

@[simp] theorem charges_cons (b : BudgetedBytes) (items : List BudgetedBytes) :
    charges (b :: items) = b.charge + charges items := by
  simp [charges]

@[simp] theorem charges_append (xs ys : List BudgetedBytes) :
    charges (xs ++ ys) = charges xs + charges ys := by
  simp [charges]

theorem Counts.release (h : Counts u.budget (item.charge + total)) :
    Counts (u.drop item).budget total := by
  intro b hb
  obtain ⟨b₀, hb₀, rfl⟩ := map_eq_some_iff.mp hb
  have hused := h b₀ hb₀
  show wrappingSub b₀.used item.charge = total % 2 ^ 64
  unfold wrappingSub
  omega

theorem Counts.foldl_drop {items : List BudgetedBytes}
    (h : Counts u.budget (charges items + total)) :
    Counts (items.foldl Uplink.drop u).budget total := by
  induction items generalizing u with
  | nil => simpa using h
  | cons b items ih =>
    refine ih (Counts.release ?_)
    simpa [Nat.add_assoc] using h

theorem Charged.congr {extra' : Nat} (h : Charged u extra) (hb : v.budget = u.budget)
    (ho : v.others = u.others) (hsum : charges v.held + extra' = charges u.held + extra) :
    Charged v extra' := by
  unfold Charged at h ⊢
  rwa [hb, ho, Nat.add_assoc, hsum, ← Nat.add_assoc]

theorem Charged.drop (h : Charged u (item.charge + extra)) : Charged (u.drop item) extra := by
  refine Counts.release ?_
  rw [Nat.add_left_comm]
  exact h

theorem Charged.reserve {payload : Bytes} (h : Charged u 0)
    (hfit : ∀ b, u.budget = some b → b.used + payload.length ≤ u64Max)
    (hv : u.reservePayload payload = some (item, v)) : Charged v item.charge := by
  unfold Uplink.reservePayload at hv
  split at hv
  case h_1 hnone =>
    cases hv
    exact fun b hb => nomatch hnone.symm.trans hb
  case h_2 b hb =>
    obtain ⟨b', hb', hv⟩ := map_eq_some_iff.mp hv
    cases hv
    rintro _ ⟨⟩
    have hcount := h b hb
    have hle := hfit b hb
    have hused : b'.used = b.used + payload.length := by
      unfold MemoryBudget.tryReserve at hb'
      dsimp only at hb'
      split at hb'
      · split at hb' <;> cases hb'
        exact Nat.min_eq_left hle
      · cases hb'
        exact wrappingAdd_of_lt (Nat.lt_succ_of_le hle)
    show b'.used = (u.others + charges u.held + payload.length) % 2 ^ 64
    unfold u64Max at hle
    omega

theorem Charged.deliver (h : Charged u item.charge) : Charged (u.deliver item) 0 := by
  have hsent : Charged (if item.bytes = [] then u.drop item
      else { u with queue := u.queue ++ [item] }) 0 := by
    split
    · exact Charged.drop h
    · refine h.congr rfl rfl ?_
      simp only [Uplink.held, charges_append, charges_cons, charges_nil]
      omega
  dsimp only [Uplink.deliver]
  generalize (if item.bytes = [] then u.drop item
    else { u with queue := u.queue ++ [item] }) = v at hsent ⊢
  split <;> exact hsent.congr rfl rfl rfl

theorem Charged.takeFollower (h : Charged u 0) (hb : u.pending.lookup u.nextSeq = some item) :
    Charged (u.takeFollower item) item.charge := by
  refine h.congr rfl rfl ?_
  have hperm := ((entries_perm_erase hb).map (·.2)).map BudgetedBytes.charge
  have hsum : charges (u.pending.entries.map (·.2)) =
      item.charge + charges ((u.pending.erase u.nextSeq).entries.map (·.2)) := by
    rw [charges, hperm.sum_nat]
    rfl
  simp only [Uplink.held, Uplink.takeFollower, charges_append, hsum]
  omega

theorem drain_charged (fuel : Nat) (h : Charged u 0) :
    Charged (drain cfg fuel u).1 (drain cfg fuel u).2.charge := by
  fun_induction drain cfg fuel u
  case case4 u _ b hb v _ => exact Charged.drop (h.takeFollower hb)
  case case5 u _ b hb v _ _ ih => exact ih (h.takeFollower hb).deliver
  case case6 u _ b hb v _ _ => exact h.takeFollower hb
  all_goals exact h

theorem enter_charged {p : Push} (h : Charged u 0)
    (hfit : ∀ b, u.budget = some b → b.used + p.payload.length ≤ u64Max) :
    Charged (enter cfg u p).1 (enter cfg u p).2.charge := by
  fun_cases enter cfg u p
  case case7 seq _ _ hnew _ _ _ _ item v hv =>
    have hreserved := h.reserve hfit hv
    obtain ⟨-, budget, rfl⟩ := reservePayload_some hv
    have hnot : seq ∉ u.pending := by simpa [AList.lookup_isSome] using hnew
    refine hreserved.congr rfl rfl ?_
    simp only [Uplink.held, AList.entries_insert_of_notMem hnot, List.map_cons, charges_append,
      charges_cons, Flow.charge]
    omega
  case case9 item v hv _ => exact Charged.drop (h.reserve hfit hv)
  case case10 item v hv _ _ => exact drain_charged _ (h.reserve hfit hv).deliver
  case case11 item v hv _ _ => exact h.reserve hfit hv
  all_goals exact h

theorem settle_charged {p : Push} {res : Uplink × Flow} (h : Charged res.1 res.2.charge) :
    Charged (settle p res) (settle p res).inHand := by
  obtain ⟨v, flow⟩ := res
  cases flow <;> exact h

/-! ## The reader -/

/-- A slice of the chunk `item`, which is not at the reader yet. -/
theorem putSlice_charged {n : Nat} (h : Charged { u with cur := none } (item.charge + extra)) :
    Charged (u.putSlice item n) extra := by
  unfold Uplink.putSlice
  dsimp only
  split
  · have hdrop : Charged { u with cur := none }
        ({ item with bytes := item.bytes.drop n }.charge + extra) := h
    exact hdrop.drop.congr rfl rfl rfl
  · refine h.congr rfl rfl ?_
    simp only [Uplink.held, charges_append, toList_some, toList_none, charges_cons,
      charges_nil, BudgetedBytes.charge]
    omega

theorem pollRead_charged (n : Nat) (h : Charged u extra) : Charged (u.pollRead n) extra := by
  have hfetch : Charged (u.fetch n) extra := by
    unfold Uplink.fetch
    split
    · exact h
    case h_2 b rest hq =>
      have hfold : Counts (u.cur.toList.foldl Uplink.drop { u with queue := rest }).budget
          (u.others + charges { u with queue := rest, cur := none }.held + (b.charge + extra)) := by
        refine Counts.foldl_drop ?_
        have hsum : charges u.cur.toList + (u.others +
            charges { u with queue := rest, cur := none }.held + (b.charge + extra)) =
              u.others + charges u.held + extra := by
          simp only [Uplink.held, hq, charges_append, charges_cons, toList_none, charges_nil]
          omega
        rw [hsum]
        exact h
      obtain ⟨budget, hdrop⟩ := foldl_drop u.cur.toList { u with queue := rest }
      rw [hdrop] at hfold ⊢
      exact putSlice_charged hfold
  unfold Uplink.pollRead
  split
  case h_1 b hc =>
    split
    · exact hfetch
    · refine putSlice_charged (h.congr rfl rfl ?_)
      simp only [Uplink.held, hc, charges_append, toList_some, toList_none,
        charges_cons, charges_nil]
      omega
  case h_2 => exact hfetch

/-! ## Every run -/

/-- The packets that are dropped give back what they were charged at. -/
theorem Charged.dropped (h : Charged u extra) (items : List BudgetedBytes)
    (hb : v.budget = (items.foldl Uplink.drop u).budget) (ho : v.others = u.others)
    (hsum : charges v.held + charges items = charges u.held) : Charged v extra := by
  unfold Charged
  rw [hb, ho]
  refine Counts.foldl_drop ?_
  rw [show charges items + (u.others + charges v.held + extra) =
    u.others + charges u.held + extra by omega]
  exact h

theorem close_charged (h : Charged u u.inHand) : Charged u.close u.close.inHand := by
  unfold Uplink.close
  split
  · exact h
  · obtain ⟨budget, hb⟩ := foldl_drop (u.pending.entries.map (·.2)) u
    have hbudget := congrArg Uplink.budget hb
    rw [List.foldl_map] at hb
    rw [hb]
    refine h.dropped (u.pending.entries.map (·.2)) hbudget.symm rfl ?_
    simp only [Uplink.held, charges_append]
    change 0 + charges u.queue + charges u.cur.toList + _ = _
    omega

theorem dropReader_charged (h : Charged u extra) : Charged u.dropReader extra := by
  obtain ⟨budget, hb⟩ := foldl_drop (u.queue ++ u.cur.toList) u
  have hbudget := congrArg Uplink.budget hb
  rw [Uplink.dropReader, hb]
  refine h.dropped (u.queue ++ u.cur.toList) hbudget.symm rfl ?_
  simp only [Uplink.held, charges_append, toList_none, charges_nil]
  omega

theorem charged_step {a : Action} (h : Charged u u.inHand) (ha : InMemory u a)
    (hs : step cfg u a = some v) : Charged v v.inHand := by
  cases a with
  | read n =>
    simp only [step] at hs
    split at hs <;> cases hs
    have hhold : (u.pollRead n).inHand = u.inHand := by
      obtain ⟨read, cur, queue, budget, hr, -⟩ := pollRead_spec u n
      rw [hr]
      rfl
    rw [hhold]
    exact pollRead_charged n h
  | dropReader =>
    simp only [step] at hs
    split at hs <;> cases hs
    have hhold : u.dropReader.inHand = u.inHand := by
      obtain ⟨budget, hb⟩ := foldl_drop (u.queue ++ u.cur.toList) u
      rw [Uplink.dropReader, hb]
      rfl
    rw [hhold]
    exact dropReader_charged h
  | otherSessions bytes =>
    cases hs
    intro b hb
    obtain ⟨b₀, hb₀, rfl⟩ := map_eq_some_iff.mp hb
    have hused := h b₀ hb₀
    show wrappingAdd (wrappingSub b₀.used u.others) bytes =
      (bytes + charges u.held + u.inHand) % 2 ^ 64
    unfold wrappingAdd wrappingSub
    omega
  | call p =>
    cases hs
    exact h
  | cancelWaiting i =>
    simp only [step] at hs
    split at hs <;> cases hs
    exact h
  | acquire i =>
    simp only [step] at hs
    split at hs
    case h_2 => cases hs
    case h_1 p hidle hp =>
      cases hs
      rw [Uplink.inHand, hidle] at h
      exact settle_charged (enter_charged h (ha p hp))
  | resume =>
    simp only [step] at hs
    split at hs
    case h_1 => cases hs
    case h_2 holder hh =>
      rw [Uplink.inHand, hh] at h
      split at hs
      · cases hs
        exact settle_charged (Charged.drop h)
      · split at hs <;> cases hs
        exact settle_charged (drain_charged _ (Charged.deliver h))
  | cancelHolder =>
    obtain ⟨holder, hh, rfl⟩ := map_eq_some_iff.mp hs
    rw [Uplink.inHand, hh] at h
    exact Charged.drop h
  | close =>
    cases hs
    exact close_charged h

theorem charged_new (budget : Option MemoryBudget)
    (hbudget : ∀ b, budget = some b → b.used ≤ u64Max) : Charged (.new budget) 0 := by
  rintro b rfl
  exact (Nat.mod_eq_of_lt (Nat.lt_succ_of_le (hbudget b rfl))).symm

end

end Xhttp.Reorder
