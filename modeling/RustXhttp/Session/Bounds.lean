import RustXhttp.Session.InOrder
import Mathlib.Algebra.GroupWithZero.Nat
import Mathlib.Data.Finset.Card
import Mathlib.Order.Interval.Finset.Nat

/-!
# Bounds of the reorder buffer

The counters `pending_count` and `pending_bytes` are not updated together with the map that they
count. They agree with it wherever another task can look: at the await points of a push and at its
end.

* `Stock`: the counters and the bounds; `Ahead`: what the loop over the followers knows of the
  keys; `Bounded`: both at an await point.
* `drain_bounded`, `enter_bounded`: from one await point to the next.
* `enter_refused`: a push that is refused has changed nothing.
* `pending_bounded`: the result for runs without a `close`.
-/

namespace Xhttp.Reorder

open List

/-- The payload bytes of a map of pending packets. -/
def payloadBytes (pending : AList fun _ : Nat => BudgetedBytes) : Nat :=
  (pending.entries.map fun e => e.2.bytes.length).sum

section Map

variable {pending : AList fun _ : Nat => BudgetedBytes} {seq : Nat} {b : BudgetedBytes}

theorem payloadBytes_erase (h : pending.lookup seq = some b) :
    payloadBytes pending = b.bytes.length + payloadBytes (pending.erase seq) := by
  have hperm := (entries_perm_erase h).map fun e => e.2.bytes.length
  rw [payloadBytes, hperm.sum_nat, map_cons, sum_cons, payloadBytes]

theorem payloadBytes_insert (h : pending.lookup seq = none) :
    payloadBytes (pending.insert seq b) = b.bytes.length + payloadBytes pending := by
  have hnot : seq ∉ pending := AList.lookup_eq_none.mp h
  simp only [payloadBytes, AList.entries_insert_of_notMem hnot, map_cons, sum_cons]

theorem length_keys_insert (h : pending.lookup seq = none) :
    (pending.insert seq b).keys.length = pending.keys.length + 1 := by
  have hnot : seq ∉ pending := AList.lookup_eq_none.mp h
  rw [AList.keys_insert, erase_of_not_mem (by rwa [← AList.mem_keys]), length_cons]

/-- There are at most as many keys as there are numbers in their range. -/
theorem length_keys_le {low high : Nat} (h : ∀ k ∈ pending, low < k ∧ k ≤ high) :
    pending.keys.length ≤ high - low := by
  have hsub : pending.keys.toFinset ⊆ Finset.Ioc low high := by
    intro k hk
    rw [mem_toFinset, ← AList.mem_keys] at hk
    exact Finset.mem_Ioc.mpr (h k hk)
  have hcard := Finset.card_le_card hsub
  have hnodup : pending.keys.Nodup := pending.nodupKeys
  rwa [toFinset_card_of_nodup hnodup, Nat.card_Ioc] at hcard

end Map

/-! ## The invariant -/

/-- The counters tell what is in the map, and the map keeps to the limits. -/
structure Stock (cfg : Config) (u : Uplink) : Prop where
  nextSeq_le : u.nextSeq ≤ u64Max
  last : u.sequenceExhausted = true → u.nextSeq = u64Max
  seq_le : ∀ k ∈ u.pending, k ≤ u64Max
  packets_le : u.pending.keys.length ≤ max 1 cfg.maxPackets
  packets_fit : u.pending.keys.length ≤ u64Max
  count_eq : u.pendingCount = u.pending.keys.length
  bytes_eq : u.pendingBytes = payloadBytes u.pending
  bytes_fit : u.pendingBytes ≤ u64Max
  bytes_le : cfg.maxBytes ≠ 0 → u.pendingBytes ≤ cfg.maxBytes

/-- Inside the loop the next packet may be there, unless it was the last one. -/
def Ahead (u : Uplink) : Prop :=
  ∀ k ∈ u.pending, u.nextSeq ≤ k ∧ (u.sequenceExhausted = true → u.nextSeq < k)

/-- At an await point the next packet is not there. -/
structure Bounded (cfg : Config) (u : Uplink) : Prop where
  stock : Stock cfg u
  ahead : ∀ k ∈ u.pending, u.nextSeq < k

section

variable {cfg : Config} {u v : Uplink} {p : Push}

/-- The map and its counters do not change. -/
theorem Stock.congr (h : Stock cfg u) (hn : v.nextSeq ≤ u64Max)
    (hl : v.sequenceExhausted = true → v.nextSeq = u64Max) (hp : v.pending = u.pending)
    (hb : v.pendingBytes = u.pendingBytes) (hc : v.pendingCount = u.pendingCount) :
    Stock cfg v where
  nextSeq_le := hn
  last := hl
  seq_le := hp ▸ h.seq_le
  packets_le := hp ▸ h.packets_le
  packets_fit := hp ▸ h.packets_fit
  count_eq := by rw [hp, hc, h.count_eq]
  bytes_eq := by rw [hp, hb, h.bytes_eq]
  bytes_fit := hb ▸ h.bytes_fit
  bytes_le := hb ▸ h.bytes_le

theorem Bounded.congr (h : Bounded cfg u) (hn : v.nextSeq = u.nextSeq)
    (he : v.sequenceExhausted = u.sequenceExhausted) (hp : v.pending = u.pending)
    (hb : v.pendingBytes = u.pendingBytes) (hc : v.pendingCount = u.pendingCount) :
    Bounded cfg v where
  stock := h.stock.congr (hn ▸ h.stock.nextSeq_le) (by rw [he, hn]; exact h.stock.last) hp hb hc
  ahead := by rw [hp, hn]; exact h.ahead

theorem deliver_pending (u : Uplink) (item : BudgetedBytes) :
    (u.deliver item).pending = u.pending ∧ (u.deliver item).pendingBytes = u.pendingBytes ∧
      (u.deliver item).pendingCount = u.pendingCount := by
  by_cases hlast : u.nextSeq = u64Max <;> by_cases hempty : item.bytes = [] <;>
    simp [Uplink.deliver, Uplink.drop, hlast, hempty]

/-- A delivery moves to the next number, or marks the last one. -/
theorem deliver_next (u : Uplink) (item : BudgetedBytes) :
    (u.nextSeq = u64Max ∧ (u.deliver item).nextSeq = u64Max) ∨
      (u.nextSeq ≠ u64Max ∧ (u.deliver item).nextSeq = u.nextSeq + 1 ∧
        (u.deliver item).sequenceExhausted = u.sequenceExhausted) := by
  by_cases hlast : u.nextSeq = u64Max <;> by_cases hempty : item.bytes = [] <;>
    simp [Uplink.deliver, Uplink.drop, hlast, hempty]

theorem Bounded.deliver (h : Bounded cfg u) (item : BudgetedBytes) :
    Stock cfg (u.deliver item) ∧ Ahead (u.deliver item) := by
  obtain ⟨hp, hb, hc⟩ := deliver_pending u item
  have hle := h.stock.nextSeq_le
  rcases deliver_next u item with ⟨hmax, hn⟩ | ⟨hmax, hn, he⟩
  · refine ⟨h.stock.congr (Nat.le_of_eq hn) (fun _ => hn) hp hb hc, fun k hk => ?_⟩
    -- no number is after the last one
    have hlt := h.ahead k (hp ▸ hk)
    have hk' := h.stock.seq_le k (hp ▸ hk)
    omega
  · have hlast : u.sequenceExhausted = false := by
      rw [← Bool.not_eq_true]
      exact fun hx => hmax (h.stock.last hx)
    refine ⟨h.stock.congr (by omega) (by simp [he, hlast]) hp hb hc, fun k hk => ?_⟩
    have hlt := h.ahead k (hp ▸ hk)
    exact ⟨by omega, by simp [he, hlast]⟩

/-- A follower is taken out of the map. -/
theorem Stock.takeFollower {b : BudgetedBytes} (h : Stock cfg u) (ha : Ahead u)
    (hb : u.pending.lookup u.nextSeq = some b) : Bounded cfg (u.takeFollower b) := by
  have hkeys := keys_takeFollower hb
  have hsize := payloadBytes_erase hb
  have hmem : ∀ k ∈ (u.takeFollower b).pending, k ≠ u.nextSeq ∧ k ∈ u.pending := fun k hk =>
    AList.mem_erase.mp hk
  have hcount : (u.takeFollower b).pendingCount = u.pending.keys.length - 1 := by
    have hfit := h.packets_fit
    show wrappingSub u.pendingCount 1 = _
    rw [h.count_eq, wrappingSub_of_le (by omega)]
    unfold u64Max at hfit
    omega
  have hbytes : (u.takeFollower b).pendingBytes = payloadBytes (u.pending.erase u.nextSeq) := by
    have hfit := h.bytes_fit
    rw [h.bytes_eq] at hfit
    show wrappingSub u.pendingBytes b.bytes.length = _
    rw [h.bytes_eq, wrappingSub_of_le (by omega)]
    · omega
    · unfold u64Max at hfit
      omega
  have hle : (u.takeFollower b).pendingBytes ≤ u.pendingBytes := by
    rw [hbytes, h.bytes_eq]
    omega
  refine ⟨?_, fun k hk => ?_⟩
  · exact
      { nextSeq_le := h.nextSeq_le
        last := h.last
        seq_le := fun k hk => h.seq_le k (hmem k hk).2
        packets_le := by have := h.packets_le; omega
        packets_fit := by have := h.packets_fit; omega
        count_eq := by rw [hcount]; omega
        bytes_eq := hbytes
        bytes_fit := Nat.le_trans hle h.bytes_fit
        bytes_le := fun hc => Nat.le_trans hle (h.bytes_le hc) }
  · obtain ⟨hne, hk⟩ := hmem k hk
    exact Nat.lt_of_le_of_ne (ha k hk).1 (Ne.symm hne)

/-- A packet is put into the map. -/
theorem Bounded.insert {item : BudgetedBytes} {nextBytes : Nat} (h : Bounded cfg u)
    (hseq : u.nextSeq < p.seq.toNat) (hnew : u.pending.lookup p.seq.toNat = none)
    (hroom : u.pending.keys.length < max cfg.maxPackets 1)
    (hnext : nextBytes = u.pendingBytes + item.bytes.length) (hfit : nextBytes ≤ u64Max)
    (hlimit : cfg.maxBytes ≠ 0 → nextBytes ≤ cfg.maxBytes) :
    Bounded cfg { u with
      pendingBytes := nextBytes
      pendingCount := wrappingAdd u.pendingCount 1
      pending := u.pending.insert p.seq.toNat item } := by
  have hkeys : (u.pending.insert p.seq.toNat item).keys.length = u.pending.keys.length + 1 :=
    length_keys_insert hnew
  have hmem : ∀ k ∈ u.pending.insert p.seq.toNat item, u.nextSeq < k ∧ k ≤ u64Max := by
    intro k hk
    rcases AList.mem_insert _ |>.mp hk with rfl | hk
    · have hlt := p.seq.toNat_lt
      unfold u64Max
      exact ⟨hseq, by omega⟩
    · exact ⟨h.ahead k hk, h.stock.seq_le k hk⟩
  have hpackets : (u.pending.insert p.seq.toNat item).keys.length ≤ u64Max :=
    Nat.le_trans (length_keys_le hmem) (Nat.sub_le ..)
  refine ⟨?_, fun k hk => (hmem k hk).1⟩
  exact
    { nextSeq_le := h.stock.nextSeq_le
      last := h.stock.last
      seq_le := fun k hk => (hmem k hk).2
      packets_le := by rw [hkeys]; omega
      packets_fit := hpackets
      count_eq := by
        have hlt : u.pendingCount + 1 < 2 ^ 64 := by
          rw [h.stock.count_eq, ← hkeys]
          unfold u64Max at hpackets
          omega
        rw [wrappingAdd_of_lt hlt, h.stock.count_eq, hkeys]
      bytes_eq := by
        show nextBytes = _
        rw [payloadBytes_insert hnew, hnext, h.stock.bytes_eq]
        omega
      bytes_fit := hfit
      bytes_le := hlimit }

/-! ## From await point to await point -/

variable {fuel : Nat} {r : PushResult} {a : Action}

/-- The loop ends at a gap, or with a follower in hand. -/
theorem drain_bounded (h : Stock cfg u) (ha : Ahead u) (hfuel : u.pending.keys.length < fuel) :
    Bounded cfg (drain cfg fuel u).1 := by
  induction fuel generalizing u with
  | zero => omega
  | succ fuel ih =>
    unfold drain
    split
    case isTrue he => exact ⟨h, fun k hk => (ha k hk).2 he⟩
    split
    case h_1 hnone =>
      refine ⟨h, fun k hk => Nat.lt_of_le_of_ne (ha k hk).1 ?_⟩
      rintro rfl
      exact AList.lookup_eq_none.mp hnone hk
    case h_2 b hb =>
      have hbound := h.takeFollower ha hb
      have hkeys := keys_takeFollower hb
      dsimp only
      split
      · exact hbound.congr rfl rfl rfl rfl rfl
      split
      · obtain ⟨hs, ha'⟩ := hbound.deliver b
        refine ih hs ha' ?_
        rw [(deliver_pending _ b).1]
        omega
      · exact hbound

theorem drainAll_bounded (h : Bounded cfg u) (item : BudgetedBytes) :
    Bounded cfg (drainAll cfg (u.deliver item)).1 :=
  drain_bounded (h.deliver item).1 (h.deliver item).2 (Nat.lt_succ_self _)

theorem enter_bounded (h : Bounded cfg u) (p : Push) : Bounded cfg (enter cfg u p).1 := by
  unfold enter
  dsimp only
  split
  · exact h
  case isFalse hold =>
  split
  case isTrue hseq =>
    split
    · exact h
    case isFalse hnew =>
    split
    · exact h
    case isFalse hroom =>
    split
    · exact h
    case isFalse hfit =>
    split
    · exact h
    case isFalse hlimit =>
    split
    · exact h
    case h_2 item v hv =>
      obtain ⟨hitem, budget, rfl⟩ := reservePayload_some hv
      have hb : Bounded cfg { u with budget := budget } := h.congr rfl rfl rfl rfl rfl
      refine hb.insert hseq (by simpa using hnew) (Nat.lt_of_not_le hroom) (by rw [hitem])
        (by omega) ?_
      intro hc
      have := mt (And.intro hc) hlimit
      omega
  case isFalse =>
    split
    · exact h
    case h_2 item v hv =>
      obtain ⟨-, budget, rfl⟩ := reservePayload_some hv
      have hb : Bounded cfg { u with budget := budget } := h.congr rfl rfl rfl rfl rfl
      split
      · exact h.congr rfl rfl rfl rfl rfl
      split
      · exact drainAll_bounded hb item
      · exact hb

theorem settle_bounded {r : Uplink × Flow} (h : Bounded cfg r.1) : Bounded cfg (settle p r) := by
  obtain ⟨v, flow⟩ := r
  cases flow with
  | done r | send item follower => exact Bounded.congr h rfl rfl rfl rfl rfl

theorem Bounded.step (h : Bounded cfg u) (ha : a ≠ .close) (hs : step cfg u a = some v) :
    Bounded cfg v := by
  cases step_cases hs with
  | outside | cancelled hh => exact h.congr rfl rfl rfl rfl rfl
  | @acquire i p hidle hp =>
    have hw : Bounded cfg { u with waiting := u.waiting.eraseIdx i } :=
      h.congr rfl rfl rfl rfl rfl
    exact settle_bounded (enter_bounded hw p)
  | lost hh => exact settle_bounded (h.congr rfl rfl rfl rfl rfl)
  | @sent holder hh => exact settle_bounded (drainAll_bounded h holder.item)
  | close => exact absurd rfl ha

theorem bounded_new (budget : Option MemoryBudget) : Bounded cfg (.new budget) := by
  refine ⟨?_, fun k hk => absurd hk (AList.notMem_empty k)⟩
  exact
    { nextSeq_le := Nat.zero_le _
      last := fun h => by cases h
      seq_le := fun k hk => absurd hk (AList.notMem_empty k)
      packets_le := Nat.zero_le _
      packets_fit := Nat.zero_le _
      count_eq := rfl
      bytes_eq := rfl
      bytes_fit := Nat.zero_le _
      bytes_le := fun _ => Nat.zero_le _ }

/-! ## Refused pushes -/

/-- The results of a push that is refused. -/
def PushResult.Refused : PushResult → Prop
  | .duplicate | .tooManyPending | .tooManyPendingBytes | .globalBufferExceeded => True
  | .accepted | .closed => False

/-- The window, the map, its counters, the channel and the budget are the same. -/
structure SameBuffer (u v : Uplink) : Prop where
  nextSeq : v.nextSeq = u.nextSeq
  exhausted : v.sequenceExhausted = u.sequenceExhausted
  pending : v.pending = u.pending
  pendingCount : v.pendingCount = u.pendingCount
  pendingBytes : v.pendingBytes = u.pendingBytes
  queue : v.queue = u.queue
  budget : v.budget = u.budget

/-- The loop accepts, or finds the channel closed. -/
theorem drain_not_refused (h : (drain cfg fuel u).2 = .done r) : ¬ r.Refused := by
  induction fuel generalizing u with
  | zero =>
    cases h
    exact id
  | succ fuel ih =>
    unfold drain at h
    split at h
    · cases h
      exact id
    split at h
    · cases h
      exact id
    dsimp only at h
    split at h
    · cases h
      exact id
    split at h
    · exact ih h
    · cases h

theorem enter_refused (h : (enter cfg u p).2 = .done r) (hr : r.Refused) :
    (enter cfg u p).1 = u := by
  unfold enter at h ⊢
  dsimp only at h ⊢
  split
  · rfl
  case isFalse hold =>
  rw [if_neg hold] at h
  split
  case isTrue hseq =>
    rw [if_pos hseq] at h
    split
    · rfl
    case isFalse hnew =>
    rw [if_neg hnew] at h
    split
    · rfl
    case isFalse hroom =>
    rw [if_neg hroom] at h
    split
    · rfl
    case isFalse hfit =>
    rw [if_neg hfit] at h
    split
    · rfl
    case isFalse hlimit =>
    rw [if_neg hlimit] at h
    split
    · rfl
    case h_2 item v hv =>
      rw [hv] at h
      cases h
      exact hr.elim
  case isFalse hseq =>
    rw [if_neg hseq] at h
    split
    · rfl
    case h_2 item v hv =>
      rw [hv] at h
      dsimp only at h
      split at h
      · cases h
        exact hr.elim
      split at h
      · exact absurd hr (drain_not_refused h)
      · cases h

/-- A push that has run to its next await point returns at most once. -/
theorem settle_returned {q : Push} {res : Uplink × Flow}
    (h : (settle q res).returned = res.1.returned ++ [(p, r)]) : res.2 = .done r := by
  obtain ⟨v, flow⟩ := res
  cases flow with
  | done r' =>
    have := append_cancel_left h
    simp only [List.cons.injEq, Prod.mk.injEq, and_true] at this
    rw [this.2]
  | send item follower =>
    have hlen := congrArg List.length h
    simp [settle] at hlen

/-- A step in which a push is refused. -/
theorem step_refused (hs : step cfg u a = some v) (hret : v.returned = u.returned ++ [(p, r)])
    (hr : r.Refused) : SameBuffer u v := by
  have hnone : ¬ u.returned = u.returned ++ [(p, r)] := by simp
  cases step_cases hs with
  | outside => exact absurd hret hnone
  | @acquire i q hidle hq =>
    have hflow := settle_returned (hret.trans (by rw [(sameEnds_enter ..).returned]))
    have hu := enter_refused hflow hr
    generalize enter cfg { u with waiting := u.waiting.eraseIdx i } q = res at hflow hu
    obtain ⟨w, flow⟩ := res
    cases hu
    cases hflow
    exact ⟨rfl, rfl, rfl, rfl, rfl, rfl, rfl⟩
  | lost hh =>
    have hflow : Flow.done .closed = .done r := settle_returned hret
    cases hflow
    exact hr.elim
  | @sent holder hh =>
    -- a push that was suspended is not refused
    have hsame : (drainAll cfg (u.deliver holder.item)).1.returned = u.returned :=
      ((sameEnds_deliver _ _).trans (sameEnds_drain _ _ _)).returned
    have hflow : (drainAll cfg (u.deliver holder.item)).2 = .done r :=
      settle_returned (hret.trans (by rw [hsame]))
    exact absurd hr (drain_not_refused hflow)
  | cancelled hh => exact absurd hret hnone
  | close =>
    rcases close_eq u with ⟨-, h⟩ | ⟨-, budget, h⟩
    · rw [h] at hret
      exact absurd hret hnone
    · rw [h] at hret
      exact absurd hret hnone

end

/-! ## Every run without a `close` -/

theorem bounded_run {cfg : Config} {budget : Option MemoryBudget} {as : List Action} {u : Uplink}
    (h : (uplink cfg budget).run as = some u) (hclose : .close ∉ as) : Bounded cfg u :=
  Machine.run_inv (G := fun _ a => a ≠ .close) (bounded_new budget)
    (fun _ _ _ ha hs hstep => hs.step ha hstep)
    (Machine.along_of_mem fun a (ha : a ∈ as) (he : a = .close) => hclose (he ▸ ha)) h

/-- After any pushes, reads and cancellations, at the await points: the map keeps to its limits and
is ahead of the window, and the counters tell what is in it. A push that is refused leaves all of it
as it was. -/
theorem pending_bounded (cfg : Config) (budget : Option MemoryBudget) (as : List Action)
    (u : Uplink) (h : (uplink cfg budget).run as = some u) (hclose : .close ∉ as) :
    (u.pending.keys.length ≤ max 1 cfg.maxPackets ∧ (∀ k ∈ u.pending, u.nextSeq < k) ∧
      u.pendingCount = u.pending.keys.length ∧ u.pendingBytes = payloadBytes u.pending ∧
      (cfg.maxBytes ≠ 0 → u.pendingBytes ≤ cfg.maxBytes)) ∧
    ∀ a v p r, step cfg u a = some v → v.returned = u.returned ++ [(p, r)] → r.Refused →
      SameBuffer u v := by
  have hbound : Bounded cfg u := bounded_run h hclose
  have hstock := hbound.stock
  refine ⟨⟨hstock.packets_le, hbound.ahead, hstock.count_eq, hstock.bytes_eq, hstock.bytes_le⟩, ?_⟩
  exact fun a v p r hs hret hr => step_refused hs hret hr

/-- Packets 2, 1 and 3 wait for packet 0, and packet 4 is refused. -/
def crowded : List Action :=
  [.call ⟨2, [5, 6]⟩, .call ⟨1, [4]⟩, .call ⟨3, []⟩, .call ⟨4, [7]⟩, .acquire 0, .acquire 0,
    .acquire 0]

theorem pending_bounded_crowded :
    ∃ u v, (uplink ⟨3, 4, 1⟩ none).run crowded = some u ∧ u.pending.keys.length = 3 ∧
      u.pendingCount = u.pending.keys.length ∧ u.pendingBytes = payloadBytes u.pending ∧
      step ⟨3, 4, 1⟩ u (.acquire 0) = some v ∧ v.returned = u.returned ++
        [(⟨4, [7]⟩, .tooManyPending)] ∧ SameBuffer u v := by
  obtain ⟨⟨-, -, hcount, hbytes, -⟩, hsame⟩ := pending_bounded ⟨3, 4, 1⟩ none crowded _ rfl
    (by decide)
  exact ⟨_, _, rfl, rfl, hcount, hbytes, rfl, rfl, hsame (.acquire 0) _ _ _ rfl rfl trivial⟩

end Xhttp.Reorder
