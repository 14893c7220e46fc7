import RustXhttp.Session.InOrder

/-!
# Acknowledged packets and cancelled pushes

A push that returned `Accepted` acknowledges its packet. The loop over the followers removes an
acknowledged packet from `pending` before it awaits the send, so a push that is cancelled there
drops it: the packet is neither forwarded nor pending, and the stream stops at its number.

* `none_lost_iff`: the exact condition on a run for no acknowledged packet to be lost.
* `cancelled_drain_loses`: a run that loses one.
-/

namespace Xhttp.Reorder

open List

/-- The packet of `p` is forwarded to the reader's channel or still in `pending`. -/
def Uplink.Kept (u : Uplink) (p : Push) : Prop := p.packet ∈ u.forwarded ∨ u.Pending p.packet

/-- The packet of `p` is the follower that a suspended push is sending. -/
def Uplink.Held (u : Uplink) (p : Push) : Prop :=
  ∃ h, u.holder = some h ∧ h.follower = true ∧ p.packet = (u.nextSeq, h.item.bytes)

/-- A push is suspended in the send of a follower. -/
def Uplink.draining (u : Uplink) : Bool := u.holder.any Holder.follower

/-- An acknowledged packet is kept, or in the hands of a push in the middle of its drain. -/
theorem Inv.kept_or_held {u : Uplink} (h : Inv u) {p : Push} (hp : p ∈ u.acked) :
    u.Kept p ∨ u.Held p := by
  have hmem : p ∈ u.taken := mem_append_left _ hp
  obtain hf | hpend | hhand := (h.core.located p.packet).mp (mem_map_of_mem hmem)
  · exact .inl (.inl hf)
  · exact .inl (.inr hpend)
  obtain ⟨hold, hh, he⟩ := Option.map_eq_some_iff.mp hhand
  refine .inr ⟨hold, hh, ?_, he.symm⟩
  -- the packet in hand is not the push's own: that one has not been acknowledged
  by_contra hown
  have hcall := h.item_call hold hh
  rw [if_neg hown] at hcall
  have hnd := h.core.nodup
  rw [taken_of_holder hh, map_append, nodup_append] at hnd
  have hseq : p.seq.toNat = hold.call.seq.toNat := congrArg Prod.fst (he.symm.trans hcall.symm)
  exact hnd.2.2 _ (mem_map_of_mem hp) _ (by simp) hseq

/-- The follower in the hands of a suspended push belongs to an acknowledged one. -/
theorem Inv.follower_acked {u : Uplink} (h : Inv u) {hold : Holder} (hh : u.holder = some hold)
    (hf : hold.follower = true) :
    ∃ p ∈ u.acked, p.packet = (u.nextSeq, hold.item.bytes) := by
  have hhand : u.hand = some (u.nextSeq, hold.item.bytes) := by simp [Uplink.hand, hh]
  obtain ⟨p, hp, he⟩ := mem_map.mp ((h.core.located _).mpr (.inr (.inr hhand)))
  rw [taken_of_holder hh, mem_append, mem_singleton] at hp
  obtain hp | rfl := hp
  · exact ⟨p, hp, he⟩
  · have hcall := h.item_call hold hh
    rw [if_pos hf, he] at hcall
    have hlt := h.core.fst_lt_count hcall
    have hne := (h.core.hand_next _ hhand).2.1
    simp [Uplink.count, hne] at hlt

/-- The packet in hand is neither forwarded nor pending. -/
theorem Inv.hand_not_kept {u : Uplink} (h : Inv u) {hold : Holder} (hh : u.holder = some hold)
    {p : Push} (hp : p.packet = (u.nextSeq, hold.item.bytes)) : ¬ u.Kept p := by
  have hhand : u.hand = some p.packet := by simp [Uplink.hand, hh, hp]
  obtain ⟨hseq, hne, hgap⟩ := h.core.hand_next _ hhand
  rintro (hf | ⟨b, hb, -⟩)
  · have hlt := h.core.fst_lt_count hf
    simp only [hseq, Uplink.count, hne] at hlt
    simp at hlt
  · rw [hseq, hgap] at hb
    cases hb

/-- A push that is cancelled in the send of a follower loses an acknowledged packet. -/
theorem Inv.drainCancel_loses {cfg : Config} {u v : Uplink} {a : Action} (h : Inv u)
    (hc : drainCancel u a = true) (hs : Reorder.step cfg u a = some v) :
    v.isOpen = u.isOpen ∧ ∃ p ∈ v.acked, ¬ (v.Kept p ∨ v.Held p) := by
  cases a
  case cancelHolder =>
    obtain ⟨hold, hh, rfl⟩ := Option.map_eq_some_iff.mp hs
    have hf : hold.follower = true := by simpa [drainCancel, hh] using hc
    obtain ⟨p, hp, he⟩ := h.follower_acked hh hf
    refine ⟨rfl, p, hp, ?_⟩
    rintro (hk | ⟨_, ⟨⟩, -⟩)
    exact h.hand_not_kept hh he hk
  all_goals cases hc

/-! ## Runs -/

section Runs

variable (cfg : Config) (budget : Option MemoryBudget)

/-- No push is cancelled in the middle of a drain while the sink is open. -/
def KeepsDrains (u : Uplink) (a : Action) : Prop := u.isOpen = true → drainCancel u a = false

/-- Every acknowledged packet of an open sink is kept, or in the hands of a push in the middle of
its drain. -/
def NoneLost (u : Uplink) : Prop := u.isOpen = true → ∀ p ∈ u.acked, u.Kept p ∨ u.Held p

theorem inv_of_keepsDrains {u v : Uplink} {a : Action} (hg : KeepsDrains u a)
    (hi : u.isOpen = true → Inv u) (hs : (uplink cfg budget).step u a = some v)
    (ho : v.isOpen = true) : Inv v := by
  have hu := isOpen_of_step hs ho
  exact (hi hu).step (hg hu) hs ho

theorem always_noneLost_iff {as : List Action} {t : Uplink}
    (h : (uplink cfg budget).run as = some t) :
    (uplink cfg budget).Always NoneLost (.new budget) as ↔
      (uplink cfg budget).Along KeepsDrains (.new budget) as := by
  refine Machine.always_iff_along (I := fun u => u.isOpen = true → Inv u) ?_
    (fun u a v => inv_of_keepsDrains cfg budget) ?_ (fun _ => inv_new budget) h
  · intro u hi ho p hp
    exact (hi ho).kept_or_held hp
  · intro u a v hg hi hs hv
    simp only [KeepsDrains, Classical.not_imp, Bool.not_eq_false] at hg
    obtain ⟨ho, p, hp, hn⟩ := (hi hg.1).drainCancel_loses hg.2 hs
    exact hn (hv (ho.trans hg.1) p hp)

/-- **When no acknowledged packet is lost.** While the sink is open and the reader alive, every
packet whose push returned `Accepted` is kept, or in the hands of a push in the middle of its
drain, in exactly the runs that cancel no push there. It is kept in every single state in exactly
the runs in which no push is ever suspended in the middle of a drain. -/
theorem none_lost_iff (as : List Action) (t : Uplink) (h : (uplink cfg budget).run as = some t) :
    ((uplink cfg budget).Always NoneLost (.new budget) as ↔
      (uplink cfg budget).Along KeepsDrains (.new budget) as) ∧
    ((uplink cfg budget).Always (fun u => u.isOpen = true → ∀ p ∈ u.acked, u.Kept p)
        (.new budget) as ↔
      (uplink cfg budget).Always (fun u => u.isOpen = true → u.draining = false)
        (.new budget) as) := by
  have hiff := always_noneLost_iff cfg budget h
  refine ⟨hiff, ?_, ?_⟩
  · intro hk
    have hG := hiff.mp (hk.imp fun u hu ho p hp => .inl (hu ho p hp))
    have hI := hG.always (fun u a v => inv_of_keepsDrains cfg budget) fun _ => inv_new budget
    refine (hk.and hI).imp ?_
    rintro u ⟨hu, hi⟩ ho
    by_contra hd
    rw [Bool.not_eq_false, Uplink.draining, Option.any_eq_true] at hd
    obtain ⟨hold, hh, hf⟩ := hd
    obtain ⟨p, hp, he⟩ := (hi ho).follower_acked hh hf
    exact (hi ho).hand_not_kept hh he (hu ho p hp)
  · intro hd
    have hG : (uplink cfg budget).Along KeepsDrains (.new budget) as := by
      refine hd.along fun u a hu ho => ?_
      cases a
      case cancelHolder => exact hu ho
      all_goals rfl
    refine (hd.and (hiff.mpr hG)).imp ?_
    rintro u ⟨hu, hk⟩ ho p hp
    obtain hk | ⟨hold, hh, hf, -⟩ := hk ho p hp
    · exact hk
    · have := hu ho
      simp [Uplink.draining, hh, hf] at this

end Runs

/-- Packet 1 is acknowledged, packet 0 fills a channel of one place, and its push is cancelled
while it sends packet 1. -/
def cancelledDrain : List Action :=
  [.call ⟨1, [2]⟩, .acquire 0, .call ⟨0, [1]⟩, .acquire 0, .cancelHolder]

/-- The cancelled push leaves an open sink with the lock free, and the acknowledged packet 1 is
nowhere. -/
theorem cancelled_drain_loses :
    ∃ t, (uplink ⟨4, 0, 1⟩ none).run cancelledDrain = some t ∧ t.isOpen = true ∧
      t.holder = none ∧ ⟨1, [2]⟩ ∈ t.acked ∧ ¬ t.Kept ⟨1, [2]⟩ := by
  refine ⟨_, rfl, rfl, rfl, by decide, ?_⟩
  rintro (hf | ⟨b, hb, -⟩)
  · exact absurd hf (by decide)
  · cases hb

/-- The same run with the push cancelled before it takes the lock. -/
theorem none_lost_cancelled_waiting :
    (uplink ⟨4, 0, 1⟩ none).Always NoneLost (.new none)
      [.call ⟨1, [2]⟩, .acquire 0, .call ⟨0, [1]⟩, .cancelWaiting 0] := by
  refine (none_lost_iff ⟨4, 0, 1⟩ none _ _ rfl).1.mpr ?_
  simp [Machine.Along, KeepsDrains, drainCancel]

end Xhttp.Reorder
