import RustXhttp.Session.Packets
import Mathlib.Tactic.ByContra

/-!
# Packets reach the reader once and in order

Every step of a run keeps each packet at its place or moves it on (`Core`), but one: a push that is
cancelled while it sends a follower (`drainCancel`).

* `StepCase`, `step_cases`: what a step can do.
* `Inv.step`, `inv_run`: the invariant of the runs.
* `stream_eq_taken`: what is read, and on its way to the reader, is the concatenation of the
  payloads taken in, by sequence number.
-/

namespace Xhttp.Reorder

open List Option

/-! ## The invariant of the runs -/

/-- The invariant of an open sink with a live reader. -/
structure Inv (u : Uplink) : Prop where
  core : Core u u.taken u.hand
  gap : u.Gap
  item_ne : ∀ h, u.holder = some h → h.item.bytes ≠ []
  item_call : ∀ h, u.holder = some h →
    if h.follower then h.call.packet ∈ u.forwarded else h.call.packet = (u.nextSeq, h.item.bytes)
  not_closed : ∀ x ∈ u.returned, x.2 ≠ .closed

theorem taken_of_holder {u : Uplink} {h : Holder} (hh : u.holder = some h) :
    u.taken = u.acked ++ [h.call] := by
  simp [Uplink.taken, hh]

theorem taken_of_idle {u : Uplink} (hh : u.holder = none) : u.taken = u.acked := by
  simp [Uplink.taken, hh]

/-- The end of a stretch of code: the push returns, or it is suspended. -/
theorem inv_settle {u v : Uplink} {p : Push} {flow : Flow} (hl : Later u v)
    (hok : flow.Ok p u.acked v) (hnc : ∀ x ∈ u.returned, x.2 ≠ .closed) :
    Inv (settle p (v, flow)) := by
  have hack : v.acked = u.acked := by simp only [Uplink.acked, hl.returned]
  cases flow with
  | done r =>
    have hcore : Core v (settle p (v, .done r)).taken none ∧ v.Gap ∧ r ≠ .closed := by
      have htaken : (settle p (v, .done r)).taken =
          u.acked ++ if r = .accepted then [p] else [] := by
        rw [taken_of_idle rfl, ← hack]
        simp only [settle, Uplink.acked, filterMap_append, filterMap_cons]
        split <;> simp_all
      rw [htaken]
      cases r
      case accepted => exact ⟨hok.1, hok.2, by simp⟩
      all_goals
        simp only [reduceCtorEq, if_false, append_nil]
        exact ⟨hok.2.1, hok.2.2, hok.1⟩
    refine ⟨hcore.1.congr rfl rfl rfl rfl rfl, hcore.2.1, ?_, ?_, ?_⟩
    · rintro h ⟨⟩
    · rintro h ⟨⟩
    · intro x hx
      have hx' : x ∈ v.returned ++ [(p, r)] := hx
      rw [hl.returned, mem_append, mem_singleton] at hx'
      obtain hx' | rfl := hx'
      · exact hnc x hx'
      · exact hcore.2.2
  | send b follower =>
    obtain ⟨hne, hcore, hf⟩ := hok
    refine ⟨?_, (fun _ => (hcore.hand_next _ rfl).2.2), ?_, ?_, ?_⟩
    · rw [taken_of_holder rfl]
      exact (hack ▸ hcore).congr rfl rfl rfl rfl rfl
    · rintro h ⟨⟩
      exact hne
    · rintro h ⟨⟩
      exact hf
    · intro x hx
      exact hnc x (hl.returned ▸ hx)

/-- The invariant does not see the waiting pushes and the budget, and a read keeps the stream. -/
theorem Inv.congr {u v : Uplink} (h : Inv u) (hn : v.nextSeq = u.nextSeq)
    (he : v.sequenceExhausted = u.sequenceExhausted) (hp : v.pending = u.pending)
    (hf : v.forwarded = u.forwarded) (hh : v.holder = u.holder) (hr : v.returned = u.returned)
    (hs : v.read ++ v.unread = u.read ++ u.unread) : Inv v := by
  have htaken : v.taken = u.taken := by simp only [Uplink.taken, Uplink.acked, hr, hh]
  have hhand : v.hand = u.hand := by simp only [Uplink.hand, hh, hn]
  refine ⟨?_, ?_, ?_, ?_, ?_⟩
  · rw [htaken, hhand]; exact h.core.congr hn he hp hf hs
  · unfold Uplink.Gap; rw [he, hp, hn]; exact h.gap
  · rw [hh]; exact h.item_ne
  · rw [hh, hf, hn]; exact h.item_call
  · rw [hr]; exact h.not_closed

/-- A push is cancelled while it waits to send a follower that it took out of `pending`. -/
def drainCancel (u : Uplink) : Action → Bool
  | .cancelHolder => u.holder.any Holder.follower
  | _ => false

/-! ## The reader -/

theorem putSlice_spec (u : Uplink) (b : BudgetedBytes) (n : Nat) :
    ∃ read cur budget, u.putSlice b n = { u with read := read, cur := cur, budget := budget } ∧
      read ++ cur.toList.flatMap BudgetedBytes.bytes = u.read ++ b.bytes := by
  by_cases hd : b.bytes.drop n = []
  · refine ⟨_, none, _, by rw [Uplink.putSlice, if_pos hd]; rfl, ?_⟩
    have ht : b.bytes.take n = b.bytes := take_of_length_le (drop_eq_nil_iff.mp hd)
    simp [ht, Uplink.drop]
  · refine ⟨_, some { b with bytes := b.bytes.drop n }, _,
      by rw [Uplink.putSlice, if_neg hd], ?_⟩
    simp [append_assoc]

/-- Dropped items change the budget only. -/
theorem foldl_drop (items : List BudgetedBytes) (u : Uplink) :
    ∃ budget, items.foldl Uplink.drop u = { u with budget := budget } := by
  induction items generalizing u with
  | nil => exact ⟨_, rfl⟩
  | cons b items ih =>
    obtain ⟨budget, hb⟩ := ih (u.drop b)
    exact ⟨budget, hb⟩

/-- A read moves bytes out of the channel and changes nothing else but the budget. -/
theorem pollRead_spec (u : Uplink) (n : Nat) :
    ∃ read cur queue budget,
      u.pollRead n = { u with read := read, cur := cur, queue := queue, budget := budget } ∧
      read ++ (cur.toList ++ queue).flatMap BudgetedBytes.bytes = u.read ++ u.unread := by
  have hfetch : u.cur.toList.flatMap BudgetedBytes.bytes = [] →
      ∃ read cur queue budget,
        u.fetch n = { u with read := read, cur := cur, queue := queue, budget := budget } ∧
        read ++ (cur.toList ++ queue).flatMap BudgetedBytes.bytes = u.read ++ u.unread := by
    intro hcur
    unfold Uplink.fetch
    split
    · exact ⟨_, _, _, _, rfl, rfl⟩
    case h_2 b rest hq =>
      obtain ⟨budget, hdrop⟩ := foldl_drop u.cur.toList { u with queue := rest }
      obtain ⟨read, cur, budget', hput, hread⟩ :=
        putSlice_spec { u with queue := rest, budget := budget } b n
      refine ⟨read, cur, rest, budget', by rw [hdrop, hput], ?_⟩
      rw [flatMap_append, ← append_assoc, hread]
      simp [Uplink.unread, hcur, hq]
  unfold Uplink.pollRead
  split
  case h_1 b hc =>
    split
    case isTrue hb => exact hfetch (by simp [hc, hb])
    case isFalse =>
      obtain ⟨read, cur, budget, hput, hread⟩ := putSlice_spec u b n
      refine ⟨read, cur, u.queue, budget, hput, ?_⟩
      rw [flatMap_append, ← append_assoc, hread]
      simp [Uplink.unread, hc]
  case h_2 hc => exact hfetch (by simp [hc])

/-! ## What a step can do -/

section

variable {cfg : Config} {u v : Uplink} {a : Action}

/-- A poll takes chunks from the front of the channel. -/
theorem queue_pollRead (u : Uplink) (n : Nat) : (u.pollRead n).queue <:+ u.queue := by
  have hput : ∀ (v : Uplink) b, (v.putSlice b n).queue = v.queue := by
    intro v b
    obtain ⟨read, cur, budget, h, -⟩ := putSlice_spec v b n
    rw [h]
  have hfetch : (u.fetch n).queue <:+ u.queue := by
    unfold Uplink.fetch
    split
    · exact suffix_refl _
    case h_2 b rest hq =>
      obtain ⟨budget, hb⟩ := foldl_drop u.cur.toList { u with queue := rest }
      rw [hb, hput, hq]
      exact suffix_cons b rest
  unfold Uplink.pollRead
  split
  · split
    · exact hfetch
    · exact ⟨[], hput u _⟩
  · exact hfetch

/-- A `close` changes neither the counters nor the history. -/
theorem close_eq (u : Uplink) : u.holder ≠ none ∧ u.close = u ∨ u.holder = none ∧ ∃ budget,
    u.close = { u with budget := budget, txOpen := false, pending := ∅ } := by
  cases hh : u.holder with
  | some holder => exact .inl ⟨some_ne_none holder, by simp [Uplink.close, hh]⟩
  | none =>
    obtain ⟨budget, hb⟩ := foldl_drop (u.pending.entries.map fun e => e.2) u
    rw [foldl_map] at hb
    refine .inr ⟨rfl, budget, ?_⟩
    simp only [Uplink.close, hh, isSome_none, Bool.false_eq_true, if_false, hb]

/-- What a step can do. The callers, the reader and the other sessions (`outside`) leave the state
under the lock alone, and a reader that stays reads on. -/
inductive StepCase (cfg : Config) (u : Uplink) : Action → Uplink → Prop
  | outside {a : Action} (waiting : List Push) (queue : List BudgetedBytes)
      (cur : Option BudgetedBytes) (read : Bytes) (readerAlive : Bool)
      (budget : Option MemoryBudget) (others : Nat) (hq : queue <:+ u.queue)
      (hstream : readerAlive = true → u.readerAlive = true ∧
        read ++ (cur.toList ++ queue).flatMap BudgetedBytes.bytes = u.read ++ u.unread) :
      StepCase cfg u a { u with waiting, queue, cur, read, readerAlive, budget, others }
  | acquire {i : Nat} {p : Push} (hidle : u.holder = none) (hp : u.waiting[i]? = some p) :
      StepCase cfg u (.acquire i)
        (settle p (enter cfg { u with waiting := u.waiting.eraseIdx i } p))
  | lost {h : Holder} (hh : u.holder = some h) (hclosed : ¬ u.isOpen) :
      StepCase cfg u .resume (settle h.call (u.drop h.item, .done .closed))
  | sent {h : Holder} (hh : u.holder = some h) (hopen : u.isOpen = true) :
      StepCase cfg u .resume (settle h.call (drainAll cfg (u.deliver h.item)))
  | cancelled {h : Holder} (hh : u.holder = some h) :
      StepCase cfg u .cancelHolder { u.drop h.item with holder := none }
  | close : StepCase cfg u .close u.close

theorem step_cases (hs : step cfg u a = some v) : StepCase cfg u a v := by
  cases a with
  | call p | otherSessions bytes =>
    cases hs
    exact .outside _ _ _ _ _ _ _ (suffix_refl _) fun halive => ⟨halive, rfl⟩
  | acquire i =>
    simp only [step] at hs
    split at hs
    case h_1 p hidle hp =>
      cases hs
      exact .acquire hidle hp
    case h_2 => cases hs
  | resume =>
    simp only [step] at hs
    split at hs
    case h_1 => cases hs
    case h_2 holder hh =>
      split at hs
      case isTrue hclosed =>
        cases hs
        exact .lost hh hclosed
      case isFalse hopen =>
        split at hs
        · cases hs
          exact .sent hh (Classical.not_not.mp hopen)
        · cases hs
  | cancelWaiting i =>
    simp only [step] at hs
    split at hs
    · cases hs
      exact .outside _ _ _ _ _ _ _ (suffix_refl _) fun halive => ⟨halive, rfl⟩
    · cases hs
  | cancelHolder =>
    obtain ⟨holder, hh, rfl⟩ := map_eq_some_iff.mp hs
    exact .cancelled hh
  | read n =>
    simp only [step] at hs
    split at hs
    · cases hs
      have hq := queue_pollRead u n
      obtain ⟨read, cur, queue, budget, hr, hstream⟩ := pollRead_spec u n
      rw [hr] at hq ⊢
      exact .outside _ _ _ _ _ _ _ hq fun halive => ⟨halive, hstream⟩
    · cases hs
  | close =>
    cases hs
    exact .close
  | dropReader =>
    simp only [step] at hs
    split at hs
    · cases hs
      obtain ⟨budget, hb⟩ := foldl_drop (u.queue ++ u.cur.toList) u
      rw [Uplink.dropReader, hb]
      exact .outside _ _ _ _ _ _ _ nil_suffix fun halive => by cases halive
    · cases hs

end

/-! ## Steps and runs -/

/-- What a running push does not touch. -/
structure SameEnds (u v : Uplink) : Prop where
  txOpen : v.txOpen = u.txOpen
  readerAlive : v.readerAlive = u.readerAlive
  returned : v.returned = u.returned

section

variable {u v : Uplink} {cfg : Config} {a : Action} {ps : List Push} {hand : Option (Nat × Bytes)}

theorem SameEnds.trans {w : Uplink} (h : SameEnds u v) (h' : SameEnds v w) : SameEnds u w :=
  ⟨h'.txOpen.trans h.txOpen, h'.readerAlive.trans h.readerAlive, h'.returned.trans h.returned⟩

theorem SameEnds.isOpen (h : SameEnds u v) : v.isOpen = u.isOpen := by
  rw [Uplink.isOpen, h.txOpen, h.readerAlive, Uplink.isOpen]

theorem sameEnds_deliver (u : Uplink) (item : BudgetedBytes) : SameEnds u (u.deliver item) := by
  simp only [Uplink.deliver]
  split <;> split <;> exact ⟨rfl, rfl, rfl⟩

theorem sameEnds_drain (cfg : Config) (fuel : Nat) (u : Uplink) :
    SameEnds u (drain cfg fuel u).1 := by
  fun_induction drain cfg fuel u
  case case5 u _ b _ v _ _ ih =>
    have htake : SameEnds u v := ⟨rfl, rfl, rfl⟩
    exact (htake.trans (sameEnds_deliver v b)).trans ih
  all_goals exact ⟨rfl, rfl, rfl⟩

theorem sameEnds_enter (cfg : Config) (u : Uplink) (p : Push) : SameEnds u (enter cfg u p).1 := by
  have hres : ∀ item v, u.reservePayload p.payload = some (item, v) → SameEnds u v := by
    intro item v hv
    obtain ⟨-, b, rfl⟩ := reservePayload_some hv
    exact ⟨rfl, rfl, rfl⟩
  fun_cases enter cfg u p
  case case7 item v hv => exact (hres item v hv).trans ⟨rfl, rfl, rfl⟩
  case case9 item v hv _ => exact (hres item v hv).trans ⟨rfl, rfl, rfl⟩
  case case10 item v hv _ _ =>
    exact ((hres item v hv).trans (sameEnds_deliver v item)).trans (sameEnds_drain _ _ _)
  case case11 item v hv _ _ => exact hres item v hv
  all_goals exact ⟨rfl, rfl, rfl⟩

theorem isOpen_settle (p : Push) (r : Uplink × Flow) : (settle p r).isOpen = r.1.isOpen := by
  obtain ⟨v, flow⟩ := r
  cases flow <;> rfl

theorem isOpen_close (h : u.close.isOpen = true) : u.close = u := by
  unfold Uplink.close at h ⊢
  split
  · rfl
  case isFalse hh => simp [hh, Uplink.isOpen] at h

/-- A closed sink, or one whose reader is gone, stays so. -/
theorem isOpen_of_step (hs : step cfg u a = some v) (ho : v.isOpen = true) : u.isOpen = true := by
  cases step_cases hs with
  | outside _ _ _ _ _ _ _ _ hstream =>
    simp only [Uplink.isOpen, Bool.and_eq_true] at ho ⊢
    exact ⟨ho.1, (hstream ho.2).1⟩
  | acquire =>
    rw [isOpen_settle, (sameEnds_enter ..).isOpen] at ho
    exact ho
  | lost =>
    rw [isOpen_settle] at ho
    exact ho
  | sent hh hopen => exact hopen
  | cancelled => exact ho
  | close => rwa [isOpen_close ho] at ho

/-- Every step of an open sink but a `drainCancel` keeps the invariant. -/
theorem Inv.step (h : Inv u) (hg : drainCancel u a = false) (hs : step cfg u a = some v)
    (ho : v.isOpen = true) : Inv v := by
  have hu := isOpen_of_step hs ho
  cases step_cases hs with
  | outside _ _ _ _ _ _ _ _ hstream =>
    have halive := (Bool.and_eq_true_iff.mp ho).2
    exact h.congr rfl rfl rfl rfl rfl rfl (hstream halive).2
  | @acquire i p hh hp =>
    have hcore : Core { u with waiting := u.waiting.eraseIdx i } u.acked none := by
      have hc := h.core
      rw [taken_of_idle hh, Uplink.hand, hh] at hc
      exact hc.congr rfl rfl rfl rfl rfl
    obtain ⟨hok, hl⟩ := enter_spec (p := p) cfg hcore h.gap hu
    have hw : Later u { u with waiting := u.waiting.eraseIdx i } := ⟨rfl, rfl, fun _ hx => hx⟩
    exact inv_settle (hw.trans hl) hok h.not_closed
  | lost hh hclosed => exact absurd hu hclosed
  | @sent hold hh hopen =>
    have hcore := h.core
    rw [taken_of_holder hh, Uplink.hand, hh] at hcore
    have hcall := h.item_call hold hh
    have hp : hold.call.packet ∈ u.forwarded ∨
        hold.call.packet = (u.nextSeq, hold.item.bytes) := by
      split at hcall
      · exact .inl hcall
      · exact .inr hcall
    obtain ⟨hok, hl⟩ := deliver_drain_spec cfg hcore hu hp
    exact inv_settle hl hok h.not_closed
  | @cancelled hold hh =>
    have hown : hold.follower = false := by simpa [drainCancel, hh] using hg
    have hcall := h.item_call hold hh
    rw [hown, if_neg (by simp)] at hcall
    have hcore := h.core
    rw [taken_of_holder hh, Uplink.hand, hh, map_some, ← hcall] at hcore
    refine ⟨?_, h.gap, ?_, ?_, h.not_closed⟩
    · rw [taken_of_idle rfl]
      exact hcore.dropOwn.congr rfl rfl rfl rfl rfl
    · rintro _ ⟨⟩
    · rintro _ ⟨⟩
  | close =>
    rw [isOpen_close ho]
    exact h

theorem inv_new (budget : Option MemoryBudget) : Inv (.new budget) := by
  refine ⟨⟨by simp [Uplink.new], by simp [Uplink.new], by simp [Uplink.new, Uplink.count],
    by simp [Uplink.new, Uplink.unread], by simp [Uplink.taken, Uplink.acked, Uplink.new],
    ?_, ?_, by simp [Uplink.hand, Uplink.new]⟩, ?_, by simp [Uplink.new], by simp [Uplink.new],
    by simp [Uplink.new]⟩
  · intro x
    simp [Uplink.taken, Uplink.acked, Uplink.new, Uplink.Pending, Uplink.hand]
  · intro x hx
    simp [Uplink.new, Uplink.Pending] at hx
  · intro _
    rfl

theorem inv_run {budget : Option MemoryBudget} {as : List Action}
    (h : (uplink cfg budget).run as = some u)
    (hg : (uplink cfg budget).Along (fun u a => drainCancel u a = false) (.new budget) as)
    (ho : u.isOpen = true) : Inv u := by
  refine Machine.run_inv (I := fun u => u.isOpen = true → Inv u) (fun _ => inv_new budget) ?_
    hg h ho
  intro s a s' hga hi hs ho'
  exact (hi (isOpen_of_step hs ho')).step hga hs ho'

/-! ## The delivered stream -/

theorem find?_of_nodup (hnd : (ps.map fun p => p.seq.toNat).Nodup) {p : Push} (hp : p ∈ ps) :
    ps.find? (fun q => q.seq.toNat = p.seq.toNat) = some p := by
  induction ps with
  | nil => cases hp
  | cons q ps ih =>
    rw [map_cons, nodup_cons] at hnd
    obtain rfl | hp := mem_cons.mp hp
    · simp
    · have hne : q.seq.toNat ≠ p.seq.toNat := by
        intro e
        exact hnd.1 (e ▸ mem_map_of_mem hp)
      rw [find?_cons_of_neg (by simpa using hne)]
      exact ih hnd.2 hp

theorem firstPayload_perm {qs : List Push} (hnd : (ps.map fun p => p.seq.toNat).Nodup)
    (hp : ps.Perm qs) (k : Nat) : firstPayload ps k = firstPayload qs k := by
  have hnd' : (qs.map fun p => p.seq.toNat).Nodup := (hp.map _).nodup_iff.mp hnd
  unfold firstPayload
  by_cases hk : ∃ p ∈ ps, p.seq.toNat = k
  · obtain ⟨p, hmem, rfl⟩ := hk
    rw [find?_of_nodup hnd hmem, find?_of_nodup hnd' (hp.mem_iff.mp hmem)]
  · have hps : ps.find? (fun p => p.seq.toNat = k) = none :=
      find?_eq_none.mpr fun p hmem => by simpa using fun e => hk ⟨p, hmem, e⟩
    have hqs : qs.find? (fun p => p.seq.toNat = k) = none :=
      find?_eq_none.mpr fun p hmem => by
        simpa using fun e => hk ⟨p, hp.mem_iff.mpr hmem, e⟩
    rw [hps, hqs]

/-- A forwarded packet has the payload of the first push of its number. -/
theorem Core.snd_eq (h : Core u ps hand) {x : Nat × Bytes} (hx : x ∈ u.forwarded) :
    x.2 = firstPayload ps x.1 := by
  obtain ⟨p, hp, rfl⟩ := mem_map.mp ((h.located x).mpr (.inl hx))
  have hfind : ps.find? (fun q => q.seq.toNat = p.packet.1) = some p := find?_of_nodup h.nodup hp
  rw [firstPayload, hfind]
  rfl

theorem Core.stream_eq (h : Core u ps hand) :
    u.read ++ u.unread = (List.range u.count).flatMap (firstPayload ps) := by
  rw [h.stream, ← h.order, flatMap_map]
  exact flatMap_congr fun x hx => h.snd_eq hx

/-- Every number before the next one was taken in. -/
theorem Core.mem_of_lt_count (h : Core u ps hand) {k : Nat} (hk : k < u.count) :
    k ∈ ps.map fun p => p.seq.toNat := by
  rw [← mem_range, ← h.order] at hk
  obtain ⟨x, hx, rfl⟩ := mem_map.mp hk
  obtain ⟨p, hp, rfl⟩ := mem_map.mp ((h.located x).mpr (.inl hx))
  exact mem_map_of_mem hp

/-- Without a push in flight, the next number was not taken in. -/
theorem Inv.nextSeq_fresh (h : Inv u) (hh : u.holder = none) (hne : u.sequenceExhausted = false) :
    u.nextSeq ∉ u.taken.map fun p => p.seq.toNat := by
  have hc := h.core
  rw [Uplink.hand, hh] at hc
  have hcount := Uplink.count_eq_nextSeq hne
  exact hcount ▸ hc.fresh (Nat.le_refl _) (hcount ▸ h.gap hne)

/-- Without a push in flight, the delivered numbers are those before the first one missing. -/
theorem Inv.le_count_iff (h : Inv u) (hh : u.holder = none) {n : Nat} :
    n ≤ u.count ↔ n ≤ u64Max + 1 ∧ ∀ k < n, k ∈ u.taken.map fun p => p.seq.toNat := by
  have hcle : u.count ≤ u64Max + 1 := by
    have := h.core.nextSeq_le
    unfold Uplink.count
    split <;> omega
  constructor
  · intro hn
    exact ⟨by omega, fun k hk => h.core.mem_of_lt_count (by omega)⟩
  · rintro ⟨hn, hall⟩
    by_cases hlt : n ≤ u.count
    · exact hlt
    · -- the number `count` itself would have been taken in
      have hne : u.sequenceExhausted = false := by
        by_contra he
        rw [Bool.not_eq_false] at he
        rw [Uplink.count, if_pos he] at hlt
        omega
      have hcount := Uplink.count_eq_nextSeq hne
      exact absurd (hall u.nextSeq (by omega)) (h.nextSeq_fresh hh hne)

/-- The stream of two idle sinks that took in the same packets is the same. -/
theorem Inv.stream_perm (hu : Inv u) (hv : Inv v) (hhu : u.holder = none) (hhv : v.holder = none)
    (hp : u.taken.Perm v.taken) : u.read ++ u.unread = v.read ++ v.unread := by
  have hle : ∀ n, n ≤ u.count ↔ n ≤ v.count := by
    intro n
    rw [hu.le_count_iff hhu, hv.le_count_iff hhv]
    simp only [(hp.map fun p => p.seq.toNat).mem_iff]
  have hcount : u.count = v.count :=
    Nat.le_antisymm ((hle _).mp (Nat.le_refl _)) ((hle _).mpr (Nat.le_refl _))
  rw [hu.core.stream_eq, hv.core.stream_eq, hcount]
  exact flatMap_congr fun k _ => firstPayload_perm hu.core.nodup hp k

end

/-- What has been read, with the current chunk and the contents of the channel, is the
concatenation over the delivered sequence numbers of the payload of the first push taken in with
that number. Each of these numbers was taken in, and when no push is in flight the next one was not.
The stream does not depend on the order in which the pushes were taken in. A push in flight will be
accepted: none has returned `Closed`. -/
theorem stream_eq_taken (cfg : Config) (budget : Option MemoryBudget) (as : List Action)
    (u : Uplink) (h : (uplink cfg budget).run as = some u)
    (hg : (uplink cfg budget).Along (fun u a => drainCancel u a = false) (.new budget) as)
    (ho : u.isOpen = true) :
    u.read ++ u.unread = (List.range u.count).flatMap (firstPayload u.taken) ∧
    (∀ k < u.count, ∃ p ∈ u.taken, p.seq.toNat = k) ∧
    (u.holder = none → u.sequenceExhausted = false → ∀ p ∈ u.taken, p.seq.toNat ≠ u.nextSeq) ∧
    (∀ x ∈ u.returned, x.2 ≠ .closed) ∧
    ∀ (cfg' : Config) (budget' : Option MemoryBudget) (bs : List Action) (v : Uplink),
      (uplink cfg' budget').run bs = some v →
      (uplink cfg' budget').Along (fun u a => drainCancel u a = false) (.new budget') bs →
      v.isOpen = true → u.holder = none → v.holder = none → u.taken.Perm v.taken →
      u.read ++ u.unread = v.read ++ v.unread := by
  have hu := inv_run h hg ho
  refine ⟨hu.core.stream_eq, ?_, ?_, hu.not_closed, ?_⟩
  · exact fun k hk => mem_map.mp (hu.core.mem_of_lt_count hk)
  · exact fun hh hne p hp heq => hu.nextSeq_fresh hh hne (heq ▸ mem_map_of_mem hp)
  · intro cfg' budget' bs v h' hg' ho' hhu hhv hp
    exact hu.stream_perm (inv_run h' hg' ho') hhu hhv hp

/-- Packets 1 and 0 arrive in this order at a channel of one place, and the reader takes one
byte. -/
def swapped : List Action :=
  [.call ⟨1, [2, 3]⟩, .call ⟨0, [1]⟩, .acquire 0, .acquire 0, .read 8, .resume, .read 1]

theorem stream_eq_taken_swapped :
    ∃ u, (uplink ⟨4, 0, 1⟩ none).run swapped = some u ∧
      u.read ++ u.unread = (List.range u.count).flatMap (firstPayload u.taken) ∧
      u.read = [1, 2] ∧ u.unread = [3] := by
  refine ⟨_, rfl, (stream_eq_taken ⟨4, 0, 1⟩ none swapped _ rfl ?_ rfl).1, rfl, rfl⟩
  simp [swapped, Machine.Along, drainCancel]

end Xhttp.Reorder
