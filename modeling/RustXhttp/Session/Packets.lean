import RustXhttp.Session.Reorder

/-!
# Where the packets are

A push is taken in when it puts its packet into `pending` or starts to send it. While the sink is
open and the reader alive, every packet taken in is at exactly one place: forwarded to the
reader, in `pending`, or in the hands of the push that is suspended in its send (`Core`).

* `Core.deliver`, `Core.takeFollower`, `Core.takeOwn`, `Core.insert`: the moves of a packet.
* `drain_spec`: what the loop over the followers does.
* `enter_spec`: what a push does from the lock to its first await point or its end.
-/

namespace Xhttp.Reorder

open List

/-- The sequence number and the payload of a push. -/
def Push.packet (p : Push) : Nat × Bytes := (p.seq.toNat, p.payload)

namespace Uplink

variable (u : Uplink)

/-- The number of sequence numbers that have been delivered. -/
def count : Nat := if u.sequenceExhausted then u64Max + 1 else u.nextSeq

theorem count_eq_nextSeq {u : Uplink} (h : u.sequenceExhausted = false) : u.count = u.nextSeq := by
  simp [count, h]

/-- The pushes that returned `Accepted`, in the order of their return. -/
def acked : List Push :=
  u.returned.filterMap fun x => if x.2 = .accepted then some x.1 else none

/-- The pushes taken in: they returned `Accepted`, or they hold the lock and will. -/
def taken : List Push := u.acked ++ (u.holder.map Holder.call).toList

/-- The current chunk and the contents of the channel. -/
def unread : Bytes := (u.cur.toList ++ u.queue).flatMap BudgetedBytes.bytes

/-- The packet is in `pending`. -/
def Pending (x : Nat × Bytes) : Prop := ∃ b, u.pending.lookup x.1 = some b ∧ b.bytes = x.2

/-- The packet that a suspended push is sending. -/
def hand : Option (Nat × Bytes) := u.holder.map fun h => (u.nextSeq, h.item.bytes)

end Uplink

/-- The payload of the first push with sequence number `k`. -/
def firstPayload (ps : List Push) (k : Nat) : Bytes :=
  ((ps.find? fun p => p.seq.toNat = k).map Push.payload).getD []

/-! ## Where the packets are -/

/-- Every packet of the pushes `ps` is forwarded, in `pending` or in `hand`, and no other packet
is. -/
structure Core (u : Uplink) (ps : List Push) (hand : Option (Nat × Bytes)) : Prop where
  nextSeq_le : u.nextSeq ≤ u64Max
  last : u.sequenceExhausted = true → u.nextSeq = u64Max
  order : u.forwarded.map Prod.fst = List.range u.count
  stream : u.read ++ u.unread = u.forwarded.flatMap Prod.snd
  nodup : (ps.map fun p => p.seq.toNat).Nodup
  located : ∀ x, x ∈ ps.map Push.packet ↔ x ∈ u.forwarded ∨ u.Pending x ∨ hand = some x
  later : ∀ x, u.Pending x → u.count ≤ x.1
  hand_next : ∀ x, hand = some x → x.1 = u.nextSeq ∧ u.sequenceExhausted = false ∧
    u.pending.lookup u.nextSeq = none

namespace Core

variable {u : Uplink} {ps : List Push} {hand : Option (Nat × Bytes)}

theorem fst_lt_count (h : Core u ps hand) {x : Nat × Bytes} (hx : x ∈ u.forwarded) :
    x.1 < u.count := by
  have : x.1 ∈ u.forwarded.map Prod.fst := mem_map_of_mem hx
  rw [h.order] at this
  exact mem_range.mp this

section

variable {v : Uplink} {item : BudgetedBytes} {p : Push}

/-- The packets are the same and at the same places after a change of the rest of the state. -/
theorem congr (h : Core u ps hand) (hn : v.nextSeq = u.nextSeq)
    (he : v.sequenceExhausted = u.sequenceExhausted) (hp : v.pending = u.pending)
    (hf : v.forwarded = u.forwarded) (hs : v.read ++ v.unread = u.read ++ u.unread) :
    Core v ps hand := by
  have hc : v.count = u.count := by simp only [Uplink.count, he, hn]
  have hP : ∀ x, v.Pending x ↔ u.Pending x := fun x => by simp only [Uplink.Pending, hp]
  refine ⟨hn ▸ h.nextSeq_le, ?_, ?_, ?_, h.nodup, ?_, ?_, ?_⟩
  · rw [he, hn]; exact h.last
  · rw [hf, hc]; exact h.order
  · rw [hs, hf]; exact h.stream
  · intro x; rw [hf, hP]; exact h.located x
  · intro x; rw [hP, hc]; exact h.later x
  · intro x; rw [hn, he, hp]; exact h.hand_next x

/-- The packet in hand goes to the reader. -/
theorem deliver (h : Core u ps (some (u.nextSeq, item.bytes))) : Core (u.deliver item) ps none := by
  obtain ⟨-, hne, hgap⟩ := h.hand_next _ rfl
  have hcount := Uplink.count_eq_nextSeq hne
  have hcount' : (u.deliver item).count = u.nextSeq + 1 := by
    simp only [Uplink.deliver, Uplink.count]
    split <;> split <;> simp_all [Uplink.drop]
  have hpend : (u.deliver item).pending = u.pending := by
    simp only [Uplink.deliver]; split <;> split <;> rfl
  have hfwd : (u.deliver item).forwarded = u.forwarded ++ [(u.nextSeq, item.bytes)] := by
    simp only [Uplink.deliver]; split <;> rfl
  have hP : ∀ x, (u.deliver item).Pending x ↔ u.Pending x := fun x => by
    simp only [Uplink.Pending, hpend]
  refine ⟨?_, ?_, ?_, ?_, h.nodup, ?_, ?_, by simp⟩
  · have := h.nextSeq_le
    simp only [Uplink.deliver]
    split <;> split <;> simp_all [Uplink.drop] <;> omega
  · simp only [Uplink.deliver]
    split <;> split <;> simp_all [Uplink.drop]
  · rw [hfwd, hcount', map_append, h.order, hcount, range_succ]; rfl
  · have hstream : (u.deliver item).read ++ (u.deliver item).unread =
        u.read ++ u.unread ++ item.bytes := by
      simp only [Uplink.deliver, Uplink.unread]
      split <;> split <;> simp_all [Uplink.drop]
    rw [hstream, hfwd, h.stream]
    simp
  · intro x
    rw [h.located x, hfwd, hP]
    simp only [mem_append, mem_singleton, Option.some.injEq, reduceCtorEq, or_false]
    constructor
    · rintro (hx | hx | rfl)
      · exact .inl (.inl hx)
      · exact .inr hx
      · exact .inl (.inr rfl)
    · rintro ((hx | rfl) | hx)
      · exact .inl hx
      · exact .inr (.inr rfl)
      · exact .inr (.inl hx)
  · intro x hx
    rw [hP] at hx
    have hle := h.later x hx
    -- the gap at `nextSeq`: no pending packet has the number just delivered
    have hx1 : x.1 ≠ u.nextSeq := by
      intro e
      obtain ⟨b, hb, -⟩ := hx
      rw [e, hgap] at hb
      cases hb
    omega

/-- The follower in `pending` is taken in hand. -/
theorem takeFollower {b : BudgetedBytes} (h : Core u ps none) (hne : u.sequenceExhausted = false)
    (hb : u.pending.lookup u.nextSeq = some b) :
    Core (u.takeFollower b) ps (some (u.nextSeq, b.bytes)) := by
  have hP : ∀ x, (u.takeFollower b).Pending x ↔ x.1 ≠ u.nextSeq ∧ u.Pending x := by
    intro x
    simp only [Uplink.Pending, Uplink.takeFollower]
    obtain ⟨k, bs⟩ := x
    by_cases e : k = u.nextSeq
    · subst e; simp
    · simp [e, AList.lookup_erase_ne e]
  refine ⟨h.nextSeq_le, h.last, h.order, h.stream, h.nodup, ?_, ?_, ?_⟩
  · intro x
    rw [h.located x, hP]
    change x ∈ u.forwarded ∨ _ ∨ _ ↔ x ∈ u.forwarded ∨ _ ∨ _
    by_cases e : x.1 = u.nextSeq
    · have : u.Pending x ↔ some (u.nextSeq, b.bytes) = some x := by
        obtain ⟨k, bs⟩ := x
        subst e
        simp [Uplink.Pending, hb]
      simp [e, this]
    · have : some (u.nextSeq, b.bytes) ≠ some x := by
        intro hx
        cases hx
        exact e rfl
      simp [e, this]
  · intro x hx
    exact h.later x ((hP x).mp hx).2
  · rintro x ⟨⟩
    exact ⟨rfl, hne, AList.lookup_erase _ _⟩

/-- A sequence number that is neither delivered nor pending has not been taken in. -/
theorem fresh (h : Core u ps none) {k : Nat} (hk : u.count ≤ k)
    (hl : u.pending.lookup k = none) : k ∉ ps.map fun p => p.seq.toNat := by
  intro hm
  obtain ⟨p, hp, rfl⟩ := mem_map.mp hm
  obtain hx | ⟨b, hb, -⟩ | hx := (h.located p.packet).mp (mem_map_of_mem hp)
  · have := h.fst_lt_count hx
    simp only [Push.packet] at this
    omega
  · rw [Push.packet, hl] at hb
    cases hb
  · cases hx

theorem nodup_snoc (h : (ps.map fun p => p.seq.toNat).Nodup)
    (hf : p.seq.toNat ∉ ps.map fun p => p.seq.toNat) :
    ((ps ++ [p]).map fun p => p.seq.toNat).Nodup := by
  rw [map_append, nodup_append]
  refine ⟨h, by simp, ?_⟩
  rintro a ha b hb rfl
  simp only [map_cons, map_nil, mem_singleton] at hb
  exact hf (hb ▸ ha)

/-- A push takes its own packet in hand. -/
theorem takeOwn (h : Core u ps none) (hne : u.sequenceExhausted = false)
    (hgap : u.pending.lookup u.nextSeq = none) (hp : p.seq.toNat = u.nextSeq) :
    Core u (ps ++ [p]) (some (u.nextSeq, p.payload)) := by
  have hcount := Uplink.count_eq_nextSeq hne
  have hf := h.fresh (Nat.le_of_eq hcount) hgap
  refine ⟨h.nextSeq_le, h.last, h.order, h.stream, nodup_snoc h.nodup (hp ▸ hf), ?_, h.later, ?_⟩
  · intro x
    have hx := h.located x
    simp only [reduceCtorEq, or_false] at hx
    rw [map_append, mem_append, hx, or_assoc]
    simp [Push.packet, hp, eq_comm]
  · rintro x ⟨⟩
    exact ⟨rfl, hne, hgap⟩

/-- A push puts its packet into `pending`. -/
theorem insert (h : Core u ps none) (hk : u.count ≤ p.seq.toNat)
    (hl : u.pending.lookup p.seq.toNat = none)
    (hv : v.pending = u.pending.insert p.seq.toNat item) (hi : item.bytes = p.payload)
    (hn : v.nextSeq = u.nextSeq) (he : v.sequenceExhausted = u.sequenceExhausted)
    (hf : v.forwarded = u.forwarded) (hs : v.read ++ v.unread = u.read ++ u.unread) :
    Core v (ps ++ [p]) none := by
  have hc : v.count = u.count := by simp only [Uplink.count, he, hn]
  have hP : ∀ x, v.Pending x ↔ u.Pending x ∨ x = p.packet := by
    rintro ⟨k, bs⟩
    simp only [Uplink.Pending, hv, Push.packet]
    by_cases e : k = p.seq.toNat
    · subst e; simp [hl, hi, eq_comm]
    · simp [AList.lookup_insert_ne e, e]
  refine ⟨hn ▸ h.nextSeq_le, ?_, ?_, ?_, nodup_snoc h.nodup (h.fresh hk hl), ?_, ?_, by simp⟩
  · rw [he, hn]; exact h.last
  · rw [hf, hc]; exact h.order
  · rw [hs, hf]; exact h.stream
  · intro x
    have hx := h.located x
    simp only [reduceCtorEq, or_false] at hx ⊢
    rw [map_append, mem_append, hx, hP, hf, or_assoc]
    simp
  · intro x hx
    rw [hc]
    obtain hx | rfl := (hP x).mp hx
    · exact h.later x hx
    · exact hk

/-- The packet that a push has in hand is its own and is given up. -/
theorem dropOwn (h : Core u (ps ++ [p]) (some p.packet)) : Core u ps none := by
  obtain ⟨hseq, hne, hgap⟩ := h.hand_next _ rfl
  have hcount := Uplink.count_eq_nextSeq hne
  have hnd := h.nodup
  rw [map_append, nodup_append] at hnd
  refine ⟨h.nextSeq_le, h.last, h.order, h.stream, hnd.1, ?_, h.later, by simp⟩
  intro x
  have hx := h.located x
  rw [map_append, mem_append, map_singleton, mem_singleton] at hx
  simp only [reduceCtorEq, or_false]
  constructor
  · intro hm
    obtain hf | hf | hf := hx.mp (.inl hm)
    · exact .inl hf
    · exact .inr hf
    · -- two pushes of one sequence number
      cases hf
      obtain ⟨q, hq, he⟩ := mem_map.mp hm
      have hqs : q.seq.toNat = p.seq.toNat := congrArg Prod.fst he
      exact absurd hqs (hnd.2.2 _ (mem_map_of_mem hq) _ (by simp))
  · intro hm
    have hxne : x ≠ p.packet := by
      rintro rfl
      obtain hf | ⟨b, hb, -⟩ := hm
      · have := h.fst_lt_count hf
        omega
      · rw [hseq, hgap] at hb
        cases hb
    obtain hp | hp := hx.mpr (hm.elim .inl fun hp => .inr (.inl hp))
    · exact hp
    · exact absurd hp hxne

end

end Core

/-! ## From await point to await point -/

/-- No pending packet can be delivered. -/
def Uplink.Gap (u : Uplink) : Prop :=
  u.sequenceExhausted = false → u.pending.lookup u.nextSeq = none

/-- What a push leaves alone between two await points. -/
structure Later (u v : Uplink) : Prop where
  returned : v.returned = u.returned
  isOpen : v.isOpen = u.isOpen
  forwarded : u.forwarded ⊆ v.forwarded

section

variable {u v : Uplink} {item : BudgetedBytes} {p : Push} {ps : List Push}

theorem Later.trans {w : Uplink} (h : Later u v) (h' : Later v w) : Later u w :=
  ⟨h'.returned.trans h.returned, h'.isOpen.trans h.isOpen,
    fun _ hx => h'.forwarded (h.forwarded hx)⟩

theorem later_deliver (u : Uplink) (item : BudgetedBytes) : Later u (u.deliver item) := by
  constructor
  · simp only [Uplink.deliver]; split <;> split <;> rfl
  · simp only [Uplink.deliver]; split <;> split <;> rfl
  · simp only [Uplink.deliver]; split <;> exact subset_append_left _ _

/-- The push `p`, with `ps` taken in before it, is in good order at its await point or end. -/
def Flow.Ok (p : Push) (ps : List Push) (u : Uplink) : Flow → Prop
  | .done .accepted => Core u (ps ++ [p]) none ∧ u.Gap
  | .done r => r ≠ .closed ∧ Core u ps none ∧ u.Gap
  | .send b follower => b.bytes ≠ [] ∧ Core u (ps ++ [p]) (some (u.nextSeq, b.bytes)) ∧
      if follower then p.packet ∈ u.forwarded else p.packet = (u.nextSeq, b.bytes)

theorem keys_takeFollower {b : BudgetedBytes} (hb : u.pending.lookup u.nextSeq = some b) :
    (u.takeFollower b).pending.keys.length + 1 = u.pending.keys.length := by
  have hm : u.nextSeq ∈ u.pending.keys := by
    rw [← AList.mem_keys, ← AList.lookup_isSome, hb]
    rfl
  have := length_erase_add_one hm
  rwa [← AList.keys_erase] at this

/-- The loop delivers followers up to the first gap, or up to one that has to wait for room. -/
theorem drain_spec (cfg : Config) (fuel : Nat) (u : Uplink) (h : Core u (ps ++ [p]) none)
    (ho : u.isOpen = true) (hp : p.packet ∈ u.forwarded) (hfuel : u.pending.keys.length < fuel) :
    (drain cfg fuel u).2.Ok p ps (drain cfg fuel u).1 ∧ Later u (drain cfg fuel u).1 := by
  induction fuel generalizing u with
  | zero => omega
  | succ fuel ih =>
    have hrefl : Later u u := ⟨rfl, rfl, fun _ hx => hx⟩
    unfold drain
    by_cases he : u.sequenceExhausted = true
    · rw [if_pos he]
      exact ⟨⟨h, fun hf => by simp [he] at hf⟩, hrefl⟩
    · rw [if_neg he]
      have hne : u.sequenceExhausted = false := by simpa using he
      split
      case h_1 hl => exact ⟨⟨h, fun _ => hl⟩, hrefl⟩
      case h_2 b hb =>
        have hcore := h.takeFollower hne hb
        have hopen : (u.takeFollower b).isOpen = true := ho
        have hkeys := keys_takeFollower hb
        have hlater : Later u (u.takeFollower b) := ⟨rfl, rfl, fun _ hx => hx⟩
        simp only [hopen, not_true_eq_false, and_false, if_false]
        split
        · have hd := later_deliver (u.takeFollower b) b
          have hpend : ((u.takeFollower b).deliver b).pending = (u.takeFollower b).pending := by
            simp only [Uplink.deliver]; split <;> split <;> rfl
          obtain ⟨hok, hl⟩ := ih ((u.takeFollower b).deliver b) hcore.deliver
            (hd.isOpen.trans hopen) (hd.forwarded hp) (by rw [hpend]; omega)
          exact ⟨hok, (hlater.trans hd).trans hl⟩
        case isFalse hroom => exact ⟨⟨fun hb' => hroom (.inl hb'), hcore, hp⟩, hlater⟩

/-- The packet in hand is delivered and the loop runs. -/
theorem deliver_drain_spec (cfg : Config) (h : Core u (ps ++ [p]) (some (u.nextSeq, item.bytes)))
    (ho : u.isOpen = true) (hp : p.packet ∈ u.forwarded ∨ p.packet = (u.nextSeq, item.bytes)) :
    (drainAll cfg (u.deliver item)).2.Ok p ps (drainAll cfg (u.deliver item)).1 ∧
      Later u (drainAll cfg (u.deliver item)).1 := by
  have hd := later_deliver u item
  have hp' : p.packet ∈ (u.deliver item).forwarded := by
    obtain hp | hp := hp
    · exact hd.forwarded hp
    · rw [hp]; simp only [Uplink.deliver]; split <;> simp
  obtain ⟨hok, hl⟩ := drain_spec cfg _ (u.deliver item) h.deliver (hd.isOpen.trans ho) hp'
    (Nat.lt_succ_self _)
  exact ⟨hok, hd.trans hl⟩

/-- A reservation changes the budget only. -/
theorem reservePayload_some {payload : Bytes} (h : u.reservePayload payload = some (item, v)) :
    item.bytes = payload ∧ ∃ budget, v = { u with budget := budget } := by
  unfold Uplink.reservePayload at h
  split at h
  · cases h
    exact ⟨rfl, _, rfl⟩
  · obtain ⟨b', -, hb'⟩ := Option.map_eq_some_iff.mp h
    cases hb'
    exact ⟨rfl, _, rfl⟩

theorem enter_spec (cfg : Config) (h : Core u ps none) (hgap : u.Gap) (ho : u.isOpen = true) :
    (enter cfg u p).2.Ok p ps (enter cfg u p).1 ∧ Later u (enter cfg u p).1 := by
  have hrefl : Later u u := ⟨rfl, rfl, fun _ hx => hx⟩
  have hreject (r : PushResult) (ha : r ≠ .accepted) (hc : r ≠ .closed) :
      (Flow.done r).Ok p ps u ∧ Later u u := by
    refine ⟨?_, hrefl⟩
    cases r
    case accepted => exact absurd rfl ha
    all_goals exact ⟨hc, h, hgap⟩
  unfold enter
  simp only [gt_iff_lt]
  by_cases hold : u.sequenceExhausted = true ∨ p.seq.toNat < u.nextSeq
  · rw [if_pos hold]
    exact hreject _ (by simp) (by simp)
  rw [if_neg hold]
  have hne : u.sequenceExhausted = false := by
    simpa using fun he => hold (.inl he)
  have hcount := Uplink.count_eq_nextSeq hne
  by_cases hgt : u.nextSeq < p.seq.toNat
  · rw [if_pos hgt]
    split
    · exact hreject _ (by simp) (by simp)
    case isFalse hl =>
    split
    · exact hreject _ (by simp) (by simp)
    split
    · exact hreject _ (by simp) (by simp)
    split
    · exact hreject _ (by simp) (by simp)
    split
    · exact hreject _ (by simp) (by simp)
    case h_2 item v hv =>
      obtain ⟨hi, b, rfl⟩ := reservePayload_some hv
      have hl : u.pending.lookup p.seq.toNat = none := by simpa using hl
      refine ⟨⟨h.insert (hcount ▸ Nat.le_of_lt hgt) hl rfl hi rfl rfl rfl rfl, ?_⟩,
        ⟨rfl, rfl, fun _ hx => hx⟩⟩
      intro _
      rw [AList.lookup_insert_ne (Nat.ne_of_lt hgt)]
      exact hgap hne
  · rw [if_neg hgt]
    have hseq : p.seq.toNat = u.nextSeq := by omega
    split
    · exact hreject _ (by simp) (by simp)
    case h_2 item v hv =>
      obtain ⟨hi, b, rfl⟩ := reservePayload_some hv
      have hcore : Core { u with budget := b } (ps ++ [p]) (some (u.nextSeq, item.bytes)) :=
        hi ▸ (h.takeOwn hne (hgap hne) hseq).congr rfl rfl rfl rfl rfl
      have hpk : p.packet = (u.nextSeq, item.bytes) := by rw [hi, ← hseq]; rfl
      have hopen : ({ u with budget := b } : Uplink).isOpen = true := ho
      simp only [hopen, not_true_eq_false, and_false, if_false]
      split
      · obtain ⟨hok, hl⟩ := deliver_drain_spec cfg hcore hopen (.inr hpk)
        have hlater : Later u { u with budget := b } := ⟨rfl, rfl, fun _ hx => hx⟩
        exact ⟨hok, hlater.trans hl⟩
      case isFalse hroom =>
        exact ⟨⟨fun hb => hroom (.inl hb), hcore, hpk⟩, ⟨rfl, rfl, fun _ hx => hx⟩⟩

end

end Xhttp.Reorder
