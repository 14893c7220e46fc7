import RustXhttp.Session.Bounds
import RustXhttp.Session.Charge

/-!
# Closing an uplink (`UplinkSink::close`)

`close` takes the lock with `try_lock`, so it does nothing while a push is suspended. It clears the
map and not its counters, and a later push notices the closed channel only when it sends: one that
is out of order is buffered, and one with an empty payload is accepted.

* `Shut`: a sink that is closed for good; `enter_shut`: what a later push does to it.
* `pollRead_lt`, `eof_of_ended`: the reader gets to the end.
* `close_final_iff`: the exact condition under which a `close` is final.
-/

namespace Xhttp.Reorder

open List

/-- A `close` whose `try_lock` succeeds or not. It fails while a push holds the lock, and may fail
while one waits for it: a lock that is released goes to the first waiter. -/
def Uplink.tryClose (u : Uplink) (locked : Bool) : Uplink := if locked then u.close else u

/-- A poll finds no chunk and no sender: `Ready` without bytes. -/
def Uplink.AtEof (u : Uplink) : Prop :=
  u.txOpen = false ∧ u.queue = [] ∧ ∀ b, u.cur = some b → b.bytes = []

/-- The state `x` after a `close` in the state `u`: nothing is buffered or counted, the channel
holds nothing new, and the pushes since were turned away. -/
structure Quiet (u x : Uplink) : Prop where
  pending : x.pending = ∅
  count : x.pendingCount = 0
  bytes : x.pendingBytes = 0
  queue : x.queue <:+ u.queue
  results : ∃ since, x.returned = u.returned ++ since ∧
    ∀ e ∈ since, e.2 = .closed ∨ e.2 = .duplicate

/-- Moreover the sink has nothing of the budget but for the chunks of the channel, and the reader
gets to the end. -/
structure Final (u x : Uplink) : Prop extends Quiet u x where
  budget : Counts x.budget (x.others + charges (x.queue ++ x.cur.toList))
  eof : ∀ n > 0, ∃ k, ((fun y => Uplink.pollRead y n)^[k] x).AtEof

/-- The push has an old number, or the next one with bytes that the budget admits. -/
def Uplink.Stale (u : Uplink) (p : Push) : Prop :=
  u.sequenceExhausted = true ∨ p.seq.toNat < u.nextSeq ∨
    p.seq.toNat = u.nextSeq ∧ p.payload ≠ [] ∧ (u.reservePayload p.payload).isSome = true

/-- A push that takes the lock is stale. -/
def StaleStep (u : Uplink) : Action → Prop
  | .acquire i => ∀ p, u.waiting[i]? = some p → u.Stale p
  | _ => True

instance (u : Uplink) (p : Push) : Decidable (u.Stale p) := inferInstanceAs (Decidable (_ ∨ _ ∨ _))

instance (u : Uplink) : (a : Action) → Decidable (StaleStep u a)
  | .acquire i => inferInstanceAs (Decidable (∀ p ∈ u.waiting[i]?, u.Stale p))
  | .call _ | .resume | .cancelWaiting _ | .cancelHolder | .read _ | .close | .dropReader
  | .otherSessions _ => isTrue trivial

instance (u : Uplink) : (a : Action) → Decidable (InMemory u a)
  | .acquire i => inferInstanceAs
      (Decidable (∀ p ∈ u.waiting[i]?, ∀ b ∈ u.budget, b.used + p.payload.length ≤ u64Max))
  | .call _ | .resume | .cancelWaiting _ | .cancelHolder | .read _ | .close | .dropReader
  | .otherSessions _ => isTrue trivial

/-! ## The reader -/

section

variable {u : Uplink} {n : Nat}

/-- What is left to read. -/
def Uplink.left (u : Uplink) : Nat :=
  (u.queue.map fun b => b.bytes.length + 1).sum + (u.cur.map fun b => b.bytes.length).getD 0

theorem putSlice_left (u : Uplink) (b : BudgetedBytes) (n : Nat) :
    (u.putSlice b n).left =
      (u.queue.map fun b => b.bytes.length + 1).sum + (b.bytes.length - n) := by
  unfold Uplink.putSlice
  dsimp only
  split
  case isTrue h =>
    have hlen := congrArg List.length h
    rw [length_drop] at hlen
    simp [Uplink.left, Uplink.drop]
    simpa using hlen
  case isFalse => simp [Uplink.left]

theorem txOpen_pollRead (u : Uplink) (n : Nat) : (u.pollRead n).txOpen = u.txOpen := by
  obtain ⟨read, cur, queue, budget, hr, -⟩ := pollRead_spec u n
  rw [hr]

/-- A poll with room in its buffer reads something, if there is something. -/
theorem pollRead_lt (hn : 0 < n) (hu : u.txOpen = false) (h : ¬ u.AtEof) :
    (u.pollRead n).left < u.left := by
  have hfetch : (∀ b, u.cur = some b → b.bytes = []) → (u.fetch n).left < u.left := by
    intro hcur
    unfold Uplink.fetch
    split
    case h_1 hq => exact absurd ⟨hu, hq, hcur⟩ h
    case h_2 b rest hq =>
      obtain ⟨budget, hb⟩ := foldl_drop u.cur.toList { u with queue := rest }
      rw [hb, putSlice_left]
      simp only [Uplink.left, hq, map_cons, sum_cons]
      omega
  unfold Uplink.pollRead
  split
  case h_1 b hc =>
    split
    case isTrue hb => exact hfetch fun b' hb' => by rw [hc] at hb'; cases hb'; exact hb
    case isFalse hb =>
      have hpos := length_pos_iff.mpr hb
      rw [putSlice_left]
      simp only [Uplink.left, hc, Option.map_some, Option.getD_some]
      omega
  case h_2 hc => exact hfetch fun b' hb' => by rw [hc] at hb'; cases hb'

/-- Without a sender the reader gets to the end. -/
theorem eof_of_ended (hn : 0 < n) (hu : u.txOpen = false) :
    ∃ k, ((fun y => Uplink.pollRead y n)^[k] u).AtEof := by
  induction hleft : u.left using Nat.strong_induction_on generalizing u with
  | _ left ih =>
    by_cases h : u.AtEof
    · exact ⟨0, h⟩
    · have hlt := pollRead_lt hn hu h
      rw [hleft] at hlt
      obtain ⟨k, hk⟩ := ih _ hlt ((txOpen_pollRead u n).trans hu) rfl
      exact ⟨k + 1, hk⟩

end

/-! ## Later pushes -/

section

variable {cfg : Config} {u x y : Uplink} {p : Push}

theorem not_stale_done {out : Uplink × Flow} {r : PushResult} (hfresh : ¬ x.Stale p)
    (hout : out.2 = .done r) (hr : ¬ (r = .closed ∨ r = .duplicate)) :
    ∃ r, out.2 = .done r ∧ (r = .closed ∨ r = .duplicate ↔ x.Stale p) ∧
      (x.Stale p → ∃ budget, out.1 = { x with budget := budget }) :=
  ⟨r, hout, iff_of_false hr hfresh, fun h => absurd h hfresh⟩

/-- What a later push does: it is turned away and leaves nothing, or it is stale no more. -/
theorem enter_shut (hp : x.pending = ∅) (ht : x.txOpen = false) :
    ∃ r, (enter cfg x p).2 = .done r ∧ (r = .closed ∨ r = .duplicate ↔ x.Stale p) ∧
      (x.Stale p → ∃ budget, (enter cfg x p).1 = { x with budget := budget }) := by
  have hopen : ∀ budget, ({ x with budget := budget } : Uplink).isOpen = false := fun _ => by
    simp [Uplink.isOpen, ht]
  generalize hout : enter cfg x p = out
  unfold enter at hout
  dsimp only at hout
  split at hout
  case isTrue hold =>
    subst hout
    exact ⟨_, rfl, iff_of_true (.inr rfl) (hold.imp_right .inl), fun _ => ⟨x.budget, rfl⟩⟩
  case isFalse hold =>
  split at hout
  case isTrue hseq =>
    have hfresh : ¬ x.Stale p := by
      rintro (he | hlt | ⟨he, -⟩)
      · exact hold (.inl he)
      · exact hold (.inr hlt)
      · omega
    split at hout
    case isTrue hdup => simp [hp] at hdup
    split at hout
    · subst hout
      exact not_stale_done hfresh rfl (by decide)
    split at hout
    · subst hout
      exact not_stale_done hfresh rfl (by decide)
    split at hout
    · subst hout
      exact not_stale_done hfresh rfl (by decide)
    split at hout
    · subst hout
      exact not_stale_done hfresh rfl (by decide)
    · subst hout
      exact not_stale_done hfresh rfl (by decide)
  case isFalse hseq =>
    have hnext : p.seq.toNat = x.nextSeq := by omega
    have hstale : x.Stale p ↔ p.payload ≠ [] ∧ (x.reservePayload p.payload).isSome = true := by
      refine ⟨?_, fun h => .inr (.inr ⟨hnext, h⟩)⟩
      rintro (he | hlt | ⟨-, h⟩)
      · exact absurd (.inl he) hold
      · exact absurd (.inr hlt) hold
      · exact h
    split at hout
    case h_1 hnone =>
      have hfresh : ¬ x.Stale p := by simp [hstale, hnone]
      subst hout
      exact not_stale_done hfresh rfl (by decide)
    case h_2 item v hv =>
      obtain ⟨hitem, budget, rfl⟩ := reservePayload_some hv
      rw [hitem, hopen] at hout
      by_cases hempty : p.payload = []
      · have hfresh : ¬ x.Stale p := by simp [hstale, hempty]
        rw [if_neg (by simp [hempty]), if_pos (.inl hempty)] at hout
        subst hout
        refine not_stale_done (r := .accepted) hfresh ?_ (by decide)
        have hpending : (Uplink.deliver { x with budget := budget } item).pending = ∅ :=
          (deliver_pending _ item).1.trans hp
        rw [drainAll, drain]
        split
        · rfl
        · rw [hpending]
          rfl
      · have hold' : x.Stale p := by simp [hstale, hempty, hv]
        rw [if_pos (by simp [hempty])] at hout
        subst hout
        exact ⟨_, rfl, iff_of_true (.inl rfl) hold', fun _ => ⟨_, rfl⟩⟩

/-- The sink is closed, and no push is suspended. -/
structure Shut (u x : Uplink) : Prop extends Quiet u x where
  ended : x.txOpen = false
  idle : x.holder = none

theorem Shut.final (h : Shut u x) (hcharged : Charged x x.inHand) : Final u x := by
  refine ⟨h.toQuiet, ?_, fun _ hn => eof_of_ended hn h.ended⟩
  have hheld : x.held = x.queue ++ x.cur.toList := by
    rw [Uplink.held, h.pending]
    rfl
  rw [Charged, hheld, Uplink.inHand, h.idle] at hcharged
  exact hcharged

theorem Shut.congr (h : Shut u x) (hp : y.pending = x.pending)
    (hc : y.pendingCount = x.pendingCount) (hb : y.pendingBytes = x.pendingBytes)
    (hq : y.queue <:+ x.queue) (hr : y.returned = x.returned) (ht : y.txOpen = x.txOpen)
    (hh : y.holder = x.holder) : Shut u y :=
  ⟨⟨hp.trans h.pending, hc.trans h.count, hb.trans h.bytes, hq.trans h.queue, hr ▸ h.results⟩,
    ht.trans h.ended, hh.trans h.idle⟩

theorem stale_waiting {waiting : List Push} :
    ({ x with waiting := waiting } : Uplink).Stale p ↔ x.Stale p := by
  have hreserve : (Uplink.reservePayload { x with waiting := waiting } p.payload).isSome =
      (x.reservePayload p.payload).isSome := by
    unfold Uplink.reservePayload
    cases x.budget <;> simp
  simp only [Uplink.Stale, hreserve]

/-- A push takes the lock of a closed sink. -/
theorem Shut.acquire {i : Nat} (h : Shut u x) (hs : Reorder.step cfg x (.acquire i) = some y) :
    ∃ p r, x.waiting[i]? = some p ∧ y.holder = none ∧ y.returned = x.returned ++ [(p, r)] ∧
      (r = .closed ∨ r = .duplicate ↔ x.Stale p) ∧ (x.Stale p → Shut u y) := by
  simp only [Reorder.step] at hs
  split at hs
  case h_2 => cases hs
  case h_1 p _ hp =>
    cases hs
    have henter : ∃ r, (enter cfg { x with waiting := x.waiting.eraseIdx i } p).2 = .done r ∧ _ :=
      enter_shut h.pending h.ended
    obtain ⟨r, hflow, hiff, hsame⟩ := henter
    rw [stale_waiting] at hiff hsame
    have hret : (enter cfg { x with waiting := x.waiting.eraseIdx i } p).1.returned =
        x.returned := (sameEnds_enter ..).returned
    generalize enter cfg { x with waiting := x.waiting.eraseIdx i } p = res at hflow hsame hret
    obtain ⟨v, flow⟩ := res
    cases hflow
    refine ⟨p, r, hp, rfl, congrArg (· ++ [(p, r)]) hret, hiff, fun hstale => ?_⟩
    obtain ⟨budget, hv⟩ := hsame hstale
    cases hv
    obtain ⟨since, hsince, hall⟩ := h.results
    refine ⟨⟨h.pending, h.count, h.bytes, h.queue, since ++ [(p, r)], ?_, ?_⟩, h.ended, rfl⟩
    · simp [settle, hsince]
    · intro e he
      rcases mem_append.mp he with he | he
      · exact hall e he
      · cases mem_singleton.mp he
        exact hiff.mpr hstale

variable {a : Action} {item : BudgetedBytes} {follower : Bool}

theorem Shut.step (h : Shut u x) (ha : StaleStep x a) (hs : Reorder.step cfg x a = some y) :
    Shut u y := by
  cases step_cases hs with
  | outside _ _ _ _ _ _ _ hq _ => exact h.congr rfl rfl rfl hq rfl rfl rfl
  | acquire =>
    obtain ⟨p, r, hp, -, -, -, hshut⟩ := h.acquire hs
    exact hshut (ha p hp)
  | lost hh | sent hh | cancelled hh => cases hh.symm.trans h.idle
  | close =>
    rcases close_eq x with ⟨-, he⟩ | ⟨-, budget, he⟩
    · rw [he]
      exact h
    · rw [he]
      exact h.congr h.pending.symm rfl rfl (suffix_refl _) rfl h.ended.symm rfl

/-- A push that is not stale is not turned away. -/
theorem Shut.breaks (h : Shut u x) (ha : ¬ StaleStep x a) (hs : Reorder.step cfg x a = some y) :
    ¬ (y.holder = none → Shut u y) := by
  cases a with
  | acquire i =>
    obtain ⟨p, r, hp, hidle, hret, hiff, -⟩ := h.acquire hs
    intro hshut
    obtain ⟨since, hsince, -⟩ := h.results
    obtain ⟨since', hsince', hall⟩ := (hshut hidle).results
    have heq : since' = since ++ [(p, r)] := by
      rw [hret, hsince, append_assoc] at hsince'
      exact (append_cancel_left hsince').symm
    have hstale : x.Stale p := hiff.mp (hall (p, r) (by simp [heq]))
    refine ha fun p' hp' => ?_
    cases hp.symm.trans hp'
    exact hstale
  | call | resume | cancelWaiting | cancelHolder | read | close | dropReader | otherSessions =>
    exact absurd trivial ha

theorem txOpen_settle (p : Push) (res : Uplink × Flow) : (settle p res).txOpen = res.1.txOpen := by
  obtain ⟨v, flow⟩ := res
  cases flow <;> rfl

/-- Only a `close` replaces the sender. -/
theorem step_txOpen (hs : Reorder.step cfg x a = some y) (ha : a ≠ .close) :
    y.txOpen = x.txOpen := by
  cases step_cases hs with
  | outside => rfl
  | acquire =>
    rw [txOpen_settle]
    exact (sameEnds_enter cfg _ _).txOpen
  | lost => rfl
  | sent =>
    rw [txOpen_settle]
    exact ((sameEnds_deliver _ _).trans (sameEnds_drain _ _ _)).txOpen
  | cancelled => rfl
  | close => exact absurd rfl ha

/-! ## A suspended push -/

theorem txOpen_of_full {b : Bytes} {room : Bool} (hopen : ¬ (b ≠ [] ∧ ¬ x.isOpen = true))
    (hfull : ¬ (b = [] ∨ room = true)) : x.txOpen = true := by
  have hx : x.isOpen = true := by
    by_contra hn
    exact hopen ⟨fun he => hfull (.inl he), hn⟩
  exact ((Bool.and_eq_true ..).mp hx).1

/-- A send suspends a push only on a channel that is open. -/
theorem drain_send {fuel : Nat} (h : (drain cfg fuel x).2 = .send item follower) :
    (drain cfg fuel x).1.txOpen = true := by
  fun_induction drain cfg fuel x
  case case5 ih => exact ih h
  case case6 hopen hfull => exact txOpen_of_full hopen hfull
  all_goals cases h

theorem enter_send : (enter cfg x p).2 = .send item follower → (enter cfg x p).1.txOpen = true := by
  fun_cases enter cfg x p
  case case10 => exact drain_send
  case case11 hopen hfull => exact fun _ => txOpen_of_full hopen hfull
  all_goals
    intro h
    cases h

theorem settle_held {res : Uplink × Flow}
    (h : ∀ item follower, res.2 = .send item follower → res.1.txOpen = true)
    (hh : (settle p res).holder ≠ none) : (settle p res).txOpen = true := by
  obtain ⟨v, flow⟩ := res
  cases flow with
  | done r => exact absurd rfl hh
  | send item follower => exact h item follower rfl

/-- While a push is suspended, its channel has not been replaced. -/
theorem step_held (h : x.holder ≠ none → x.txOpen = true) (hs : Reorder.step cfg x a = some y)
    (hy : y.holder ≠ none) : y.txOpen = true := by
  cases step_cases hs with
  | outside => exact h hy
  | acquire => exact settle_held (fun _ _ => enter_send) hy
  | lost => exact absurd rfl hy
  | sent => exact settle_held (fun _ _ => drain_send) hy
  | cancelled => exact absurd rfl hy
  | close =>
    rcases close_eq x with ⟨-, he⟩ | ⟨hidle, budget, he⟩
    · rw [he] at hy ⊢
      exact h hy
    · rw [he] at hy
      exact absurd hidle hy

/-- The sender is still the reader's: no number of polls gets to the end. -/
theorem not_final_of_open (h : x.txOpen = true) : ¬ Final u x := by
  intro hfinal
  obtain ⟨k, hk⟩ := hfinal.eof 1 Nat.one_pos
  have hpolls : ∀ k, ((fun y => Uplink.pollRead y 1)^[k] x).txOpen = true := by
    intro k
    induction k with
    | zero => exact h
    | succ k ih =>
      rw [Function.iterate_succ_apply']
      exact (txOpen_pollRead _ 1).trans ih
  rw [Uplink.AtEof, hpolls k] at hk
  exact absurd hk.1 (by decide)

end

/-! ## Every run -/

section Runs

variable {cfg : Config} {budget : Option MemoryBudget} {as bs : List Action} {u x w : Uplink}

theorem open_of_held (h : (uplink cfg budget).run as = some u) (hh : u.holder ≠ none) :
    u.txOpen = true :=
  Machine.run_inv_all (I := fun u => u.holder ≠ none → u.txOpen = true) (fun hn => absurd rfl hn)
    (fun _ _ _ hi hs => step_held hi hs) h hh

/-- A `close` that meets a suspended push is lost: the sink is open when that push ends. -/
theorem not_shut_of_held (hh : x.holder ≠ none) (ht : x.txOpen = true)
    (hrun : (uplink cfg budget).runFrom x bs = some w) (hw : w.holder = none) :
    ¬ (uplink cfg budget).Always (fun x => x.holder = none → Shut u x) x bs := by
  induction bs generalizing x with
  | nil =>
    cases hrun
    exact absurd hw hh
  | cons a bs ih =>
    obtain ⟨y, hs, hr⟩ := Machine.runFrom_cons hrun
    have hy : y.txOpen = true := by
      by_cases ha : a = .close
      · subst ha
        cases hs
        rw [((close_eq x).resolve_right fun hr => hh hr.1).2]
        exact ht
      · exact (step_txOpen hs ha).trans ht
    intro halways
    by_cases hidle : y.holder = none
    · exact absurd ((halways.2 y hs).first hidle).ended (by simp [hy])
    · exact ih hidle hy hr (halways.2 y hs)

/-- A `close` that takes the lock, with the counters at zero. -/
theorem shut_close (hidle : u.holder = none) (hc : u.pendingCount = 0) (hb : u.pendingBytes = 0) :
    Shut u u.close := by
  rcases close_eq u with ⟨hh, -⟩ | ⟨-, budget, he⟩
  · exact absurd hidle hh
  · rw [he]
    exact ⟨⟨rfl, hc, hb, suffix_refl _, [], by simp, by simp⟩, rfl, hidle⟩

theorem tryClose_counters (u : Uplink) (locked : Bool) :
    (u.tryClose locked).pendingCount = u.pendingCount ∧
      (u.tryClose locked).pendingBytes = u.pendingBytes ∧
        (u.tryClose locked).holder = u.holder := by
  cases locked with
  | false => exact ⟨rfl, rfl, rfl⟩
  | true =>
    rw [Uplink.tryClose, if_pos rfl]
    rcases close_eq u with ⟨-, he⟩ | ⟨-, b, he⟩
    · rw [he]
      exact ⟨rfl, rfl, rfl⟩
    · rw [he]
      exact ⟨rfl, rfl, rfl⟩

/-- A `close` keeps the account of the budget, and so does every step after it. -/
theorem always_charged {locked : Bool} (h : (uplink cfg budget).run as = some u)
    (hbudget : ∀ b, budget = some b → b.used ≤ u64Max)
    (hmem : (uplink cfg budget).Along InMemory (.new budget) as)
    (hmem' : (uplink cfg budget).Along InMemory (u.tryClose locked) bs) :
    (uplink cfg budget).Always (fun x => Charged x x.inHand) (u.tryClose locked) bs := by
  have hu : Charged u u.inHand := Machine.run_inv (I := fun u => Charged u u.inHand)
    (charged_new budget hbudget) (fun _ _ _ ha hx hs => charged_step hx ha hs) hmem h
  refine Machine.Along.always (fun _ _ _ ha hx hs => charged_step hx ha hs) hmem' ?_
  cases locked with
  | true => exact close_charged hu
  | false => exact hu

end Runs

/-- A `close` is final exactly if it takes the lock, or an earlier one did and nothing is buffered;
the counters are at zero; and every later push has an old number, or the next one with bytes that
the budget admits. -/
theorem close_final_iff (cfg : Config) (budget : Option MemoryBudget) (as bs : List Action)
    (u w : Uplink) (locked : Bool) (h : (uplink cfg budget).run as = some u)
    (hbudget : ∀ b, budget = some b → b.used ≤ u64Max)
    (hmem : (uplink cfg budget).Along InMemory (.new budget) as)
    (hmem' : (uplink cfg budget).Along InMemory (u.tryClose locked) bs)
    (hlock : locked = true → u.holder = none)
    (hrun : (uplink cfg budget).runFrom (u.tryClose locked) bs = some w) (hw : w.holder = none) :
    (uplink cfg budget).Always (fun x => x.holder = none → Final u x) (u.tryClose locked) bs ↔
      (locked = true ∨ u.txOpen = false ∧ u.pending = ∅) ∧ u.pendingCount = 0 ∧
        u.pendingBytes = 0 ∧ (uplink cfg budget).Along StaleStep (u.tryClose locked) bs := by
  have hfinal : (uplink cfg budget).Always (fun x => x.holder = none → Final u x)
      (u.tryClose locked) bs ↔ (uplink cfg budget).Always (fun x => x.holder = none → Shut u x)
      (u.tryClose locked) bs := by
    constructor
    · refine Machine.Always.imp fun x hx hidle => ⟨(hx hidle).toQuiet, ?_, hidle⟩
      exact Bool.eq_false_iff.mpr fun ht => not_final_of_open ht (hx hidle)
    · intro hshut
      exact (hshut.and (always_charged h hbudget hmem hmem')).imp fun x hx hidle =>
        (hx.1 hidle).final hx.2
  have hexact (hshut : Shut u (u.tryClose locked)) :=
    Machine.always_iff_along (P := fun x => x.holder = none → Shut u x) (I := Shut u)
      (fun x hx _ => hx) (fun x a y ha hx hs => hx.step ha hs)
      (fun x a y ha hx hs => hx.breaks ha hs) hshut hrun
  obtain ⟨hcount, hbytes, hholder⟩ := tryClose_counters u locked
  rw [hfinal]
  constructor
  · intro halways
    by_cases hidle : u.holder = none
    · -- `close` keeps the counters, so they were at zero before it
      have hshut := halways.first (hholder.trans hidle)
      refine ⟨?_, hcount.symm.trans hshut.count, hbytes.symm.trans hshut.bytes,
        (hexact hshut).mp halways⟩
      cases locked with
      | true => exact .inl rfl
      | false => exact .inr ⟨hshut.ended, hshut.pending⟩
    · cases locked with
      | true => exact absurd (hlock rfl) hidle
      | false => exact absurd halways (not_shut_of_held hidle (open_of_held h hidle) hrun hw)
  · rintro ⟨hclosed, hc, hb, halong⟩
    refine (hexact ?_).mpr halong
    cases locked with
    | true => exact shut_close (hlock rfl) hc hb
    | false =>
      obtain ⟨ht, hp⟩ := hclosed.resolve_left Bool.false_ne_true
      have hidle : u.holder = none := by
        by_contra hh
        exact absurd (open_of_held h hh) (by simp [ht])
      exact ⟨⟨hp, hc, hb, suffix_refl _, [], by simp [Uplink.tryClose], by simp⟩, ht, hidle⟩

/-- Packets 0 and 1 come again and late. -/
def late : List Action := [.call ⟨0, [7]⟩, .acquire 0, .call ⟨1, [8]⟩, .acquire 0, .read 3]

theorem close_final_iff_late :
    ∃ u w, (uplink ⟨4, 0, 1⟩ (some ⟨3, 8⟩)).run [.call ⟨0, [7]⟩, .acquire 0] = some u ∧
      (uplink ⟨4, 0, 1⟩ (some ⟨3, 8⟩)).runFrom (u.tryClose true) late = some w ∧ Final u w := by
  have halways := (close_final_iff ⟨4, 0, 1⟩ (some ⟨3, 8⟩) [.call ⟨0, [7]⟩, .acquire 0] late _ _
    true rfl (by decide) (by decide) (by decide) (fun _ => rfl) rfl rfl).mpr ⟨.inl rfl, by decide⟩
  exact ⟨_, _, rfl, rfl, halways.last rfl rfl⟩

/-- What `close` leaves behind. The counters of the packets it dropped stay up; a later push out of
order is buffered; and a `close` that meets a suspended push has no effect. -/
theorem close_not_final :
    ((uplink ⟨4, 0, 1⟩ none).run [.call ⟨1, [7]⟩, .acquire 0, .close]).map (fun u =>
      (u.holder.isNone, u.pending.keys, u.pendingCount, u.pendingBytes)) = some (true, [], 1, 1) ∧
    ((uplink ⟨4, 0, 1⟩ none).run [.close, .call ⟨1, [7]⟩, .acquire 0]).map (fun u =>
      (u.holder.isNone, u.pending.keys, u.returned)) =
        some (true, [1], [(⟨1, [7]⟩, .accepted)]) ∧
    ((uplink ⟨4, 0, 1⟩ none).run [.call ⟨0, [7]⟩, .acquire 0, .call ⟨1, [8]⟩, .acquire 0, .close,
      .read 1, .resume]).map (fun u => (u.holder.isNone, u.txOpen, u.returned.map Prod.snd)) =
        some (true, true, [.accepted, .accepted]) := by
  decide

end Xhttp.Reorder
