import RustXhttp.Session.Accounting

/-!
# The global session cap

`upsert` compares the global counter with `max_sessions` under the lock of one shard and counts its
session later. Requests of other shards may read the counter in between.

* `Ledger.Within`: the objects in the table, with those about to be inserted, are within the cap.
* `sessions_capped`: the cap holds in every run in which a read of `active` that finds room leaves
  room for the requests that have read it before and not inserted yet; a read that does not can be
  followed, by insertions alone, to a table over the cap.
* `racing_uploads_exceed_cap`: two uploads in two shards are both let in at a cap of one session.
-/

namespace Xhttp.Sessions

namespace Ledger

/-- The objects in the table and those about to be inserted are within the cap. -/
def Within (max : Nat) (l : Ledger) : Prop := l.created + l.tasks .checked ≤ max + l.removed

variable {max : Nat} {l l' : Ledger}

/-- Only a read that finds room can bring the table closer to the cap. -/
theorem Within.step {found : Bool} (h : l.Within max) (hs : l.Step found l')
    (hroom : found = true → l.created + l.tasks .checked < max + l.removed) : l'.Within max := by
  unfold Within at h ⊢
  cases hs
  case quiet n x hm =>
    have := hm .checked nofun
    simp only
    split at this <;> omega
  case check n hm =>
    have hmoves := hm .checked nofun
    have hroom := hroom rfl
    simp only [reduceCtorEq, if_true, if_false] at hmoves ⊢
    omega
  all_goals
    rename_i n hm
    have := hm .checked nofun
    simp only [reduceCtorEq, if_true, if_false] at this ⊢
    omega

/-- A read that finds room where there is none for all. -/
theorem not_within_of_check (hs : l.Step true l')
    (hfull : max + l.removed ≤ l.created + l.tasks .checked) : ¬ l'.Within max := by
  cases hs
  case check n hm =>
    have := hm .checked nofun
    simp only [reduceCtorEq, if_true, if_false] at this
    simp only [Within]
    omega

end Ledger

namespace SessionTable

/-- The requests that have found room and not inserted their object. -/
def checked (t : SessionTable) : Nat := t.tasks.countP fun pc => pc.stage = .checked

/-- A read of `active` that finds room leaves room for the requests before it. -/
def RoomForAll (cfg : SessionConfig) (t : SessionTable) (a : TableAction) : Prop :=
  t.checks cfg a = true → t.live + t.checked < cfg.maxSessions

instance (cfg : SessionConfig) (t : SessionTable) (a : TableAction) :
    Decidable (RoomForAll cfg t a) := inferInstanceAs (Decidable (_ → _))

/-- The step is the insertion of a request that has found room. -/
def inserts (t : SessionTable) : TableAction → Bool
  | .run i => (t.tasks[i]?).any fun pc => pc.stage = .checked
  | _ => false

variable {t : SessionTable}

theorem roomForAll_of_inserts (cfg : SessionConfig) {a : TableAction} (h : t.inserts a = true) :
    RoomForAll cfg t a := by
  intro hchecks
  cases a with
  | run i =>
    simp only [inserts, checks, Option.any_eq_true] at h hchecks
    obtain ⟨pc, hpc, hst⟩ := h
    obtain ⟨pc', hpc', hfound⟩ := hchecks
    cases hpc.symm.trans hpc'
    cases pc
    case loadActive => cases hst
    all_goals cases hfound
  | _ => cases h

theorem Accounts.live_eq (h : Accounts t) : t.live + t.removed.length = t.sessions.length := by
  obtain ⟨creator, hb⟩ := h.books
  exact live_add_removed h.inv hb

theorem Accounts.within_iff (h : Accounts t) (max : Nat) :
    t.ledger.Within max ↔ t.live + t.checked ≤ max := by
  have := h.live_eq
  simp only [Ledger.Within, ledger, checked]
  omega

/-- A request that has found room can insert its object. -/
theorem exists_insert (cfg : SessionConfig) (h : Accounts t) (hpos : 0 < t.checked) : ∃ i t',
    t.inserts (.run i) = true ∧ t.step cfg (.run i) = some t' ∧ t'.live = t.live + 1 ∧
      t'.checked + 1 = t.checked := by
  obtain ⟨pc, hmem, hst⟩ := List.countP_pos_iff.mp hpos
  obtain ⟨i, hi⟩ := List.mem_iff_getElem?.mp hmem
  cases pc
  case insert req id =>
    obtain ⟨t', hs⟩ : ∃ t', t.runTask cfg i (.insert req id) = some t' := ⟨_, rfl⟩
    have hstep : t.step cfg (.run i) = some t' := by
      simp only [step, hi, Option.bind_some, hs]
    have hlive := (h.step hstep).live_eq
    have hlive' := h.live_eq
    have hchecked : Moves t.ledger.tasks t'.ledger.tasks .checked .adding ∧
        t'.removed = t.removed ∧ t'.sessions.length = t.sessions.length + 1 := by
      cases hs
      exact ⟨moves_of_eq hi rfl _, rfl, List.length_append⟩
    obtain ⟨hmoves, hr, hlen⟩ := hchecked
    have := hmoves .checked (by decide)
    simp only [ledger, if_true, reduceCtorEq, if_false] at this
    refine ⟨i, t', by simp [inserts, hi, Pc.stage], hstep, ?_, this⟩
    rw [hr, hlen] at hlive
    omega
  all_goals cases hst

/-- All requests that have found room insert their objects. -/
theorem exists_inserted (cfg : SessionConfig) (h : Accounts t) {k : Nat} (hk : t.checked = k) :
    ∃ bs u, (table cfg).Along (fun s a => s.inserts a = true) t bs ∧
      (table cfg).runFrom t bs = some u ∧ u.live = t.live + k := by
  induction k generalizing t with
  | zero => exact ⟨[], t, trivial, rfl, rfl⟩
  | succ k ih =>
    obtain ⟨i, t', hins, hs, hlive, hchecked⟩ := exists_insert cfg h (by omega)
    obtain ⟨bs, u, hG, hu, hl⟩ := ih (h.step hs) (by omega)
    have hs' : (table cfg).step t (.run i) = some t' := hs
    refine ⟨.run i :: bs, u, ⟨hins, fun t₁ ht₁ => ?_⟩, ?_, by omega⟩
    · cases hs'.symm.trans ht₁
      exact hG
    · simp only [Machine.runFrom, hs', Option.bind_some]
      exact hu

end SessionTable

open SessionTable

/-- **The cap.** The sessions over all shards are at most `max_sessions` in every state of a run
along `RoomForAll`. This is exact: a run is along `RoomForAll` if and only if they stay within the
cap from each of its states on, when the requests that have found room insert their objects. -/
theorem sessions_capped (cfg : SessionConfig) (as : List TableAction) (t : SessionTable)
    (h : (table cfg).run as = some t) :
    ((table cfg).Along (RoomForAll cfg) (table cfg).init as →
      (table cfg).Always (fun s => s.live ≤ cfg.maxSessions) (table cfg).init as) ∧
    ((table cfg).Along (RoomForAll cfg) (table cfg).init as ↔
      ∀ pre s bs u, pre <+: as → (table cfg).run pre = some s →
        (table cfg).Along (fun s a => s.inserts a = true) s bs →
        (table cfg).runFrom s bs = some u → u.live ≤ cfg.maxSessions) := by
  -- the invariant: the accounts, and room for all that have found it
  let I : SessionTable → Prop := fun t => Accounts t ∧ t.ledger.Within cfg.maxSessions
  have hinit : I (table cfg).init := ⟨accounts_new cfg, Nat.zero_le _⟩
  have hcap : ∀ s, I s → s.live ≤ cfg.maxSessions := by
    rintro s ⟨hacc, hin⟩
    have := (hacc.within_iff _).mp hin
    omega
  have hkeep : ∀ s a s', RoomForAll cfg s a → I s → (table cfg).step s a = some s' → I s' := by
    rintro s a s' hroom ⟨hacc, hin⟩ hs
    refine ⟨hacc.step hs, hin.step (ledger_step hs) fun hfound => ?_⟩
    have := hroom hfound
    have := hacc.live_eq
    simp only [ledger, checked] at *
    omega
  have hbreak : ∀ s a s', ¬ RoomForAll cfg s a → I s → (table cfg).step s a = some s' →
      ¬ s'.ledger.Within cfg.maxSessions := by
    rintro s a s' hroom ⟨hacc, -⟩ hs
    obtain ⟨hfound, hfull⟩ := Classical.not_imp.mp hroom
    have hstep := ledger_step hs
    rw [hfound] at hstep
    refine Ledger.not_within_of_check hstep ?_
    have := hacc.live_eq
    simp only [ledger, checked] at *
    omega
  refine ⟨fun hG => (hG.always hkeep hinit).imp hcap, fun hG pre s bs u hpre hs hins hu => ?_,
    fun hall => ?_⟩
  · have hI := Machine.run_inv hinit hkeep (hG.of_prefix hpre) hs
    exact hcap u (Machine.runFrom_inv hkeep (hins.imp fun _ _ => roomForAll_of_inserts cfg) hI hu)
  · by_contra hG
    have hnot : ¬ (table cfg).Always (fun s => s.ledger.Within cfg.maxSessions) (table cfg).init
        as := fun hin => hG (hin.along_of_break hkeep hbreak hinit h)
    obtain ⟨pre, s, hpre, hs, hover⟩ := Machine.exists_of_not_always hnot
    have hacc := accounts_run hs
    obtain ⟨bs, u, hins, hu, hlive⟩ := exists_inserted cfg hacc rfl
    have hle := hall pre s bs u hpre hs hins hu
    refine hover ((hacc.within_iff _).mpr ?_)
    omega

/-- One upload after the other, in two shards. -/
def uploadsInTurn : List TableAction :=
  .request .upload [1] :: .request .upload [2] ::
    (List.replicate 5 (.run 0) ++ List.replicate 2 (.run 1))

/-- The second upload is refused. -/
theorem sessions_capped_inTurn : ∃ t, (table ⟨2, 1⟩).run uploadsInTurn = some t ∧
    t.tasks[1]? = some .finished ∧
      (table ⟨2, 1⟩).Always (fun s => s.live ≤ 1) (table ⟨2, 1⟩).init uploadsInTurn :=
  ⟨_, rfl, rfl, (sessions_capped ⟨2, 1⟩ uploadsInTurn _ rfl).1 (by decide +kernel)⟩

/-- Both uploads read `active` before one of them is counted. -/
def racingUploads : List TableAction :=
  [.request .upload [1], .request .upload [2], .run 0, .run 1, .run 0, .run 1, .run 0, .run 1]

/-- Two sessions at a cap of one. -/
theorem racing_uploads_exceed_cap :
    ∃ t, (table ⟨2, 1⟩).run racingUploads = some t ∧ 1 < t.live :=
  ⟨_, rfl, by decide⟩

end Xhttp.Sessions
