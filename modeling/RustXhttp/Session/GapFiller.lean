import RustXhttp.Session.Budget

/-!
# The packet that the others wait for

The packets of a session that are ahead of its next one hold their reservations until that one
arrives. Its own push takes its payload from the same budget, so it can be refused by what they
hold, in its own session or in others.

* `Pool.Reads`: the steps in which a push reads the counter.
* `Pool.Keeps`: what a step leaves alone of the other tasks, and of the next numbers.
* `OnTrack`, `Doomed`: where the push can be while it has found room, and after it has not.
* `gap_filler_refused_iff`: the push of the next packet is refused exactly if the live reservations
  leave no room for its payload when it reads the counter.
-/

namespace Xhttp.Budget

open Option
open Reorder (Config Push PushResult MemoryBudget)

/-- The packet is refused for its size or for its place. -/
def Inadmissible : PushResult → Prop
  | .tooManyPending | .tooManyPendingBytes | .globalBufferExceeded => True
  | .accepted | .duplicate | .closed => False

/-- The push is past its reservation, or did not need one. -/
def Pc.Admitted : Pc → Prop
  | .lock _ _ | .load _ _ | .cas _ _ _ => False
  | .returned r => ¬ Inadmissible r
  | _ => True

namespace Pool

/-- The task that an action runs. -/
def PoolAction.task : PoolAction → Option Nat
  | .run i | .spurious i | .cancel i => some i
  | .openSession | .call _ _ | .read _ _ | .close _ | .dropSink _ | .dropReader _ => none

/-- Task `i` reads the counter: before its loop, or in a compare-and-swap that fails. -/
def Reads (s : Pool) (i : Nat) (a : PoolAction) : Prop :=
  match s.tasks[i]? with
  | some (.load _ _) => a = .run i
  | some (.cas _ p cur) => saturatingAdd cur p.payload.length ≤ s.budget.limit ∧
      (a = .run i ∧ s.budget.used ≠ cur ∨ a = .spurious i)
  | _ => False

/-- When task `i` reads the counter, the live reservations leave room for `len` bytes. -/
def Fits (i len : Nat) (s : Pool) (a : PoolAction) : Prop :=
  s.Reads i a → sizes s.live + len ≤ s.budget.limit

/-! ## What the other tasks leave alone -/

/-- From `s` to `s'` no task goes on but `task`, and the next number of no session goes down. -/
structure Keeps (task : Option Nat) (s s' : Pool) : Prop where
  tasks {i : Nat} {pc : Pc} (hi : s.tasks[i]? = some pc) (hne : task ≠ some i) :
    s'.tasks[i]? = some pc
  next {k : Nat} {line : Line} (hk : s.lines[k]? = some line) :
    ∃ line', s'.lines[k]? = some line' ∧ line.nextSeq ≤ line'.nextSeq

section Frame

variable {cfg : Config} {s s' : Pool} {i j k : Nat} {pc pc' : Pc} {line line' : Line}
  {a : PoolAction} {task : Option Nat}

theorem tasks_append (hi : s.tasks[i]? = some pc) (more : List Pc) :
    (s.tasks ++ more)[i]? = some pc := by
  rw [List.getElem?_append_left (List.getElem?_eq_some_iff.mp hi).1, hi]

theorem tasks_set (hi : s.tasks[i]? = some pc) (hne : some j ≠ some i) :
    (s.tasks.set j pc')[i]? = some pc := by
  rw [List.getElem?_set_ne fun h => hne (congrArg some h), hi]

theorem next_set (hk : s.lines[k]? = some line) (hle : line.nextSeq ≤ line'.nextSeq) {n : Nat}
    {old : Line} (hn : s.lines[n]? = some old) :
    ∃ new, (s.lines.set k line')[n]? = some new ∧ old.nextSeq ≤ new.nextSeq := by
  by_cases h : k = n
  · subst h
    cases hk.symm.trans hn
    exact ⟨line', List.getElem?_set_self (List.getElem?_eq_some_iff.mp hk).1, hle⟩
  · exact ⟨old, (List.getElem?_set_ne h).trans hn, Nat.le_refl _⟩

/-- The task alone goes on. -/
theorem Keeps.run (htasks : s'.tasks = s.tasks.set j pc') (hlines : s'.lines = s.lines) :
    Keeps (some j) s s' where
  tasks hi hne := by rw [htasks, tasks_set hi hne]
  next hk := ⟨_, by rw [hlines, hk], Nat.le_refl _⟩

theorem Keeps.update {gone : List BudgetedBytes} (hk : s.lines[k]? = some line)
    (hle : line.nextSeq ≤ line'.nextSeq) : Keeps (some j) s (s.update k j line' pc' gone) where
  tasks hi hne := by
    have hlt := (List.getElem?_eq_some_iff.mp hi).1
    rw [Pool.update, List.getElem?_append_left (by simpa using hlt), tasks_set hi hne]
  next hn := next_set hk hle hn

theorem Keeps.updateLine (hk : s.lines[k]? = some line) {r : Line × List BudgetedBytes}
    (hle : line.nextSeq ≤ r.1.nextSeq) : Keeps task s (s.updateLine k r) where
  tasks hi _ := tasks_append hi _
  next hn := next_set hk hle hn

theorem nextSeq_le_advance (line : Line) (k : Nat) : line.nextSeq ≤ (line.advance k).1.nextSeq := by
  unfold Line.advance
  split
  · exact Nat.le_refl _
  · exact Nat.le_succ _

theorem runTask_keeps (hs : s.runTask cfg j pc = some s') : Keeps (some j) s s' := by
  cases pc with
  | lock k p =>
    obtain ⟨line, hk, hs⟩ := bind_eq_some_iff.mp hs
    split at hs
    · cases hs
    split at hs
    · cases hs
      exact .run rfl rfl
    · cases hs
      exact .update hk (Nat.le_refl _)
  | load k p =>
    simp only [runTask] at hs
    split at hs
    · cases hs
      exact .run rfl rfl
    · cases hs
      exact .run rfl rfl
  | cas k p cur =>
    obtain ⟨line, hk, rfl⟩ := map_eq_some_iff.mp hs
    dsimp only
    split
    · exact .update hk (Nat.le_refl _)
    split
    · exact .run rfl rfl
    · exact .run rfl rfl
  | reserved k p item =>
    obtain ⟨line, hk, rfl⟩ := map_eq_some_iff.mp hs
    split
    · exact .update hk (Nat.le_refl _)
    · exact .run rfl rfl
  | send k item =>
    obtain ⟨line, hk, hs⟩ := bind_eq_some_iff.mp hs
    split at hs
    · cases hs
      exact .update hk (nextSeq_le_advance line k)
    split at hs
    · cases hs
      exact .update hk (Nat.le_refl _)
    split at hs
    · cases hs
      exact .update hk (nextSeq_le_advance { line with queue := line.queue ++ [item] } k)
    · cases hs
  | drain k =>
    obtain ⟨line, hk, rfl⟩ := map_eq_some_iff.mp hs
    split
    · exact .update hk (Nat.le_refl _)
    · exact .update hk (Nat.le_refl _)
  | drop item =>
    cases hs
    exact .run rfl rfl
  | returned | cancelled | dropped => cases hs

theorem step_keeps (hs : s.step cfg a = some s') : Keeps a.task s s' := by
  cases a with
  | openSession =>
    cases hs
    refine ⟨fun hi _ => hi, fun {k line} hk => ⟨line, ?_, Nat.le_refl _⟩⟩
    rw [List.getElem?_append_left (List.getElem?_eq_some_iff.mp hk).1, hk]
  | call k p =>
    obtain ⟨-, hs⟩ := ite_none_right_eq_some.mp hs
    cases hs
    exact ⟨fun hi _ => tasks_append hi _, fun hk => ⟨_, hk, Nat.le_refl _⟩⟩
  | run j =>
    obtain ⟨pc, -, hs⟩ := bind_eq_some_iff.mp hs
    exact runTask_keeps hs
  | spurious j =>
    simp only [step] at hs
    split at hs
    · obtain ⟨-, hs⟩ := ite_none_left_eq_some.mp hs
      cases hs
      exact .run rfl rfl
    · cases hs
  | cancel j =>
    simp only [step] at hs
    split at hs
    · cases hs
      exact .run rfl rfl
    · obtain ⟨-, hs⟩ := ite_none_left_eq_some.mp hs
      obtain ⟨line, hk, rfl⟩ := map_eq_some_iff.mp hs
      exact .update hk (Nat.le_refl _)
    · cases hs
  | read k n =>
    obtain ⟨line, hk, hs⟩ := bind_eq_some_iff.mp hs
    obtain ⟨-, hs⟩ := ite_none_right_eq_some.mp hs
    cases hs
    exact .updateLine hk (Nat.le_of_eq (line.pollRead_frame n).2.1.symm)
  | close k =>
    obtain ⟨line, hk, hs⟩ := bind_eq_some_iff.mp hs
    obtain ⟨-, hs⟩ := ite_none_right_eq_some.mp hs
    cases hs
    refine .updateLine hk ?_
    unfold Line.close
    split
    · exact Nat.le_refl _
    · exact Nat.le_refl _
  | dropSink k | dropReader k =>
    obtain ⟨line, hk, hs⟩ := bind_eq_some_iff.mp hs
    obtain ⟨-, hs⟩ := ite_none_right_eq_some.mp hs
    cases hs
    exact .updateLine hk (Nat.le_refl _)

end Frame

/-! ## The push -/

section Push

variable {cfg : Config} {limit : Nat} {s s' : Pool} {i k : Nat} {p : Push} {pc pc' : Pc}
  {line : Line} {a : PoolAction}

theorem tasks_update {gone : List BudgetedBytes} (hi : s.tasks[i]? = some pc) :
    (s.update k i line pc' gone).tasks[i]? = some pc' := by
  grind [update]

theorem tasks_setPc (hi : s.tasks[i]? = some pc) : (s.setPc i pc').tasks[i]? = some pc' := by
  grind [setPc]

/-- A packet that is not ahead of its session is not refused by the checks. -/
theorem check_of_le {r : PushResult} (hseq : p.seq.toNat ≤ line.nextSeq)
    (h : line.check cfg p = some r) : r = .duplicate := by
  unfold Line.check at h
  dsimp only at h
  split at h
  · exact (Option.some.inj h).symm
  · rw [if_neg (by omega)] at h
    cases h

/-- At the highest limit the sum saturates, and only the memory keeps it from that. -/
theorem room_iff (hinv : Inv limit s) (hlimit : limit ≤ u64Max)
    (hmem : limit = u64Max → s.memory ≤ u64Max) (hi : s.tasks[i]? = some pc)
    (hw : pc.waiting = p.payload.length) :
    saturatingAdd s.budget.used p.payload.length ≤ limit ↔
      sizes s.live + p.payload.length ≤ limit := by
  have hused : s.budget.used = sizes s.live := hinv.sound.used
  have hle := waiting_le hi
  rw [hused, saturatingAdd]
  by_cases hmax : limit = u64Max
  · have hm := hmem hmax
    rw [memory] at hm
    omega
  · omega

/-- Where the push can be while it has always found room. -/
inductive OnTrack (limit k : Nat) (p : Push) (s : Pool) : Pc → Prop
  | lock {line : Line} (hk : s.lines[k]? = some line) (hseq : p.seq.toNat ≤ line.nextSeq) :
      OnTrack limit k p s (.lock k p)
  | load : OnTrack limit k p s (.load k p)
  | cas {cur : Nat} (hroom : saturatingAdd cur p.payload.length ≤ limit) :
      OnTrack limit k p s (.cas k p cur)
  | admitted {pc : Pc} (h : pc.Admitted) : OnTrack limit k p s pc

/-- The push is refused, or will be at its next step. -/
inductive Doomed (limit k : Nat) (p : Push) : Pc → Prop
  | cas {cur : Nat} (hfull : limit < saturatingAdd cur p.payload.length) :
      Doomed limit k p (.cas k p cur)
  | refused : Doomed limit k p (.returned .globalBufferExceeded)

/-- A read of the counter, and nothing else. -/
theorem read_step (h0 : s.budget.limit ≠ 0) (hi : s.tasks[i]? = some pc)
    (h : OnTrack s.budget.limit k p s pc) (hr : s.Reads i a) (hs : s.step cfg a = some s') :
    pc.waiting = p.payload.length ∧ s'.tasks[i]? = some (.cas k p s.budget.used) := by
  simp only [Reads, hi] at hr
  cases h with
  | lock => exact hr.elim
  | load =>
    subst hr
    simp only [step, hi, bind_some, runTask, if_pos h0] at hs
    cases hs
    exact ⟨rfl, tasks_setPc hi⟩
  | cas hroom =>
    obtain ⟨-, ⟨rfl, hne⟩ | rfl⟩ := hr
    · simp only [step, hi, bind_some, runTask, if_neg hne, if_neg (Nat.not_lt.mpr hroom)]
        at hs
      obtain ⟨line, -, rfl⟩ := map_eq_some_iff.mp hs
      exact ⟨rfl, tasks_setPc hi⟩
    · simp only [step, hi, if_neg (Nat.not_lt.mpr hroom)] at hs
      cases hs
      exact ⟨rfl, tasks_setPc hi⟩
  | admitted hpc => cases pc <;> first | exact hr.elim | exact hpc.elim

theorem admitted_run (h : pc.Admitted) (hi : s.tasks[i]? = some pc)
    (hs : s.runTask cfg i pc = some s') : ∃ pc', s'.tasks[i]? = some pc' ∧ pc'.Admitted := by
  cases pc with
  | lock | load | cas => exact h.elim
  | reserved k p item =>
    obtain ⟨line, -, rfl⟩ := map_eq_some_iff.mp hs
    split
    · exact ⟨_, tasks_update hi, id⟩
    · exact ⟨_, tasks_setPc hi, trivial⟩
  | send k item =>
    obtain ⟨line, -, hs⟩ := bind_eq_some_iff.mp hs
    have hadvance : ∀ l : Line, (l.advance k).2.Admitted := by
      intro l
      unfold Line.advance
      split
      · exact id
      · trivial
    split at hs
    · cases hs
      exact ⟨_, tasks_update hi, hadvance _⟩
    split at hs
    · cases hs
      exact ⟨_, tasks_update hi, id⟩
    split at hs
    · cases hs
      exact ⟨_, tasks_update hi, hadvance _⟩
    · cases hs
  | drain k =>
    obtain ⟨line, -, rfl⟩ := map_eq_some_iff.mp hs
    split
    · exact ⟨_, tasks_update hi, id⟩
    · exact ⟨_, tasks_update hi, trivial⟩
  | drop item =>
    cases hs
    exact ⟨_, tasks_setPc hi, trivial⟩
  | returned | cancelled | dropped => cases hs

theorem task_eq_some (h : a.task = some i) : a = .run i ∨ a = .spurious i ∨ a = .cancel i := by
  cases a <;> simp_all [PoolAction.task]

/-- A step that does not read the counter keeps the push on its track. -/
theorem OnTrack.step (hi : s.tasks[i]? = some pc) (h : OnTrack limit k p s pc)
    (hlimit : s.budget.limit = limit) (hr : ¬ s.Reads i a)
    (hs : s.step cfg a = some s') : ∃ pc', s'.tasks[i]? = some pc' ∧ OnTrack limit k p s' pc' := by
  by_cases ha : a.task = some i
  case neg =>
    refine ⟨pc, (step_keeps hs).tasks hi ha, ?_⟩
    cases h with
    | lock hk hseq =>
      obtain ⟨line', hk', hle⟩ := (step_keeps hs).next hk
      exact .lock hk' (Nat.le_trans hseq hle)
    | load => exact .load
    | cas hroom => exact .cas hroom
    | admitted hpc => exact .admitted hpc
  simp only [Reads, hi] at hr
  rcases task_eq_some ha with rfl | rfl | rfl
  · -- the push itself goes on
    simp only [Pool.step, hi, bind_some] at hs
    cases h with
    | lock hk hseq =>
      simp only [runTask, hk, bind_some] at hs
      split at hs
      · cases hs
      split at hs
      case h_1 r hcheck =>
        cases hs
        cases check_of_le hseq hcheck
        exact ⟨_, tasks_setPc hi, .admitted id⟩
      case h_2 =>
        cases hs
        exact ⟨_, tasks_update hi, .load⟩
    | load => exact absurd rfl hr
    | @cas cur hroom =>
      have hused : s.budget.used = cur := by
        by_contra hne
        exact hr ⟨hlimit ▸ hroom, .inl ⟨rfl, hne⟩⟩
      obtain ⟨line, -, rfl⟩ := map_eq_some_iff.mp hs
      rw [if_neg (by omega), if_pos hused]
      exact ⟨_, tasks_setPc hi, .admitted trivial⟩
    | admitted hpc =>
      obtain ⟨pc', hi', hpc'⟩ := admitted_run hpc hi hs
      exact ⟨pc', hi', .admitted hpc'⟩
  · cases h with
    | @cas cur hroom => exact absurd ⟨hlimit ▸ hroom, .inr rfl⟩ hr
    | lock | load => simp [Pool.step, hi] at hs
    | admitted hpc => cases pc <;> first | exact hpc.elim | simp [Pool.step, hi] at hs
  · -- a push that is cancelled is not refused
    simp only [Pool.step, hi] at hs
    cases pc with
    | lock k' p' =>
      cases hs
      exact ⟨_, tasks_setPc hi, .admitted trivial⟩
    | send k' item =>
      dsimp only at hs
      split at hs
      · cases hs
      · obtain ⟨line, -, rfl⟩ := map_eq_some_iff.mp hs
        exact ⟨_, tasks_update hi, .admitted trivial⟩
    | _ => cases hs

theorem Doomed.step (hi : s.tasks[i]? = some pc) (h : Doomed limit k p pc)
    (hlimit : s.budget.limit = limit) (hs : s.step cfg a = some s') :
    ∃ pc', s'.tasks[i]? = some pc' ∧ Doomed limit k p pc' := by
  by_cases ha : a.task = some i
  case neg => exact ⟨pc, (step_keeps hs).tasks hi ha, h⟩
  cases h with
  | @cas cur hfull =>
    rcases task_eq_some ha with rfl | rfl | rfl
    · simp only [Pool.step, hi, bind_some] at hs
      obtain ⟨line, -, rfl⟩ := map_eq_some_iff.mp hs
      rw [if_pos (by omega)]
      exact ⟨_, tasks_update hi, .refused⟩
    · simp only [Pool.step, hi] at hs
      rw [if_pos (by omega)] at hs
      cases hs
    · simp [Pool.step, hi] at hs
  | refused => rcases task_eq_some ha with rfl | rfl | rfl <;> simp [Pool.step, hi, runTask] at hs

end Push

end Pool

section Runs

variable {cfg : Config} {limit i k : Nat} {p : Push}

/-- The memory holds all payloads; it matters at the highest limit alone. -/
def InMemory (limit : Nat) (s : Pool) : Prop := limit = u64Max → s.memory ≤ u64Max

variable {s t : Pool} {bs : List Pool.PoolAction}

/-- From the call of the push on: it has found room at each read, or it is refused. -/
theorem gap_filler_run (h0 : limit ≠ 0) (hlimit : limit ≤ u64Max) {pc : Pc} (hinv : s.Inv limit)
    (hi : s.tasks[i]? = some pc) (htrack : Pool.OnTrack limit k p s pc)
    (hmem : (pool cfg limit).Along (fun s _ => InMemory limit s) s bs)
    (hrun : (pool cfg limit).runFrom s bs = some t) :
    ((pool cfg limit).Along (Pool.Fits i p.payload.length) s bs ∧
        ∃ pc, t.tasks[i]? = some pc ∧ Pool.OnTrack limit k p t pc) ∨
      ¬ (pool cfg limit).Along (Pool.Fits i p.payload.length) s bs ∧
        ∃ pc, t.tasks[i]? = some pc ∧ Pool.Doomed limit k p pc := by
  -- the limit is part of the trap, too: a doomed push compares with it
  have htrap := Machine.along_or_trap (M := pool cfg limit) (G := Pool.Fits i p.payload.length)
    (H := fun s _ => InMemory limit s)
    (I := fun s => s.Inv limit ∧ ∃ pc, s.tasks[i]? = some pc ∧ Pool.OnTrack limit k p s pc)
    (B := fun s => s.budget.limit = limit ∧ ∃ pc, s.tasks[i]? = some pc ∧ Pool.Doomed limit k p pc)
    ?_ ?_ ?_ hmem ⟨hinv, pc, hi, htrack⟩ hrun
  · exact htrap.imp (fun h => ⟨h.1, h.2.2⟩) fun h => ⟨h.1, h.2.2⟩
  · rintro s a s' hm hfits ⟨hinv, pc, hi, htrack⟩ hs
    refine ⟨hinv.step h0 hlimit hm hs, ?_⟩
    by_cases hr : s.Reads i a
    · obtain ⟨hw, hi'⟩ := Pool.read_step (hinv.limit ▸ h0) hi (hinv.limit ▸ htrack) hr hs
      have hroom := (Pool.room_iff hinv hlimit hm hi hw).mpr (hinv.limit ▸ hfits hr)
      exact ⟨_, hi', .cas hroom⟩
    · exact htrack.step hi hinv.limit hr hs
  · rintro s a s' hm hfull ⟨hinv, pc, hi, htrack⟩ hs
    obtain ⟨hr, hlt⟩ := Classical.not_imp.mp hfull
    obtain ⟨hw, hi'⟩ := Pool.read_step (hinv.limit ▸ h0) hi (hinv.limit ▸ htrack) hr hs
    have hnone : ¬ saturatingAdd s.budget.used p.payload.length ≤ limit := fun hroom =>
      hlt (hinv.limit.symm ▸ (Pool.room_iff hinv hlimit hm hi hw).mp hroom)
    exact ⟨(Pool.limit_step hs).trans hinv.limit, _, hi', .cas (Nat.not_le.mp hnone)⟩
  · rintro s a s' ⟨hl, pc, hi, hdoom⟩ hs
    exact ⟨(Pool.limit_step hs).trans hl, hdoom.step hi hl hs⟩

theorem inv_run (h0 : limit ≠ 0) (hlimit : limit ≤ u64Max) {as : List Pool.PoolAction}
    (hmem : (pool cfg limit).Along (fun s _ => InMemory limit s) (pool cfg limit).init as)
    (h : (pool cfg limit).run as = some s) : s.Inv limit :=
  Machine.run_inv (G := fun s _ => InMemory limit s) (Pool.inv_new limit)
    (fun _ _ _ hm hi => hi.step h0 hlimit hm) hmem h

/-- The push of a packet that is not ahead of its session, once it has returned. -/
theorem refused_iff_run (h0 : limit ≠ 0) (hlimit : limit ≤ u64Max) {r : PushResult} {line : Line}
    (hinv : s.Inv limit) (hi : s.tasks[i]? = some (.lock k p)) (hk : s.lines[k]? = some line)
    (hseq : p.seq.toNat ≤ line.nextSeq)
    (hmem : (pool cfg limit).Along (fun s _ => InMemory limit s) s bs)
    (hrun : (pool cfg limit).runFrom s bs = some t) (hret : t.tasks[i]? = some (.returned r)) :
    Inadmissible r ↔ ¬ (pool cfg limit).Along (Pool.Fits i p.payload.length) s bs := by
  rcases gap_filler_run h0 hlimit hinv hi (.lock hk hseq) hmem hrun with
    ⟨halong, pc, hpc, htrack⟩ | ⟨halong, pc, hpc, hdoom⟩
  · cases hret.symm.trans hpc
    cases htrack with
    | admitted hadm => exact ⟨fun hr => absurd hr hadm, fun hn => absurd halong hn⟩
  · cases hret.symm.trans hpc
    cases hdoom
    exact ⟨fun _ => halong, fun _ => trivial⟩

end Runs

/-- After any steps of any sessions that share a budget, the push of the next packet of a session is
refused exactly if, at one of its reads of the counter, its payload does not fit beside the live
reservations. -/
theorem gap_filler_refused_iff (cfg : Config) (limit : Nat) (h0 : limit ≠ 0)
    (hlimit : limit ≤ u64Max) (as bs : List Pool.PoolAction) (s s' t : Pool) (k : Nat) (line : Line)
    (p : Push) (r : PushResult) (h : (pool cfg limit).run as = some s)
    (hk : s.lines[k]? = some line) (hseq : p.seq.toNat = line.nextSeq)
    (hcall : s.step cfg (.call k p) = some s') (hrun : (pool cfg limit).runFrom s' bs = some t)
    (hmem : (pool cfg limit).Along (fun s _ => InMemory limit s) (pool cfg limit).init
      (as ++ .call k p :: bs))
    (hret : t.tasks[s.tasks.length]? = some (.returned r)) :
    Inadmissible r ↔
      ¬ (pool cfg limit).Along (Pool.Fits s.tasks.length p.payload.length) s' bs := by
  obtain ⟨hmem, hcallMem, hmem'⟩ := Machine.along_append h hmem
  have hinv : s'.Inv limit := (inv_run h0 hlimit hmem h).step h0 hlimit hcallMem hcall
  have hs' : s'.lines = s.lines ∧ s'.tasks = s.tasks ++ [.lock k p] := by
    simp only [Pool.step] at hcall
    split at hcall
    · cases hcall
      exact ⟨rfl, rfl⟩
    · cases hcall
  have hi : s'.tasks[s.tasks.length]? = some (.lock k p) := by
    rw [hs'.2, List.getElem?_concat_length]
  exact refused_iff_run h0 hlimit hinv hi (hs'.1 ▸ hk) (Nat.le_of_eq hseq) (hmem' s' hcall) hrun
    hret

/-- Packet 1 of each of two sessions waits, and they hold four bytes of the budget. -/
def waitingForGap : List Pool.PoolAction :=
  [.openSession, .openSession, .call 0 ⟨1, [7, 7]⟩, .run 0, .run 0, .run 0, .run 0,
    .call 1 ⟨1, [8, 8]⟩, .run 1, .run 1, .run 1, .run 1]

/-- The steps of task `i`: packet 0 is sent, and packet 1 after it. -/
def fillsGap (i : Nat) : List Pool.PoolAction := List.replicate 8 (.run i)

theorem gap_filler_refused_iff_fills :
    ∃ s s' t, (pool ⟨4, 0, 2⟩ 5).run waitingForGap = some s ∧
      s.step ⟨4, 0, 2⟩ (.call 0 ⟨0, [9]⟩) = some s' ∧
      (pool ⟨4, 0, 2⟩ 5).runFrom s' (fillsGap 2) = some t ∧
      t.tasks[s.tasks.length]? = some (.returned .accepted) ∧
      (pool ⟨4, 0, 2⟩ 5).Along (Pool.Fits s.tasks.length 1) s' (fillsGap 2) := by
  have hiff := gap_filler_refused_iff ⟨4, 0, 2⟩ 5 (by decide) (by decide) waitingForGap (fillsGap 2)
    _ _ _ 0 _ ⟨0, [9]⟩ _ rfl rfl rfl rfl rfl
    ((Machine.along_true _ _).imp fun _ _ _ h => absurd h (by decide)) rfl
  exact ⟨_, _, _, rfl, rfl, rfl, rfl, by_contra fun hn => hiff.mpr hn⟩

/-- A budget of four bytes is full: packet 0 of either session, of one byte, is refused, with its
sink open, its reader idle and no other push under way. -/
theorem gap_filler_refused :
    ∃ s, (pool ⟨4, 0, 2⟩ 4).run (waitingForGap ++ [.call 0 ⟨0, [9]⟩, .run 2, .run 2, .run 2,
        .call 1 ⟨0, [9]⟩, .run 3, .run 3, .run 3]) = some s ∧
      s.tasks = [.returned .accepted, .returned .accepted, .returned .globalBufferExceeded,
        .returned .globalBufferExceeded] ∧
      s.lines.map (fun line => (line.isOpen, line.sequenceExhausted, line.nextSeq)) =
        [(true, false, 0), (true, false, 0)] ∧
      s.lines.flatMap (fun line => line.queue ++ line.cur.toList) = [] :=
  ⟨_, rfl, rfl, rfl, rfl⟩

end Xhttp.Budget
