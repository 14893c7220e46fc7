import RustXhttp.Session.Generations
import RustXhttp.Lib.Count

/-!
# The counters of the session table

`active` and the gauge are updated after the map of a shard: an insertion counts its object while
it still holds the lock of the shard, a removal lowers the counters after it released the lock.

* `Stage`: where a task is between the map and the counters.
* `Ledger`: the table without its objects, that is the counters, how many objects were created and
  removed, and how many tasks are at each stage. `Ledger.Step` is all that a step can do to it.
* `ledger_step`: every step of the table is a step of its ledger.
* `Ledger.Balanced`: the counters are the objects in the table, less those that are not counted yet
  and with those that are still counted.
-/

namespace Xhttp.Sessions

/-- Where a task is between the update of a map and the updates of the counters. -/
inductive Stage where
  | idle
  /-- `upsert` read `active` and found room. -/
  | checked
  /-- The object is in the map; `active` and the gauge do not count it. -/
  | adding
  /-- The gauge does not count the object. -/
  | gauging
  /-- The object is out of the map; `active` and the gauge still count it. -/
  | removing
  /-- The gauge still counts the object. -/
  | lowering
  deriving DecidableEq, Repr

def Pc.stage : Pc → Stage
  | .insert .. => .checked
  | .addActive .. => .adding
  | .addGauge .. => .gauging
  | .cancelReaper _ | .subActive _ => .removing
  | .subGauge _ => .lowering
  | _ => .idle

theorem Pc.stage_abort (pc : Pc) : pc.abort.stage = pc.stage := by
  cases pc <;> rfl

/-- One task goes from the stage `x` to the stage `y`. -/
def Moves (n n' : Stage → Nat) (x y : Stage) : Prop :=
  ∀ st, st ≠ .idle → n' st + (if st = x then 1 else 0) = n st + (if st = y then 1 else 0)

/-- The counters of a table, and what they should count. -/
structure Ledger where
  active : Nat
  gauge : Int
  created : Nat
  removed : Nat
  tasks : Stage → Nat

namespace Ledger

/-- What a step can do to the ledger. The label tells whether an `upsert` has found room. -/
inductive Step (l : Ledger) : Bool → Ledger → Prop where
  | quiet {n : Stage → Nat} (x : Stage) (h : Moves l.tasks n x x) :
    Step l false { l with tasks := n }
  | check {n : Stage → Nat} (h : Moves l.tasks n .idle .checked) :
    Step l true { l with tasks := n }
  | insert {n : Stage → Nat} (h : Moves l.tasks n .checked .adding) :
    Step l false { l with created := l.created + 1, tasks := n }
  | addActive {n : Stage → Nat} (h : Moves l.tasks n .adding .gauging) :
    Step l false { l with active := wrappingAdd l.active 1, tasks := n }
  | addGauge {n : Stage → Nat} (h : Moves l.tasks n .gauging .idle) :
    Step l false { l with gauge := addGauge l.gauge 1, tasks := n }
  | remove {n : Stage → Nat} (h : Moves l.tasks n .idle .removing) :
    Step l false { l with removed := l.removed + 1, tasks := n }
  | subActive {n : Stage → Nat} (h : Moves l.tasks n .removing .lowering) :
    Step l false { l with active := wrappingSub l.active 1, tasks := n }
  | subGauge {n : Stage → Nat} (h : Moves l.tasks n .lowering .idle) :
    Step l false { l with gauge := addGauge l.gauge (-1), tasks := n }

/-- The counters agree with the objects, but for their 64 bits. -/
structure Balanced (l : Ledger) (n : Nat) (m : Int) : Prop where
  active : l.active = n % 2 ^ 64
  counted : n + l.tasks .adding + l.removed = l.created + l.tasks .removing
  gauge : l.gauge = m.bmod (2 ^ 64)
  gauged : m + l.tasks .adding + l.tasks .gauging + l.removed =
    l.created + l.tasks .removing + l.tasks .lowering

/-- A subtraction finds the object of its own counted: `adding` objects are not removed yet. -/
theorem Balanced.step {l l' : Ledger} {n : Nat} {m : Int} {found : Bool} (h : l.Balanced n m)
    (hadding : l.tasks .adding + l.removed ≤ l.created) (hs : Step l found l') :
    ∃ n' m', l'.Balanced n' m' := by
  obtain ⟨hactive, hcounted, hgauge, hgauged⟩ := h
  cases hs
  case quiet x hm =>
    have heq : ∀ st, st ≠ .idle → _ = l.tasks st := fun st hst => by
      have := hm st hst
      split at this <;> exact Nat.add_right_cancel this
    refine ⟨n, m, hactive, ?_, hgauge, ?_⟩
    · simp only [heq .adding nofun, heq .removing nofun]
      exact hcounted
    · simp only [heq .adding nofun, heq .gauging nofun, heq .removing nofun, heq .lowering nofun]
      exact hgauged
  all_goals
    rename_i n' hm
    have hadd := hm .adding nofun
    have hgau := hm .gauging nofun
    have hrem := hm .removing nofun
    have hlow := hm .lowering nofun
    simp only [reduceCtorEq, if_true, if_false, Nat.add_zero] at hadd hgau hrem hlow
  case check => exact ⟨n, m, hactive, by simp only; omega, hgauge, by simp only; omega⟩
  case insert => exact ⟨n, m, hactive, by simp only; omega, hgauge, by simp only; omega⟩
  case addActive =>
    refine ⟨n + 1, m, ?_, by simp only; omega, hgauge, by simp only; omega⟩
    simp only [wrappingAdd, hactive]
    omega
  case addGauge =>
    refine ⟨n, m + 1, hactive, by simp only; omega, ?_, by simp only; omega⟩
    simp only [addGauge, hgauge, Int.bmod_add_bmod]
  case remove => exact ⟨n, m, hactive, by simp only; omega, hgauge, by simp only; omega⟩
  case subActive =>
    refine ⟨n - 1, m, ?_, by simp only; omega, hgauge, by simp only; omega⟩
    simp only [wrappingSub, hactive]
    omega
  case subGauge =>
    refine ⟨n, m + -1, hactive, by simp only; omega, ?_, by simp only; omega⟩
    simp only [addGauge, hgauge, Int.bmod_add_bmod]

end Ledger

/-! ## The ledger of a table -/

namespace SessionTable

def ledger (t : SessionTable) : Ledger where
  active := t.active
  gauge := t.gauge
  created := t.sessions.length
  removed := t.removed.length
  tasks := fun st => t.tasks.countP fun pc => pc.stage = st

section

variable {t u : SessionTable} {i : Nat} {pc : Pc}

/-- Task `i` goes on, after `u` has changed no stage. -/
theorem moves_setPc (hu : ∀ st, st ≠ .idle → u.ledger.tasks st = t.ledger.tasks st)
    (hpc : (u.tasks[i]?).map Pc.stage = some pc.stage) (pc' : Pc) :
    Moves t.ledger.tasks (u.setPc i pc').ledger.tasks pc.stage pc'.stage := by
  obtain ⟨pc₁, hi₁, hst₁⟩ := Option.map_eq_some_iff.mp hpc
  intro st hst
  have := countP_set_add (p := fun pc => pc.stage = st) hi₁ pc'
  rw [← hu st hst]
  simp only [ledger, setPc, hst₁, decide_eq_true_eq] at this ⊢
  simp only [eq_comm (a := st)]
  exact this

variable (hi : t.tasks[i]? = some pc)

include hi

theorem moves_of_eq (hu : u.tasks = t.tasks) (pc' : Pc) :
    Moves t.ledger.tasks (u.setPc i pc').ledger.tasks pc.stage pc'.stage :=
  moves_setPc (fun _ _ => by simp only [ledger, hu]) (by rw [hu, hi]; rfl) pc'

theorem moves_of_abort {r : Nat} (hu : u.tasks = t.tasks.modify r Pc.abort) (pc' : Pc) :
    Moves t.ledger.tasks (u.setPc i pc').ledger.tasks pc.stage pc'.stage := by
  refine moves_setPc ?_ ?_ pc'
  · intro st _
    simp only [ledger, hu]
    exact countP_modify_of_eq (fun pc => by rw [Pc.stage_abort]) r
  · rw [hu, List.getElem?_modify, hi]
    split <;> simp [Pc.stage_abort]

theorem moves_of_spawn {s : Nat} (hu : u.tasks = t.tasks ++ [.sleeping s]) (pc' : Pc) :
    Moves t.ledger.tasks (u.setPc i pc').ledger.tasks pc.stage pc'.stage := by
  refine moves_setPc ?_ ?_ pc'
  · intro st hst
    simp [ledger, hu, Pc.stage, hst.symm]
  · rw [hu, List.getElem?_append_left (List.getElem?_eq_some_iff.mp hi).1, hi]
    rfl

end

section

variable {t t' : SessionTable} {i : Nat} {pc pc' : Pc} {cfg : SessionConfig}

/-- A step that leaves the gauge as it is. -/
theorem ledger_of_eq {active created removed : Nat} {found : Bool} (ha : t'.active = active)
    (hg : t'.gauge = t.gauge) (hs : t'.sessions.length = created)
    (hr : t'.removed.length = removed)
    (h : t.ledger.Step found ⟨active, t.gauge, created, removed, t'.ledger.tasks⟩) :
    t.ledger.Step found t'.ledger := by
  subst ha hs hr
  rw [← hg] at h
  exact h

/-- A step that changes no counter and creates and removes nothing. -/
theorem ledger_quiet {x : Stage} (ha : t'.active = t.active) (hg : t'.gauge = t.gauge)
    (hs : t'.sessions.length = t.sessions.length) (hr : t'.removed = t.removed)
    (hm : Moves t.ledger.tasks t'.ledger.tasks x x) : t.ledger.Step false t'.ledger :=
  ledger_of_eq ha hg hs (congrArg List.length hr) (.quiet x hm)

theorem takeReaper_tasks (t : SessionTable) (s : Nat) : (t.takeReaper s).tasks = t.tasks ∨
    ∃ r, (t.takeReaper s).tasks = t.tasks.modify r Pc.abort := by
  unfold takeReaper
  split
  · exact .inl rfl
  · exact .inr ⟨_, rfl⟩

theorem ledger_takeReaper (hi : t.tasks[i]? = some pc) (s : Nat) (hst : pc'.stage = pc.stage) :
    t.ledger.Step false ((t.takeReaper s).setPc i pc').ledger := by
  have hfields : (t.takeReaper s).active = t.active ∧ (t.takeReaper s).gauge = t.gauge ∧
      (t.takeReaper s).sessions.length = t.sessions.length ∧
      (t.takeReaper s).removed = t.removed := by
    unfold takeReaper
    split <;> simp [modifySession, abort]
  have hmoves : Moves t.ledger.tasks ((t.takeReaper s).setPc i pc').ledger.tasks pc.stage
      pc.stage := by
    rw [← hst]
    nth_rewrite 1 [hst]
    obtain h | ⟨r, h⟩ := takeReaper_tasks t s
    · exact moves_of_eq hi h pc'
    · exact moves_of_abort hi h pc'
  exact ledger_quiet hfields.1 hfields.2.1 hfields.2.2.1 hfields.2.2.2 hmoves

theorem ledger_modifySession (hi : t.tasks[i]? = some pc) (s : Nat) (f : Session → Session)
    (hpc : pc.stage = .idle) (hpc' : pc'.stage = .idle) :
    t.ledger.Step false ((t.modifySession s f).setPc i pc').ledger := by
  have hmoves := moves_of_eq hi (u := t.modifySession s f) rfl pc'
  rw [hpc, hpc'] at hmoves
  exact ledger_quiet rfl rfl (List.length_modify ..) rfl hmoves

/-- The step of a task at `pc` is a read of `active` that finds room. -/
def findsRoom (cfg : SessionConfig) (t : SessionTable) : Pc → Bool
  | .loadActive .. => t.active < cfg.maxSessions
  | _ => false

/-- The action is a read of `active` that finds room. -/
def checks (cfg : SessionConfig) (t : SessionTable) : TableAction → Bool
  | .run i => (t.tasks[i]?).any (t.findsRoom cfg)
  | _ => false

/-- Every step of a task is a step of the ledger. -/
theorem ledger_runTask (hi : t.tasks[i]? = some pc) (hs : t.runTask cfg i pc = some t') :
    t.ledger.Step (t.findsRoom cfg pc) t'.ledger := by
  have hmove : ∀ u : SessionTable, u.tasks = t.tasks → ∀ pc',
      Moves t.ledger.tasks (u.setPc i pc').ledger.tasks pc.stage pc'.stage :=
    fun u hu pc' => moves_of_eq hi hu pc'
  cases runTask_cases hs with
  | @found req id s =>
    have hst : (afterUpsert req s).stage = .idle := by cases req <;> rfl
    exact ledger_quiet rfl rfl rfl rfl (hst ▸ hmove t rfl (afterUpsert req s))
  | full hfull =>
    rw [findsRoom, decide_eq_false (Nat.not_lt.mpr hfull)]
    exact ledger_quiet rfl rfl rfl rfl (hmove _ rfl _)
  | room hroom =>
    rw [findsRoom, decide_eq_true hroom]
    exact .check (hmove t rfl _)
  | insert => exact ledger_of_eq rfl rfl List.length_append rfl (.insert (hmove _ rfl _))
  | addActive hn => exact ledger_of_eq hn rfl rfl rfl (.addActive (hmove _ rfl _))
  | addGauge => exact .addGauge (hmove _ rfl _)
  | @handle req s =>
    have hst : (if req = .download then Pc.connect s else .spawnReaper s).stage = .idle := by
      split <;> rfl
    exact ledger_quiet rfl rfl rfl rfl (hst ▸ hmove _ rfl _)
  | spawn => exact ledger_quiet rfl rfl rfl rfl (moves_of_spawn hi rfl _)
  | abort => exact ledger_quiet rfl rfl rfl rfl (moves_of_abort hi rfl _)
  | store | clear | connect | opened => exact ledger_modifySession hi _ _ rfl rfl
  | takeReaper | cancelReaper => exact ledger_takeReaper hi _ rfl
  | @remove cause s id reaper =>
    have hst : (if reaper then Pc.subActive s else .cancelReaper s).stage = .removing := by
      split <;> rfl
    exact ledger_of_eq rfl rfl rfl List.length_append (.remove (hst ▸ hmove _ rfl _))
  | subActive hn => exact ledger_of_eq hn rfl rfl rfl (.subActive (hmove _ rfl _))
  | subGauge => exact .subGauge (hmove _ rfl _)
  | @upgrade s =>
    have hst : (if t.alive s then Pc.loadConnected s else .finished).stage = .idle := by
      split <;> rfl
    exact ledger_quiet rfl rfl rfl rfl (hst ▸ hmove t rfl _)
  | lock | seesConnected | notConnected | stillStored | gone | conflict | notThere | keep
  | expire => exact ledger_quiet rfl rfl rfl rfl (hmove _ rfl _)

/-- **The table refines its ledger.** -/
theorem ledger_step {a : TableAction} (hs : t.step cfg a = some t') :
    t.ledger.Step (t.checks cfg a) t'.ledger := by
  unfold SessionTable.step at hs
  split at hs
  case h_1 req id =>
    cases hs
    refine ledger_quiet (x := .idle) rfl rfl rfl rfl fun st hst => ?_
    simp [ledger, Pc.stage, hst.symm]
  case h_2 i =>
    obtain ⟨pc, hpc, hs⟩ := Option.bind_eq_some_iff.mp hs
    simp only [checks, hpc, Option.any_some]
    exact ledger_runTask hpc hs
  case h_3 i r =>
    split at hs
    case h_1 s hpc =>
      split at hs
      · obtain ⟨id, hid, rfl⟩ := Option.map_eq_some_iff.mp hs
        exact ledger_quiet rfl rfl rfl rfl (moves_of_eq hpc rfl _)
      · cases hs
        exact ledger_quiet rfl rfl rfl rfl (moves_of_eq hpc rfl _)
    case h_2 => cases hs
  case h_4 i =>
    split at hs
    case h_1 s hpc =>
      cases hs
      exact ledger_quiet rfl rfl rfl rfl (moves_of_eq hpc rfl _)
    case h_2 => cases hs
  case h_5 i =>
    split at hs
    case h_1 s hpc =>
      obtain ⟨id, hid, rfl⟩ := Option.map_eq_some_iff.mp hs
      exact ledger_quiet rfl rfl rfl rfl (moves_of_eq hpc rfl _)
    case h_2 => cases hs
  case h_6 i =>
    split at hs
    case h_1 s hpc =>
      cases hs
      exact ledger_quiet rfl rfl rfl rfl (moves_of_eq hpc rfl _)
    case h_2 => cases hs

end

end SessionTable

end Xhttp.Sessions
