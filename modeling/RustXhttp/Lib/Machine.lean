/-!
# Machines and their runs

A **machine** is an initial state and a partial step function. Everything that the program does
not decide (the scheduler, the network, the clock, a caller that gives up) is in the action, so a
run is a list of actions and a proof over every interleaving is a proof over every list.

* `Machine.run as`: the state after the actions `as`, when each of them is enabled.
* `Machine.Along G s as`: every step of the run of `as` from `s` meets `G`, a condition on the
  state before the step and on the action.
* `Machine.events ev s as`: the events of the run of `as` from `s`; `events_inv` is the rule for an
  invariant of the state and the events so far.
* `run_inv`: an invariant that holds initially and is kept by every step that meets `G` holds at
  the end of every run along `G`.
* `along_iff_conserved`: a quantity that exactly the steps meeting `G` conserve tells, at the end
  of a run, whether the run was along `G`.
* `forall_set`, `forall_snoc`, `forall_modify`: facts about each task of a list of tasks.
* `Machine.Always P s as`: `P` holds in every state of the run of `as` from `s`.
  `always_iff_along` characterises it by a condition on the steps that is exact: a step that
  meets it keeps the invariant, and a step that does not breaks `P`.
-/

namespace Xhttp

open List

/-- A deterministic machine whose actions may be disabled. -/
structure Machine (σ α : Type) where
  init : σ
  step : σ → α → Option σ

namespace Machine

variable {σ α : Type} (M : Machine σ α)

/-- The state after the actions `as` from `s`; `none` when one of them is disabled. -/
def runFrom (s : σ) : List α → Option σ
  | [] => some s
  | a :: as => (M.step s a).bind fun s' => runFrom s' as

/-- The state after the actions `as` from the initial state. -/
def run (as : List α) : Option σ := M.runFrom M.init as

/-- Every step of the run of `as` from `s` meets `G`. -/
def Along (G : σ → α → Prop) (s : σ) : List α → Prop
  | [] => True
  | a :: as => G s a ∧ ∀ s', M.step s a = some s' → Along G s' as

/-- `P` holds in every state of the run of `as` from `s`. -/
def Always (P : σ → Prop) (s : σ) : List α → Prop
  | [] => P s
  | a :: as => P s ∧ ∀ s', M.step s a = some s' → Always P s' as

/-- Runs can be checked against a condition that can be checked at each step. -/
instance Along.decidable {G : σ → α → Prop} [∀ s a, Decidable (G s a)] :
    (s : σ) → (as : List α) → Decidable (M.Along G s as)
  | _, [] => isTrue trivial
  | s, a :: as =>
    match hs : M.step s a with
    | none => decidable_of_iff (G s a)
        ⟨fun hg => ⟨hg, fun _ h => by rw [hs] at h; cases h⟩, fun h => h.1⟩
    | some s' =>
      have : Decidable (M.Along G s' as) := Along.decidable s' as
      decidable_of_iff (G s a ∧ M.Along G s' as)
        ⟨fun h => ⟨h.1, fun _ hu => by rw [hs] at hu; cases hu; exact h.2⟩,
          fun h => ⟨h.1, h.2 s' hs⟩⟩

/-- The events of the run of `as` from `s`; `ev` tells the event of a step. -/
def events {ε : Type} (ev : σ → α → Option ε) (s : σ) : List α → List ε
  | [] => []
  | a :: as => (ev s a).toList ++ ((M.step s a).map fun s' => events ev s' as).getD []

variable {M}

section

variable {s t : σ} {as : List α} {G H : σ → α → Prop} {I P Q : σ → Prop} {ε : Type}
  {ev : σ → α → Option ε} {J : List ε → σ → Prop}

theorem runFrom_cons {a : α} (h : M.runFrom s (a :: as) = some t) :
    ∃ s', M.step s a = some s' ∧ M.runFrom s' as = some t := by
  simpa only [runFrom, Option.bind_eq_some_iff] using h

/-- An invariant that every step meeting `G` keeps holds after every run along `G`. -/
theorem runFrom_inv (hstep : ∀ s a s', G s a → I s → M.step s a = some s' → I s')
    (hG : M.Along G s as) (hs : I s) (h : M.runFrom s as = some t) : I t := by
  induction as generalizing s with
  | nil => cases h; exact hs
  | cons a as ih =>
    obtain ⟨s', ha, hr⟩ := runFrom_cons h
    exact ih (hG.2 s' ha) (hstep s a s' hG.1 hs ha) hr

/-- `runFrom_inv` from the initial state. -/
theorem run_inv (h0 : I M.init) (hstep : ∀ s a s', G s a → I s → M.step s a = some s' → I s')
    (hG : M.Along G M.init as) (h : M.run as = some t) : I t :=
  runFrom_inv hstep hG h0 h

theorem along_true (s : σ) (as : List α) : M.Along (fun _ _ => True) s as := by
  induction as generalizing s with
  | nil => trivial
  | cons a as ih => exact ⟨trivial, fun s' _ => ih s'⟩

/-- A condition on the actions alone. -/
theorem along_of_mem {G : α → Prop} (h : ∀ a ∈ as, G a) : M.Along (fun _ a => G a) s as := by
  induction as generalizing s with
  | nil => trivial
  | cons a as ih =>
    exact ⟨h a mem_cons_self, fun s' _ => ih fun b hb => h b (mem_cons_of_mem _ hb)⟩

theorem along_append {bs : List α} (h : M.runFrom s as = some t) (hG : M.Along G s (as ++ bs)) :
    M.Along G s as ∧ M.Along G t bs := by
  induction as generalizing s with
  | nil =>
    cases h
    exact ⟨trivial, hG⟩
  | cons a as ih =>
    obtain ⟨s', ha, hr⟩ := runFrom_cons h
    obtain ⟨has, hbs⟩ := ih hr (hG.2 s' ha)
    refine ⟨⟨hG.1, fun u hu => ?_⟩, hbs⟩
    cases ha.symm.trans hu
    exact has

/-- An invariant that relates the state to the events so far. -/
theorem eventsFrom_inv
    (hstep : ∀ log s a s', G s a → J log s → M.step s a = some s' → J (log ++ (ev s a).toList) s')
    {log : List ε} (hG : M.Along G s as) (hs : J log s) (h : M.runFrom s as = some t) :
    J (log ++ M.events ev s as) t := by
  induction as generalizing log s with
  | nil =>
    cases h
    rw [events, append_nil]
    exact hs
  | cons a as ih =>
    obtain ⟨s', ha, hr⟩ := runFrom_cons h
    simp only [events, ha, Option.map_some, Option.getD_some]
    rw [← append_assoc]
    exact ih (hG.2 s' ha) (hstep log s a s' hG.1 hs ha) hr

/-- `eventsFrom_inv` from the initial state. -/
theorem events_inv (h0 : J [] M.init)
    (hstep : ∀ log s a s', G s a → J log s → M.step s a = some s' → J (log ++ (ev s a).toList) s')
    (hG : M.Along G M.init as) (h : M.run as = some t) : J (M.events ev M.init as) t :=
  eventsFrom_inv hstep hG h0 h

/-- An invariant of the machine: every step keeps it, so every run ends in it. -/
theorem run_inv_all (h0 : I M.init) (hstep : ∀ s a s', I s → M.step s a = some s' → I s')
    (h : M.run as = some t) : I t :=
  run_inv (G := fun _ _ => True) h0 (fun s a s' _ => hstep s a s') (along_true _ _) h

/-- A quantity that the steps meeting `G` keep and the other steps lower is at its initial value
after a run exactly if every step met `G`. -/
theorem along_iff_conserved {μ : σ → Nat} (hstep : ∀ s a s', I s → M.step s a = some s' → I s')
    (hkeep : ∀ s a s', G s a → I s → M.step s a = some s' → μ s' = μ s)
    (hlose : ∀ s a s', ¬ G s a → I s → M.step s a = some s' → μ s' < μ s) (hs : I s)
    (h : M.runFrom s as = some t) : μ t ≤ μ s ∧ (μ t = μ s ↔ M.Along G s as) := by
  induction as generalizing s with
  | nil => cases h; exact ⟨Nat.le_refl _, fun _ => trivial, fun _ => rfl⟩
  | cons a as ih =>
    obtain ⟨s', ha, hr⟩ := runFrom_cons h
    obtain ⟨hle, hiff⟩ := ih (hstep s a s' hs ha) hr
    by_cases hG : G s a
    · rw [hkeep s a s' hG hs ha] at hle hiff
      refine ⟨hle, fun he => ⟨hG, fun u hu => ?_⟩, fun hA => hiff.mpr (hA.2 s' ha)⟩
      cases ha.symm.trans hu
      exact hiff.mp he
    · have hlt := hlose s a s' hG hs ha
      exact ⟨by omega, fun he => absurd he (by omega), fun hA => absurd hA.1 hG⟩

/-! ## Properties of every state of a run -/

theorem Always.imp (hPQ : ∀ s, P s → Q s) (h : M.Always P s as) : M.Always Q s as := by
  induction as generalizing s with
  | nil => exact hPQ s h
  | cons a as ih => exact ⟨hPQ s h.1, fun s' hs => ih (h.2 s' hs)⟩

theorem Always.and (hP : M.Always P s as) (hQ : M.Always Q s as) :
    M.Always (fun s => P s ∧ Q s) s as := by
  induction as generalizing s with
  | nil => exact ⟨hP, hQ⟩
  | cons a as ih => exact ⟨⟨hP.1, hQ.1⟩, fun s' hs => ih (hP.2 s' hs) (hQ.2 s' hs)⟩

theorem Always.last (h : M.Always P s as) (hr : M.runFrom s as = some t) : P t := by
  induction as generalizing s with
  | nil =>
    cases hr
    exact h
  | cons a as ih =>
    obtain ⟨s', ha, hr⟩ := runFrom_cons hr
    exact ih (h.2 s' ha) hr

theorem Always.first (h : M.Always P s as) : P s := by
  cases as with
  | nil => exact h
  | cons a as => exact h.1

/-- A run with a state that does not have `P`, up to such a state. -/
theorem exists_of_not_always (h : ¬ M.Always P s as) :
    ∃ pre u, pre <+: as ∧ M.runFrom s pre = some u ∧ ¬ P u := by
  induction as generalizing s with
  | nil => exact ⟨[], s, prefix_refl [], rfl, h⟩
  | cons a as ih =>
    by_cases hs : P s
    · obtain ⟨s', hn⟩ := Classical.not_forall.mp fun hall => h ⟨hs, hall⟩
      obtain ⟨ha, hn⟩ := Classical.not_imp.mp hn
      obtain ⟨pre, u, hpre, hu, hPu⟩ := ih hn
      refine ⟨a :: pre, u, cons_prefix_cons.mpr ⟨rfl, hpre⟩, ?_, hPu⟩
      simp only [runFrom, ha, Option.bind_some]
      exact hu
    · exact ⟨[], s, nil_prefix, rfl, hs⟩

theorem Along.of_prefix {pre : List α} (hpre : pre <+: as) (h : M.Along G s as) :
    M.Along G s pre := by
  induction pre generalizing s as with
  | nil => trivial
  | cons a pre ih =>
    obtain ⟨post, rfl⟩ := hpre
    exact ⟨h.1, fun s' hs => ih (prefix_append pre post) (h.2 s' hs)⟩

theorem Along.imp (hGH : ∀ s a, G s a → H s a) (h : M.Along G s as) : M.Along H s as := by
  induction as generalizing s with
  | nil => trivial
  | cons a as ih => exact ⟨hGH s a h.1, fun s' hs => ih (h.2 s' hs)⟩

/-- A property of every state is a condition that every step meets. -/
theorem Always.along (hPG : ∀ s a, P s → G s a) (h : M.Always P s as) : M.Along G s as := by
  induction as generalizing s with
  | nil => trivial
  | cons a as ih => exact ⟨hPG s a h.1, fun s' hs => ih (h.2 s' hs)⟩

/-- An invariant that every step meeting `G` keeps holds in every state of a run along `G`. -/
theorem Along.always (hstep : ∀ s a s', G s a → I s → M.step s a = some s' → I s')
    (hG : M.Along G s as) (hs : I s) : M.Always I s as := by
  induction as generalizing s with
  | nil => exact hs
  | cons a as ih => exact ⟨hs, fun s' ha => ih (hG.2 s' ha) (hstep s a s' hG.1 hs ha)⟩

/-- A step that does not meet `G` breaks `P`: in a run whose states all have `P`, every step
meets `G`. -/
theorem Always.along_of_break (hstep : ∀ s a s', G s a → I s → M.step s a = some s' → I s')
    (hbreak : ∀ s a s', ¬ G s a → I s → M.step s a = some s' → ¬ P s') (hP : M.Always P s as)
    (hs : I s) (h : M.runFrom s as = some t) : M.Along G s as := by
  induction as generalizing s with
  | nil => trivial
  | cons a as ih =>
    obtain ⟨s', ha, hr⟩ := runFrom_cons h
    have hP' : P s' := (hP.2 s' ha).first
    have hG : G s a := by
      refine Classical.byContradiction fun hn => ?_
      exact hbreak s a s' hn hs ha hP'
    refine ⟨hG, fun u hu => ?_⟩
    cases ha.symm.trans hu
    exact ih (hP.2 s' ha) (hstep s a s' hG hs ha) hr

/-- A run in which every step meets `G` keeps `I`; from its first step that does not, it is in the
trap `B`. `H` is what the steps of the run are known to meet. -/
theorem along_or_trap {B : σ → Prop}
    (hkeep : ∀ s a s', H s a → G s a → I s → M.step s a = some s' → I s')
    (htrap : ∀ s a s', H s a → ¬ G s a → I s → M.step s a = some s' → B s')
    (hB : ∀ s a s', B s → M.step s a = some s' → B s') (hH : M.Along H s as) (hs : I s)
    (h : M.runFrom s as = some t) : M.Along G s as ∧ I t ∨ ¬ M.Along G s as ∧ B t := by
  induction as generalizing s with
  | nil =>
    cases h
    exact .inl ⟨trivial, hs⟩
  | cons a as ih =>
    obtain ⟨s', ha, hr⟩ := runFrom_cons h
    by_cases hG : G s a
    · rcases ih (hH.2 s' ha) (hkeep s a s' hH.1 hG hs ha) hr with ⟨hA, ht⟩ | ⟨hA, ht⟩
      · refine .inl ⟨⟨hG, fun u hu => ?_⟩, ht⟩
        cases ha.symm.trans hu
        exact hA
      · exact .inr ⟨fun hall => hA (hall.2 s' ha), ht⟩
    · refine .inr ⟨fun hall => hG hall.1, ?_⟩
      exact runFrom_inv (fun s a s' _ => hB s a s') (along_true s' as)
        (htrap s a s' hH.1 hG hs ha) hr

/-- The exact condition on the steps of a run for `P` to hold in all of its states. -/
theorem always_iff_along (hIP : ∀ s, I s → P s)
    (hstep : ∀ s a s', G s a → I s → M.step s a = some s' → I s')
    (hbreak : ∀ s a s', ¬ G s a → I s → M.step s a = some s' → ¬ P s') (hs : I s)
    (h : M.runFrom s as = some t) : M.Always P s as ↔ M.Along G s as :=
  ⟨fun hP => hP.along_of_break hstep hbreak hs h, fun hG => (hG.always hstep hs).imp hIP⟩

end

end Machine

/-! ## Tasks

A machine with any number of tasks holds a list of them; a fact about each task, `P i` for the
task `i`, survives the moves of one of them. -/

section Tasks

variable {τ : Type} {l : List τ} {P : Nat → τ → Prop}

theorem forall_set {i : Nat} {x' : τ} (h : ∀ j x, j ≠ i → l[j]? = some x → P j x)
    (hi : P i x') : ∀ j x, (l.set i x')[j]? = some x → P j x := by
  intro j x hj
  rw [getElem?_set] at hj
  split at hj
  case isTrue hij =>
    subst hij
    split at hj
    · cases hj
      exact hi
    · cases hj
  case isFalse hij => exact h j x (Ne.symm hij) hj

variable (h : ∀ j x, l[j]? = some x → P j x)

include h

theorem forall_snoc {x' : τ} (hi : P l.length x') :
    ∀ j x, (l ++ [x'])[j]? = some x → P j x := by
  intro j x hj
  rw [getElem?_append] at hj
  split at hj
  · exact h j x hj
  case isFalse hlt =>
    obtain ⟨h0, rfl⟩ : j - l.length = 0 ∧ x' = x := by
      cases hk : j - l.length with
      | zero => rw [hk] at hj; exact ⟨rfl, Option.some.inj hj⟩
      | succ k => rw [hk] at hj; cases hj
    obtain rfl : j = l.length := by omega
    exact hi

theorem forall_modify {r : Nat} {f : τ → τ} (hf : ∀ x, P r x → P r (f x)) :
    ∀ j x, (l.modify r f)[j]? = some x → P j x := by
  intro j x hj
  rw [getElem?_modify] at hj
  obtain ⟨x', hx', rfl⟩ := Option.map_eq_some_iff.mp hj
  by_cases hr : r = j
  · subst hr
    rw [if_pos rfl]
    exact hf x' (h r x' hx')
  · rw [if_neg hr]
    exact h j x' hx'

end Tasks

end Xhttp
