import Mathlib.Data.List.Basic

/-!
# Counting the tasks of a machine

The number of tasks at a given place changes by the place that the moving task leaves and by the
one that it enters. Tasks that each hold a key of their own are at most as many as the keys. What
the tasks hold is counted with its multiplicity.
-/

namespace Xhttp

open List

section Count

variable {τ κ : Type} {l : List τ} {p : τ → Bool}

/-- One task moves. -/
theorem countP_set_add {i : Nat} {x : τ} (h : l[i]? = some x) (y : τ) :
    (l.set i y).countP p + (if p x then 1 else 0) = l.countP p + (if p y then 1 else 0) := by
  obtain ⟨hi, rfl⟩ := List.getElem?_eq_some_iff.mp h
  induction l generalizing i with
  | nil => cases hi
  | cons z l ih =>
    cases i with
    | zero =>
      simp only [set_cons_zero, countP_cons, getElem_cons_zero]
      exact Nat.add_right_comm _ _ _
    | succ i =>
      have hi' : i < l.length := by simpa using hi
      have := ih hi' (getElem?_eq_getElem hi')
      simp only [set_cons_succ, countP_cons, getElem_cons_succ]
      omega

theorem countP_modify_of_eq {f : τ → τ} (hf : ∀ x, p (f x) = p x) (r : Nat) :
    (l.modify r f).countP p = l.countP p := by
  induction l generalizing r with
  | nil => cases r <;> rfl
  | cons z l ih =>
    cases r with
    | zero => simp [countP_cons, hf]
    | succ r => simp [countP_cons, ih]

theorem countP_pos_of_getElem? {i : Nat} {x : τ} (h : l[i]? = some x) (hx : p x = true) :
    0 < l.countP p :=
  countP_pos_iff.mpr ⟨x, mem_of_getElem? h, hx⟩

/-- Every counted task has a key, and no two tasks have the same: there are at most as many as
keys. -/
theorem countP_le_length_of_keys [DecidableEq κ] {ks : List κ} {R : Nat → κ → Prop}
    (hkey : ∀ i x, l[i]? = some x → p x = true → ∃ k ∈ ks, R i k)
    (hone : ∀ i j k, R i k → R j k → i = j) : l.countP p ≤ ks.length := by
  induction l generalizing ks R with
  | nil => simp
  | cons z l ih =>
    cases hz : p z with
    | false =>
      rw [countP_cons_of_neg (by simp [hz])]
      refine ih (R := fun i k => R (i + 1) k) (fun i x hi => hkey (i + 1) x hi) ?_
      intro i j k hi hj
      have := hone (i + 1) (j + 1) k hi hj
      omega
    | true =>
      obtain ⟨k, hk, hR⟩ := hkey 0 z rfl hz
      have hlen : (ks.erase k).length + 1 = ks.length := by
        have := length_pos_of_mem hk
        rw [length_erase_of_mem hk]
        omega
      have hrest : l.countP p ≤ (ks.erase k).length := by
        refine ih (R := fun i k => R (i + 1) k) ?_ ?_
        · intro i x hi hx
          obtain ⟨k', hk', hR'⟩ := hkey (i + 1) x hi hx
          have hne : k' ≠ k := by
            rintro rfl
            exact absurd (hone 0 (i + 1) k' hR hR') (by omega)
          exact ⟨k', (mem_erase_of_ne hne).mpr hk', hR'⟩
        · intro i j k hi hj
          have := hone (i + 1) (j + 1) k hi hj
          omega
      rw [countP_cons_of_pos hz]
      omega

/-- One task moves: what the tasks hold together changes by what it holds. -/
theorem count_flatMap_set [DecidableEq κ] {g : τ → List κ} {i : Nat} {x : τ} (h : l[i]? = some x)
    (y : τ) (b : κ) : ((l.set i y).flatMap g).count b + (g x).count b =
      (l.flatMap g).count b + (g y).count b := by
  induction l generalizing i with
  | nil => cases h
  | cons z l ih =>
    cases i with
    | zero =>
      cases h
      simp only [set_cons_zero, flatMap_cons, count_append]
      omega
    | succ i =>
      have := ih (i := i) h
      simp only [set_cons_succ, flatMap_cons, count_append]
      omega

end Count

end Xhttp
