import Mathlib.Logic.Function.Basic

/-!
# The protocol of a grace timer

An `upsert` that creates an object publishes it before it spawns the reaper, and stores the abort
handle after the reaper runs. A download or a removal in between finds no handle to take; the
`upsert` then has to notice, when it checks the object again, what they have done.

* `Timer`: the reaper of one object and the tasks that deal with it; everything else is forgotten.
* `Timer.Safe`, `Safe.step`: a reaper that sleeps is stored, with nothing to cancel it, or some task
  is about to store it, to check again, or to abort it.
* `Safe.quiet`: what follows once every task has done its part.
-/

namespace Xhttp.Sessions

/-- What a task is about to do to the reaper of one object. `r` is the number of the reaper. -/
inductive Part where
  | idle
  /-- `upsert` has put the object into the map and not spawned its reaper. -/
  | unborn
  | storing (r : Nat)
  | rechecking (r : Nat)
  | confirming (r : Nat)
  | aborting (r : Nat)
  | clearing
  /-- An `open_download` or a `remove` is about to take the handle. -/
  | cancelling
  | sleeping
  | woken
  deriving DecidableEq, Repr

namespace Part

/-- The reaper that `upsert` has spawned. -/
def spawned : Part → Option Nat
  | .storing r | .rechecking r | .confirming r | .aborting r => some r
  | .idle | .unborn | .clearing | .cancelling | .sleeping | .woken => none

def IsReaper (p : Part) : Prop := p = .sleeping ∨ p = .woken

/-- The task will see to the reaper. -/
def Covers : Part → Prop
  | .storing _ | .rechecking _ | .confirming _ | .aborting _ | .cancelling => True
  | .idle | .unborn | .clearing | .sleeping | .woken => False

end Part

/-- The reaper of one session object. -/
structure Timer where
  part : Nat → Part
  handle : Option Nat
  created : Bool
  connected : Bool
  removed : Bool

namespace Timer

variable (x : Timer)

def set (i : Nat) (p : Part) : Timer := { x with part := Function.update x.part i p }

/-- A reaper that sleeps ends. -/
def abort (r : Nat) : Timer := if x.part r = .sleeping then x.set r .idle else x

/-- The handle is taken and aborted. -/
def take : Timer :=
  match x.handle with
  | none => x
  | some r => { x with handle := none }.abort r

/-- What a step can do to the timer. -/
inductive Step (x : Timer) : Timer → Prop where
  | stay : Step x x
  | create (i : Nat) (connected : Bool) (hi : x.part i = .idle) (hx : x.created = false)
      (hc : x.connected = false) :
    Step x (set { x with created := true, connected := connected } i .unborn)
  | skip (i : Nat) (hi : x.part i = .unborn) : Step x (x.set i .idle)
  | spawn (i r : Nat) (hi : x.part i = .unborn) (hr : x.part r = .idle) :
    Step x ((x.set r .sleeping).set i (.storing r))
  | store (i r : Nat) (hi : x.part i = .storing r) :
    Step x (set { x with handle := some r } i (.rechecking r))
  | recheck (i r : Nat) (hi : x.part i = .rechecking r) (hc : x.connected = false) :
    Step x (x.set i (.confirming r))
  | confirm (i r : Nat) (hi : x.part i = .confirming r) (hr : x.removed = false) :
    Step x (x.set i .idle)
  | giveUp (i r : Nat) (hi : x.part i = .rechecking r ∨ x.part i = .confirming r) :
    Step x (x.set i (.aborting r))
  | abort (i r : Nat) (hi : x.part i = .aborting r) : Step x ((x.abort r).set i .clearing)
  | clear (i : Nat) (hi : x.part i = .clearing) : Step x (set { x with handle := none } i .idle)
  | connect (i : Nat) (hi : x.part i = .idle) (hx : x.created = true) :
    Step x (set { x with connected := true } i .cancelling)
  | remove (i : Nat) (hi : x.part i = .idle) (hx : x.created = true) :
    Step x (set { x with removed := true } i .cancelling)
  | cancel (i : Nat) (hi : x.part i = .cancelling) : Step x (x.take.set i .idle)
  | wake (i : Nat) (hi : x.part i = .sleeping) : Step x (x.set i .woken)
  | finish (i : Nat) (hi : x.part i = .woken) : Step x (x.set i .idle)
  | reap (i : Nat) (hi : x.part i = .woken) : Step x (set { x with removed := true } i .idle)
  /-- The abort of a handle of another object. -/
  | die (r : Nat) : Step x (x.abort r)

section Lemmas

variable {x} {i j r : Nat} {p : Part}

@[simp] theorem part_set : (x.set i p).part j = if j = i then p else x.part j := by
  simp only [set, Function.update_apply]

@[simp] theorem handle_set : (x.set i p).handle = x.handle := rfl

@[simp] theorem created_set : (x.set i p).created = x.created := rfl

@[simp] theorem connected_set : (x.set i p).connected = x.connected := rfl

@[simp] theorem removed_set : (x.set i p).removed = x.removed := rfl

theorem set_self (h : x.part i = p) : x.set i p = x := by
  rw [set, ← h, Function.update_eq_self]

@[simp] theorem part_abort :
    (x.abort r).part j = if j = r ∧ x.part j = .sleeping then .idle else x.part j := by
  unfold abort
  split <;> grind [part_set]

@[simp] theorem frame_abort : (x.abort r).handle = x.handle ∧ (x.abort r).created = x.created ∧
    (x.abort r).connected = x.connected ∧ (x.abort r).removed = x.removed := by
  unfold abort
  split <;> exact ⟨rfl, rfl, rfl, rfl⟩

@[simp] theorem part_take :
    x.take.part j = if x.handle = some j ∧ x.part j = .sleeping then .idle else x.part j := by
  unfold take
  split
  case h_1 hn => simp [hn]
  case h_2 r hr =>
    rw [part_abort]
    grind

@[simp] theorem frame_take : x.take.handle = none ∧ x.take.created = x.created ∧
    x.take.connected = x.connected ∧ x.take.removed = x.removed := by
  unfold take
  split
  case h_1 hn => exact ⟨hn, rfl, rfl, rfl⟩
  case h_2 r hr => exact frame_abort

end Lemmas

/-! ## The invariant -/

/-- Somebody will see to the reaper `r`, or nothing is there to cancel it. -/
def Covered (x : Timer) (r : Nat) : Prop :=
  (∃ i, x.part i = .storing r) ∨
    x.handle = some r ∧ ((∃ i, x.part i = .rechecking r ∨ x.part i = .aborting r) ∨
      (x.connected = true → ∃ i, x.part i = .cancelling) ∧
      (x.removed = true → ∃ i, x.part i = .confirming r ∨ x.part i = .cancelling))

structure Safe (x : Timer) : Prop where
  fresh : x.created = false → ∀ i, x.part i = .idle
  unborn : ∀ i j, x.part i = .unborn → j ≠ i → x.part j = .idle ∨ x.part j = .cancelling
  sole : ∀ i j, (x.part i).IsReaper → (x.part j).IsReaper → i = j
  watched : ∀ i j r, (x.part i).spawned = some r → (x.part j).IsReaper → j = r
  cleared : ∀ i j, x.part i = .clearing → x.part j ≠ .sleeping
  cause : ∀ i, x.part i = .cancelling → x.connected = true ∨ x.removed = true
  covered : ∀ r, x.part r = .sleeping → x.Covered r

variable {x} {y : Timer}

/-- The handle is there, and a task is about to take it. -/
theorem Covered.of_cancelling {r i : Nat} (hh : x.handle = some r) (hi : x.part i = .cancelling) :
    x.Covered r :=
  .inr ⟨hh, .inr ⟨fun _ => ⟨i, hi⟩, fun _ => ⟨i, .inr hi⟩⟩⟩

theorem Covered.mono {r : Nat} (h : x.Covered r) (hh : y.handle = x.handle)
    (hc : y.connected = x.connected) (hm : y.removed = x.removed)
    (hp : ∀ j, (x.part j).Covers → y.part j = x.part j) : y.Covered r := by
  have hkeep : ∀ {j : Nat} {q : Part}, x.part j = q → q.Covers → y.part j = q := by
    intro j q hj hq
    rw [hp j (hj ▸ hq), hj]
  unfold Covered at h ⊢
  rw [hh, hc, hm]
  refine h.imp ?_ (And.imp_right (Or.imp ?_ (And.imp (fun h hc => ?_) fun h hm => ?_)))
  · rintro ⟨j, hj⟩
    exact ⟨j, hkeep hj trivial⟩
  · rintro ⟨j, hj⟩
    exact ⟨j, hj.imp (hkeep · trivial) (hkeep · trivial)⟩
  · obtain ⟨j, hj⟩ := h hc
    exact ⟨j, hkeep hj trivial⟩
  · obtain ⟨j, hj⟩ := h hm
    exact ⟨j, hj.imp (hkeep · trivial) (hkeep · trivial)⟩

/-- A task that covers nobody goes on. -/
theorem Covered.set {r i : Nat} {p : Part} (h : x.Covered r) (hi : ¬ (x.part i).Covers) :
    (x.set i p).Covered r := by
  refine h.mono rfl rfl rfl fun j hj => ?_
  rw [part_set, if_neg]
  rintro rfl
  exact hi hj

/-- A task comes to cancel the reaper. -/
theorem Covered.cancelling {r i : Nat} (h : x.Covered r) (hi : x.part i = .idle)
    (hp : y.part = (x.set i .cancelling).part) (hh : y.handle = x.handle) : y.Covered r := by
  rcases h with ⟨j, hj⟩ | ⟨hx, -⟩
  · refine .inl ⟨j, ?_⟩
    rw [hp, part_set, if_neg, hj]
    rintro rfl
    rw [hi] at hj
    cases hj
  · exact .of_cancelling (hh.trans hx) (by rw [hp, part_set, if_pos rfl])

/-- After its step, the `upsert` of the reaper that sleeps is at `p`. -/
theorem Safe.spawned_eq (h : Safe x) {i r r' : Nat} (hi : (x.part i).spawned = some r')
    (hr : x.part r = .sleeping) : r' = r :=
  (h.watched i r r' hi (.inl hr)).symm

theorem Covered.step (h : Safe x) (hs : x.Step y) {r : Nat} (hr : y.part r = .sleeping) :
    y.Covered r := by
  cases hs with
  | stay => exact h.covered r hr
  | create i connected hi hx hc =>
    -- there is no reaper yet
    have hidle := h.fresh hx r
    grind [part_set]
  | skip i hi | wake i hi | finish i hi =>
    have hx : x.part r = .sleeping := by grind [part_set]
    exact (h.covered r hx).set (by rw [hi]; exact id)
  | spawn i r' hi hr' =>
    -- the new reaper is the only one, and its `upsert` will store the handle
    have hother := h.unborn i r hi
    have hnew : r = r' := by grind [part_set]
    subst hnew
    exact .inl ⟨i, by simp⟩
  | store i r' hi =>
    have hx : x.part r = .sleeping := by grind [part_set]
    obtain rfl := h.spawned_eq (by rw [hi]; rfl) hx
    exact .inr ⟨rfl, .inl ⟨i, .inl (by simp)⟩⟩
  | recheck i r' hi hc =>
    have hx : x.part r = .sleeping := by grind [part_set]
    obtain rfl := h.spawned_eq (by rw [hi]; rfl) hx
    rcases h.covered r' hx with ⟨j, hj⟩ | ⟨hh, -⟩
    · exact .inl ⟨j, by grind [part_set]⟩
    · -- not connected, and a removal will be seen
      refine .inr ⟨hh, .inr ⟨fun he => ?_, fun _ => ⟨i, .inl (by simp)⟩⟩⟩
      exact absurd (hc.symm.trans he) Bool.false_ne_true
  | confirm i r' hi hm =>
    have hx : x.part r = .sleeping := by grind [part_set]
    rcases h.covered r hx with ⟨j, hj⟩ | ⟨hh, ⟨j, hj⟩ | ⟨hc, -⟩⟩
    · exact .inl ⟨j, by grind [part_set]⟩
    · exact .inr ⟨hh, .inl ⟨j, by grind [part_set]⟩⟩
    · refine .inr ⟨hh, .inr ⟨fun he => ?_, fun he => ?_⟩⟩
      · obtain ⟨j, hj⟩ := hc he
        exact ⟨j, by grind [part_set]⟩
      · exact absurd (hm.symm.trans he) Bool.false_ne_true
  | giveUp i r' hi =>
    have hx : x.part r = .sleeping := by grind [part_set]
    have hspawned : (x.part i).spawned = some r' := by rcases hi with hi | hi <;> rw [hi] <;> rfl
    obtain rfl := h.spawned_eq hspawned hx
    rcases h.covered r' hx with ⟨j, hj⟩ | ⟨hh, -⟩
    · exact .inl ⟨j, by grind [part_set]⟩
    · exact .inr ⟨hh, .inl ⟨i, .inr (by simp)⟩⟩
  | abort i r' hi =>
    -- the reaper that sleeps is the one that is aborted
    have hx : x.part r = .sleeping := by grind [part_set, part_abort]
    obtain rfl := h.spawned_eq (by rw [hi]; rfl) hx
    grind [part_set, part_abort]
  | clear i hi =>
    have hnone := h.cleared i r hi
    grind [part_set]
  | connect i hi hx | remove i hi hx =>
    have hx : x.part r = .sleeping := by grind [part_set]
    exact (h.covered r hx).cancelling hi rfl rfl
  | cancel i hi =>
    -- a handle that was there has been aborted
    have hx : x.part r = .sleeping := by grind [part_set, part_take]
    rcases h.covered r hx with ⟨j, hj⟩ | ⟨hh, -⟩
    · exact .inl ⟨j, by grind [part_set, part_take]⟩
    · grind [part_set, part_take]
  | reap i hi =>
    -- the reaper that removes the object is not asleep
    have hx : x.part r = .sleeping := by grind [part_set]
    have hsole := h.sole i r (.inr hi) (.inl hx)
    grind [part_set]
  | die r' =>
    have hx : x.part r = .sleeping := by grind [part_abort]
    refine (h.covered r hx).mono frame_abort.1 frame_abort.2.2.1 frame_abort.2.2.2 fun j hj => ?_
    rw [part_abort, if_neg]
    rintro ⟨-, hsleep⟩
    rw [hsleep] at hj
    exact hj

theorem Safe.cleared_step (h : Safe x) (hs : x.Step y) (i j : Nat) (hi : y.part i = .clearing) :
    y.part j ≠ .sleeping := by
  intro hj
  have hold := h.cleared i j
  cases hs with
  | stay => exact hold hi hj
  | abort i' r hi' =>
    have hx : x.part j = .sleeping := by grind [part_set, part_abort]
    obtain rfl := h.spawned_eq (by rw [hi']; rfl) hx
    grind [part_set, part_abort]
  | spawn i' r hi' hr' =>
    -- no other task has come this far
    have hother := h.unborn i' i hi'
    grind [part_set]
  | _ => grind [part_set, part_abort, part_take]

theorem Safe.fresh_step (h : Safe x) (hs : x.Step y) (hc : y.created = false) (i : Nat) :
    y.part i = .idle := by
  have hfresh := h.fresh
  revert hc
  cases hs with
  | stay => exact fun hc => hfresh hc i
  | _ =>
    simp only [part_set, part_abort, part_take, frame_abort, frame_take, created_set]
    grind

theorem Safe.unborn_step (h : Safe x) (hs : x.Step y) (i j : Nat) (hi : y.part i = .unborn)
    (hj : j ≠ i) : y.part j = .idle ∨ y.part j = .cancelling := by
  have hfresh := h.fresh
  have hunborn := h.unborn
  revert hi
  cases hs with
  | stay => exact fun hi => hunborn i j hi hj
  | _ =>
    simp only [part_set, part_abort, part_take]
    grind

/-- A reaper starts when there is none, and only the task that starts it stores its handle. -/
theorem Safe.sole_step (h : Safe x) (hs : x.Step y) (i j : Nat) (hi : (y.part i).IsReaper)
    (hj : (y.part j).IsReaper) : i = j := by
  have hunborn := h.unborn
  have hsole := h.sole i j
  revert hi hj
  cases hs with
  | stay => exact hsole
  | _ =>
    simp only [part_set, part_abort, part_take, Part.IsReaper] at hsole ⊢
    grind

theorem Safe.watched_step (h : Safe x) (hs : x.Step y) (i j r : Nat)
    (hi : (y.part i).spawned = some r) (hj : (y.part j).IsReaper) : j = r := by
  have hunborn := h.unborn
  have hwatched := h.watched
  revert hi hj
  cases hs with
  | stay => exact hwatched i j r
  | _ =>
    simp only [part_set, part_abort, part_take, Part.IsReaper] at hwatched ⊢
    grind [Part.spawned]

theorem Safe.cause_step (h : Safe x) (hs : x.Step y) (i : Nat) (hi : y.part i = .cancelling) :
    y.connected = true ∨ y.removed = true := by
  have hcause := h.cause i
  revert hi
  cases hs with
  | stay => exact hcause
  | _ =>
    simp only [part_set, part_abort, part_take, frame_abort, frame_take, connected_set, removed_set]
    grind

/-- Every step of a timer keeps the invariant. -/
theorem Safe.step (h : Safe x) (hs : x.Step y) : Safe y where
  fresh := h.fresh_step hs
  unborn := h.unborn_step hs
  sole := h.sole_step hs
  watched := h.watched_step hs
  cleared := h.cleared_step hs
  cause := h.cause_step hs
  covered _ := Covered.step h hs

/-- An object stays connected, and stays removed. -/
theorem Step.marks (hs : x.Step y) : (x.connected = true → y.connected = true) ∧
    (x.removed = true → y.removed = true) := by
  cases hs <;> grind [frame_abort, frame_take, connected_set, removed_set]

/-- Once every task has done its part, a reaper that sleeps has nothing to cancel it. -/
theorem Safe.quiet (h : Safe x) (hx : ∀ i, ¬ (x.part i).Covers) {r : Nat}
    (hr : x.part r = .sleeping) : x.connected = false ∧ x.removed = false := by
  have hnone : ∀ {i : Nat} {q : Part}, x.part i = q → ¬ q.Covers := fun hi hq => hx _ (hi ▸ hq)
  rcases h.covered r hr with ⟨i, hi⟩ | ⟨-, ⟨i, hi | hi⟩ | ⟨hc, hm⟩⟩
  · exact absurd trivial (hnone hi)
  · exact absurd trivial (hnone hi)
  · exact absurd trivial (hnone hi)
  · refine ⟨Bool.eq_false_iff.mpr fun he => ?_, Bool.eq_false_iff.mpr fun he => ?_⟩
    · obtain ⟨i, hi⟩ := hc he
      exact absurd trivial (hnone hi)
    · obtain ⟨i, hi | hi⟩ := hm he
      · exact absurd trivial (hnone hi)
      · exact absurd trivial (hnone hi)

end Timer

end Xhttp.Sessions
