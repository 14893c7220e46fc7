/-!
# Functions that return a `Result` and may panic

`Exec E α` is an error `e`, a value, or `none` for a panic. A function that returns is turned
inside out with `Exec.returns_bind`: every step before it returned.
-/

namespace Xhttp

/-- A function that returns a `Result` and may panic. -/
abbrev Exec (E α : Type) := ExceptT E Option α

/-- `if c { return Err(e) }`. -/
def rejectIf {E : Type} (c : Prop) [Decidable c] (e : E) : Except E Unit :=
  if c then throw e else pure ()

/-- `if c { return Err(e) }` in a function that may panic. -/
def failIf {E : Type} (c : Prop) [Decidable c] (e : E) : Exec E Unit :=
  if c then throw e else pure ()

section

variable {E α β : Type} {x : Except E α} {c : Prop} {e : E}

theorem except_bind_ok {f : α → Except E β} {b : β} :
    (x >>= f) = .ok b ↔ ∃ a, x = .ok a ∧ f a = .ok b := by
  rcases x with e | a
  · exact ⟨nofun, fun ⟨_, h, _⟩ => nomatch h⟩
  · exact ⟨fun h => ⟨a, rfl, h⟩, fun ⟨_, h, hf⟩ => by cases h; exact hf⟩

theorem except_ok_bind (a : α) (f : α → Except E β) : (.ok a >>= f) = f a := rfl

theorem rejectIf_pos [Decidable c] (h : c) (e : E) :
    rejectIf c e = .error e := if_pos h

theorem rejectIf_neg [Decidable c] (h : ¬ c) (e : E) :
    rejectIf c e = .ok () := if_neg h

theorem rejectIf_ok [Decidable c] {u : Unit} : rejectIf c e = .ok u ↔ ¬ c := by
  by_cases h : c
  · rw [rejectIf_pos h]
    exact ⟨nofun, fun hn => absurd h hn⟩
  · rw [rejectIf_neg h]
    exact ⟨fun _ => h, fun _ => rfl⟩

/-- A check that is passed, and what comes behind it. -/
theorem rejectIf_bind_ok [Decidable c] {a : α} :
    (rejectIf c e >>= fun _ => x) = .ok a ↔ ¬ c ∧ x = .ok a := by
  rw [except_bind_ok]
  exact ⟨fun ⟨_, hc, hx⟩ => ⟨rejectIf_ok.mp hc, hx⟩, fun ⟨hc, hx⟩ => ⟨(), rejectIf_ok.mpr hc, hx⟩⟩

end

namespace Exec

variable {E α β : Type}

/-- A value, or a panic. -/
def orPanic (x : Option α) : Exec E α := liftM x

@[simp] theorem orPanic_some (a : α) : (orPanic (some a) : Exec E α) = pure a := rfl

/-- A step that cannot panic. -/
def ofExcept (x : Except E α) : Exec E α := liftM x

section

variable {a b : α} {c : Prop} {e : E} {x : Exec E α} {f : α → Exec E β} {E' : Type}

theorem failIf_pos [Decidable c] (h : c) (e : E) : failIf c e = throw e := if_pos h

theorem failIf_neg [Decidable c] (h : ¬ c) (e : E) : failIf c e = pure () := if_neg h

/-- `map_err`, or the conversion of a question mark. -/
def mapError {E' : Type} (f : E → E') (x : Exec E α) : Exec E' α := x.run.map (Except.mapError f)

/-- `xs[i]`. -/
def index (xs : List α) (i : Nat) : Exec E α := orPanic xs[i]?

/-- `x` returns `Ok(a)`. -/
def Returns (x : Exec E α) (a : α) : Prop := x.run = some (.ok a)

/-- The value that `x` returns, if it does. -/
def value? (x : Exec E α) : Option α :=
  match x.run with
  | some (.ok a) => some a
  | _ => none

theorem returns_of_value? (h : x.value? = some a) : Returns x a := by
  unfold value? at h
  split at h
  case h_1 b hb =>
    cases h
    exact hb
  case h_2 => cases h

/-- `ok_or` of a function that may panic. -/
def okOr (x : Option (Option α)) (e : E) : Exec E α :=
  x.map fun r => match r with
    | some a => .ok a
    | none => .error e

theorem returns_bind {b : β} : Returns (x >>= f) b ↔ ∃ a, Returns x a ∧ Returns (f a) b := by
  unfold Returns
  rw [ExceptT.run_bind]
  rcases x.run with _ | e | a
  · exact ⟨nofun, fun ⟨_, h, _⟩ => nomatch h⟩
  · exact ⟨nofun, fun ⟨_, h, _⟩ => nomatch h⟩
  · refine ⟨fun h => ⟨a, rfl, h⟩, ?_⟩
    rintro ⟨_, ⟨⟩, h⟩
    exact h

theorem returns_pure : Returns (pure a : Exec E α) b ↔ a = b := by
  unfold Returns
  rw [ExceptT.run_pure]
  exact ⟨fun h => by cases h; rfl, fun h => by rw [h]; rfl⟩

theorem not_returns_throw : ¬ Returns (throw e : Exec E α) b := by
  intro h
  cases h

theorem returns_okOr {x : Option (Option α)} : Returns (okOr x e) a ↔ x = some (some a) := by
  unfold Returns okOr
  rcases x with _ | _ | a'
  · exact ⟨nofun, nofun⟩
  · exact ⟨nofun, nofun⟩
  · refine ⟨fun h => ?_, fun h => ?_⟩
    · cases h
      rfl
    · cases h
      rfl

/-- A step that cannot panic. -/
theorem returns_except {x : Except E α} : Returns (liftM x : Exec E α) a ↔ x = .ok a := by
  rcases x with e | a'
  · exact ⟨nofun, nofun⟩
  · exact ⟨fun h => by cases h; rfl, fun h => by cases h; rfl⟩

/-- A step that can only panic. -/
theorem returns_option {x : Option α} : Returns (liftM x : Exec E α) a ↔ x = some a := by
  rcases x with _ | a'
  · exact ⟨nofun, nofun⟩
  · exact ⟨fun h => by cases h; rfl, fun h => by cases h; rfl⟩

theorem returns_failIf [Decidable c] {u : Unit} : Returns (failIf c e) u ↔ ¬ c := by
  unfold failIf
  by_cases h : c
  · rw [if_pos h]
    exact ⟨fun hr => absurd hr not_returns_throw, fun hr => absurd h hr⟩
  · rw [if_neg h]
    exact ⟨fun _ => h, fun _ => rfl⟩

theorem returns_orPanic {x : Option α} :
    Returns (orPanic x : Exec E α) a ↔ x = some a := returns_option

theorem returns_ofExcept {x : Except E α} : Returns (ofExcept x) a ↔ x = .ok a :=
  returns_except

theorem returns_mapError {f : E → E'} : Returns (x.mapError f) a ↔ Returns x a := by
  unfold Returns mapError
  rcases x.run with _ | e | a'
  · exact ⟨nofun, nofun⟩
  · exact ⟨nofun, nofun⟩
  · exact ⟨fun h => by cases h; rfl, fun h => by cases h; rfl⟩

/-! ## Panics -/

/-- `x` does not panic. -/
def NoPanic (x : Exec E α) : Prop := x.run ≠ none

theorem noPanic_pure (a : α) : NoPanic (pure a : Exec E α) := nofun

theorem noPanic_throw (e : E) : NoPanic (throw e : Exec E α) := nofun

theorem noPanic_ofExcept (x : Except E α) : NoPanic (ofExcept x) := by
  cases x <;> exact nofun

theorem noPanic_failIf [Decidable c] : NoPanic (failIf c e) := by
  unfold failIf
  split
  · exact noPanic_throw e
  · exact noPanic_pure ()

theorem noPanic_mapError {f : E → E'} (h : NoPanic x) : NoPanic (x.mapError f) := by
  intro hn
  exact h (Option.map_eq_none_iff.mp hn)

theorem noPanic_orPanic {x : Option α} (h : x = some a) : NoPanic (orPanic x : Exec E α) := by
  rw [h]
  exact nofun

/-- A sequence does not panic if its second part does not after what the first one returns. -/
theorem noPanic_bind (hx : NoPanic x) (hf : ∀ a, Returns x a → NoPanic (f a)) :
    NoPanic (x >>= f) := by
  unfold NoPanic at *
  rw [ExceptT.run_bind]
  rcases hr : x.run with _ | e | a
  · exact absurd hr hx
  · exact nofun
  · exact hf a hr

end

end Exec

end Xhttp
