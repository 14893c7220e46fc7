/-!
# Transducers

A transducer takes inputs one at a time, and each of them gives a list of outputs and the next
state. `Outputs step s as t bs` says that the inputs `as` take the state `s` to `t` and give `bs`.
It is built from the front, as a loop over known inputs runs, and from the back, as the inputs come
(`Outputs.snoc`).
-/

namespace Xhttp

variable {σ α β : Type}

inductive Outputs (step : σ → α → σ → List β → Prop) : σ → List α → σ → List β → Prop
  | nil (s : σ) : Outputs step s [] s []
  | cons {s t u : σ} {a : α} {as : List α} {bs bs' : List β} (h : step s a t bs)
      (hs : Outputs step t as u bs') : Outputs step s (a :: as) u (bs ++ bs')

namespace Outputs

variable {step : σ → α → σ → List β → Prop} {s t u : σ} {as : List α} {bs bs' : List β}

theorem snoc {a : α} (h : Outputs step s as t bs) (ha : step t a u bs') :
    Outputs step s (as ++ [a]) u (bs ++ bs') := by
  induction h with
  | nil =>
    have := cons ha (nil u)
    rwa [List.append_nil] at this
  | cons h _ ih =>
    rw [List.append_assoc]
    exact .cons h (ih ha)

/-- An invariant of the state that every step keeps. -/
theorem inv {I : σ → Prop} (hstep : ∀ s a t bs, I s → step s a t bs → I t)
    (h : Outputs step s as t bs) (hs : I s) : I t := by
  induction h with
  | nil => exact hs
  | cons h _ ih => exact ih (hstep _ _ _ _ hs h)

end Outputs

end Xhttp
