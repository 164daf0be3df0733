import Mathlib.Init

/-!
# Runs of steps that may fail

A run lasts when each of its events goes through and does what it should, as it is with an
invariant that every event keeps.
-/

namespace Nmap.Base

variable {σ α φ : Type} (step : σ → α → Except φ σ)

/-- Each of these events goes through, and its step satisfies `post`. -/
def Lasts (post : σ → α → σ → Prop) : σ → List α → Prop
  | _, [] => True
  | s, a :: rest => ∃ t, step s a = .ok t ∧ post s a t ∧ Lasts post t rest

/-- Each of these events meets the condition in the state before it, as far as the run goes. -/
def AllMeet (guard : σ → α → Prop) : σ → List α → Prop
  | _, [] => True
  | s, a :: rest => guard s a ∧ ∀ t, step s a = .ok t → AllMeet guard t rest

variable {step} {post : σ → α → σ → Prop}

theorem Lasts.of_inv (inv : σ → Prop)
    (each : ∀ s a, inv s → ∃ t, step s a = .ok t ∧ post s a t ∧ inv t) {as : List α} :
    ∀ {s : σ}, inv s → Lasts step post s as := by
  induction as with
  | nil => exact fun _ => trivial
  | cons a rest ih =>
    intro s holds
    obtain ⟨t, first, does, keeps⟩ := each s a holds
    exact ⟨t, first, does, ih keeps⟩

end Nmap.Base
