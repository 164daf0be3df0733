import Mathlib.Logic.Relation

/-!
# Transition systems and fallible steps

The induction rule for reachable states, and the rule for programs that may halt: a
computation in `Except` meets a postcondition when each value it returns satisfies the one
part and each error it throws the other.
-/

universe u

namespace Nmap

open List

/-! ## Transition systems -/

/-- A transition system: where runs start and which steps they take -/
structure TSys (σ : Type*) where
  init : σ → Prop
  step : σ → σ → Prop

namespace TSys

variable {σ : Type*} {sys : TSys σ} {P Q : σ → Prop}

/-- The states of the runs of a system -/
inductive Reachable (sys : TSys σ) : σ → Prop
  | start {s : σ} : sys.init s → Reachable sys s
  | next {s t : σ} : Reachable sys s → sys.step s t → Reachable sys t

/-- `P` holds initially and every step of the system preserves it -/
structure Inductive (sys : TSys σ) (P : σ → Prop) : Prop where
  init : ∀ s, sys.init s → P s
  step : ∀ s t, P s → sys.step s t → P t

theorem Inductive.holds (ind : sys.Inductive P) {s : σ} (reach : sys.Reachable s) : P s := by
  induction reach with
  | start start => exact ind.init _ start
  | next _ step holds => exact ind.step _ _ holds step

end TSys

/-! ## Machines that answer events -/

/-- Where runs start and what an event does to a state, or `none` if it cannot happen there -/
structure Machine (σ ε : Type*) where
  init : σ → Prop
  step : σ → ε → Option σ

/-- The runs in which every event meets a condition on the state before it -/
def Machine.guarded {σ ε : Type*} (m : Machine σ ε) (guard : σ → ε → Prop) : TSys σ where
  init := m.init
  step s t := ∃ e, guard s e ∧ m.step s e = some t

def Machine.sys {σ ε : Type*} (m : Machine σ ε) : TSys σ := m.guarded fun _ _ => True

def Machine.run {σ ε : Type*} (m : Machine σ ε) (s : σ) (events : List ε) : Option σ :=
  events.foldlM m.step s

theorem Machine.run_reachable {σ ε : Type*} {m : Machine σ ε} {events : List ε} :
    ∀ {s t : σ}, m.sys.Reachable s → m.run s events = some t → m.sys.Reachable t := by
  induction events with
  | nil =>
    intro s t reach ends
    cases ends
    exact reach
  | cons e rest ih =>
    intro s t reach ends
    rw [Machine.run, foldlM_cons] at ends
    obtain ⟨next, first, later⟩ := Option.bind_eq_some_iff.mp ends
    exact ih (.next reach ⟨e, trivial, first⟩) later

/-- How many of these events meet a condition on the state before them -/
def Machine.count {σ ε : Type*} (m : Machine σ ε) (p : σ → ε → Bool) : σ → List ε → Nat
  | _, [] => 0
  | s, e :: rest =>
    (p s e).toNat + match m.step s e with
      | some t => m.count p t rest
      | none => 0

theorem Machine.count_run {σ ε : Type*} {m : Machine σ ε} {p : σ → ε → Bool} {P : σ → Prop}
    {f : σ → Nat} (each : ∀ s e t, P s → m.step s e = some t → P t ∧ f t = f s + (p s e).toNat)
    {events : List ε} :
    ∀ {s t : σ}, P s → m.run s events = some t → P t ∧ f t = f s + m.count p s events := by
  induction events with
  | nil =>
    intro s t holds ends
    cases ends
    exact ⟨holds, rfl⟩
  | cons e rest ih =>
    intro s t holds ends
    rw [Machine.run, foldlM_cons] at ends
    obtain ⟨next, first, later⟩ := Option.bind_eq_some_iff.mp ends
    obtain ⟨holdsNext, grown⟩ := each s e next holds first
    obtain ⟨holdsLast, sum⟩ := ih holdsNext later
    refine ⟨holdsLast, ?_⟩
    rw [Machine.count, first, sum, grown, Nat.add_assoc]

/-! ## Fallible computations -/

variable {ε : Type*} {α β : Type u}

/-- Each result of `x` satisfies `post` and each error `err` -/
def Meets (err : ε → Prop) (post : α → Prop) : Except ε α → Prop
  | .ok a => post a
  | .error e => err e

namespace Meets

variable {err : ε → Prop} {post : α → Prop} {post' : β → Prop}

variable {a : α}

@[simp] theorem ok_iff : Meets err post (.ok a) ↔ post a := Iff.rfl

@[simp] theorem error_iff {e : ε} : Meets err post (.error e) ↔ err e := Iff.rfl

@[simp] theorem pure_iff : Meets err post (pure a) ↔ post a := Iff.rfl

variable {x : Except ε α}

theorem bind {f : α → Except ε β} (first : Meets err post x)
    (rest : ∀ a, post a → Meets err post' (f a)) : Meets err post' (x >>= f) := by
  cases x with
  | ok a => exact rest a first
  | error e => exact first

theorem map {f : α → β} (meets : Meets err (fun a => post' (f a)) x) :
    Meets err post' (x.map f) := by
  cases x with
  | ok a => exact meets
  | error e => exact meets

theorem mono {post' : α → Prop} (meets : Meets err post x) (imp : ∀ a, post a → post' a) :
    Meets err post' x := by
  cases x with
  | ok a => exact imp a meets
  | error e => exact meets

theorem of_ok (meets : Meets err post x) (eq : x = .ok a) : post a := by
  subst eq
  exact meets

theorem foldlM {ι : Type*} {f : α → ι → Except ε α} {l : List ι} (start : post a)
    (round : ∀ b, post b → ∀ i ∈ l, Meets err post (f b i)) : Meets err post (l.foldlM f a) := by
  induction l generalizing a with
  | nil => exact start
  | cons i rest ih =>
    rw [foldlM_cons]
    refine bind (round a start i mem_cons_self) fun b kept => ?_
    exact ih kept fun c kept j mem => round c kept j (mem_cons_of_mem i mem)

end Meets

/-- `x` has a result, one that satisfies `post`, exactly if `cond` holds. -/
structure Exactly (cond : Prop) (post : α → Prop) (x : Except ε α) : Prop where
  yes : cond → ∃ a, x = .ok a ∧ post a
  no : ¬ cond → ∃ e, x = .error e

namespace Exactly

variable {cond cond' : Prop} {post : α → Prop} {post' : β → Prop} {x : Except ε α}

theorem of_ok (holds : cond) (done : ∃ a, x = .ok a ∧ post a) : Exactly cond post x :=
  ⟨fun _ => done, fun no => absurd holds no⟩

theorem congr (exactly : Exactly cond post x) (same : cond ↔ cond') : Exactly cond' post x :=
  propext same ▸ exactly

theorem bind {f : α → Except ε β} (first : Exactly cond post x)
    (rest : ∀ a, post a → Exactly cond' post' (f a)) :
    Exactly (cond ∧ cond') post' (x >>= f) := by
  constructor
  · rintro ⟨holds, holds'⟩
    obtain ⟨a, rfl, kept⟩ := first.yes holds
    exact (rest a kept).yes holds'
  · intro not_both
    by_cases holds : cond
    · obtain ⟨a, rfl, kept⟩ := first.yes holds
      exact (rest a kept).no fun holds' => not_both ⟨holds, holds'⟩
    · obtain ⟨e, rfl⟩ := first.no holds
      exact ⟨e, rfl⟩

theorem eq_ok_iff {a b : α} (exactly : Exactly cond (· = a) x) :
    x = .ok b ↔ cond ∧ b = a := by
  by_cases holds : cond
  · obtain ⟨_, rfl, rfl⟩ := exactly.yes holds
    rw [Except.ok.injEq, and_iff_right holds, eq_comm]
  · obtain ⟨e, rfl⟩ := exactly.no holds
    exact ⟨nofun, fun both => absurd both.1 holds⟩

end Exactly

end Nmap
