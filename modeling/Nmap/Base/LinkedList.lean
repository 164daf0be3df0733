import Mathlib.Data.List.Nodup
import Mathlib.Data.Option.Basic

/-!
# Singly linked lists

Nodes in a memory, each with the address of the next one. A list is walked from a pointer to its
first node, and nodes are taken out of it through the place that points to them: the variable with
the first address, or the `next` of the node in front. An access to a node that is not there fails.
-/

namespace Nmap.Base.Linked

open List

variable {α β : Type}

/-- A node -/
structure Node (α : Type) where
  data : α
  next : Option Nat

/-- The nodes, and the variable that points to the first of a list -/
structure Memory (α : Type) where
  root : Option Nat
  node : Nat → Option (Node α)

/-- Where a pointer is stored: in the variable, or in a node -/
inductive Place
  | root
  | next (p : Nat)
  deriving DecidableEq

namespace Memory

/-- `*prev` -/
def read (m : Memory α) : Place → Option (Option Nat)
  | .root => some m.root
  | .next p => (m.node p).map (·.next)

/-- `*prev = q` -/
def write (m : Memory α) : Place → Option Nat → Option (Memory α)
  | .root, q => some { m with root := q }
  | .next p, q => (m.node p).map fun n =>
    { m with node := fun a => if a = p then some { n with next := q } else m.node a }

/-- `free(p)` -/
def free (m : Memory α) (p : Nat) : Option (Memory α) :=
  (m.node p).map fun _ => { m with node := fun a => if a = p then none else m.node a }

end Memory

/-! ## Lists in memory -/

/-- From a pointer on, the nodes are these. -/
inductive Chain (node : Nat → Option (Node α)) : Option Nat → List (Nat × α) → Prop
  | nil : Chain node none []
  | cons {p : Nat} {a : α} {q : Option Nat} {cells : List (Nat × α)} :
      node p = some ⟨a, q⟩ → Chain node q cells → Chain node (some p) ((p, a) :: cells)

def addresses (cells : List (Nat × α)) : List Nat := cells.map Prod.fst

def contents (cells : List (Nat × α)) : List α := cells.map Prod.snd

variable {node node' : Nat → Option (Node α)} {p q : Option Nat} {cells : List (Nat × α)}

theorem Chain.unique {cells' : List (Nat × α)} (chain : Chain node p cells)
    (chain' : Chain node p cells') : cells = cells' := by
  induction chain generalizing cells' with
  | nil =>
    cases chain'
    rfl
  | cons here _ ih =>
    cases chain' with
    | cons here' rest =>
      rw [here] at here'
      cases here'
      rw [ih rest]

theorem Chain.from (chain : Chain node p cells) {a : Nat} (mem : a ∈ addresses cells) :
    ∃ cells', Chain node (some a) cells' ∧ cells'.length ≤ cells.length := by
  induction chain with
  | nil => cases mem
  | @cons p _ _ cells here rest ih =>
    rcases mem_cons.mp mem with rfl | mem
    · exact ⟨_, .cons here rest, Nat.le_refl _⟩
    · obtain ⟨cells', chain', short⟩ := ih mem
      exact ⟨cells', chain', Nat.le_succ_of_le short⟩

/-- **No list comes back to one of its nodes.** -/
theorem Chain.nodup (chain : Chain node p cells) : (addresses cells).Nodup := by
  induction chain with
  | nil => exact .nil
  | @cons p a q cells here rest ih =>
    refine nodup_cons.mpr ⟨?_, ih⟩
    intro again
    obtain ⟨cells', chain', short⟩ := rest.from again
    rw [chain'.unique (.cons here rest), length_cons] at short
    exact absurd short (Nat.not_succ_le_self _)

theorem Chain.congr (chain : Chain node p cells)
    (same : ∀ a ∈ addresses cells, node' a = node a) : Chain node' p cells := by
  induction chain with
  | nil => exact .nil
  | cons here rest ih =>
    refine .cons ?_ (ih fun a mem => same a (mem_cons_of_mem _ mem))
    rw [same _ mem_cons_self, here]

/-! ## Walking -/

/-- `for (p = first; p != NULL; p = p->next)`, for so many nodes at most -/
def walk (node : Nat → Option (Node α)) (f : β → α → β) : Nat → Option Nat → β → Option β
  | _, none, b => some b
  | 0, some _, _ => none
  | steps + 1, some p, b => do
    let n ← node p
    walk node f steps n.next (f b n.data)

theorem Chain.walk (chain : Chain node p cells) (f : β → α → β) {steps : Nat}
    (enough : cells.length ≤ steps) (b : β) :
    walk node f steps p b = some ((contents cells).foldl f b) := by
  induction chain generalizing steps b with
  | nil =>
    cases steps
    · rfl
    · rfl
  | cons here rest ih =>
    cases steps with
    | zero => cases enough
    | succ steps =>
      rw [Linked.walk, here]
      exact ih (Nat.le_of_succ_le_succ enough) _

/-! ## Taking nodes out -/

/-- The loop that takes the nodes with certain data out of a list. `prev` is the place that points
to `p`. -/
def removeFrom (drop : α → Bool) : Nat → Memory α → Place → Option Nat → Option (Memory α)
  | _, m, _, none => some m
  | 0, _, _, some _ => none
  | steps + 1, m, prev, some p => do
    let n ← m.node p
    if drop n.data then
      let m ← m.write prev n.next
      let m ← m.free p
      removeFrom drop steps m prev n.next
    else removeFrom drop steps m (.next p) n.next

def keep (drop : α → Bool) (cells : List (Nat × α)) : List (Nat × α) :=
  cells.filter fun cell => !drop cell.2

theorem contents_keep (drop : α → Bool) (cells : List (Nat × α)) :
    contents (keep drop cells) = (contents cells).filter fun a => !drop a := by
  rw [contents, contents, filter_map]
  rfl

/-- What the loop leaves behind: the list without the nodes, from the place on that pointed to it,
and nothing else is touched. -/
structure Removed (drop : α → Bool) (m : Memory α) (prev : Place) (cells : List (Nat × α))
    (m' : Memory α) : Prop where
  chain : ∃ p, m'.read prev = some p ∧ Chain m'.node p (keep drop cells)
  others : ∀ a, a ∉ addresses cells → prev ≠ .next a → m'.node a = m.node a
  holder : ∀ a, prev = .next a → (m'.node a).map (·.data) = (m.node a).map (·.data)
  root : prev ≠ .root → m'.root = m.root

variable {m : Memory α}

theorem Memory.write_spec {prev : Place} {r : Option Nat} (here : m.read prev = some r)
    (q : Option Nat) :
    ∃ m', m.write prev q = some m' ∧ m'.read prev = some q ∧
      (∀ a, prev ≠ .next a → m'.node a = m.node a) ∧
      (∀ a, prev = .next a → (m'.node a).map (·.data) = (m.node a).map (·.data)) ∧
      (prev ≠ .root → m'.root = m.root) := by
  cases prev with
  | root =>
    refine ⟨_, rfl, rfl, fun _ _ => rfl, ?_, fun no => absurd rfl no⟩
    intro a is
    cases is
  | next b =>
    obtain ⟨n, node, -⟩ := Option.map_eq_some_iff.mp here
    refine ⟨{ m with node := fun a => if a = b then some { n with next := q } else m.node a },
      by rw [write, node]; rfl, ?_, ?_, ?_, fun _ => rfl⟩
    · simp [read]
    · intro a other
      have differ : a ≠ b := fun is => other (congrArg _ is.symm)
      exact if_neg differ
    · intro a is
      cases is
      simp [node]

theorem Memory.free_spec {p : Nat} {n : Node α} (here : m.node p = some n) :
    ∃ m', m.free p = some m' ∧ m'.root = m.root ∧ ∀ a, a ≠ p → m'.node a = m.node a :=
  ⟨{ m with node := fun a => if a = p then none else m.node a }, by rw [free, here]; rfl, rfl,
    fun _ other => if_neg other⟩

/-- **The loop takes the nodes out, and keeps the others in their order.** -/
theorem removeFrom_spec (drop : α → Bool) {prev : Place} (chain : Chain m.node p cells)
    (here : m.read prev = some p) (outside : ∀ a, prev = .next a → a ∉ addresses cells)
    {steps : Nat} (enough : cells.length ≤ steps) :
    ∃ m', removeFrom drop steps m prev p = some m' ∧ Removed drop m prev cells m' := by
  induction cells generalizing m prev p steps with
  | nil =>
    cases chain
    refine ⟨m, by cases steps <;> rfl, ⟨⟨none, here, .nil⟩, ?_, ?_, ?_⟩⟩
    · exact fun _ _ _ => rfl
    · exact fun _ _ => rfl
    · exact fun _ => rfl
  | cons cell cells ih =>
    have nodup := chain.nodup
    cases chain with
    | @cons p a q _ first rest =>
      obtain ⟨fresh, -⟩ := nodup_cons.mp nodup
      have apart : prev ≠ .next p := fun is => outside p is mem_cons_self
      have outside' : ∀ b, prev = .next b → b ∉ addresses cells :=
        fun b is mem => outside b is (mem_cons_of_mem _ mem)
      obtain ⟨steps, rfl⟩ : ∃ n, steps = n + 1 :=
        ⟨steps - 1, by simp only [length_cons] at enough; omega⟩
      have enough' := Nat.le_of_succ_le_succ enough
      by_cases out : drop a = true
      · -- the place that pointed to the node points behind it
        obtain ⟨m₁, write, read₁, node₁, data₁, root₁⟩ := Memory.write_spec here q
        have first₁ : m₁.node p = some ⟨a, q⟩ := by rw [node₁ p apart, first]
        obtain ⟨m₂, free, root₂, node₂⟩ := Memory.free_spec first₁
        have rest₂ : Chain m₂.node q cells := rest.congr fun b mem => by
          have other : b ≠ p := fun is => fresh (is ▸ mem)
          rw [node₂ b other, node₁ b fun is => outside' b is mem]
        have read₂ : m₂.read prev = some q := by
          rw [← read₁]
          cases prev with
          | root => exact congrArg some root₂
          | next b =>
            have other : b ≠ p := fun is => apart (congrArg _ is)
            exact congrArg (Option.map _) (node₂ b other)
        obtain ⟨m', run, removed⟩ := ih rest₂ read₂ outside' enough'
        refine ⟨m', ?_, ⟨?_, ?_, ?_, ?_⟩⟩
        · rw [removeFrom, first]
          show (if drop a = true then _ else _) = _
          rw [if_pos out]
          show (m.write prev q >>= fun m => m.free p >>= _) = _
          rw [write]
          show (m₁.free p >>= _) = _
          rw [free]
          exact run
        · rw [keep, filter_cons_of_neg (by simp [out])]
          exact removed.chain
        · intro b away other
          rw [addresses, map_cons, mem_cons, not_or] at away
          rw [removed.others b away.2 other, node₂ b away.1, node₁ b other]
        · intro b is
          have other : b ≠ p := fun same => apart (same ▸ is)
          rw [removed.holder b is, node₂ b other, data₁ b is]
        · intro other
          rw [removed.root other, root₂, root₁ other]
      · have place : m.read (.next p) = some q := by rw [Memory.read, first]; rfl
        have outside₁ : ∀ b, Place.next p = .next b → b ∉ addresses cells := by
          intro b is
          cases is
          exact fresh
        obtain ⟨m', run, removed⟩ := ih rest place outside₁ enough'
        obtain ⟨q', read', chain'⟩ := removed.chain
        refine ⟨m', ?_, ⟨⟨some p, ?_, ?_⟩, ?_, ?_, ?_⟩⟩
        · rw [removeFrom, first]
          show (if drop a = true then _ else _) = _
          rw [if_neg out]
          exact run
        · rw [← here]
          cases prev with
          | root => exact congrArg some (removed.root nofun)
          | next b =>
            have away : b ∉ addresses cells := outside' b rfl
            have other : Place.next p ≠ .next b := fun is => apart is.symm
            exact congrArg (Option.map _) (removed.others b away other)
        · rw [keep, filter_cons_of_pos (by simp [out])]
          obtain ⟨n, node, next⟩ := Option.map_eq_some_iff.mp read'
          have data := removed.holder p rfl
          rw [node, first] at data
          refine .cons ?_ chain'
          rw [node, ← next]
          cases n
          cases Option.some.inj data
          rfl
        · intro b away other
          rw [addresses, map_cons, mem_cons, not_or] at away
          exact removed.others b away.2 fun is => away.1 (by cases is; rfl)
        · intro b is
          have other : Place.next p ≠ .next b := fun same => apart (same ▸ is)
          rw [removed.others b (outside' b is) other]
        · intro other
          exact removed.root nofun

/-- **A list is left without the nodes.** -/
theorem remove_spec (drop : α → Bool) (chain : Chain m.node m.root cells) {steps : Nat}
    (enough : cells.length ≤ steps) :
    ∃ m', removeFrom drop steps m .root m.root = some m' ∧
      Chain m'.node m'.root (keep drop cells) := by
  have place : m.read .root = some m.root := rfl
  obtain ⟨m', run, removed⟩ := removeFrom_spec drop chain place nofun enough
  obtain ⟨p, read, chain'⟩ := removed.chain
  cases read
  exact ⟨m', run, chain'⟩

end Nmap.Base.Linked
