import Nmap.Nsock.Books
import Nmap.Nsock.Loop

/-!
# What holds between two steps

Beside the books of the pool: the calls under way fit together, a handler that runs sees its
event as it was when the handler was called, and the ledger of what was asked for and what was
dispatched balances. This holds in every run in which `event_new` is never handed a struct
whose handler still runs.
-/

namespace Nmap.Nsock

open List

variable {cfg : Config} {p q : Npool} {s t : Run} {e : Nat}

/-! ## Calls under way -/

/-- The event that a call will take off the lists -/
def Frame.run? : Frame → Option Nat
  | .iodEvent _ e | .expired e | .added e => some e
  | _ => none

/-- The event of a call that never put it in a list -/
def Frame.held? : Frame → Option Nat
  | .immediate e => some e
  | _ => none

def Frame.handled? : Frame → Option Nat
  | .handler e _ => some e
  | _ => none

def Frame.nsi? : Frame → Option Nat
  | .iodEvents pass | .iodEvent pass _ => some pass.nsi
  | .iodDelete d => some d.nsi
  | _ => none

def running (stack : List Frame) : List Nat := stack.filterMap Frame.run?

def holding (stack : List Frame) : List Nat := stack.filterMap Frame.held?

def handling (stack : List Frame) : List Nat := stack.filterMap Frame.handled?

variable {stack : List Frame}

theorem mem_handling : e ∈ handling stack ↔ ∃ seen, .handler e seen ∈ stack := by
  rw [handling, mem_filterMap]
  constructor
  · rintro ⟨f, mem, eq⟩
    cases f with
    | handler x seen =>
      obtain rfl : x = e := Option.some.inj eq
      exact ⟨seen, mem⟩
    | _ => cases eq
  · rintro ⟨seen, mem⟩
    exact ⟨_, mem, rfl⟩

/-- Code of the program runs on top of these calls. -/
def UserStack : List Frame → Prop
  | [] => True
  | .handler _ _ :: _ => True
  | _ => False

/-- Any handler can be called on top of these calls. -/
def Open : List Frame → Prop
  | [] => True
  | .handler _ _ :: _ => True
  | .iodDelete _ :: _ => True
  | _ => False

/-- The calls on top of which the handler of an event can be called -/
def CalledBy (e : Nat) : List Frame → Prop
  | [] => True
  | .handler _ _ :: _ => True
  | .iodDelete _ :: _ => True
  | .iodEvent _ e' :: _ | .expired e' :: _ | .added e' :: _ | .immediate e' :: _ => e' = e
  | .loop :: _ | .iodEvents _ :: _ => False

def Fits : Frame → List Frame → Prop
  | .loop, rest => rest = []
  | .iodEvents _, rest | .iodEvent _ _, rest | .expired _, rest => rest = [.loop]
  | .handler e _, rest => CalledBy e rest
  | .added e, rest => UserStack rest ∧ e ∉ handling rest
  | .immediate _, rest | .iodDelete _, rest => UserStack rest

def Shape : List Frame → Prop
  | [] => True
  | f :: rest => Fits f rest ∧ Shape rest

/-- The calls under way fit together, and each finds what it needs. -/
structure Frames (p : Npool) (stack : List Frame) : Prop where
  shape : Shape stack
  handlers : ∀ e seen, .handler e seen ∈ stack →
    e < p.eventCount ∧ p.events e = seen ∧ ¬ p.Pending e
  handlersNodup : (handling stack).Nodup
  iods : ∀ f ∈ stack, ∀ i ∈ f.nsi?, i ∈ p.activeIods
  passes : ∀ pass e, .iodEvent pass e ∈ stack →
    pass.current = some (pass.list.node e) ∧ pass.list.node e ∈ p.lists pass.list
  begun : ∀ pass, .iodEvents pass ∈ stack → ∀ n ∈ pass.current, n ∈ p.lists pass.list

theorem Frames.tail {f : Frame} {rest : List Frame} (frames : Frames p (f :: rest)) :
    Frames p rest where
  shape := frames.shape.2
  handlers e seen mem := frames.handlers e seen (mem_cons_of_mem f mem)
  handlersNodup := by
    have nodup := frames.handlersNodup
    cases f <;> first | exact (nodup_cons.mp nodup).2 | exact nodup
  iods g mem := frames.iods g (mem_cons_of_mem f mem)
  passes pass e mem := frames.passes pass e (mem_cons_of_mem f mem)
  begun pass mem := frames.begun pass (mem_cons_of_mem f mem)

theorem UserStack.open (user : UserStack stack) : Open stack := by
  cases stack with
  | nil => trivial
  | cons f rest => cases f <;> trivial

theorem Open.calledBy (opened : Open stack) (e : Nat) : CalledBy e stack := by
  cases stack with
  | nil => trivial
  | cons f rest => cases f <;> trivial

/-- Below the handler of an event that is done, each event that a call has is done. -/
theorem Frames.running_done_of_call (frames : Frames p stack) (caller : CalledBy e stack)
    (done : ¬ p.Pending e) : ∀ x ∈ running stack, ¬ p.Pending x := by
  induction stack generalizing e with
  | nil => exact nofun
  | cons f rest ih =>
    cases f with
    | loop => cases caller
    | iodEvents pass => cases caller
    | handler x seen =>
      have mine := (frames.handlers x seen mem_cons_self).2.2
      exact ih frames.tail frames.shape.1 mine
    | iodDelete d =>
      have user : UserStack rest := frames.shape.1
      exact ih frames.tail (user.open.calledBy e) done
    | immediate x =>
      have user : UserStack rest := frames.shape.1
      exact ih frames.tail (user.open.calledBy e) done
    | added x =>
      have same : x = e := caller
      have user : UserStack rest := frames.shape.1.1
      intro y mem
      rcases mem_cons.mp mem with rfl | below
      · rwa [same]
      · exact ih frames.tail (user.open.calledBy e) done y below
    | iodEvent pass x =>
      have same : x = e := caller
      have bottom : rest = [.loop] := frames.shape.1
      subst bottom
      intro y mem
      obtain rfl := mem_singleton.mp mem
      rwa [same]
    | expired x =>
      have same : x = e := caller
      have bottom : rest = [.loop] := frames.shape.1
      subst bottom
      intro y mem
      obtain rfl := mem_singleton.mp mem
      rwa [same]

/-- While code of the program runs, or `nsock_iod_delete`, each event that a call has is done. -/
theorem Frames.running_done (frames : Frames p stack) (opened : Open stack) :
    ∀ x ∈ running stack, ¬ p.Pending x := by
  cases stack with
  | nil => exact nofun
  | cons f rest =>
    cases f with
    | handler x seen =>
      have mine := (frames.handlers x seen mem_cons_self).2.2
      exact frames.tail.running_done_of_call frames.shape.1 mine
    | iodDelete d =>
      have user : UserStack rest := frames.shape.1
      cases rest with
      | nil => exact nofun
      | cons g rest =>
        cases g with
        | handler x seen =>
          have mine := (frames.handlers x seen (by simp)).2.2
          exact frames.tail.tail.running_done_of_call frames.shape.2.1 mine
        | _ => cases user
    | _ => cases opened

/-- `process_iod_events` looks for its next event only on top of `nsock_loop`. -/
theorem Shape.iodEvents_top (shape : Shape stack) {pass : IodPass} (mem : .iodEvents pass ∈ stack) :
    stack = [.iodEvents pass, .loop] := by
  induction stack with
  | nil => cases mem
  | cons f rest ih =>
    rcases mem_cons.mp mem with rfl | later
    · rw [shape.1]
    · have below := ih shape.2 later
      rw [below] at shape
      cases f with
      | loop => cases shape.1
      | added e => cases shape.1.1
      | immediate e => cases shape.1
      | handler e seen => cases shape.1
      | iodDelete d => cases shape.1
      | _ =>
        have rest' := shape.1
        cases rest'

/-- No `process_iod_events` looks for its next event then. -/
theorem Shape.no_pass (shape : Shape stack) (opened : Open stack) (pass : IodPass) :
    .iodEvents pass ∉ stack := by
  intro mem
  rw [shape.iodEvents_top mem] at opened
  cases opened

theorem Frames.mono (frames : Frames p stack) (count : p.eventCount ≤ q.eventCount)
    (handlers : ∀ e ∈ handling stack, q.events e = p.events e)
    (active : ∀ f ∈ stack, ∀ i ∈ f.nsi?, i ∈ q.activeIods)
    (lists : ∀ e ∈ running stack, ∀ L, L.node e ∈ p.lists L → L.node e ∈ q.lists L)
    (begun : (∀ L, q.lists L = p.lists L) ∨ ∀ pass, .iodEvents pass ∉ stack) : Frames q stack where
  shape := frames.shape
  handlers e seen mem := by
    obtain ⟨small, same, done⟩ := frames.handlers e seen mem
    have kept := handlers e (mem_handling.mpr ⟨seen, mem⟩)
    refine ⟨small.trans_le count, kept.trans same, ?_⟩
    rw [Npool.Pending, kept]
    exact done
  handlersNodup := frames.handlersNodup
  iods := active
  passes pass e mem := by
    obtain ⟨current, listed⟩ := frames.passes pass e mem
    exact ⟨current, lists e (mem_filterMap.mpr ⟨_, mem, rfl⟩) _ listed⟩
  begun pass mem n current := by
    rcases begun with same | none
    · rw [same]
      exact frames.begun pass mem n current
    · exact absurd mem (none pass)

theorem Frames.alike {stack : List Frame} (frames : Frames p stack) (alike : Npool.Alike p q) :
    Frames q stack := by
  refine frames.mono (le_of_eq alike.eventCount.symm) ?_ ?_ ?_ (.inl ?_)
  · intro e _
    rw [alike.events]
  · rw [alike.activeIods]
    exact frames.iods
  · rw [alike.lists]
    exact fun _ _ _ mem => mem
  · intro L
    rw [alike.lists]

theorem Frames.call (frames : Frames p stack) (small : e < p.eventCount) (done : ¬ p.Pending e)
    (new : e ∉ handling stack) (caller : CalledBy e stack) :
    Frames p (.handler e (p.events e) :: stack) where
  shape := ⟨caller, frames.shape⟩
  handlers x seen mem := by
    rcases mem_cons.mp mem with eq | old
    · cases eq
      exact ⟨small, rfl, done⟩
    · exact frames.handlers x seen old
  handlersNodup := nodup_cons.mpr ⟨new, frames.handlersNodup⟩
  iods f mem := by
    rcases mem_cons.mp mem with rfl | old
    · exact nofun
    · exact frames.iods f old
  passes pass x mem := frames.passes pass x (by simpa using mem)
  begun pass mem := frames.begun pass (by simpa using mem)

/-- A call of the library begins. -/
theorem Frames.push (frames : Frames p stack) {f : Frame} (fits : Fits f stack)
    (notHandler : f.handled? = none) (iods : ∀ i ∈ f.nsi?, i ∈ p.activeIods)
    (passes : ∀ pass e, f = .iodEvent pass e →
      pass.current = some (pass.list.node e) ∧ pass.list.node e ∈ p.lists pass.list)
    (begun : ∀ pass, f = .iodEvents pass → ∀ n ∈ pass.current, n ∈ p.lists pass.list) :
    Frames p (f :: stack) where
  shape := ⟨fits, frames.shape⟩
  handlers x seen mem := by
    rcases mem_cons.mp mem with rfl | old
    · cases notHandler
    · exact frames.handlers x seen old
  handlersNodup := by
    rw [handling, filterMap_cons_none notHandler]
    exact frames.handlersNodup
  iods g mem := by
    rcases mem_cons.mp mem with rfl | old
    · exact iods
    · exact frames.iods g old
  passes pass x mem := by
    rcases mem_cons.mp mem with eq | old
    · exact passes pass x eq.symm
    · exact frames.passes pass x old
  begun pass mem := by
    rcases mem_cons.mp mem with eq | old
    · exact begun pass eq.symm
    · exact frames.begun pass old

/-! ## The ledger -/

/-- Every request is dispatched once, with its own data, or still waits. -/
structure Ledger (p : Npool) (requests : List Request) (deliveries : List Delivery) : Prop where
  asked : ∀ e, p.Pending e → requests[(p.events e).use]? = some (p.events e).request ∧
    (p.events e).use ∉ deliveries.map Delivery.use
  distinct : ∀ e e', p.Pending e → p.Pending e' → (p.events e).use = (p.events e').use → e = e'
  own : ∀ d ∈ deliveries, d.seen.use = d.use ∧ requests[d.use]? = some d.seen.request
  once : (deliveries.map Delivery.use).Nodup
  kept : ∀ u < requests.length, u ∉ deliveries.map Delivery.use →
    ∃ e, p.Pending e ∧ (p.events e).use = u

section

variable {requests : List Request} {deliveries : List Delivery} {d : Delivery}

theorem Ledger.congr (ledger : Ledger p requests deliveries)
    (pending : ∀ e, q.Pending e ↔ p.Pending e)
    (same : ∀ e, p.Pending e → (q.events e).use = (p.events e).use ∧
      (q.events e).request = (p.events e).request) : Ledger q requests deliveries where
  asked e waits := by
    have was := (pending e).mp waits
    rw [(same e was).1, (same e was).2]
    exact ledger.asked e was
  distinct e e' waits waits' uses := by
    have was := (pending e).mp waits
    have was' := (pending e').mp waits'
    rw [(same e was).1, (same e' was').1] at uses
    exact ledger.distinct e e' was was' uses
  own := ledger.own
  once := ledger.once
  kept u small new := by
    obtain ⟨e, waits, use⟩ := ledger.kept u small new
    exact ⟨e, (pending e).mpr waits, (same e waits).1.trans use⟩

/-- An event that waited is dispatched. -/
theorem Ledger.deliver (ledger : Ledger p requests deliveries) (waits : p.Pending e)
    (pending : ∀ x, q.Pending x ↔ p.Pending x ∧ x ≠ e)
    (same : ∀ x, x ≠ e → q.events x = p.events x) (use : d.use = (p.events e).use)
    (seen : d.seen.use = d.use) (request : d.seen.request = (p.events e).request) :
    Ledger q requests (deliveries ++ [d]) where
  asked x still := by
    obtain ⟨was, other⟩ := (pending x).mp still
    obtain ⟨asked, new⟩ := ledger.asked x was
    rw [same x other]
    refine ⟨asked, ?_⟩
    rw [map_append, mem_append, not_or]
    refine ⟨new, ?_⟩
    rw [map_singleton, mem_singleton, use]
    exact fun eq => other (ledger.distinct x e was waits eq)
  distinct x x' still still' uses := by
    obtain ⟨was, other⟩ := (pending x).mp still
    obtain ⟨was', other'⟩ := (pending x').mp still'
    rw [same x other, same x' other'] at uses
    exact ledger.distinct x x' was was' uses
  own d' mem := by
    rcases mem_append.mp mem with old | last
    · exact ledger.own d' old
    · obtain rfl := mem_singleton.mp last
      refine ⟨seen, ?_⟩
      rw [use, request]
      exact (ledger.asked e waits).1
  once := by
    rw [map_append, map_singleton, use]
    refine nodup_append.mpr ⟨ledger.once, nodup_singleton _, ?_⟩
    rintro u old u' last rfl
    rw [mem_singleton.mp last] at old
    exact (ledger.asked e waits).2 old
  kept u small new := by
    rw [map_append, mem_append, not_or, map_singleton, mem_singleton, use] at new
    obtain ⟨x, was, uses⟩ := ledger.kept u small new.1
    have other : x ≠ e := by
      rintro rfl
      exact new.2 uses.symm
    exact ⟨x, (pending x).mpr ⟨was, other⟩, by rw [same x other, uses]⟩

theorem Ledger.use_lt (ledger : Ledger p requests deliveries) (waits : p.Pending e) :
    (p.events e).use < requests.length :=
  (List.getElem?_eq_some_iff.mp (ledger.asked e waits).1).1

theorem Ledger.delivered_lt (ledger : Ledger p requests deliveries) :
    ∀ u ∈ deliveries.map Delivery.use, u < requests.length := by
  intro u mem
  obtain ⟨d, old, rfl⟩ := mem_map.mp mem
  exact (List.getElem?_eq_some_iff.mp (ledger.own d old).2).1

/-- A new event waits. -/
theorem Ledger.start (ledger : Ledger p requests deliveries) (idle : ¬ p.Pending e)
    (pending : ∀ x, q.Pending x ↔ p.Pending x ∨ x = e)
    (same : ∀ x, x ≠ e → q.events x = p.events x) (use : (q.events e).use = requests.length) :
    Ledger q (requests ++ [(q.events e).request]) deliveries := by
  have old : ∀ x, p.Pending x → q.events x = p.events x := by
    intro x was
    refine same x ?_
    rintro rfl
    exact idle was
  constructor
  · intro x still
    rcases (pending x).mp still with was | rfl
    · rw [old x was, List.getElem?_append_left (ledger.use_lt was)]
      exact ledger.asked x was
    · rw [use, List.getElem?_append_right (le_refl _), Nat.sub_self]
      exact ⟨rfl, fun mem => absurd (ledger.delivered_lt _ mem) (lt_irrefl _)⟩
  · intro x x' still still' uses
    rcases (pending x).mp still with was | rfl <;> rcases (pending x').mp still' with was' | rfl
    · rw [old x was, old x' was'] at uses
      exact ledger.distinct x x' was was' uses
    · rw [old x was, use] at uses
      exact absurd (ledger.use_lt was) (by omega)
    · rw [old x' was', use] at uses
      exact absurd (ledger.use_lt was') (by omega)
    · rfl
  · intro d mem
    have small := ledger.delivered_lt d.use (mem_map_of_mem mem)
    rw [List.getElem?_append_left small]
    exact ledger.own d mem
  · exact ledger.once
  · intro u small new
    rw [length_append, length_singleton] at small
    by_cases last : u = requests.length
    · exact ⟨e, (pending e).mpr (.inr rfl), by rw [use, last]⟩
    · obtain ⟨x, was, uses⟩ := ledger.kept u (by omega) new
      exact ⟨x, (pending x).mpr (.inl was), by rw [old x was, uses]⟩

/-- A new event is dispatched at once. -/
theorem Ledger.startDone (ledger : Ledger p requests deliveries)
    (pending : ∀ x, q.Pending x ↔ p.Pending x) (same : ∀ x, p.Pending x → q.events x = p.events x)
    (use : d.use = requests.length) (seen : d.seen.use = d.use) :
    Ledger q (requests ++ [d.seen.request]) (deliveries ++ [d]) where
  asked x still := by
    have was := (pending x).mp still
    obtain ⟨asked, new⟩ := ledger.asked x was
    have small := ledger.use_lt was
    rw [same x was, List.getElem?_append_left small]
    refine ⟨asked, ?_⟩
    rw [map_append, mem_append, not_or, map_singleton, mem_singleton, use]
    exact ⟨new, by omega⟩
  distinct x x' still still' uses := by
    have was := (pending x).mp still
    have was' := (pending x').mp still'
    rw [same x was, same x' was'] at uses
    exact ledger.distinct x x' was was' uses
  own d' mem := by
    rcases mem_append.mp mem with old | last
    · have small := ledger.delivered_lt d'.use (mem_map_of_mem old)
      rw [List.getElem?_append_left small]
      exact ledger.own d' old
    · obtain rfl := mem_singleton.mp last
      refine ⟨seen, ?_⟩
      rw [use, List.getElem?_append_right (le_refl _), Nat.sub_self]
      rfl
  once := by
    rw [map_append, map_singleton, use]
    refine nodup_append.mpr ⟨ledger.once, nodup_singleton _, ?_⟩
    rintro u old u' last rfl
    rw [mem_singleton.mp last] at old
    exact absurd (ledger.delivered_lt _ old) (lt_irrefl _)
  kept u small new := by
    rw [map_append, mem_append, not_or, map_singleton, mem_singleton, use] at new
    rw [length_append, length_singleton] at small
    obtain ⟨x, was, uses⟩ := ledger.kept u (by omega) new.1
    exact ⟨x, (pending x).mpr was, by rw [same x was, uses]⟩

end

end Nmap.Nsock
