import Mathlib.Data.List.Perm.Basic
import Nmap.Base.CString

/-!
# Host groups (`targets.cc`)

`refresh_hostbatch` fills a batch with the next targets. For raw scans the targets of a batch have
to be alike, and those that do not fit wait in the defer buffer, from where they go into a queue
before the next batch is filled.
-/

namespace Nmap.Targets

open Nmap.Base List

/-! ## Targets -/

/-- What `sockaddr_storage_cmp` compares of a `sockaddr_storage` -/
inductive SockAddr
  | inet (addr : BitVec 32)
  | inet6 (addr : BitVec 128)
  deriving DecidableEq

/-- `ss_family` -/
inductive Family
  | inet | inet6
  deriving DecidableEq

def SockAddr.family : SockAddr → Family
  | .inet _ => .inet
  | .inet6 _ => .inet6

/-- A `Target`, as far as it concerns its group; no source address for one that was not set -/
structure Target where
  targetSockAddr : SockAddr
  sourceSockAddr : Option SockAddr
  deviceName : Option Bytes
  directlyConnected : Bool
  deriving DecidableEq

def Target.af (t : Target) : Family := t.targetSockAddr.family

/-- The options; raw scans need root, which `ValidateOptions` sees to. -/
structure Options where
  isr00t : Bool
  rawScan : Bool
  root : rawScan = true → isr00t = true
  randomize : Bool

/-- What `setup_target` takes of a `route_nfo`. Interfaces have names. -/
structure RouteNfo where
  devname : Bytes
  named : devname ≠ []
  srcaddr : SockAddr
  directConnect : Bool

/-- An address of the target expressions that is not excluded, with the answer of
`nmap_route_dst` -/
structure Candidate where
  ss : SockAddr
  rnfo : Option RouteNfo

def setupTarget (o : Options) (c : Candidate) : Option Target :=
  if o.rawScan then
    match c.rnfo with
    | none => none
    | some rnfo => some {
        targetSockAddr := c.ss
        sourceSockAddr := some rnfo.srcaddr
        deviceName := if rnfo.devname ≠ [] then some rnfo.devname else none
        directlyConnected := rnfo.directConnect }
  else some ⟨c.ss, none, none, false⟩

/-! ## The state -/

def deferLimit : Nat := 64

/-- `HostGroupState` with `o.resume_ip`; the answers are those of `get_next_host` to come, none for
false. It has nothing more after the last. -/
structure HostGroupState where
  maxBatchSz : Nat
  lookahead : 0 < maxBatchSz
  hostbatch : List Target
  deferBuffer : List Target
  undeferred : List Target
  answers : List (Option Candidate)
  resumeIp : Option SockAddr

/-- `HostGroupState::HostGroupState` -/
def HostGroupState.new (maxBatchSz : Nat) (lookahead : 0 < maxBatchSz)
    (answers : List (Option Candidate)) (resumeIp : Option SockAddr) : HostGroupState :=
  ⟨maxBatchSz, lookahead, [], [], [], answers, resumeIp⟩

/-- `HostGroupState::defer`; the flag says whether the buffer is not yet full. -/
def HostGroupState.defer (hs : HostGroupState) (t : Target) : HostGroupState × Bool :=
  let deferBuffer := hs.deferBuffer ++ [t]
  ({ hs with deferBuffer }, decide (deferBuffer.length < deferLimit))

def HostGroupState.undefer (hs : HostGroupState) : HostGroupState :=
  { hs with undeferred := hs.undeferred ++ hs.deferBuffer, deferBuffer := [] }

def targetNeedsNewHostgroup (o : Options) (targets : List Target) (target : Target) : Bool :=
  match targets with
  | [] => false
  | first :: _ =>
    if !(o.isr00t && target.deviceName.isSome) then false
    else if first.af ≠ target.af then true
    else if first.deviceName.isSome ∧ target.deviceName.isSome ∧
        first.deviceName ≠ target.deviceName then true
    else if first.sourceSockAddr ≠ target.sourceSockAddr then true
    else if first.directlyConnected ≠ target.directlyConnected then true
    else targets.any fun t => decide (t.targetSockAddr = target.targetSockAddr)

/-- `next_target` from `tryagain` on, with `o.resume_ip` and the answers after it -/
def newTarget (o : Options) :
    Option SockAddr → List (Option Candidate) →
      Option Target × Option SockAddr × List (Option Candidate)
  | resumeIp, [] => (none, resumeIp, [])
  | resumeIp, none :: rest => (none, resumeIp, rest)
  | some resumeIp, some c :: rest =>
    newTarget o (if resumeIp = c.ss then none else some resumeIp) rest
  | none, some c :: rest =>
    match setupTarget o c with
    | none => newTarget o none rest
    | some t => (some t, none, rest)

def nextTarget (o : Options) (hs : HostGroupState) : Option Target × HostGroupState :=
  match hs.undeferred with
  | t :: undeferred => (some t, { hs with undeferred })
  | [] =>
    let (t, resumeIp, answers) := newTarget o hs.resumeIp hs.answers
    (t, { hs with resumeIp, answers })

/-! ## Batches -/

/-- The loop of `refresh_hostbatch`. Every turn takes a target from the queue or an answer. -/
def fillBatch (o : Options) : Nat → HostGroupState → HostGroupState
  | 0, hs => hs
  | fuel + 1, hs =>
    if hs.hostbatch.length < hs.maxBatchSz then
      match nextTarget o hs with
      | (none, hs) => hs
      | (some t, hs) =>
        if targetNeedsNewHostgroup o hs.hostbatch t then
          let (hs, notFull) := hs.defer t
          if notFull then fillBatch o fuel hs else hs
        else fillBatch o fuel { hs with hostbatch := hs.hostbatch ++ [t] }
    else hs

/-- The loop of `genfry` with its random numbers: an element is swapped with one not behind it. -/
def genfryLoop {α : Type} (random : Nat → Nat) : Nat → Array α → Array α
  | 0, arr => arr
  | i + 1, arr =>
    genfryLoop random i (arr.swapIfInBounds (i + 1) (random (i + 1) % (i + 2)))

def genfry {α : Type} (random : Nat → Nat) (arr : List α) : List α :=
  if arr.length < 2 then arr else (genfryLoop random (arr.length - 1) arr.toArray).toList

/-- `refresh_hostbatch`; what is done after the batch is shuffled changes no target's place. -/
def refreshHostbatch (o : Options) (random : Nat → Nat) (hs : HostGroupState) : HostGroupState :=
  let hs := { hs with hostbatch := [] }.undefer
  let hs := fillBatch o (hs.undeferred.length + hs.answers.length + 1) hs
  if hs.hostbatch = [] then hs
  else if o.randomize then { hs with hostbatch := genfry random hs.hostbatch }
  else hs

/-- The batches of repeated calls, up to the first that is empty, and the state after it -/
def batches (o : Options) (random : Nat → Nat → Nat) :
    Nat → HostGroupState → List (List Target) × HostGroupState
  | 0, hs => ([], hs)
  | calls + 1, hs =>
    let hs := refreshHostbatch o (random calls) hs
    if hs.hostbatch = [] then ([], hs)
    else
      let later := batches o random calls hs
      (hs.hostbatch :: later.1, later.2)

/-! ## What is to be handed out -/

def upcoming (o : Options) : Option SockAddr → List (Option Candidate) → List Target
  | _, [] => []
  | resumeIp, none :: rest => upcoming o resumeIp rest
  | some resumeIp, some c :: rest =>
    upcoming o (if resumeIp = c.ss then none else some resumeIp) rest
  | none, some c :: rest => (setupTarget o c).toList ++ upcoming o none rest

/-- Targets that may be scanned together -/
structure Alike (a b : Target) : Prop where
  af : a.af = b.af
  deviceName : a.deviceName = b.deviceName
  sourceSockAddr : a.sourceSockAddr = b.sourceSockAddr
  directlyConnected : a.directlyConnected = b.directlyConnected

/-- A batch of a raw scan: the targets with a device are like the first one, and their addresses
differ. -/
def Homogeneous (batch : List Target) : Prop :=
  (∀ first, batch.head? = some first → ∀ t ∈ batch, t.deviceName.isSome = true → Alike first t) ∧
    (batch.filter fun t => t.deviceName.isSome).Pairwise fun a b =>
      a.targetSockAddr ≠ b.targetSockAddr

/-! ## The next target -/

variable {o : Options} {hs hs' : HostGroupState} {t : Target}

/-- What is to be handed out in later batches -/
def HostGroupState.waiting (o : Options) (hs : HostGroupState) : List Target :=
  hs.deferBuffer ++ (hs.undeferred ++ upcoming o hs.resumeIp hs.answers)

/-- What `newTarget` gives is the first of the targets that are to come. -/
theorem newTarget_upcoming (o : Options) (resumeIp : Option SockAddr)
    (answers : List (Option Candidate)) :
    upcoming o resumeIp answers = (newTarget o resumeIp answers).1.toList ++
      upcoming o (newTarget o resumeIp answers).2.1 (newTarget o resumeIp answers).2.2 := by
  fun_induction newTarget o resumeIp answers with
  | case1 resumeIp => rfl
  | case2 resumeIp rest =>
    simp [upcoming]
  | case3 resumeIp c rest ih =>
    rw [upcoming]
    exact ih
  | case4 c rest none_ ih =>
    rw [upcoming, none_]
    exact ih
  | case5 c rest t made =>
    rw [upcoming, made]

/-- The last answer before the rest was that there are no more targets. -/
def Said (answers rest : List (Option Candidate)) : Prop :=
  (rest = [] ∧ ∃ before, answers = before ++ rest) ∨ ∃ before, answers = before ++ none :: rest

theorem Said.prepend {answers rest : List (Option Candidate)} (said : Said answers rest)
    (front : List (Option Candidate)) : Said (front ++ answers) rest := by
  rcases said with ⟨ends, before, eq⟩ | ⟨before, eq⟩
  · exact .inl ⟨ends, front ++ before, by rw [eq, append_assoc]⟩
  · exact .inr ⟨front ++ before, by rw [eq, append_assoc]⟩

theorem Said.suffix {answers rest : List (Option Candidate)} (said : Said answers rest) :
    rest <:+ answers := by
  rcases said with ⟨-, before, eq⟩ | ⟨before, eq⟩
  · exact ⟨before, eq.symm⟩
  · exact ⟨before ++ [none], by rw [eq, append_assoc]; rfl⟩

/-- Each target takes an answer, and there is none only when `get_next_host` has said that there
are no more. -/
theorem newTarget_answers (o : Options) (resumeIp : Option SockAddr)
    (answers : List (Option Candidate)) :
    match newTarget o resumeIp answers with
    | (some _, _, rest) => ∃ before c, answers = before ++ some c :: rest
    | (none, _, rest) => Said answers rest := by
  fun_induction newTarget o resumeIp answers with
  | case1 resumeIp => exact .inl ⟨rfl, [], rfl⟩
  | case2 resumeIp rest => exact .inr ⟨[], rfl⟩
  | case3 resumeIp c rest ih =>
    split at ih
    · obtain ⟨before, d, eq⟩ := ih
      exact ⟨some c :: before, d, by rw [eq, cons_append]⟩
    · exact ih.prepend [some c]
  | case4 c rest none_ ih =>
    split at ih
    · obtain ⟨before, d, eq⟩ := ih
      exact ⟨some c :: before, d, by rw [eq, cons_append]⟩
    · exact ih.prepend [some c]
  | case5 c rest t made => exact ⟨[], c, rfl⟩

/-- The turns that are left to a batch at most -/
def HostGroupState.supply (hs : HostGroupState) : Nat :=
  hs.undeferred.length + hs.answers.length

/-- A target is taken from the queue or made. -/
structure Taken (o : Options) (hs : HostGroupState) (t : Target) (hs' : HostGroupState) :
    Prop where
  same : hs'.hostbatch = hs.hostbatch ∧ hs'.deferBuffer = hs.deferBuffer ∧
    hs'.maxBatchSz = hs.maxBatchSz
  first : hs.undeferred ++ upcoming o hs.resumeIp hs.answers =
    t :: (hs'.undeferred ++ upcoming o hs'.resumeIp hs'.answers)
  less : hs'.supply < hs.supply
  answers : hs'.answers <:+ hs.answers

/-- There is no target. -/
structure Exhausted (o : Options) (hs hs' : HostGroupState) : Prop where
  same : hs'.hostbatch = hs.hostbatch ∧ hs'.deferBuffer = hs.deferBuffer ∧
    hs'.maxBatchSz = hs.maxBatchSz
  upcoming : upcoming o hs'.resumeIp hs'.answers = upcoming o hs.resumeIp hs.answers
  queue : hs.undeferred = [] ∧ hs'.undeferred = []
  said : Said hs.answers hs'.answers

/-- `next_target` gives the next target in line, or there is none. -/
theorem nextTarget_cases (o : Options) (hs : HostGroupState) :
    (∃ t hs', nextTarget o hs = (some t, hs') ∧ Taken o hs t hs') ∨
      ∃ hs', nextTarget o hs = (none, hs') ∧ Exhausted o hs hs' := by
  rw [nextTarget]
  cases queue : hs.undeferred with
  | cons t undeferred =>
    refine .inl ⟨t, _, rfl, ⟨rfl, rfl, rfl⟩, ?_, ?_, suffix_refl _⟩
    · rw [queue]
      rfl
    · rw [HostGroupState.supply, HostGroupState.supply, queue, length_cons]
      show undeferred.length + hs.answers.length < _
      omega
  | nil =>
    have first := newTarget_upcoming o hs.resumeIp hs.answers
    have taken := newTarget_answers o hs.resumeIp hs.answers
    dsimp only
    cases made : newTarget o hs.resumeIp hs.answers with
    | mk t left =>
      rw [made] at first taken
      cases t with
      | some t =>
        obtain ⟨before, c, eq⟩ := taken
        refine .inl ⟨t, _, rfl, ⟨rfl, rfl, rfl⟩, ?_, ?_, ?_⟩
        · rw [queue]
          exact first
        · rw [HostGroupState.supply, HostGroupState.supply, queue, eq, length_append,
            length_cons]
          dsimp only
          omega
        · exact ⟨before ++ [some c], by rw [eq, append_assoc]; rfl⟩
      | none => exact .inr ⟨_, rfl, ⟨rfl, rfl, rfl⟩, first.symm, ⟨queue, rfl⟩, taken⟩

/-! ## Filling a batch -/

/-- What the loop keeps: the targets, and the bound on their number -/
structure Filled (o : Options) (hs hs' : HostGroupState) : Prop where
  conserved : (hs'.hostbatch ++ hs'.waiting o).Perm (hs.hostbatch ++ hs.waiting o)
  most : hs.hostbatch.length ≤ hs.maxBatchSz → hs'.hostbatch.length ≤ hs'.maxBatchSz
  maxBatchSz : hs'.maxBatchSz = hs.maxBatchSz
  starts : hs.hostbatch <+: hs'.hostbatch
  answers : hs'.answers <:+ hs.answers

theorem Filled.refl (o : Options) (hs : HostGroupState) : Filled o hs hs :=
  ⟨Perm.refl _, id, rfl, prefix_refl _, suffix_refl _⟩

theorem Filled.trans {hs₁ hs₂ hs₃ : HostGroupState} (first : Filled o hs₁ hs₂)
    (second : Filled o hs₂ hs₃) : Filled o hs₁ hs₃ :=
  ⟨second.conserved.trans first.conserved, fun le => second.most (first.most le),
    second.maxBatchSz.trans first.maxBatchSz, first.starts.trans second.starts,
    second.answers.trans first.answers⟩

theorem Exhausted.filled (none_ : Exhausted o hs hs') : Filled o hs hs' := by
  obtain ⟨batch, buffer, size⟩ := none_.same
  have same : hs'.waiting o = hs.waiting o := by
    rw [HostGroupState.waiting, HostGroupState.waiting, none_.upcoming, none_.queue.1,
      none_.queue.2, buffer]
  refine ⟨?_, fun le => ?_, size, ?_, none_.said.suffix⟩
  · rw [batch, same]
  · rw [batch, size]
    exact le
  · exact batch ▸ prefix_rfl

theorem Taken.deferred (taken : Taken o hs t hs') : Filled o hs (hs'.defer t).1 := by
  obtain ⟨batch, buffer, size⟩ := taken.same
  refine ⟨?_, fun le => ?_, size, ?_, taken.answers⟩
  · refine perm_iff_count.mpr fun a => ?_
    have first := congrArg (List.count a) taken.first
    simp only [HostGroupState.waiting, HostGroupState.defer, batch, buffer, count_append,
      count_cons, count_nil] at first ⊢
    omega
  · show hs'.hostbatch.length ≤ hs'.maxBatchSz
    rw [batch, size]
    exact le
  · show hs.hostbatch <+: hs'.hostbatch
    exact batch ▸ prefix_rfl

theorem Taken.joined (taken : Taken o hs t hs') (room : hs.hostbatch.length < hs.maxBatchSz) :
    Filled o hs { hs' with hostbatch := hs'.hostbatch ++ [t] } := by
  obtain ⟨batch, buffer, size⟩ := taken.same
  refine ⟨?_, fun le => ?_, size, ?_, taken.answers⟩
  · refine perm_iff_count.mpr fun a => ?_
    have first := congrArg (List.count a) taken.first
    simp only [HostGroupState.waiting, batch, buffer, count_append, count_cons,
      count_nil] at first ⊢
    omega
  · show (hs'.hostbatch ++ [t]).length ≤ hs'.maxBatchSz
    rw [batch, size, length_append, length_singleton]
    exact room
  · show hs.hostbatch <+: hs'.hostbatch ++ [t]
    rw [batch]
    exact prefix_append _ _

theorem fillBatch_filled (o : Options) (fuel : Nat) :
    ∀ hs : HostGroupState, Filled o hs (fillBatch o fuel hs) := by
  induction fuel with
  | zero => exact Filled.refl o
  | succ fuel ih =>
    intro hs
    rw [fillBatch]
    split
    · next room =>
        rcases nextTarget_cases o hs with ⟨t, hs', next, taken⟩ | ⟨hs', next, none_⟩
        · rw [next]
          dsimp only
          split
          · split
            · exact taken.deferred.trans (ih _)
            · exact taken.deferred
          · exact (taken.joined room).trans (ih _)
        · rw [next]
          exact none_.filled
    · exact Filled.refl o hs

theorem fillBatch_empty {fuel : Nat} (empty : hs.hostbatch = [])
    (room : 0 < hs.maxBatchSz) (stays : (fillBatch o (fuel + 1) hs).hostbatch = []) :
    Exhausted o hs (fillBatch o (fuel + 1) hs) := by
  rw [fillBatch, empty, if_pos (by exact room)] at stays ⊢
  rcases nextTarget_cases o hs with ⟨t, hs', next, taken⟩ | ⟨hs', next, none_⟩
  · have batch : hs'.hostbatch = [] := taken.same.1.trans empty
    rw [next] at stays
    dsimp only at stays
    rw [if_neg (by rw [batch]; exact Bool.false_ne_true)] at stays
    have grows := (fillBatch_filled o fuel { hs' with hostbatch := hs'.hostbatch ++ [t] }).starts
    rw [stays] at grows
    exact absurd (prefix_nil.mp grows) (append_ne_nil_of_right_ne_nil _ (by simp))
  · rw [next]
    exact none_

/-! ## Targets of raw scans -/

theorem upcoming_device (raw : o.rawScan = true) (resumeIp : Option SockAddr)
    (answers : List (Option Candidate)) :
    ∀ t ∈ upcoming o resumeIp answers, t.deviceName.isSome = true := by
  fun_induction upcoming o resumeIp answers with
  | case1 => exact fun t mem => absurd mem not_mem_nil
  | case2 resumeIp rest ih => exact ih
  | case3 resumeIp c rest ih => exact ih
  | case4 c rest ih =>
    intro t mem
    rcases mem_append.mp mem with made | later
    · rw [setupTarget, if_pos raw] at made
      split at made
      · cases made
      · next rnfo _ =>
          cases mem_singleton.mp made
          simp [rnfo.named]
    · exact ih t later

/-- Targets that fit together -/
structure Fits (batch : List Target) : Prop where
  alike : ∀ a ∈ batch, ∀ b ∈ batch, Alike a b
  addresses : batch.Pairwise fun a b => a.targetSockAddr ≠ b.targetSockAddr

theorem Fits.nil : Fits [] :=
  ⟨fun _ mem => absurd mem not_mem_nil, Pairwise.nil⟩

theorem Fits.perm {batch batch' : List Target} (fits : Fits batch) (perm : batch'.Perm batch) :
    Fits batch' :=
  ⟨fun a mem b mem' => fits.alike a (perm.mem_iff.mp mem) b (perm.mem_iff.mp mem'),
    fits.addresses.perm perm.symm fun differ => differ.symm⟩

theorem Alike.symm {a b : Target} (alike : Alike a b) : Alike b a :=
  ⟨alike.af.symm, alike.deviceName.symm, alike.sourceSockAddr.symm,
    alike.directlyConnected.symm⟩

theorem Alike.trans {a b c : Target} (first : Alike a b) (second : Alike b c) : Alike a c :=
  ⟨first.af.trans second.af, first.deviceName.trans second.deviceName,
    first.sourceSockAddr.trans second.sourceSockAddr,
    first.directlyConnected.trans second.directlyConnected⟩

theorem Alike.refl (a : Target) : Alike a a := ⟨rfl, rfl, rfl, rfl⟩

variable {batch : List Target}

theorem alike_of_same_hostgroup {first : Target} (root : o.isr00t = true)
    (devices : ∀ a ∈ first :: batch, a.deviceName.isSome = true)
    (device : t.deviceName.isSome = true)
    (same : targetNeedsNewHostgroup o (first :: batch) t = false) :
    Alike first t ∧ ∀ a ∈ first :: batch, a.targetSockAddr ≠ t.targetSockAddr := by
  rw [targetNeedsNewHostgroup, if_neg (by simp [root, device])] at same
  have firstDevice := devices first mem_cons_self
  repeat' split at same
  all_goals first
    | cases same
    | skip
  next af devicesDiffer source connected =>
    refine ⟨⟨not_not.mp af, ?_, not_not.mp source, not_not.mp connected⟩, ?_⟩
    · by_contra differ
      exact devicesDiffer ⟨firstDevice, device, differ⟩
    · intro a mem
      have other := any_eq_false.mp same a mem
      exact fun eq => other (decide_eq_true eq)

theorem Fits.joined (root : o.isr00t = true) (fits : Fits batch)
    (devices : ∀ a ∈ batch, a.deviceName.isSome = true) (device : t.deviceName.isSome = true)
    (same : targetNeedsNewHostgroup o batch t = false) : Fits (batch ++ [t]) := by
  cases batch with
  | nil =>
    refine ⟨fun a mem b mem' => ?_, pairwise_singleton _ _⟩
    cases mem_singleton.mp mem
    cases mem_singleton.mp mem'
    exact Alike.refl _
  | cons first batch =>
    obtain ⟨alike, others⟩ := alike_of_same_hostgroup root devices device same
    have near : ∀ a ∈ first :: batch ++ [t], Alike first a := by
      intro a mem
      rcases mem_append.mp mem with mem | mem
      · exact fits.alike first mem_cons_self a mem
      · cases mem_singleton.mp mem
        exact alike
    refine ⟨fun a mem b mem' => (near a mem).symm.trans (near b mem'), ?_⟩
    rw [pairwise_append]
    refine ⟨fits.addresses, pairwise_singleton _ _, fun a mem b mem' => ?_⟩
    cases mem_singleton.mp mem'
    exact others a mem

/-- The loop fills a batch with targets that fit together. -/
theorem fillBatch_fits (root : o.isr00t = true) (fuel : Nat) :
    ∀ {hs : HostGroupState},
      (∀ a ∈ hs.hostbatch ++ hs.waiting o, a.deviceName.isSome = true) → Fits hs.hostbatch →
      Fits (fillBatch o fuel hs).hostbatch := by
  induction fuel with
  | zero => exact fun _ fits => fits
  | succ fuel ih =>
    intro hs devices fits
    rw [fillBatch]
    split
    · next room =>
        rcases nextTarget_cases o hs with ⟨t, hs', next, taken⟩ | ⟨hs', next, none_⟩
        · have kept {hs'' : HostGroupState} (filled : Filled o hs hs'') :
              ∀ a ∈ hs''.hostbatch ++ hs''.waiting o, a.deviceName.isSome = true :=
            fun a mem => devices a (filled.conserved.mem_iff.mp mem)
          have batch := taken.same.1
          rw [next]
          dsimp only
          split
          · split
            · refine ih (kept taken.deferred) ?_
              show Fits hs'.hostbatch
              rwa [batch]
            · show Fits hs'.hostbatch
              rwa [batch]
          · next same =>
              refine ih (kept (taken.joined room)) ?_
              show Fits (hs'.hostbatch ++ [t])
              rw [batch] at same ⊢
              refine fits.joined root (fun a mem => devices a (mem_append_left _ mem)) ?_
                (Bool.eq_false_iff.mpr same)
              refine devices t (mem_append_right _ (mem_append_right _ ?_))
              rw [taken.first]
              exact mem_cons_self
        · rw [next]
          show Fits hs'.hostbatch
          rwa [none_.same.1]
    · exact fits

/-! ## Batch after batch -/

theorem genfryLoop_perm {α : Type} (random : Nat → Nat) (i : Nat) :
    ∀ arr : Array α, (genfryLoop random i arr).Perm arr := by
  induction i with
  | zero => exact fun arr => Array.Perm.refl arr
  | succ i ih =>
    intro arr
    rw [genfryLoop]
    refine (ih _).trans ?_
    rw [Array.swapIfInBounds_def]
    split
    · split
      · exact Array.swap_perm _ _
      · exact Array.Perm.refl arr
    · exact Array.Perm.refl arr

theorem genfry_perm {α : Type} (random : Nat → Nat) (arr : List α) :
    (genfry random arr).Perm arr := by
  rw [genfry]
  split
  · exact Perm.refl arr
  · exact (genfryLoop_perm random _ arr.toArray).toList

/-- What a call of `refresh_hostbatch` does -/
structure Refreshed (o : Options) (hs hs' : HostGroupState) : Prop where
  conserved : (hs'.hostbatch ++ hs'.waiting o).Perm (hs.waiting o)
  most : hs'.hostbatch.length ≤ hs'.maxBatchSz
  maxBatchSz : hs'.maxBatchSz = hs.maxBatchSz
  answers : hs'.answers <:+ hs.answers
  ends : hs'.hostbatch = [] →
    hs'.undeferred = [] ∧ hs'.deferBuffer = [] ∧ Said hs.answers hs'.answers
  fits : o.rawScan = true → (∀ t ∈ hs.waiting o, t.deviceName.isSome = true) →
    Fits hs'.hostbatch

theorem undefer_waiting (o : Options) (hs : HostGroupState) :
    ({ hs with hostbatch := [] }.undefer.waiting o).Perm (hs.waiting o) := by
  refine perm_iff_count.mpr fun a => ?_
  simp only [HostGroupState.waiting, HostGroupState.undefer, count_append, count_nil]
  omega

theorem Refreshed.of_perm (refreshed : Refreshed o hs hs') (perm : batch.Perm hs'.hostbatch) :
    Refreshed o hs { hs' with hostbatch := batch } where
  conserved := (perm.append_right _).trans refreshed.conserved
  most := perm.length_eq ▸ refreshed.most
  maxBatchSz := refreshed.maxBatchSz
  answers := refreshed.answers
  ends empty := refreshed.ends (by
    show hs'.hostbatch = []
    have none_ : batch = [] := empty
    exact nil_perm.mp (none_ ▸ perm))
  fits raw devices := (refreshed.fits raw devices).perm perm

theorem fillBatch_refreshed (o : Options) (fuel : Nat) (hs : HostGroupState) :
    Refreshed o hs (fillBatch o (fuel + 1) { hs with hostbatch := [] }.undefer) := by
  have filled := fillBatch_filled o (fuel + 1) { hs with hostbatch := [] }.undefer
  have waiting := undefer_waiting o hs
  refine ⟨filled.conserved.trans waiting, filled.most (Nat.zero_le _), filled.maxBatchSz,
    filled.answers, fun stays => ?_, fun raw devices => ?_⟩
  · have empty : ({ hs with hostbatch := [] }.undefer).hostbatch = [] := rfl
    have none_ := fillBatch_empty empty hs.lookahead stays
    exact ⟨none_.queue.2, none_.same.2.1, none_.said⟩
  · refine fillBatch_fits (o.root raw) (fuel + 1) (fun a mem => ?_) Fits.nil
    exact devices a (waiting.mem_iff.mp mem)

theorem refreshHostbatch_refreshed (o : Options) (random : Nat → Nat) (hs : HostGroupState) :
    Refreshed o hs (refreshHostbatch o random hs) := by
  have refreshed := fillBatch_refreshed o
    ({ hs with hostbatch := [] }.undefer.undeferred.length +
      { hs with hostbatch := [] }.undefer.answers.length) hs
  unfold refreshHostbatch
  dsimp only
  split
  · exact refreshed
  · split
    · exact refreshed.of_perm (genfry_perm random _)
    · exact refreshed

/-- Where repeated calls lead -/
structure HandedOut (o : Options) (hs : HostGroupState)
    (run : List (List Target) × HostGroupState) : Prop where
  conserved : (run.1.flatten ++ run.2.waiting o).Perm (hs.waiting o)
  batches : ∀ batch ∈ run.1, batch ≠ [] ∧ batch.length ≤ hs.maxBatchSz ∧
    (o.rawScan = true → (∀ t ∈ hs.waiting o, t.deviceName.isSome = true) → Fits batch)
  answers : run.2.answers <:+ hs.answers

/-- Every target that waits is handed out or waits after the calls. -/
theorem batches_handedOut (o : Options) (random : Nat → Nat → Nat) (calls : Nat) :
    ∀ hs : HostGroupState, HandedOut o hs (batches o random calls hs) := by
  induction calls with
  | zero =>
    exact fun hs => ⟨Perm.refl _, fun _ mem => absurd mem not_mem_nil,
      suffix_refl _⟩
  | succ calls ih =>
    intro hs
    have refreshed := refreshHostbatch_refreshed o (random calls) hs
    rw [batches]
    dsimp only
    split
    · next empty =>
        refine ⟨?_, fun _ mem => absurd mem not_mem_nil, refreshed.answers⟩
        have conserved := refreshed.conserved
        rwa [empty] at conserved
    · next some =>
        obtain ⟨conserved, later, answers⟩ := ih (refreshHostbatch o (random calls) hs)
        refine ⟨?_, ?_, answers.trans refreshed.answers⟩
        · rw [flatten_cons, append_assoc]
          exact (conserved.append_left _).trans refreshed.conserved
        · intro batch mem
          rcases mem_cons.mp mem with rfl | mem
          · exact ⟨some, refreshed.maxBatchSz ▸ refreshed.most, refreshed.fits⟩
          · obtain ⟨nonempty, most, fits⟩ := later batch mem
            refine ⟨nonempty, refreshed.maxBatchSz ▸ most, fun raw devices => ?_⟩
            refine fits raw fun t waits => devices t ?_
            exact refreshed.conserved.mem_iff.mp (mem_append_right _ waits)

/-- With more calls than targets the last batch is empty, and nothing is left behind. -/
theorem batches_end (o : Options) (random : Nat → Nat → Nat) {calls : Nat} :
    ∀ hs : HostGroupState, (hs.waiting o).length < calls →
      (batches o random calls hs).2.hostbatch = [] ∧
        (batches o random calls hs).2.undeferred = [] ∧
        (batches o random calls hs).2.deferBuffer = [] ∧
        Said hs.answers (batches o random calls hs).2.answers := by
  induction calls with
  | zero => exact fun _ fewer => absurd fewer (Nat.not_lt_zero _)
  | succ calls ih =>
    intro hs fewer
    have refreshed := refreshHostbatch_refreshed o (random calls) hs
    rw [batches]
    dsimp only
    split
    · next empty =>
        obtain ⟨queue, buffer, said⟩ := refreshed.ends empty
        exact ⟨empty, queue, buffer, said⟩
    · next some =>
        have length := refreshed.conserved.length_eq
        have pos := length_pos_iff_ne_nil.mpr some
        rw [length_append] at length
        obtain ⟨empty, queue, buffer, said⟩ := ih (refreshHostbatch o (random calls) hs)
          (by omega)
        obtain ⟨before, eq⟩ := refreshed.answers
        exact ⟨empty, queue, buffer, eq ▸ said.prepend before⟩

theorem upcoming_length (o : Options) (resumeIp : Option SockAddr)
    (answers : List (Option Candidate)) :
    (upcoming o resumeIp answers).length ≤ answers.length := by
  fun_induction upcoming o resumeIp answers with
  | case1 => exact Nat.le_refl 0
  | case2 resumeIp rest ih => exact Nat.le_succ_of_le ih
  | case3 resumeIp c rest ih => exact Nat.le_succ_of_le ih
  | case4 c rest ih =>
    rw [length_append, length_cons]
    cases setupTarget o c with
    | none =>
      show 0 + _ ≤ _
      omega
    | some t =>
      show 1 + _ ≤ _
      omega

/-- **No target is lost between host groups.** However large the batches are and whatever is
shuffled, repeated calls of `refresh_hostbatch` come to an empty batch; then nothing is in the
queue or the defer buffer, the target expressions had no more to give, and the batches together
have every target that they gave once. No batch before it is empty or too large, and in a raw scan
the targets of a batch fit together. -/
theorem hand_out_exact (o : Options) (random : Nat → Nat → Nat) (maxBatchSz : Nat)
    (lookahead : 0 < maxBatchSz) (answers : List (Option Candidate))
    (resumeIp : Option SockAddr) :
    let run := batches o random (answers.length + 1) (.new maxBatchSz lookahead answers resumeIp)
    (run.2.hostbatch = [] ∧ run.2.undeferred = [] ∧ run.2.deferBuffer = [] ∧
        Said answers run.2.answers) ∧
      (run.1.flatten ++ upcoming o run.2.resumeIp run.2.answers).Perm
        (upcoming o resumeIp answers) ∧
      ∀ batch ∈ run.1, batch ≠ [] ∧ batch.length ≤ maxBatchSz ∧
        (o.rawScan = true → Homogeneous batch) := by
  intro run
  have waiting : (HostGroupState.new maxBatchSz lookahead answers resumeIp).waiting o =
      upcoming o resumeIp answers := rfl
  have fewer := Nat.lt_succ_of_le (upcoming_length o resumeIp answers)
  obtain ⟨empty, queue, buffer, said⟩ := batches_end o random _ (waiting ▸ fewer)
  obtain ⟨conserved, each, -⟩ := batches_handedOut o random (answers.length + 1)
    (.new maxBatchSz lookahead answers resumeIp)
  refine ⟨⟨empty, queue, buffer, said⟩, ?_, fun batch mem => ?_⟩
  · rw [HostGroupState.waiting, queue, buffer, waiting] at conserved
    exact conserved
  · obtain ⟨nonempty, most, fits⟩ := each batch mem
    refine ⟨nonempty, most, fun raw => ?_⟩
    obtain ⟨alike, addresses⟩ := fits raw (upcoming_device raw resumeIp answers)
    refine ⟨fun first head t mem _ => ?_, addresses.filter _⟩
    exact alike first (mem_of_head? head) t mem

def rawOptions : Options := ⟨true, true, fun _ => rfl, false⟩

def hostOne : Candidate :=
  ⟨.inet 0x0a000001, some ⟨ascii "eth0", by decide, .inet 0x0a000002, true⟩⟩

/-- An address that is given twice comes in two batches. -/
theorem hand_out_exact_twice :
    let run := batches rawOptions (fun _ _ => 0) 3 (.new 8 (by decide) [some hostOne, some hostOne]
      none)
    run.1.map List.length = [1, 1] ∧
      (run.1.flatten ++ upcoming rawOptions run.2.resumeIp run.2.answers).Perm
        (upcoming rawOptions none [some hostOne, some hostOne]) :=
  ⟨by decide, (hand_out_exact rawOptions (fun _ _ => 0) 8 (by decide)
    [some hostOne, some hostOne] none).2.1⟩

end Nmap.Targets
