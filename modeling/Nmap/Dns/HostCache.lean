import Nmap.Base.AgingCache
import Nmap.Dns.ReverseName
import Mathlib.Algebra.BigOperators.Fin
import Mathlib.Data.List.TakeWhile

/-!
# The cache of names (`massdns.cc`)

The names of addresses, in 256 lists. `isTimeToClean` ages a copy of an element, so no counter is
ever halved, and `prune` takes everything behind the first element that it finds.
-/

namespace Nmap.Dns

open Nmap.Base

/-! ## The cache -/

structure HostElem where
  name : Bytes
  addr : Address
  cacheHits : UInt8

/-- `isTimeToClean`. Its argument is a copy: the element in the list does not become the second
part. -/
def isTimeToClean (he : HostElem) : Bool × HostElem :=
  if he.cacheHits ≠ 0 then (false, { he with cacheHits := he.cacheHits >>> 1 }) else (true, he)

def linesCount : Nat := 256

def hashMask : UInt32 := 255

structure HostCache where
  hostsStorage : Fin linesCount → List HostElem
  elementsCount : UInt32

namespace HostCache

def new : HostCache := ⟨fun _ => [], 0⟩

/-- Four bytes of an address as a number of a little-endian host -/
def word (addr : Vector UInt8 16) (i : Fin 4) : UInt32 :=
  addr[4 * i.val].toUInt32 + (addr[4 * i.val + 1].toUInt32 <<< 8) +
    (addr[4 * i.val + 2].toUInt32 <<< 16) + (addr[4 * i.val + 3].toUInt32 <<< 24)

/-- The sum of `hash` -/
def hashSum : Address → UInt32
  | .inet ⟨⟨[a, b, c, d]⟩, _⟩ =>
    a.toUInt32 + (b.toUInt32 <<< 3) + (c.toUInt32 <<< 5) + (d.toUInt32 <<< 7)
  | .inet6 addr => word addr 0 + word addr 1 + word addr 2 + word addr 3

def hash (ip : Address) : UInt32 := hashSum ip &&& hashMask

theorem hash_lt (ip : Address) : (hash ip).toNat < linesCount := by
  unfold hash
  rw [UInt32.toNat_and]
  exact Nat.lt_succ_of_le Nat.and_le_right

/-- `hosts_storage[hash(ip)]`: the line of an address -/
def line (ip : Address) : Fin linesCount := ⟨(hash ip).toNat, hash_lt ip⟩

def sockaddrStorageEqual : Address → Address → Bool
  | .inet a, .inet b => a = b
  | .inet6 a, .inet6 b => a = b
  | _, _ => false

/-- The loop of `lookup`: the name, and the line with the hit -/
def lookupLine (ip : Address) : List HostElem → Option (Bytes × List HostElem)
  | [] => none
  | hostI :: rest =>
    if sockaddrStorageEqual hostI.addr ip then
      let cacheHits :=
        if hostI.cacheHits < 255 then hostI.cacheHits + 1 else hostI.cacheHits
      some (hostI.name, { hostI with cacheHits } :: rest)
    else (lookupLine ip rest).map fun (name, rest) => (name, hostI :: rest)

def lookup (c : HostCache) (ip : Address) : Option Bytes × HostCache :=
  match lookupLine ip (c.hostsStorage (line ip)) with
  | some (name, l) =>
    (some name, { c with hostsStorage := Function.update c.hostsStorage (line ip) l })
  | none => (none, c)

/-- The loop that erases what is left of a line, with its assertion -/
def eraseAll : List HostElem → UInt32 → Option UInt32
  | [], elementsCount => some elementsCount
  | _ :: rest, elementsCount =>
    if elementsCount > 0 then eraseAll rest (elementsCount - 1) else none

/-- What is in front of the element that `find_if` finds -/
def kept (l : List HostElem) : List HostElem := l.takeWhile fun he => !(isTimeToClean he).1

/-- `prune`, one line -/
def pruneLine (c : HostCache) (i : Fin linesCount) : Option HostCache :=
  let l := c.hostsStorage i
  (eraseAll (l.drop (kept l).length) c.elementsCount).map fun elementsCount =>
    ⟨Function.update c.hostsStorage i (kept l), elementsCount⟩

def prune (c : HostCache) : Option (UInt32 × HostCache) :=
  ((List.finRange linesCount).foldlM pruneLine c).map fun c' =>
    (c.elementsCount - c'.elementsCount, c')

def add (c : HostCache) (ip : Address) (hname : Bytes) : Option (Bool × HostCache) :=
  match c.lookup ip with
  | (some _, c) => some (false, c)
  | (none, c) =>
    (if c.elementsCount.toNat ≥ linesCount then c.prune.map Prod.snd else some c).map fun c =>
      let l := c.hostsStorage (line ip) ++ [⟨hname, ip, 0⟩]
      (true, ⟨Function.update c.hostsStorage (line ip) l, c.elementsCount + 1⟩)

def stored (c : HostCache) : List HostElem := (List.finRange linesCount).flatMap c.hostsStorage

/-- How the cache is used -/
inductive Call
  | add (ip : Address) (hname : Bytes)
  | lookup (ip : Address)

/-- What a call returns -/
inductive Answer
  | added (new : Bool)
  | found (name : Option Bytes)

/-- A call. A failed assertion is none. -/
def call (c : HostCache) : Call → Option (Answer × HostCache)
  | .add ip hname => (c.add ip hname).map fun (new, c) => (.added new, c)
  | .lookup ip => some (.found (c.lookup ip).1, (c.lookup ip).2)

/-! ## What it should do -/

/-- A call of a cache that ages as it should -/
noncomputable def idealCall (m : AgingCache Address Bytes) :
    Call → Answer × AgingCache Address Bytes
  | .add ip hname => (.added (m.add 255 linesCount ip hname).1, (m.add 255 linesCount ip hname).2)
  | .lookup ip => (.found (m.lookup 255 ip).1, (m.lookup 255 ip).2)

def lineEntry (l : List HostElem) (ip : Address) : Option (Bytes × Nat) :=
  (l.find? fun he => sockaddrStorageEqual he.addr ip).map fun he => (he.name, he.cacheHits.toNat)

/-- There is at most one element for an address, in its line, the elements are counted, and they
are the entries of the ideal cache. -/
structure Represents (c : HostCache) (m : AgingCache Address Bytes) : Prop where
  unique : (c.stored.map (·.addr)).Nodup
  placed : ∀ i, ∀ he ∈ c.hostsStorage i, line he.addr = i
  count : c.elementsCount.toNat = c.stored.length
  entry : ∀ ip, m.entry ip = lineEntry (c.hostsStorage (line ip)) ip

/-- The cache follows the ideal one: at every moment it represents it, and every call returns what
it should. -/
def Follows : HostCache → AgingCache Address Bytes → List Call → Prop
  | c, m, [] => c.Represents m
  | c, m, x :: calls => c.Represents m ∧
      ∃ c', c.call x = some ((idealCall m x).1, c') ∧ c'.Follows (idealCall m x).2 calls

/-! ## When it does -/

/-- The call makes room: its address is new, and there are too many entries. -/
def Prunes (c : HostCache) : Call → Prop
  | .add ip _ => (∀ he ∈ c.stored, he.addr ≠ ip) ∧ linesCount ≤ c.elementsCount.toNat
  | .lookup _ => False

/-- Whenever a call makes room, no element has a hit. -/
def PrunesUnused : HostCache → List Call → Prop
  | _, [] => True
  | c, x :: calls => (c.Prunes x → ∀ he ∈ c.stored, he.cacheHits = 0) ∧
      ∀ answer c', c.call x = some (answer, c') → c'.PrunesUnused calls

/-! ## One line -/

theorem sockaddrStorageEqual_iff (a b : Address) : sockaddrStorageEqual a b = true ↔ a = b := by
  cases a with
  | inet a =>
    cases b with
    | inet b => simp [sockaddrStorageEqual]
    | inet6 b => simp [sockaddrStorageEqual]
  | inet6 a =>
    cases b with
    | inet b => simp [sockaddrStorageEqual]
    | inet6 b => simp [sockaddrStorageEqual]

theorem lineEntry_cons (he : HostElem) (l : List HostElem) (ip : Address) :
    lineEntry (he :: l) ip =
      if he.addr = ip then some (he.name, he.cacheHits.toNat) else lineEntry l ip := by
  unfold lineEntry
  by_cases same : he.addr = ip
  · rw [if_pos same, List.find?_cons, (sockaddrStorageEqual_iff _ _).mpr same]
    rfl
  · have other : ¬ sockaddrStorageEqual he.addr ip = true :=
      fun equal => same ((sockaddrStorageEqual_iff _ _).mp equal)
    rw [if_neg same, List.find?_cons, eq_false_of_ne_true other]

variable {ip : Address}

theorem lineEntry_none {l : List HostElem} :
    lineEntry l ip = none ↔ ∀ he ∈ l, he.addr ≠ ip := by
  induction l with
  | nil => exact iff_of_true rfl fun he mem => absurd mem List.not_mem_nil
  | cons he l ih =>
    rw [lineEntry_cons, List.forall_mem_cons, ← ih]
    by_cases same : he.addr = ip
    · rw [if_pos same]
      exact iff_of_false (fun none => by cases none) fun all => all.1 same
    · rw [if_neg same]
      exact (and_iff_right same).symm

theorem lineEntry_append (l l' : List HostElem) (ip : Address) :
    lineEntry (l ++ l') ip = (lineEntry l ip).or (lineEntry l' ip) := by
  induction l with
  | nil => rfl
  | cons he l ih =>
    rw [List.cons_append, lineEntry_cons, lineEntry_cons, ih]
    split
    · rfl
    · rfl

variable {he : HostElem}

theorem lineEntry_mem {l : List HostElem} (unique : (l.map (·.addr)).Nodup) (mem : he ∈ l) :
    lineEntry l he.addr = some (he.name, he.cacheHits.toNat) := by
  induction l with
  | nil => exact absurd mem List.not_mem_nil
  | cons first l ih =>
    obtain ⟨fresh, rest⟩ := List.nodup_cons.mp unique
    rw [lineEntry_cons]
    rcases List.mem_cons.mp mem with rfl | mem
    · exact if_pos rfl
    · have other : first.addr ≠ he.addr := by
        intro same
        exact fresh (List.mem_map.mpr ⟨he, mem, same.symm⟩)
      rw [if_neg other]
      exact ih rest mem

theorem hits_succ (hits : UInt8) :
    (if hits < 255 then hits + 1 else hits).toNat = min 255 (hits.toNat + 1) := by
  have bound := hits.toNat_lt
  split
  · next below =>
      rw [UInt8.lt_iff_toNat_lt] at below
      have small : hits.toNat < 255 := below
      rw [UInt8.toNat_add]
      show (hits.toNat + 1) % 256 = _
      omega
  · next top =>
      rw [UInt8.lt_iff_toNat_lt] at top
      have large : ¬ hits.toNat < 255 := top
      omega

/-- The loop of `lookup` finds the entry of the address, and counts the hit there alone. -/
theorem lookupLine_spec (ip : Address) (l : List HostElem) :
    match lookupLine ip l with
    | none => lineEntry l ip = none
    | some (name, l') => ∃ hits, lineEntry l ip = some (name, hits) ∧
        l'.map (·.addr) = l.map (·.addr) ∧
        ∀ ip', lineEntry l' ip' =
          if ip' = ip then some (name, min 255 (hits + 1)) else lineEntry l ip' := by
  induction l with
  | nil => rfl
  | cons he l ih =>
    rw [lookupLine]
    by_cases same : he.addr = ip
    · rw [if_pos ((sockaddrStorageEqual_iff _ _).mpr same)]
      refine ⟨he.cacheHits.toNat, ?_, rfl, fun ip' => ?_⟩
      · rw [lineEntry_cons, if_pos same]
      · rw [lineEntry_cons, lineEntry_cons, hits_succ]
        by_cases here : ip' = ip
        · rw [if_pos (same.trans here.symm), if_pos here]
        · have other : he.addr ≠ ip' := fun eq => here (eq.symm.trans same)
          rw [if_neg other, if_neg here, if_neg other]
    · have other : ¬ sockaddrStorageEqual he.addr ip = true :=
        fun equal => same ((sockaddrStorageEqual_iff _ _).mp equal)
      rw [if_neg other]
      cases rest : lookupLine ip l with
      | none =>
        rw [rest] at ih
        show lineEntry (he :: l) ip = none
        rw [lineEntry_cons, if_neg same]
        exact ih
      | some r =>
        obtain ⟨name, l'⟩ := r
        rw [rest] at ih
        obtain ⟨hits, here, addrs, entries⟩ := ih
        refine ⟨hits, ?_, ?_, fun ip' => ?_⟩
        · rw [lineEntry_cons, if_neg same]
          exact here
        · rw [List.map_cons, List.map_cons, addrs]
        · rw [lineEntry_cons, lineEntry_cons, entries]
          by_cases first : he.addr = ip'
          · have apart : ip' ≠ ip := fun eq => same (first.trans eq)
            rw [if_pos first, if_pos first, if_neg apart]
          · rw [if_neg first, if_neg first]

/-! ## All lines -/

/-- The same, line by line -/
structure Lines (c : HostCache) (m : AgingCache Address Bytes) : Prop where
  unique : ∀ i, ((c.hostsStorage i).map (·.addr)).Nodup
  placed : ∀ i, ∀ he ∈ c.hostsStorage i, line he.addr = i
  count : c.elementsCount.toNat = ∑ i, (c.hostsStorage i).length
  entry : ∀ ip, m.entry ip = lineEntry (c.hostsStorage (line ip)) ip

theorem stored_length (c : HostCache) : c.stored.length = ∑ i, (c.hostsStorage i).length := by
  unfold stored
  rw [List.length_flatMap, Fin.sum_univ_def]

variable {c : HostCache}

theorem mem_stored :
    he ∈ c.stored ↔ ∃ i, he ∈ c.hostsStorage i := by
  unfold stored
  rw [List.mem_flatMap]
  constructor
  · rintro ⟨i, -, mem⟩
    exact ⟨i, mem⟩
  · rintro ⟨i, mem⟩
    exact ⟨i, List.mem_finRange i, mem⟩

theorem stored_unique (placed : ∀ i, ∀ he ∈ c.hostsStorage i, line he.addr = i) :
    (c.stored.map (·.addr)).Nodup ↔ ∀ i, ((c.hostsStorage i).map (·.addr)).Nodup := by
  unfold stored
  rw [List.map_flatMap, List.nodup_flatMap]
  constructor
  · rintro ⟨each, -⟩ i
    exact each i (List.mem_finRange i)
  · intro each
    refine ⟨fun i _ => each i, ?_⟩
    refine (List.nodup_finRange linesCount).imp fun {i j} apart => ?_
    intro ip first second
    obtain ⟨he, here, rfl⟩ := List.mem_map.mp first
    obtain ⟨he', there, same⟩ := List.mem_map.mp second
    refine apart ?_
    rw [← placed i he here, ← placed j he' there, same]

variable {m : AgingCache Address Bytes}

theorem represents_iff :
    c.Represents m ↔ c.Lines m := by
  constructor
  · rintro ⟨unique, placed, count, entry⟩
    rw [stored_length] at count
    exact ⟨(stored_unique placed).mp unique, placed, count, entry⟩
  · rintro ⟨unique, placed, count, entry⟩
    rw [← stored_length] at count
    exact ⟨(stored_unique placed).mpr unique, placed, count, entry⟩

theorem Lines.entry_none (lines : c.Lines m) : m.entry ip = none ↔ ∀ he ∈ c.stored,
    he.addr ≠ ip := by
  rw [lines.entry, lineEntry_none]
  constructor
  · intro none he mem same
    obtain ⟨i, here⟩ := mem_stored.mp mem
    have place := lines.placed i he here
    rw [same] at place
    rw [← place] at here
    exact none he here same
  · intro none he here
    exact none he (mem_stored.mpr ⟨_, here⟩)

theorem Lines.size (lines : c.Lines m) :
    m.size = c.elementsCount.toNat := by
  have nodup := (stored_unique lines.placed).mpr lines.unique
  have held : ∀ ip, m.entry ip ≠ none ↔ ip ∈ c.stored.map (·.addr) := by
    intro ip
    rw [Ne, lines.entry_none, List.mem_map]
    constructor
    · intro some
      by_contra none
      exact some fun he mem same => none ⟨he, mem, same⟩
    · rintro ⟨he, mem, same⟩ none
      exact none he mem same
  rw [AgingCache.size_eq nodup held, List.length_map, stored_length, lines.count]

/-! ## Looking up -/

theorem Lines.lookup (lines : c.Lines m) (ip : Address) :
    (c.lookup ip).1 = (m.entry ip).map Prod.fst ∧ (c.lookup ip).2.Lines (m.hit 255 ip) ∧
      (c.lookup ip).2.elementsCount = c.elementsCount ∧
      ((c.lookup ip).1 = none → (c.lookup ip).2 = c) := by
  have spec := lookupLine_spec ip (c.hostsStorage (line ip))
  unfold HostCache.lookup
  cases found : lookupLine ip (c.hostsStorage (line ip)) with
  | none =>
    rw [found] at spec
    have missing : m.entry ip = none := (lines.entry ip).trans spec
    rw [AgingCache.hit_none 255 missing, missing]
    exact ⟨rfl, lines, rfl, fun _ => rfl⟩
  | some r =>
    obtain ⟨name, l'⟩ := r
    rw [found] at spec
    obtain ⟨hits, here, addrs, entries⟩ := spec
    have held : m.entry ip = some (name, hits) := (lines.entry ip).trans here
    -- Only the line of the address changes, and none of its addresses.
    have same : ∀ i, (Function.update c.hostsStorage (line ip) l' i).map (·.addr) =
        (c.hostsStorage i).map (·.addr) := by
      intro i
      by_cases at_line : i = line ip
      · rw [at_line, Function.update_self, addrs]
      · rw [Function.update_of_ne at_line]
    refine ⟨by rw [held]; rfl, ⟨?_, ?_, ?_, ?_⟩, rfl, fun none => by cases none⟩
    · intro i
      show ((Function.update c.hostsStorage (line ip) l' i).map (·.addr)).Nodup
      rw [same]
      exact lines.unique i
    · intro i he mem
      have addr : he.addr ∈ (Function.update c.hostsStorage (line ip) l' i).map (·.addr) :=
        List.mem_map_of_mem mem
      rw [same] at addr
      obtain ⟨he', mem', eq⟩ := List.mem_map.mp addr
      rw [← eq]
      exact lines.placed i he' mem'
    · show c.elementsCount.toNat = _
      rw [lines.count]
      refine Finset.sum_congr rfl fun i _ => ?_
      have length := congrArg List.length (same i)
      rw [List.length_map, List.length_map] at length
      exact length.symm
    · intro ip'
      show (m.hit 255 ip).entry ip' =
        lineEntry (Function.update c.hostsStorage (line ip) l' (line ip')) ip'
      by_cases this : ip' = ip
      · rw [this, AgingCache.hit_self, Function.update_self, entries, if_pos rfl, held]
        rfl
      · rw [AgingCache.hit_of_ne 255 m this]
        by_cases at_line : line ip' = line ip
        · rw [at_line, Function.update_self, entries, if_neg this, ← at_line]
          exact lines.entry ip'
        · rw [Function.update_of_ne at_line]
          exact lines.entry ip'

/-! ## Pruning -/

theorem isTimeToClean_iff (he : HostElem) : (isTimeToClean he).1 = true ↔ he.cacheHits = 0 := by
  unfold isTimeToClean
  by_cases used : he.cacheHits ≠ 0
  · rw [if_pos used]
    exact iff_of_false Bool.false_ne_true used
  · rw [if_neg used]
    exact iff_of_true rfl (not_not.mp used)

theorem eraseAll_some : ∀ {l : List HostElem} {n : UInt32}, l.length ≤ n.toNat →
    ∃ n', eraseAll l n = some n' ∧ n'.toNat + l.length = n.toNat
  | [], n, _ => ⟨n, rfl, rfl⟩
  | he :: l, n, enough => by
    rw [List.length_cons] at enough
    have positive : n > 0 := by
      rw [gt_iff_lt, UInt32.lt_iff_toNat_lt]
      exact Nat.lt_of_lt_of_le (Nat.succ_pos _) enough
    have one : (1 : UInt32) ≤ n := by
      rw [UInt32.le_iff_toNat_le]
      exact Nat.le_trans (Nat.succ_le_succ (Nat.zero_le _)) enough
    have less : (n - 1).toNat = n.toNat - 1 := UInt32.toNat_sub_of_le _ _ one
    obtain ⟨n', erased, sum⟩ := eraseAll_some (l := l) (n := n - 1) (by omega)
    refine ⟨n', ?_, ?_⟩
    · rw [eraseAll, if_pos positive, erased]
    · rw [List.length_cons]
      omega

theorem kept_length (l : List HostElem) : (kept l).length ≤ l.length :=
  (List.takeWhile_prefix _).length_le

theorem kept_kept (l : List HostElem) : kept (kept l) = kept l := List.takeWhile_idem

/-- `prune` leaves of every line what `find_if` gets over, and counts what it takes. -/
theorem pruneLines_some (lines : List (Fin linesCount)) : ∀ (c : HostCache),
    c.elementsCount.toNat = ∑ i, (c.hostsStorage i).length →
    ∃ c', lines.foldlM pruneLine c = some c' ∧
      (∀ i, c'.hostsStorage i = if i ∈ lines then kept (c.hostsStorage i) else c.hostsStorage i) ∧
      c'.elementsCount.toNat = ∑ i, (c'.hostsStorage i).length := by
  induction lines with
  | nil => exact fun c count => ⟨c, rfl, fun i => by simp, count⟩
  | cons i lines ih =>
    intro c count
    have shorter := kept_length (c.hostsStorage i)
    have before : (c.hostsStorage i).length +
        ∑ j ∈ Finset.univ.erase i, (c.hostsStorage j).length =
          ∑ j, (c.hostsStorage j).length :=
      Finset.add_sum_erase _ (fun j => (c.hostsStorage j).length) (Finset.mem_univ i)
    have enough : ((c.hostsStorage i).drop (kept (c.hostsStorage i)).length).length ≤
        c.elementsCount.toNat := by
      rw [List.length_drop]
      omega
    obtain ⟨n, erased, sum⟩ := eraseAll_some enough
    rw [List.length_drop] at sum
    have first : c.pruneLine i =
        some ⟨Function.update c.hostsStorage i (kept (c.hostsStorage i)), n⟩ := by
      unfold pruneLine
      dsimp only
      rw [erased]
      rfl
    have fewer : n.toNat =
        ∑ j, (Function.update c.hostsStorage i (kept (c.hostsStorage i)) j).length := by
      rw [← Finset.add_sum_erase _
        (fun j => (Function.update c.hostsStorage i (kept (c.hostsStorage i)) j).length)
        (Finset.mem_univ i), Function.update_self]
      have others : ∑ j ∈ Finset.univ.erase i,
          (Function.update c.hostsStorage i (kept (c.hostsStorage i)) j).length =
            ∑ j ∈ Finset.univ.erase i, (c.hostsStorage j).length := by
        refine Finset.sum_congr rfl fun j mem => ?_
        rw [Function.update_of_ne (Finset.ne_of_mem_erase mem)]
      rw [others]
      omega
    obtain ⟨c', rest, storage, total⟩ := ih ⟨_, n⟩ fewer
    refine ⟨c', ?_, fun j => ?_, total⟩
    · rw [List.foldlM_cons, first]
      exact rest
    · rw [storage]
      show (if j ∈ lines then kept (Function.update c.hostsStorage i (kept (c.hostsStorage i)) j)
        else Function.update c.hostsStorage i (kept (c.hostsStorage i)) j) = _
      by_cases this : j = i
      · rw [this, Function.update_self, kept_kept, if_pos List.mem_cons_self]
        split
        · rfl
        · rfl
      · rw [Function.update_of_ne this]
        by_cases mem : j ∈ lines
        · rw [if_pos mem, if_pos (List.mem_cons_of_mem _ mem)]
        · have out : j ∉ i :: lines := by
            intro here
            rcases List.mem_cons.mp here with same | here
            · exact this same
            · exact mem here
          rw [if_neg mem, if_neg out]

theorem prune_some (count : c.elementsCount.toNat = ∑ i, (c.hostsStorage i).length) :
    ∃ c', c.prune.map Prod.snd = some c' ∧
      (∀ i, c'.hostsStorage i = kept (c.hostsStorage i)) ∧
      c'.elementsCount.toNat = ∑ i, (c'.hostsStorage i).length := by
  obtain ⟨c', run, storage, total⟩ := pruneLines_some (List.finRange linesCount) c count
  refine ⟨c', ?_, fun i => ?_, total⟩
  · unfold prune
    rw [run]
    rfl
  · rw [storage, if_pos (List.mem_finRange i)]

/-- If nothing has hits, everything is taken. -/
theorem Lines.prune_unused {c' : HostCache} (lines : c.Lines m)
    (unused : ∀ he ∈ c.stored, he.cacheHits = 0)
    (storage : ∀ i, c'.hostsStorage i = kept (c.hostsStorage i))
    (count : c'.elementsCount.toNat = ∑ i, (c'.hostsStorage i).length) :
    c'.Lines m.prune ∧ c'.elementsCount.toNat = 0 := by
  have nothing : ∀ i, c'.hostsStorage i = [] := by
    intro i
    rw [storage]
    unfold kept
    cases here : c.hostsStorage i with
    | nil => rfl
    | cons he l =>
      have mem : he ∈ c.stored := mem_stored.mpr ⟨i, by rw [here]; exact List.mem_cons_self⟩
      have clean := (isTimeToClean_iff he).mpr (unused he mem)
      rw [List.takeWhile_cons_of_neg (by rw [clean]; exact Bool.false_ne_true)]
  have gone : m.prune = AgingCache.empty := by
    refine AgingCache.prune_unused fun ip name hits held => ?_
    rw [lines.entry] at held
    unfold lineEntry at held
    obtain ⟨he, found, eq⟩ := Option.map_eq_some_iff.mp held
    have mem : he ∈ c.stored := mem_stored.mpr ⟨_, List.mem_of_find?_eq_some found⟩
    have zero := unused he mem
    cases eq
    rw [zero]
    rfl
  rw [gone]
  refine ⟨⟨fun i => ?_, fun i he mem => ?_, count, fun ip => ?_⟩, ?_⟩
  · rw [nothing]
    exact List.nodup_nil
  · rw [nothing] at mem
    exact absurd mem List.not_mem_nil
  · rw [nothing]
    rfl
  · rw [count]
    exact Finset.sum_eq_zero fun i _ => by rw [nothing]; rfl

/-! ## Adding -/

def push (c : HostCache) (ip : Address) (hname : Bytes) : HostCache :=
  ⟨Function.update c.hostsStorage (line ip) (c.hostsStorage (line ip) ++ [⟨hname, ip, 0⟩]),
    c.elementsCount + 1⟩

theorem Lines.push (lines : c.Lines m) (missing : m.entry ip = none) (hname : Bytes)
    (room : c.elementsCount.toNat < linesCount) :
    (c.push ip hname).Lines (m.insert ip hname) ∧
      (c.push ip hname).elementsCount.toNat = c.elementsCount.toNat + 1 := by
  have fresh : ∀ he ∈ c.hostsStorage (line ip), he.addr ≠ ip := by
    rw [lines.entry] at missing
    exact lineEntry_none.mp missing
  have next : (c.elementsCount + 1).toNat = c.elementsCount.toNat + 1 := by
    rw [UInt32.toNat_add]
    refine Nat.mod_eq_of_lt ?_
    show c.elementsCount.toNat + 1 < 4294967296
    unfold linesCount at room
    omega
  refine ⟨⟨fun i => ?_, fun i he mem => ?_, ?_, fun ip' => ?_⟩, next⟩
  · show ((Function.update c.hostsStorage (line ip) _ i).map (·.addr)).Nodup
    by_cases this : i = line ip
    · rw [this, Function.update_self, List.map_append, List.nodup_append]
      refine ⟨lines.unique _, List.nodup_singleton _, ?_⟩
      intro a front b last
      obtain ⟨he, mem, rfl⟩ := List.mem_map.mp front
      rw [List.mem_singleton.mp last]
      exact fresh he mem
    · rw [Function.update_of_ne this]
      exact lines.unique i
  · change he ∈ Function.update c.hostsStorage (line ip) _ i at mem
    by_cases this : i = line ip
    · rw [this, Function.update_self] at mem
      rw [this]
      rcases List.mem_append.mp mem with old | new
      · exact lines.placed _ he old
      · rw [List.mem_singleton.mp new]
    · rw [Function.update_of_ne this] at mem
      exact lines.placed i he mem
  · have one : ∀ i, ((c.push ip hname).hostsStorage i).length =
        (c.hostsStorage i).length + if i = line ip then 1 else 0 := by
      intro i
      show (Function.update c.hostsStorage (line ip) _ i).length = _
      by_cases this : i = line ip
      · rw [this, Function.update_self, if_pos rfl, List.length_append, List.length_singleton]
      · rw [Function.update_of_ne this, if_neg this, Nat.add_zero]
    have ones : ∑ i, (if i = line ip then 1 else 0) = 1 := by
      rw [Finset.sum_ite_eq' Finset.univ (line ip) fun _ => 1, if_pos (Finset.mem_univ _)]
    have total : ∑ i, ((c.push ip hname).hostsStorage i).length = c.elementsCount.toNat + 1 := by
      rw [Finset.sum_congr rfl fun i _ => one i, Finset.sum_add_distrib, ones, lines.count]
    exact next.trans total.symm
  · show (m.insert ip hname).entry ip' =
      lineEntry (Function.update c.hostsStorage (line ip) _ (line ip')) ip'
    by_cases same : ip' = ip
    · rw [same, AgingCache.insert_self, Function.update_self, lineEntry_append,
        lineEntry_none.mpr fresh, Option.none_or, lineEntry_cons, if_pos rfl]
      rfl
    · rw [AgingCache.insert_of_ne m same]
      by_cases this : line ip' = line ip
      · have other : lineEntry [⟨hname, ip, 0⟩] ip' = none :=
          (lineEntry_cons _ _ _).trans (if_neg (Ne.symm same))
        rw [this, Function.update_self, lineEntry_append, other, Option.or_none, ← this]
        exact lines.entry ip'
      · rw [Function.update_of_ne this]
        exact lines.entry ip'

theorem Lines.add_held (lines : c.Lines m) {e : Bytes × Nat} (held : m.entry ip = some e)
    (hname : Bytes) :
    c.add ip hname = some (false, (c.lookup ip).2) ∧
      m.add 255 linesCount ip hname = (false, m.hit 255 ip) := by
  have found := (lines.lookup ip).1
  rw [held] at found
  unfold HostCache.add AgingCache.add
  rw [held]
  generalize c.lookup ip = r at found
  obtain ⟨name, c'⟩ := r
  cases (show name = some e.1 from found)
  exact ⟨rfl, rfl⟩

theorem Lines.add_new (lines : c.Lines m) (missing : m.entry ip = none) (hname : Bytes) :
    c.add ip hname = (if linesCount ≤ c.elementsCount.toNat then c.prune.map Prod.snd
        else some c).map (fun c' => (true, c'.push ip hname)) ∧
      m.add 255 linesCount ip hname =
        (true, (if linesCount ≤ c.elementsCount.toNat then m.prune else m).insert ip hname) := by
  obtain ⟨found, -, -, same⟩ := lines.lookup ip
  rw [missing] at found
  have kept := same found
  unfold HostCache.add AgingCache.add
  rw [missing, lines.size]
  generalize c.lookup ip = r at found kept
  obtain ⟨name, c'⟩ := r
  cases (show name = none from found)
  cases (show c' = c from kept)
  exact ⟨rfl, rfl⟩

/-- **A call.** If nothing is used when room is made, the call returns what it should, and the cache
represents the ideal one again. -/
theorem Lines.call (lines : c.Lines m) (small : c.elementsCount.toNat ≤ linesCount) (x : Call)
    (unused : c.Prunes x → ∀ he ∈ c.stored, he.cacheHits = 0) :
    ∃ c', c.call x = some ((idealCall m x).1, c') ∧ c'.Lines (idealCall m x).2 ∧
      c'.elementsCount.toNat ≤ linesCount := by
  cases x with
  | lookup ip =>
    obtain ⟨found, after, count, -⟩ := lines.lookup ip
    refine ⟨(c.lookup ip).2, ?_, after, by rw [count]; exact small⟩
    show some (Answer.found (c.lookup ip).1, _) = some (Answer.found _, _)
    rw [found]
    rfl
  | add ip hname =>
    unfold HostCache.call idealCall
    dsimp only
    cases held : m.entry ip with
    | some e =>
      obtain ⟨run, ideal⟩ := lines.add_held held hname
      obtain ⟨-, after, count, -⟩ := lines.lookup ip
      rw [run, ideal]
      exact ⟨(c.lookup ip).2, rfl, after, by rw [count]; exact small⟩
    | none =>
      obtain ⟨run, ideal⟩ := lines.add_new held hname
      rw [run, ideal]
      by_cases full : linesCount ≤ c.elementsCount.toNat
      · have fresh := lines.entry_none.mp held
        obtain ⟨c', pruned, storage, count⟩ := prune_some lines.count
        obtain ⟨empty, zero⟩ := lines.prune_unused (unused ⟨fresh, full⟩) storage count
        have gone : m.prune.entry ip = none := by
          show AgingCache.aged (m.entry ip) = none
          rw [held]
          rfl
        obtain ⟨after, one⟩ := empty.push gone hname (by rw [zero]; decide)
        rw [if_pos full, if_pos full, pruned]
        refine ⟨c'.push ip hname, rfl, after, ?_⟩
        rw [one, zero]
        decide
      · have room : c.elementsCount.toNat < linesCount := Nat.lt_of_not_le full
        obtain ⟨after, one⟩ := lines.push held hname room
        rw [if_neg full, if_neg full]
        refine ⟨c.push ip hname, rfl, after, ?_⟩
        rw [one]
        exact room

/-- **A prune of an element with hits.** It is taken, or its hits stay as they are. -/
theorem Lines.call_used {c' : HostCache} (lines : c.Lines m) {x : Call} (prunes : c.Prunes x)
    {answer : Answer} (run : c.call x = some (answer, c')) (mem : he ∈ c.stored)
    (used : he.cacheHits ≠ 0) :
    ¬ c'.Lines (idealCall m x).2 := by
  cases x with
  | lookup ip => exact absurd prunes id
  | add ip hname =>
    obtain ⟨fresh, full⟩ := prunes
    have missing := lines.entry_none.mpr fresh
    obtain ⟨added, ideal⟩ := lines.add_new missing hname
    obtain ⟨pruned, prune, storage, -⟩ := prune_some lines.count
    rw [if_pos full, prune] at added
    unfold HostCache.call at run
    dsimp only at run
    rw [added] at run
    cases run
    unfold idealCall
    dsimp only
    rw [ideal, if_pos full]
    intro after
    have other : he.addr ≠ ip := fresh he mem
    obtain ⟨i, here⟩ := mem_stored.mp mem
    have place := lines.placed i he here
    rw [← place] at here
    have held := lineEntry_mem (lines.unique _) here
    -- The ideal cache halves the hits.
    have aged := after.entry he.addr
    have zero : he.cacheHits.toNat ≠ 0 := fun none => used (UInt8.toNat.inj none)
    obtain ⟨halved, less⟩ := AgingCache.aged_used he.name zero
    have ideal : (m.prune.insert ip hname).entry he.addr =
        some (he.name, he.cacheHits.toNat / 2) := by
      rw [AgingCache.insert_of_ne m.prune other]
      show AgingCache.aged (m.entry he.addr) = _
      rw [lines.entry, held, halved]
    -- The line has what `find_if` left in front.
    have found : lineEntry ((pruned.push ip hname).hostsStorage (line he.addr)) he.addr =
        lineEntry (kept (c.hostsStorage (line he.addr))) he.addr := by
      show lineEntry (Function.update pruned.hostsStorage (line ip) _ (line he.addr)) he.addr = _
      by_cases this : line he.addr = line ip
      · have last : lineEntry [⟨hname, ip, 0⟩] he.addr = none :=
          (lineEntry_cons _ _ _).trans (if_neg (Ne.symm other))
        rw [this, Function.update_self, lineEntry_append, last, Option.or_none, storage]
      · rw [Function.update_of_ne this, storage]
    rw [ideal, found] at aged
    have front := List.takeWhile_append_dropWhile (p := fun he => !(isTimeToClean he).1)
      (l := c.hostsStorage (line he.addr))
    rw [← front, lineEntry_append] at held
    change (lineEntry (kept _) he.addr).or _ = _ at held
    rw [← aged, Option.some_or] at held
    exact less (Prod.mk.inj (Option.some.inj held)).2

/-! ## Runs -/

theorem Follows.represents {calls : List Call} (follows : c.Follows m calls) : c.Represents m := by
  cases calls with
  | nil => exact follows
  | cons x calls => exact follows.1

theorem Lines.follows_iff (calls : List Call) : ∀ {c : HostCache} {m : AgingCache Address Bytes},
    c.Lines m → c.elementsCount.toNat ≤ linesCount →
    (c.Follows m calls ↔ c.PrunesUnused calls) := by
  induction calls with
  | nil => exact fun lines small => iff_of_true (represents_iff.mpr lines) trivial
  | cons x calls ih =>
    intro c m lines small
    constructor
    · rintro ⟨-, c', run, follows⟩
      have unused : c.Prunes x → ∀ he ∈ c.stored, he.cacheHits = 0 := by
        intro prunes he mem
        by_contra used
        exact lines.call_used prunes run mem used (represents_iff.mp follows.represents)
      refine ⟨unused, fun answer c'' run' => ?_⟩
      obtain ⟨after, run'', next, few⟩ := lines.call small x unused
      rw [run] at run' run''
      cases run'
      cases run''
      exact (ih next few).mp follows
    · rintro ⟨unused, rest⟩
      obtain ⟨c', run, next, few⟩ := lines.call small x unused
      exact ⟨represents_iff.mpr lines, c', run, (ih next few).mpr (rest _ c' run)⟩

theorem new_lines : new.Lines AgingCache.empty := by
  refine ⟨fun i => List.nodup_nil, fun i he mem => absurd mem List.not_mem_nil, ?_, fun ip => rfl⟩
  exact (Finset.sum_eq_zero fun i _ => rfl).symm

/-- **When the cache follows the ideal one.** A run of calls represents it at every moment, and
returns what it should, exactly if no element has a hit whenever room is made. -/
theorem hostCache_follows_iff (calls : List Call) :
    new.Follows AgingCache.empty calls ↔ new.PrunesUnused calls :=
  Lines.follows_iff calls new_lines (Nat.zero_le _)

/-! ## A run that does not -/

def manyAddresses : List Address :=
  (List.range 256).map fun k => .inet #v[UInt8.ofNat k, 0, 0, 0]

/-- They are added, the first one is looked up, and another one is added. -/
def manyCalls : List Call :=
  manyAddresses.map (Call.add · []) ++
    [.lookup (.inet #v[0, 0, 0, 0]), .add (.inet #v[0, 1, 0, 0]) []]

/-- Addresses that are new are added as long as there is room. -/
theorem adds_unused (rest : List Call) : ∀ (ips : List Address) {c : HostCache}
    {m : AgingCache Address Bytes}, c.Lines m → ips.Nodup → (∀ ip ∈ ips, m.entry ip = none) →
    c.elementsCount.toNat + ips.length ≤ linesCount →
    c.PrunesUnused (ips.map (Call.add · []) ++ rest) →
    ∃ c' m', HostCache.Lines c' m' ∧ c'.elementsCount.toNat = c.elementsCount.toNat + ips.length ∧
      (∀ ip, m'.entry ip = if ip ∈ ips then some ([], 0) else m.entry ip) ∧
      c'.PrunesUnused rest
  | [], c, m, lines, _, _, _, unused => ⟨c, m, lines, rfl, fun ip => rfl, unused⟩
  | ip :: ips, c, m, lines, nodup, missing, room, unused => by
    obtain ⟨fresh, nodup⟩ := List.nodup_cons.mp nodup
    rw [List.length_cons] at room
    have held := missing ip List.mem_cons_self
    obtain ⟨next, one⟩ := lines.push held [] (by omega)
    have run : c.call (.add ip []) = some (.added true, c.push ip []) := by
      unfold HostCache.call
      dsimp only
      rw [(lines.add_new held []).1, if_neg (by omega)]
      rfl
    have others : ∀ ip' ∈ ips, (m.insert ip []).entry ip' = none := by
      intro ip' mem
      have apart : ip' ≠ ip := by
        rintro rfl
        exact fresh mem
      exact (AgingCache.insert_of_ne m apart []).trans (missing ip' (List.mem_cons_of_mem _ mem))
    obtain ⟨c', m', after, count, entries, left⟩ :=
      adds_unused rest ips next nodup others (by omega) (unused.2 _ _ run)
    refine ⟨c', m', after, ?_, fun ip' => ?_, left⟩
    · rw [count, one, List.length_cons]
      omega
    · rw [entries]
      by_cases this : ip' = ip
      · rw [this, if_neg fresh, if_pos List.mem_cons_self]
        exact AgingCache.insert_self m ip []
      · rw [AgingCache.insert_of_ne m this]
        by_cases mem : ip' ∈ ips
        · rw [if_pos mem, if_pos (List.mem_cons_of_mem _ mem)]
        · have out : ip' ∉ ip :: ips := by
            intro here
            rcases List.mem_cons.mp here with eq | here
            · exact this eq
            · exact mem here
          rw [if_neg mem, if_neg out]

theorem manyAddresses_nodup : manyAddresses.Nodup := by
  refine List.Nodup.map_on ?_ List.nodup_range
  intro k small k' small' same
  have bound := List.mem_range.mp small
  have bound' := List.mem_range.mp small'
  have bytes := congrArg (fun v : Vector UInt8 4 => v[0].toNat) (Address.inet.inj same)
  change k % 256 = k' % 256 at bytes
  omega

/-- The element that was looked up has a hit when the last address is added. -/
theorem hostCache_strays : ¬ new.Follows AgingCache.empty manyCalls := by
  rw [Lines.follows_iff manyCalls new_lines (Nat.zero_le _)]
  intro unused
  have length : manyAddresses.length = 256 := by
    rw [manyAddresses, List.length_map, List.length_range]
  obtain ⟨c, m, lines, count, entries, unused⟩ := adds_unused _ manyAddresses new_lines
    manyAddresses_nodup (fun _ _ => rfl) (by rw [length]; decide) unused
  have full : c.elementsCount.toNat = linesCount := count.trans (by rw [length]; rfl)
  have first : (Address.inet #v[0, 0, 0, 0]) ∈ manyAddresses :=
    List.mem_map.mpr ⟨0, List.mem_range.mpr (by decide), rfl⟩
  have another : (Address.inet #v[0, 1, 0, 0]) ∉ manyAddresses := by
    intro mem
    obtain ⟨k, -, same⟩ := List.mem_map.mp mem
    have bytes := congrArg (fun v : Vector UInt8 4 => v[1]) (Address.inet.inj same)
    change (0 : UInt8) = 1 at bytes
    exact absurd bytes (by decide)
  obtain ⟨-, next, same, -⟩ := lines.lookup (.inet #v[0, 0, 0, 0])
  have prunes := (unused.2 _ _ rfl).1
  have held : (m.hit 255 (.inet #v[0, 0, 0, 0])).entry (.inet #v[0, 0, 0, 0]) = some ([], 1) := by
    rw [AgingCache.hit_self, entries, if_pos first]
    rfl
  have missing : (m.hit 255 (.inet #v[0, 0, 0, 0])).entry (.inet #v[0, 1, 0, 0]) = none := by
    rw [AgingCache.hit_of_ne 255 m (by decide), entries, if_neg another]
    rfl
  have zero := prunes ⟨next.entry_none.mp missing, by rw [same, full]⟩
  rw [next.entry] at held
  unfold lineEntry at held
  obtain ⟨he, found, eq⟩ := Option.map_eq_some_iff.mp held
  have none := zero he (mem_stored.mpr ⟨_, List.mem_of_find?_eq_some found⟩)
  have hits := (Prod.mk.inj eq).2
  rw [none] at hits
  exact absurd hits (by decide)

end HostCache

end Nmap.Dns
