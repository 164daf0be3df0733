import Nmap.Ndiff.ScanDiff

/-!
# Pairs of hosts (`ndiff.py`)

`host_pairs` goes along two lists of hosts that are sorted by their ids. Hosts may have one id, and
then they are paired as long as both lists have one. A host without addresses and names has an id
of another type, which compares with no text (`hostPairs_iff`).
-/

namespace Nmap.Ndiff

open Nmap.Base List

/-- Each host is in one pair, on its side. No pair is empty, and with each id as many hosts are
joined as the shorter side has. -/
structure PairsUp (as bs : List Host) (pairs : List (Option Host × Option Host)) : Prop where
  left : (pairs.filterMap Prod.fst).Perm as
  right : (pairs.filterMap Prod.snd).Perm bs
  real : (none, none) ∉ pairs
  joined : ∀ id, pairs.countP (bothHave Host.getId Host.getId id) =
    min (as.countP fun x => x.getId = id) (bs.countP fun y => y.getId = id)

/-- Both lists are sorted and paired without an exception, and the pairs are as they should be.
`none` stands for a `Host()` that is put in the place of a missing one. -/
def PairsHosts (a b : Scan) : Prop :=
  ∃ a' b' pairs, a.sortHosts = .ok a' ∧ b.sortHosts = .ok b' ∧
    hostPairs a'.hosts b'.hosts = .ok (pairs.map fill) ∧ PairsUp a.hosts b.hosts pairs

theorem pairsUp_sorted (a b : Scan) :
    PairsUp a.hosts b.hosts (join Host.getId Host.getId a.sorted b.sorted) := by
  refine ⟨?_, ?_, none_none_not_mem_join _ _, fun id => ?_⟩
  · rw [filterMap_fst_join]
    exact a.sorted_perm
  · rw [filterMap_snd_join]
    exact b.sorted_perm
  · rw [← a.sorted_perm.countP_eq, ← b.sorted_perm.countP_eq]
    convert countP_join a.sorted_le b.sorted_le id

/-- **When hosts are paired.** Two lists of hosts are sorted and paired as they should be exactly
if all ids are texts or none is. -/
theorem hostPairs_iff (a b : Scan) : PairsHosts a b ↔ OneKind a.hosts b.hosts := by
  constructor
  · rintro ⟨_, _, _, sortA, sortB, merged, -⟩
    exact oneKind_of_merged sortA sortB merged
  intro kind
  have sortA := Scan.sortHosts_eq a fun x hx y hy =>
    kind x (mem_append_left _ hx) y (mem_append_left _ hy)
  have sortB := Scan.sortHosts_eq b fun x hx y hy =>
    kind x (mem_append_right _ hx) y (mem_append_right _ hy)
  have merged := hostPairs_eq a.sorted b.sorted
    (kind.mono (fun x => Scan.mem_sorted.mp) fun x => Scan.mem_sorted.mp)
  exact ⟨_, _, _, sortA, sortB, merged, pairsUp_sorted a b⟩

/-- A host with an address, and one without an address or a name -/
def oneNamed : Scan where
  hosts := [{ object := 1, addresses := [⟨.ipv4, "192.0.2.1"⟩] }]
  preScriptResults := []
  postScriptResults := []

def oneNameless : Scan where
  hosts := [{ object := 2 }]
  preScriptResults := []
  postScriptResults := []

/-- A text does not compare with a number. -/
theorem hostPairs_nameless : ¬ PairsHosts oneNamed oneNameless := by
  rintro ⟨_, _, _, sortA, sortB, merged, -⟩
  have same := oneKind_of_merged sortA sortB merged _ (mem_append_left _ mem_cons_self) _
    (mem_append_right _ mem_cons_self)
  simp [Host.getId, HostId.isText] at same

end Nmap.Ndiff
