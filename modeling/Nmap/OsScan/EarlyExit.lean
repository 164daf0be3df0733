import Nmap.OsScan.Fingerprint
import Mathlib.Algebra.Order.Field.Basic
import Mathlib.Tactic.FieldSimp
import Mathlib.Tactic.Linarith

/-!
# The early exit of the comparison

Without `verbose` the comparison ends when more points have been missed than the threshold
leaves. This is sound as long as `numprints`, which has 16 bits, is the number of points that are
possible.
-/

namespace Nmap.OsScan

open Nmap.Base List

variable {d : FingerPrintDef} {ref obs : FingerPrint}

/-! ## One test -/

/-- The points of a test that a fingerprint may get -/
def maxPoints (d : FingerPrintDef) (t : TestID) : Option (Results t) → Nat
  | none => 0
  | some results => getMaxPoints d t results

variable {t : TestID} {n m : Nat × Nat}

/-- The loop adds to the points that are possible no more than those of the values that are
there, and at least as many as to those that are got. -/
theorem matchAttr_bounds {refV fpV : Results t} {l : List (Fin t.numAttrs)}
    (ran : l.foldlM (matchAttr d t refV fpV) n = some m) :
    (∃ a b, b ≤ a ∧ m = (n.1 + a, n.2 + b)) ∧
      m.1 ≤ n.1 + (l.map fun i => if (refV i).isSome then d.points t i else 0).sum := by
  induction l generalizing n with
  | nil =>
    cases ran
    exact ⟨⟨0, 0, le_rfl, rfl⟩, by simp⟩
  | cons i rest ih =>
    rw [foldlM_cons] at ran
    obtain ⟨next, first, later⟩ := Option.bind_eq_some_iff.mp ran
    obtain ⟨⟨a, b, le, eq⟩, bound⟩ := ih later
    rw [map_cons, sum_cons]
    rw [matchAttr] at first
    split at first
    · next currentRef currentFp hasRef _ =>
        obtain ⟨matched, -, first⟩ := Option.bind_eq_some_iff.mp first
        cases first
        rw [if_pos (by simp [hasRef])]
        refine ⟨⟨d.points t i + a, (if matched then d.points t i else 0) + b, ?_, ?_⟩, ?_⟩
        · split <;> omega
        · rw [eq]
          cases matched
          · simp [Nat.add_assoc]
          · simp [Nat.add_assoc]
        · dsimp only at bound
          omega
    · cases first
      exact ⟨⟨a, b, le, eq⟩, by omega⟩

theorem avalMatch_bounds {reference fprint : Option (Results t)}
    (ran : avalMatch d t reference fprint = some n) :
    n.2 ≤ n.1 ∧ n.1 ≤ maxPoints d t reference := by
  unfold avalMatch at ran
  split at ran
  · obtain ⟨⟨a, b, le, eq⟩, bound⟩ := matchAttr_bounds ran
    subst eq
    exact ⟨by simpa using le, by simpa [maxPoints, getMaxPoints] using bound⟩
  · cases ran
    exact ⟨le_rfl, Nat.zero_le _⟩

/-! ## The loop over the tests -/

/-- The points of these tests that a fingerprint may get -/
def possible (d : FingerPrintDef) (fp : FingerPrint) (l : List TestID) : Nat :=
  (l.map fun t => maxPoints d t (fp.tests t)).sum

variable {limit : Nat} {l : List TestID}

theorem compareLoop_bounds (ran : compareLoop d ref obs true limit l n = some m) :
    (∃ a b, b ≤ a ∧ m = (n.1 + a, n.2 + b)) ∧ m.1 ≤ n.1 + possible d ref l := by
  induction l generalizing n with
  | nil =>
    cases ran
    exact ⟨⟨0, 0, le_rfl, rfl⟩, by simp [possible]⟩
  | cons t rest ih =>
    rw [compareLoop] at ran
    obtain ⟨added, first, later⟩ := Option.bind_eq_some_iff.mp ran
    obtain ⟨firstLe, firstBound⟩ := avalMatch_bounds first
    rw [if_neg (by simp)] at later
    obtain ⟨⟨a, b, le, eq⟩, bound⟩ := ih later
    refine ⟨⟨added.1 + a, added.2 + b, by omega, by simp [eq, Nat.add_assoc]⟩, ?_⟩
    rw [possible, map_cons, sum_cons]
    rw [possible] at bound
    dsimp only at bound
    omega

/-- The comparison without `verbose` ends as the whole comparison, or at the first tests after
which too much was missed. -/
theorem compareLoop_cut (ran : compareLoop d ref obs false limit l n = some m) :
    compareLoop d ref obs true limit l n = some m ∨
      ∃ before later, l = before ++ later ∧ limit < m.1 - m.2 ∧
        compareLoop d ref obs true limit before n = some m := by
  induction l generalizing n with
  | nil => exact .inl ran
  | cons t rest ih =>
    rw [compareLoop] at ran
    obtain ⟨added, first, later⟩ := Option.bind_eq_some_iff.mp ran
    have begins (l : List TestID) : compareLoop d ref obs true limit (t :: l) n =
        compareLoop d ref obs true limit l (n.1 + added.1, n.2 + added.2) := by
      rw [compareLoop, first]
      rfl
    dsimp only at later
    split at later
    · next cut =>
        cases later
        refine .inr ⟨[t], rest, rfl, cut.2, ?_⟩
        rw [begins]
        rfl
    · rcases ih later with whole | ⟨before, later, eq, missed, whole⟩
      · exact .inl (by rw [begins, whole])
      · exact .inr ⟨t :: before, later, by rw [eq, cons_append], missed,
          by rw [begins, whole]⟩

/-- A whole comparison that returns does so without `verbose`. -/
theorem compareLoop_returns (ran : compareLoop d ref obs true limit l n = some m) :
    ∃ m', compareLoop d ref obs false limit l n = some m' := by
  induction l generalizing n with
  | nil => exact ⟨n, rfl⟩
  | cons t rest ih =>
    rw [compareLoop] at ran
    obtain ⟨added, first, later⟩ := Option.bind_eq_some_iff.mp ran
    rw [if_neg (by simp)] at later
    rw [compareLoop, first]
    dsimp only [Option.bind_eq_bind, Option.bind_some]
    split
    · exact ⟨_, rfl⟩
    · exact ih later

theorem compareLoop_append (before later : List TestID) (n : Nat × Nat) :
    compareLoop d ref obs true limit (before ++ later) n =
      (compareLoop d ref obs true limit before n).bind
        (compareLoop d ref obs true limit later) := by
  induction before generalizing n with
  | nil => rfl
  | cons t rest ih =>
    rw [cons_append, compareLoop, compareLoop]
    cases avalMatch d t (ref.tests t) (obs.tests t) with
    | none => rfl
    | some added => exact ih _

/-- The limit does not matter with `verbose`. -/
theorem compareLoop_limit (limit limit' : Nat) (l : List TestID) (n : Nat × Nat) :
    compareLoop d ref obs true limit l n = compareLoop d ref obs true limit' l n := by
  induction l generalizing n with
  | nil => rfl
  | cons t rest ih =>
    rw [compareLoop, compareLoop]
    cases avalMatch d t (ref.tests t) (obs.tests t) with
    | none => rfl
    | some added => exact ih _

/-! ## The threshold -/

variable {threshold : ℚ}

theorem accuracy_lt (possible : UInt16) (most : threshold ≤ 1) (got : n.2 ≤ n.1)
    (bound : n.1 ≤ possible.toNat) (missed : maxMismatch threshold possible < n.1 - n.2) :
    accuracy n < threshold := by
  have points : 0 < n.1 := by omega
  have left : (1 - threshold) * possible.toNat < ((n.1 - n.2 : Nat) : ℚ) :=
    Nat.lt_of_floor_lt missed
  rw [Nat.cast_sub got] at left
  have fewer : (1 - threshold) * n.1 ≤ (1 - threshold) * possible.toNat :=
    mul_le_mul_of_nonneg_left (by exact_mod_cast bound) (by linarith)
  have pos : (0 : ℚ) < n.1 := by exact_mod_cast points
  rw [accuracy, if_neg (by omega), div_lt_iff₀ pos]
  linarith

/-- `numprints` is at least what the tests can give. -/
def CountsAll (d : FingerPrintDef) (fp : FingerPrint) : Prop :=
  possible d fp TestID.all ≤ fp.numprints.toNat

/-- Below the threshold the comparison may be cut short, and not from the threshold on. -/
theorem compareFingerprints_cut {v : ℚ} (counts : CountsAll d ref) (most : threshold ≤ 1)
    (whole : compareFingerprints ref obs d true threshold = some v) :
    ∃ e, compareFingerprints ref obs d false threshold = some e ∧
      (e = v ∨ (v < threshold ∧ e < threshold)) := by
  obtain ⟨m, loop, rfl⟩ := Option.map_eq_some_iff.mp whole
  obtain ⟨m', short⟩ := compareLoop_returns loop
  refine ⟨accuracy m', by rw [compareFingerprints, short]; rfl, ?_⟩
  rcases compareLoop_cut short with same | ⟨before, later, all, missed, cut⟩
  · rw [loop] at same
    cases same
    exact .inl rfl
  · rw [all, compareLoop_append, cut] at loop
    obtain ⟨⟨a, b, le, eq⟩, bound⟩ := compareLoop_bounds cut
    obtain ⟨⟨a', b', le', eq'⟩, bound'⟩ := compareLoop_bounds loop
    have total : possible d ref before + possible d ref later = possible d ref TestID.all := by
      rw [all, possible, possible, possible, map_append, sum_append]
    simp only [Nat.zero_add] at eq bound
    subst eq eq'
    dsimp only at missed bound bound' ⊢
    rw [CountsAll] at counts
    right
    constructor
    · exact accuracy_lt ref.numprints most (by dsimp only; omega) (by dsimp only; omega)
        (by dsimp only; omega)
    · exact accuracy_lt ref.numprints most le (by dsimp only; omega) missed

/-! ## Loaded fingerprints -/

theorem sum_map_replaced {α : Type} [DecidableEq α] {l : List α} {f g : α → Nat} {t : α}
    (mem : t ∈ l) (nodup : l.Nodup) (same : ∀ u ≠ t, g u = f u) :
    (l.map g).sum + f t = (l.map f).sum + g t := by
  have split (h : α → Nat) : (l.map h).sum = h t + ((l.erase t).map h).sum :=
    ((perm_cons_erase mem).map h).sum_eq
  have others : (l.erase t).map g = (l.erase t).map f := by
    refine map_congr_left fun u inside => same u ?_
    exact (nodup.mem_erase_iff.mp inside).1
  rw [split f, split g, others]
  omega

theorem TestID.nodup_all : TestID.all.Nodup := by decide

theorem possible_addTest {fp : FingerPrint} {line : TestLine} (fresh : fp.tests line.id = none) :
    possible d (fp.addTest d line) TestID.all =
      possible d fp TestID.all + getMaxPoints d line.id line.results := by
  have same : ∀ u ≠ line.id, maxPoints d u ((fp.addTest d line).tests u) =
      maxPoints d u (fp.tests u) := by
    intro u other
    simp [FingerPrint.addTest, FingerPrint.setTest, Function.update_of_ne other]
  have added : (fp.addTest d line).tests line.id = some line.results :=
    Function.update_self ..
  have replaced := sum_map_replaced line.id.mem_all TestID.nodup_all same
  rw [fresh, added, maxPoints, maxPoints, Nat.add_zero] at replaced
  rw [possible, possible, replaced]

/-- The lines of a fingerprint have different tests. -/
def Distinct (lines : List TestLine) : Prop := (lines.map TestLine.id).Nodup

variable {lines : List TestLine}

/-- `numprints` is the number of points that are possible, in 16 bits. -/
theorem numprints_foldl (distinct : Distinct lines) :
    ∀ fp : FingerPrint, (∀ line ∈ lines, fp.tests line.id = none) →
      fp.numprints.toNat = possible d fp TestID.all % 65536 →
      (lines.foldl (FingerPrint.addTest d) fp).numprints.toNat =
        possible d (lines.foldl (FingerPrint.addTest d) fp) TestID.all % 65536 := by
  induction lines with
  | nil =>
    intro fp _ start
    exact start
  | cons line rest ih =>
    intro fp fresh start
    have distinct : line.id ∉ rest.map TestLine.id ∧ Distinct rest := by
      simpa [Distinct] using distinct
    refine ih distinct.2 _ ?_ ?_
    · intro other mem
      have ne : other.id ≠ line.id := fun same =>
        distinct.1 (same ▸ mem_map_of_mem mem)
      simp only [FingerPrint.addTest, FingerPrint.setTest, Function.update_of_ne ne]
      exact fresh other (mem_cons_of_mem _ mem)
    · rw [possible_addTest (fresh line mem_cons_self)]
      show (fp.numprints + UInt16.ofNat _).toNat = _
      rw [UInt16.toNat_add, start]
      simp

theorem loadFingerprint_numprints (d : FingerPrintDef) (name : Bytes) (distinct : Distinct lines) :
    (loadFingerprint d name lines).numprints.toNat =
      possible d (loadFingerprint d name lines) TestID.all % 65536 :=
  numprints_foldl distinct (.new name) (fun _ _ => rfl) (by
    simp [possible, FingerPrint.new, maxPoints])

/-! ## Match points -/

def FingerPrintDef.testPoints (d : FingerPrintDef) (t : TestID) : Nat :=
  ((List.finRange t.numAttrs).map (d.points t)).sum

def FingerPrintDef.total (d : FingerPrintDef) : Nat := (TestID.all.map d.testPoints).sum

def FingerPrintDef.OneTest (d : FingerPrintDef) : Prop :=
  ∃ t, ∀ u ≠ t, d.testPoints u = 0

theorem maxPoints_le (d : FingerPrintDef) (t : TestID) (results : Option (Results t)) :
    maxPoints d t results ≤ d.testPoints t := by
  cases results with
  | none => exact Nat.zero_le _
  | some results =>
    refine sum_le_sum fun i _ => ?_
    split <;> omega

theorem possible_le_total (d : FingerPrintDef) (fp : FingerPrint) :
    possible d fp TestID.all ≤ d.total :=
  sum_le_sum fun t _ => maxPoints_le d t (fp.tests t)

/-- The claim about one comparison: the early exit changes no accuracy that reaches the
threshold, and lifts none to it. -/
def EarlyExitSound (d : FingerPrintDef) (ref obs : FingerPrint) (threshold : ℚ) : Prop :=
  ∀ v, compareFingerprints ref obs d true threshold = some v →
    ∃ e, compareFingerprints ref obs d false threshold = some e ∧
      (threshold ≤ v → e = v) ∧ (v < threshold → e < threshold)

theorem EarlyExitSound.of_counts (counts : CountsAll d ref) (most : threshold ≤ 1) :
    EarlyExitSound d ref obs threshold := by
  intro v whole
  obtain ⟨e, ran, same | ⟨low, low'⟩⟩ := compareFingerprints_cut counts most whole
  · exact ⟨e, ran, fun _ => same, fun low => same ▸ low⟩
  · exact ⟨e, ran, fun high => absurd low (not_lt.mpr high), fun _ => low'⟩

/-- When only one test has points the exit comes after it. -/
theorem compareFingerprints_oneTest (one : d.OneTest) {v : ℚ}
    (whole : compareFingerprints ref obs d true threshold = some v) :
    compareFingerprints ref obs d false threshold = some v := by
  obtain ⟨t, others⟩ := one
  obtain ⟨m, loop, rfl⟩ := Option.map_eq_some_iff.mp whole
  obtain ⟨m', short⟩ := compareLoop_returns loop
  rw [compareFingerprints, short]
  rcases compareLoop_cut short with same | ⟨before, later, all, missed, cut⟩
  · rw [loop] at same
    cases same
    rfl
  · have nothing : ∀ l : List TestID, t ∉ l → possible d ref l = 0 := by
      intro l outside
      refine sum_eq_zero fun n mem => ?_
      obtain ⟨u, inside, rfl⟩ := mem_map.mp mem
      have bound := maxPoints_le d u (ref.tests u)
      rw [others u fun same => outside (same ▸ inside)] at bound
      exact Nat.le_zero.mp bound
    obtain ⟨-, bound⟩ := compareLoop_bounds cut
    have inside : t ∈ before := by
      by_contra outside
      rw [nothing before outside] at bound
      omega
    have nodup : (before ++ later).Nodup := all ▸ TestID.nodup_all
    have outside : t ∉ later := fun mem =>
      (nodup_append.mp nodup).2.2 t inside t mem rfl
    rw [all, compareLoop_append, cut] at loop
    obtain ⟨⟨a, b, le, eq⟩, bound'⟩ := compareLoop_bounds loop
    rw [nothing later outside] at bound'
    subst eq
    have a0 : a = 0 := by dsimp only at bound'; omega
    have b0 : b = 0 := by omega
    subst a0 b0
    rfl

/-! ## Too many points -/

/-- The text `Y` -/
def yes : CString := ⟨[0x59], by decide⟩

/-- The text `N` -/
def no : CString := ⟨[0x4e], by decide⟩

theorem exprMatch_yes (nested : Bool) : exprMatch yes.bytes 0 yes.bytes 0 nested = some true := by
  cases nested <;> decide

theorem exprMatch_no (nested : Bool) : exprMatch no.bytes 0 yes.bytes 0 nested = some false := by
  cases nested <;> decide

def allYes (t : TestID) : Results t := fun _ => some yes

/-- All values are there, and one differs. -/
def oneNo (t : TestID) (i : Fin t.numAttrs) : Results t := Function.update (allYes t) i (some no)

theorem avalMatch_yes (t : TestID) :
    avalMatch d t (some (allYes t)) (some (allYes t)) = some (d.testPoints t, d.testPoints t) := by
  have loop (l : List (Fin t.numAttrs)) : ∀ n : Nat × Nat,
      l.foldlM (matchAttr d t (allYes t) (allYes t)) n =
        some (n.1 + (l.map (d.points t)).sum, n.2 + (l.map (d.points t)).sum) := by
    induction l with
    | nil => exact fun n => rfl
    | cons i rest ih =>
      intro n
      have first : matchAttr d t (allYes t) (allYes t) n i =
          some (n.1 + d.points t i, n.2 + d.points t i) := by
        simp [matchAttr, allYes, exprMatch_yes]
      rw [foldlM_cons, first, Option.bind_eq_bind, Option.bind_some, ih]
      simp [Nat.add_assoc]
  simpa [avalMatch, FingerPrintDef.testPoints] using loop (List.finRange t.numAttrs) (0, 0)

/-- The score of a test with a value that differs -/
theorem avalMatch_no (t : TestID) (i : Fin t.numAttrs) :
    avalMatch d t (some (allYes t)) (some (oneNo t i)) =
      some (d.testPoints t, d.testPoints t - d.points t i) := by
  let got (j : Fin t.numAttrs) : Nat := if j = i then 0 else d.points t j
  have loop (l : List (Fin t.numAttrs)) : ∀ n : Nat × Nat,
      l.foldlM (matchAttr d t (allYes t) (oneNo t i)) n =
        some (n.1 + (l.map (d.points t)).sum, n.2 + (l.map got).sum) := by
    induction l with
    | nil => exact fun n => rfl
    | cons j rest ih =>
      intro n
      have first : matchAttr d t (allYes t) (oneNo t i) n j =
          some (n.1 + d.points t j, n.2 + got j) := by
        by_cases same : j = i
        · subst same
          simp [matchAttr, allYes, oneNo, exprMatch_no, got]
        · simp [matchAttr, allYes, oneNo, exprMatch_yes, got, same]
      rw [foldlM_cons, first, Option.bind_eq_bind, Option.bind_some, ih]
      simp [Nat.add_assoc]
  have replaced : ((List.finRange t.numAttrs).map got).sum + d.points t i =
      d.testPoints t + got i :=
    sum_map_replaced (mem_finRange i) (nodup_finRange _) fun j other => if_neg other
  have none : got i = 0 := if_pos rfl
  have sum : ((List.finRange t.numAttrs).map got).sum = d.testPoints t - d.points t i := by omega
  have ran := loop (List.finRange t.numAttrs) (0, 0)
  rw [sum] at ran
  simpa [avalMatch, FingerPrintDef.testPoints] using ran

def allYesLines : List TestLine := TestID.all.map fun t => ⟨t, allYes t⟩

theorem allYesLines_distinct : Distinct allYesLines := by
  rw [Distinct, allYesLines, map_map]
  exact (map_id TestID.all).symm ▸ TestID.nodup_all

theorem loadFingerprint_allYes (d : FingerPrintDef) (name : Bytes) (t : TestID) :
    (loadFingerprint d name allYesLines).tests t = some (allYes t) := by
  cases t <;> rfl

/-- The observation that differs in one value -/
def observedNo (t : TestID) (i : Fin t.numAttrs) : FingerPrint where
  name := []
  numprints := 0
  tests := Function.update (fun u => some (allYes u)) t (some (oneNo t i))

theorem avalMatch_observedNo (name : Bytes) (i : Fin t.numAttrs) (u : TestID) :
    avalMatch d u ((loadFingerprint d name allYesLines).tests u) ((observedNo t i).tests u) =
      some (d.testPoints u, if u = t then d.testPoints u - d.points t i else d.testPoints u) := by
  rw [loadFingerprint_allYes]
  by_cases same : u = t
  · subst same
    simp [observedNo, avalMatch_no]
  · simp [observedNo, same, avalMatch_yes]

theorem compareLoop_scores {c : TestID → Nat × Nat}
    (scores : ∀ u, avalMatch d u (ref.tests u) (obs.tests u) = some (c u)) (l : List TestID) :
    ∀ n : Nat × Nat, compareLoop d ref obs true limit l n =
      some (n.1 + (l.map fun u => (c u).1).sum, n.2 + (l.map fun u => (c u).2).sum) := by
  induction l with
  | nil => exact fun n => rfl
  | cons u rest ih =>
    intro n
    rw [compareLoop, scores, Option.bind_eq_bind, Option.bind_some]
    rw [if_neg (by simp), ih]
    simp [Nat.add_assoc]

theorem compareLoop_skip {before : List TestID} (later : List TestID)
    (nothing : ∀ u ∈ before, avalMatch d u (ref.tests u) (obs.tests u) = some (0, 0)) :
    compareLoop d ref obs false limit (before ++ later) (0, 0) =
      compareLoop d ref obs false limit later (0, 0) := by
  induction before with
  | nil => rfl
  | cons u rest ih =>
    rw [cons_append, compareLoop, nothing u mem_cons_self, Option.bind_eq_bind,
      Option.bind_some]
    rw [if_neg (by simp)]
    exact ih fun v mem => nothing v (mem_cons_of_mem u mem)

theorem exists_first {f : TestID → Nat} (some : ∃ t ∈ l, 0 < f t) :
    ∃ before t later, l = before ++ t :: later ∧ (∀ u ∈ before, f u = 0) ∧ 0 < f t := by
  induction l with
  | nil =>
    obtain ⟨t, mem, -⟩ := some
    exact absurd mem not_mem_nil
  | cons u rest ih =>
    by_cases here : 0 < f u
    · exact ⟨[], u, rest, rfl, by simp, here⟩
    · have later : ∃ t ∈ rest, 0 < f t := by
        obtain ⟨t, mem, pos⟩ := some
        rcases mem_cons.mp mem with rfl | mem
        · exact absurd pos here
        · exact ⟨t, mem, pos⟩
      obtain ⟨before, t, after, eq, zero, pos⟩ := ih later
      refine ⟨u :: before, t, after, by rw [eq, cons_append], ?_, pos⟩
      rintro v mem
      rcases mem_cons.mp mem with rfl | mem
      · omega
      · exact zero v mem

theorem accuracy_sub {n p : Nat} (pos : 0 < n) (le : p ≤ n) :
    accuracy (n, n - p) = 1 - (p : ℚ) / n := by
  have nonzero : (n : ℚ) ≠ 0 := by exact_mod_cast pos.ne'
  rw [accuracy, if_neg pos.ne', Nat.cast_sub le]
  field_simp

/-- The comparison with a fingerprint with all values, when the observation differs in one value
of the first test with points -/
theorem compareFingerprints_observedNo (name : Bytes) (i : Fin t.numAttrs)
    {before later : List TestID} (all : TestID.all = before ++ t :: later)
    (zero : ∀ u ∈ before, d.testPoints u = 0) (le : d.points t i ≤ d.testPoints t) (threshold : ℚ) :
    compareFingerprints (loadFingerprint d name allYesLines) (observedNo t i) d true threshold =
        some (accuracy (d.total, d.total - d.points t i)) ∧
      (maxMismatch threshold (loadFingerprint d name allYesLines).numprints < d.points t i →
        compareFingerprints (loadFingerprint d name allYesLines) (observedNo t i) d false
          threshold = some (accuracy (d.testPoints t, d.testPoints t - d.points t i))) := by
  have scores := avalMatch_observedNo (d := d) name i
  constructor
  · have replaced : (TestID.all.map fun u =>
          if u = t then d.testPoints u - d.points t i else d.testPoints u).sum + d.testPoints t =
        d.total + (if t = t then d.testPoints t - d.points t i else d.testPoints t) :=
      sum_map_replaced t.mem_all TestID.nodup_all fun u other => if_neg other
    rw [if_pos rfl] at replaced
    have got : (TestID.all.map fun u =>
          if u = t then d.testPoints u - d.points t i else d.testPoints u).sum =
        d.total - d.points t i := by omega
    rw [compareFingerprints, compareLoop_scores scores]
    simp only [Nat.zero_add, got]
    rfl
  · intro missed
    have nothing : ∀ u ∈ before, avalMatch d u ((loadFingerprint d name allYesLines).tests u)
        ((observedNo t i).tests u) = some (0, 0) := by
      intro u mem
      have other : u ≠ t := by
        rintro rfl
        have nodup : (before ++ u :: later).Nodup := all ▸ TestID.nodup_all
        exact (nodup_append.mp nodup).2.2 u mem u mem_cons_self rfl
      rw [scores, if_neg other, zero u mem]
    rw [compareFingerprints, all, compareLoop_skip _ nothing, compareLoop, scores, if_pos rfl,
      Option.bind_eq_bind, Option.bind_some]
    dsimp only
    rw [if_pos ⟨rfl, by omega⟩]
    simp

/-- A value of the first test with points, when another test has points too -/
theorem exists_spread (spread : ¬ d.OneTest) :
    ∃ before t later, ∃ i : Fin t.numAttrs, TestID.all = before ++ t :: later ∧
      (∀ u ∈ before, d.testPoints u = 0) ∧ 0 < d.points t i ∧
      d.points t i ≤ d.testPoints t ∧ d.testPoints t < d.total := by
  have other (t : TestID) : ∃ u ≠ t, d.testPoints u ≠ 0 := by
    by_contra none
    exact spread ⟨t, fun u ne => by_contra fun some => none ⟨u, ne, some⟩⟩
  have points : ∃ t ∈ TestID.all, 0 < d.testPoints t := by
    obtain ⟨u, -, some⟩ := other .seq
    exact ⟨u, u.mem_all, Nat.pos_of_ne_zero some⟩
  obtain ⟨before, t, later, all, zero, pos⟩ := exists_first points
  obtain ⟨i, missed⟩ : ∃ i, 0 < d.points t i := by
    by_contra none
    have zero : d.testPoints t = 0 := by
      refine sum_eq_zero fun n mem => ?_
      obtain ⟨i, -, rfl⟩ := mem_map.mp mem
      exact Nat.eq_zero_of_not_pos fun pos => none ⟨i, pos⟩
    omega
  refine ⟨before, t, later, i, all, zero, missed, ?_, ?_⟩
  · exact single_le_sum (by simp) _ (mem_map_of_mem (mem_finRange i))
  · obtain ⟨u, ne, some⟩ := other t
    have sum : d.total = d.testPoints t + ((TestID.all.erase t).map d.testPoints).sum :=
      ((perm_cons_erase t.mem_all).map d.testPoints).sum_eq
    have inside : u ∈ TestID.all.erase t := TestID.nodup_all.mem_erase_iff.mpr ⟨ne, u.mem_all⟩
    have more : d.testPoints u ≤ ((TestID.all.erase t).map d.testPoints).sum :=
      single_le_sum (by simp) _ (mem_map_of_mem inside)
    omega

/-- The accuracy with `p` of `n` points missed is more than that with `p` of the first `k`, and a
count of fewer points than there are leaves less than `p` for it. -/
theorem accuracy_cut {n k p : Nat} (counted : UInt16) (missed : 0 < p) (le : p ≤ k) (part : k < n)
    (wrapped : counted.toNat < n) :
    0 < accuracy (n, n - p) ∧ accuracy (n, n - p) ≤ 1 ∧
      accuracy (k, k - p) < accuracy (n, n - p) ∧
      maxMismatch (accuracy (n, n - p)) counted < p := by
  have n0 : (0 : ℚ) < n := by exact_mod_cast (by omega : 0 < n)
  have k0 : (0 : ℚ) < k := by exact_mod_cast (by omega : 0 < k)
  have p0 : (0 : ℚ) < p := by exact_mod_cast missed
  have pn : (p : ℚ) < n := by exact_mod_cast (by omega : p < n)
  have kn : (k : ℚ) < n := by exact_mod_cast part
  have wrapped : (counted.toNat : ℚ) < n := by exact_mod_cast wrapped
  rw [maxMismatch, accuracy_sub (by omega) (by omega), accuracy_sub (by omega) le, sub_sub_cancel]
  refine ⟨?_, ?_, ?_, ?_⟩
  · rw [sub_pos, div_lt_one n0]
    exact pn
  · have := div_pos p0 n0
    linarith
  · have := div_lt_div_of_pos_left p0 k0 kn
    linarith
  · rw [Nat.floor_lt (by positivity), div_mul_eq_mul_div, div_lt_iff₀ n0]
    exact mul_lt_mul_of_pos_left wrapped p0

/-- From 65536 points on, in more than one test, `numprints` is too small and the comparison is
cut short from the threshold on. -/
theorem exists_cut (many : 65536 ≤ d.total) (spread : ¬ d.OneTest) (name : Bytes) :
    ∃ obs v e, 0 < v ∧ v ≤ 1 ∧ e < v ∧
      compareFingerprints (loadFingerprint d name allYesLines) obs d true v = some v ∧
      compareFingerprints (loadFingerprint d name allYesLines) obs d false v = some e := by
  obtain ⟨before, t, later, i, all, zero, missed, le, part⟩ := exists_spread spread
  have fits := (loadFingerprint d name allYesLines).numprints.toNat_lt
  obtain ⟨pos, most, less, limit⟩ := accuracy_cut
    (loadFingerprint d name allYesLines).numprints missed le part (by omega)
  obtain ⟨verbose, cut⟩ := compareFingerprints_observedNo name i all zero le
    (accuracy (d.total, d.total - d.points t i))
  exact ⟨observedNo t i, _, _, pos, most, less, verbose, cut limit⟩

/-- `numprints` has enough bits for these match points, or need not have them. -/
def FingerPrintDef.Fine (d : FingerPrintDef) : Prop := d.total < 65536 ∨ d.OneTest

theorem early_exit_fine (fine : d.Fine) {name : Bytes} (distinct : Distinct lines)
    (obs : FingerPrint) (most : threshold ≤ 1) :
    EarlyExitSound d (loadFingerprint d name lines) obs threshold := by
  rcases fine with few | one
  · refine .of_counts ?_ most
    have all := possible_le_total d (loadFingerprint d name lines)
    rw [CountsAll, loadFingerprint_numprints d name distinct, Nat.mod_eq_of_lt (by omega)]
  · intro v whole
    exact ⟨v, compareFingerprints_oneTest one whole, fun _ => rfl, id⟩

/-- Match points for two values of different tests -/
def twoTests : FingerPrintDef where
  points t i := if t = .seq ∧ i.val = 0 then 1 else if t = .t1 ∧ i.val = 1 then 65535 else 0
  fits t := by cases t <;> decide

def twoTestsLines : List TestLine :=
  [⟨.seq, fun i => if i.val = 0 then some yes else none⟩,
    ⟨.t1, fun i => if i.val = 1 then some yes else none⟩]

/-- The observation that differs in the first of them -/
def firstNo : FingerPrint where
  name := []
  numprints := 0
  tests
    | .seq => some fun _ => some no
    | _ => some fun _ => some yes

theorem twoTestsLines_distinct : Distinct twoTestsLines := by simp [Distinct, twoTestsLines]

/-- The accuracies with `verbose` and without -/
theorem compareFingerprints_twoTests :
    compareFingerprints (loadFingerprint twoTests [] twoTestsLines) firstNo twoTests true (1 / 2) =
        some (accuracy (65536, 65535)) ∧
      compareFingerprints (loadFingerprint twoTests [] twoTestsLines) firstNo twoTests false
        (1 / 2) = some (accuracy (1, 0)) := by
  have points : (loadFingerprint twoTests [] twoTestsLines).numprints = 0 := by rfl
  constructor
  · rw [compareFingerprints, points]
    simp only [maxMismatch, UInt16.toNat_zero, Nat.cast_zero, mul_zero, Nat.floor_zero]
    rfl
  · rw [compareFingerprints, points]
    simp only [maxMismatch, UInt16.toNat_zero, Nat.cast_zero, mul_zero, Nat.floor_zero]
    rfl

end Nmap.OsScan
