import Mathlib.Data.List.Range
import Mathlib.Data.List.Flatten
import Mathlib.Data.List.Forall2
import Mathlib.Data.Nat.Find
import Nmap.Base.Numeral

/-!
# Odometers

Wheels with `n` positions each, of which only some count. An odometer steps through all
combinations of positions that count, the last wheel fastest: a wheel turns to its next
position and, where it wraps around, carries into the wheel before it.
-/

namespace Nmap.Base.Odometer

open List

variable (n : Nat)

/-! ## One wheel -/

/-- From position `c` on, the first that counts within `left` positions, or the end of them -/
def seek (p : Nat → Bool) : Nat → Nat → Nat
  | 0, c => c
  | left + 1, c => if p c then c else seek p left (c + 1)

/-- Turns position by position until one counts, and says whether the wheel came round. -/
def turn (p : Nat → Bool) : Nat → Nat → Bool → Nat × Bool
  | 0, c, carry => (c, carry)
  | rounds + 1, c, carry =>
    let next := (c + 1) % n
    if p next then (next, carry || next == 0) else turn p rounds next (carry || next == 0)

/-- The positions that count from `c` on -/
def stops (p : Nat → Bool) (c : Nat) : List Nat := (List.range' c (n - c)).filter p

/-- The first position that counts from `c` on is `d`. -/
structure First (p : Nat → Bool) (c d : Nat) : Prop where
  from_le : c ≤ d
  inside : d < n
  counts : p d = true
  skipped : ∀ e, c ≤ e → e < d → p e = false

/-- No position counts from `c` on. -/
def NoneFrom (p : Nat → Bool) (c : Nat) : Prop := ∀ e, c ≤ e → e < n → p e = false

variable {n} {p : Nat → Bool} {c d : Nat}

theorem first_or_none (n : Nat) (p : Nat → Bool) (c : Nat) :
    (∃ d, First n p c d) ∨ NoneFrom n p c := by
  by_cases any : ∃ d, c ≤ d ∧ d < n ∧ p d = true
  · obtain ⟨from_le, inside, counts⟩ := Nat.find_spec any
    refine .inl ⟨Nat.find any, from_le, inside, counts, fun e le less => ?_⟩
    have earlier := Nat.find_min any less
    exact Bool.eq_false_iff.mpr fun yes => earlier ⟨le, by omega, yes⟩
  · exact .inr fun e le inside => Bool.eq_false_iff.mpr fun yes => any ⟨e, le, inside, yes⟩

theorem First.succ (first : First n p c d) (other : c ≠ d) : First n p (c + 1) d :=
  ⟨Nat.lt_of_le_of_ne first.from_le other, first.inside, first.counts,
    fun e le less => first.skipped e (by omega) less⟩

theorem stops_of_lt (inside : c < n) :
    stops n p c = if p c then c :: stops n p (c + 1) else stops n p (c + 1) := by
  obtain ⟨left, rfl⟩ : ∃ left, n = c + (left + 1) := ⟨n - (c + 1), by omega⟩
  have here : c + (left + 1) - c = left + 1 := by omega
  have after : c + (left + 1) - (c + 1) = left := by omega
  rw [stops, stops, here, after, List.range'_succ, filter_cons]

theorem mem_stops : d ∈ stops n p c ↔ c ≤ d ∧ d < n ∧ p d = true := by
  rw [stops, mem_filter, mem_range'_1]
  constructor
  · rintro ⟨⟨le, upTo⟩, counts⟩
    exact ⟨le, by omega, counts⟩
  · rintro ⟨le, upTo, counts⟩
    exact ⟨⟨le, by omega⟩, counts⟩

theorem NoneFrom.stops_eq (none : NoneFrom n p c) : stops n p c = [] := by
  rw [eq_nil_iff_forall_not_mem]
  intro d mem
  obtain ⟨le, inside, counts⟩ := mem_stops.mp mem
  rw [none d le inside] at counts
  exact Bool.noConfusion counts

theorem First.stops_eq (first : First n p c d) : stops n p c = d :: stops n p (d + 1) := by
  obtain ⟨gap, same⟩ := Nat.exists_eq_add_of_le first.from_le
  induction gap generalizing c with
  | zero =>
    have here : d = c := same
    rw [stops_of_lt (here ▸ first.inside), ← here, if_pos first.counts]
  | succ gap ih =>
    have inside := first.inside
    rw [stops_of_lt (by omega), first.skipped c (Nat.le_refl c) (by omega)]
    exact ih (first.succ (by omega)) (by omega)

theorem First.seek_eq (first : First n p c d) {left : Nat} (enough : d < c + left) :
    seek p left c = d := by
  induction left generalizing c with
  | zero =>
    have le := first.from_le
    omega
  | succ left ih =>
    rw [seek]
    by_cases here : c = d
    · rw [here, if_pos first.counts]
    · have le := first.from_le
      rw [first.skipped c (Nat.le_refl c) (by omega)]
      exact ih (first.succ here) (by omega)

theorem NoneFrom.seek_eq (none : NoneFrom n p c) {left : Nat} (upTo : c + left ≤ n) :
    seek p left c = c + left := by
  induction left generalizing c with
  | zero => rfl
  | succ left ih =>
    have rest : seek p left (c + 1) = c + 1 + left :=
      ih (fun e le inside => none e (by omega) inside) (by omega)
    rw [seek, none c (Nat.le_refl c) (by omega), if_neg Bool.false_ne_true, rest]
    omega

theorem First.turn_eq (first : First n p (c + 1) d) (carry : Bool) {rounds : Nat}
    (enough : d ≤ c + rounds) : turn n p rounds c carry = (d, carry) := by
  have le := first.from_le
  have inside := first.inside
  induction rounds generalizing c with
  | zero => omega
  | succ rounds ih =>
    have next : (c + 1) % n = c + 1 := Nat.mod_eq_of_lt (by omega)
    have notZero : (c + 1 == 0) = false := beq_false_of_ne (by omega)
    rw [turn]
    simp only [next, notZero, Bool.or_false]
    by_cases here : c + 1 = d
    · rw [here, if_pos first.counts]
    · rw [first.skipped (c + 1) (Nat.le_refl _) (by omega)]
      exact ih (first.succ here) (by omega) (by omega)

theorem NoneFrom.turn_eq (none : NoneFrom n p (c + 1)) (inside : c < n) (carry : Bool)
    {rounds : Nat} (enough : n ≤ c + 1 + rounds) :
    turn n p rounds c carry = turn n p (c + 1 + rounds - n) (n - 1) carry := by
  induction rounds generalizing c with
  | zero =>
    have last : n = c + 1 := by omega
    rw [last, Nat.add_zero, Nat.sub_self, Nat.add_sub_cancel]
  | succ rounds ih =>
    by_cases last : n = c + 1
    · rw [last, Nat.add_sub_cancel, Nat.add_sub_cancel_left]
    · have next : (c + 1) % n = c + 1 := Nat.mod_eq_of_lt (by omega)
      have notZero : (c + 1 == 0) = false := beq_false_of_ne (by omega)
      have fuel : c + 1 + (rounds + 1) - n = c + 1 + 1 + rounds - n := by omega
      rw [turn, fuel]
      simp only [next, notZero, Bool.or_false]
      rw [none (c + 1) (Nat.le_refl _) (by omega)]
      exact ih (fun e le inside => none e (by omega) inside) (by omega) (by omega)

theorem First.turn_round (first : First n p 0 d) (none : NoneFrom n p (c + 1)) (inside : c < n)
    (le : d ≤ c) : turn n p n c false = (d, true) := by
  have rounds : c + 1 + n - n = c + 1 := by omega
  have wrap : (n - 1 + 1) % n = 0 := by
    rw [Nat.sub_add_cancel (by omega), Nat.mod_self]
  rw [none.turn_eq inside false (by omega), rounds, turn]
  simp only [wrap, Bool.false_or, BEq.rfl]
  by_cases here : 0 = d
  · rw [here, if_pos first.counts]
  · rw [first.skipped 0 (Nat.le_refl 0) (by omega)]
    exact (first.succ here).turn_eq true (by omega)

/-! ## All wheels -/

variable (n)

/-- Every wheel is moved on to a position that counts; there is none where one has no such. -/
def settle : List (Nat → Bool) → List Nat → Option (List Nat)
  | p :: ps, c :: cs =>
    let c := seek p (n - c) c
    if c ≥ n then none else (settle ps cs).map (c :: ·)
  | _, _ => some []

/-- How far the wheels have been moved on when one is met that has no such position -/
def sought : List (Nat → Bool) → List Nat → List Nat
  | p :: ps, c :: cs =>
    let c := seek p (n - c) c
    if c ≥ n then c :: cs else c :: sought ps cs
  | _, cs => cs

/-- The last wheel turns, and each wheel that comes round turns the one before it. -/
def tick : List (Nat → Bool) → List Nat → List Nat × Bool
  | p :: ps, c :: cs =>
    let inner := tick ps cs
    if inner.2 then
      let wheel := turn n p n c false
      (wheel.1 :: inner.1, wheel.2)
    else (c :: inner.1, false)
  | _, _ => ([], true)

/-- All combinations, in the order of the odometer -/
def readings : List (Nat → Bool) → List (List Nat)
  | [] => [[]]
  | p :: ps => (stops n p 0).flatMap fun c => (readings ps).map (c :: ·)

/-- The combinations from the one shown on -/
def remaining : List (Nat → Bool) → List Nat → List (List Nat)
  | p :: ps, c :: cs =>
    (remaining ps cs).map (c :: ·) ++
      (stops n p (c + 1)).flatMap fun d => (readings n ps).map (d :: ·)
  | _, _ => [[]]

/-- Every wheel shows a position that counts. -/
def Shows : List (Nat → Bool) → List Nat → Prop :=
  Forall₂ fun p c => c < n ∧ p c = true

variable {n} {ps : List (Nat → Bool)} {cs : List Nat}

theorem mem_readings : cs ∈ readings n ps ↔ Shows n ps cs := by
  induction ps generalizing cs with
  | nil => simp [readings, Shows]
  | cons p ps ih =>
    rw [readings, mem_flatMap, Shows, List.forall₂_cons_left_iff]
    constructor
    · rintro ⟨c, stop, mem⟩
      obtain ⟨rest, mem, rfl⟩ := mem_map.mp mem
      exact ⟨c, rest, (mem_stops.mp stop).2, ih.mp ‹_›, rfl⟩
    · rintro ⟨c, rest, counts, shows_, rfl⟩
      exact ⟨c, mem_stops.mpr ⟨Nat.zero_le c, counts⟩,
        mem_map.mpr ⟨rest, ih.mpr shows_, rfl⟩⟩

/-- The combinations come in the order of the numerals that they are. -/
theorem readings_increasing (n : Nat) (ps : List (Nat → Bool)) :
    (readings n ps).Pairwise fun cs ds => Numeral.value id n cs < Numeral.value id n ds := by
  have digits : ∀ {ps cs}, cs ∈ readings n ps → cs.length = ps.length ∧ ∀ c ∈ cs, c < n := by
    intro ps cs mem
    have shows_ := mem_readings.mp mem
    refine ⟨shows_.length_eq.symm, ?_⟩
    induction shows_ with
    | nil => simp
    | cons counts _ ih => exact forall_mem_cons.mpr ⟨counts.1, ih (mem_readings.mpr ‹_›)⟩
  induction ps with
  | nil => exact pairwise_singleton _ _
  | cons p ps ih =>
    rw [readings, pairwise_flatMap]
    refine ⟨?_, ?_⟩
    · intro c stop
      rw [pairwise_map]
      refine ih.imp_of_mem fun mem mem' less => ?_
      rw [Numeral.value_cons, Numeral.value_cons, (digits mem).1, (digits mem').1]
      exact Nat.add_lt_add_left less _
    · refine ((pairwise_lt_range' 1).filter p).imp fun {c d} less => ?_
      intro x at_x y at_y
      obtain ⟨cs, mem, rfl⟩ := mem_map.mp at_x
      obtain ⟨ds, mem', rfl⟩ := mem_map.mp at_y
      have bound : Numeral.value id n cs < n ^ cs.length := Numeral.value_lt (digits mem).2
      rw [Numeral.value_cons, Numeral.value_cons, (digits mem').1, ← (digits mem).1]
      calc id c * n ^ cs.length + Numeral.value id n cs
          < id c * n ^ cs.length + n ^ cs.length := by omega
        _ = (c + 1) * n ^ cs.length := by rw [Nat.add_mul, Nat.one_mul, id]
        _ ≤ id d * n ^ cs.length := Nat.mul_le_mul_right _ less
        _ ≤ id d * n ^ cs.length + Numeral.value id n ds := Nat.le_add_right _ _

theorem Shows.settle_eq (shows_ : Shows n ps cs) : settle n ps cs = some cs := by
  induction shows_ with
  | nil => rfl
  | @cons p c ps cs counts shows_ ih =>
    have first : First n p c c :=
      ⟨Nat.le_refl c, counts.1, counts.2, fun e le less => absurd le (by omega)⟩
    have here : seek p (n - c) c = c := first.seek_eq (by omega)
    rw [settle]
    simp only [here, ih]
    rw [if_neg (by omega)]
    rfl

theorem seek_stops (p : Nat → Bool) (left c : Nat) :
    p (seek p left c) = true ∨ seek p left c = c + left := by
  induction left generalizing c with
  | zero => exact .inr rfl
  | succ left ih =>
    rw [seek]
    split
    · exact .inl ‹_›
    · rw [Nat.add_comm left, ← Nat.add_assoc]
      exact ih (c + 1)

theorem seek_again (n : Nat) (p : Nat → Bool) (c : Nat) :
    seek p (n - seek p (n - c) c) (seek p (n - c) c) = seek p (n - c) c := by
  rcases seek_stops p (n - c) c with counts | last
  · cases n - seek p (n - c) c with
    | zero => rfl
    | succ left => rw [seek, if_pos counts]
  · have none_left : n - seek p (n - c) c = 0 := by omega
    rw [none_left, seek]

theorem settle_sought (ps : List (Nat → Bool)) (cs : List Nat) :
    settle n ps (sought n ps cs) = settle n ps cs := by
  induction ps generalizing cs with
  | nil => rfl
  | cons p ps ih =>
    cases cs with
    | nil => rfl
    | cons c cs =>
      rw [sought]
      by_cases spent : seek p (n - c) c ≥ n
      · simp only [settle, if_pos spent, seek_again]
      · simp only [settle, if_neg spent, seek_again, ih]

theorem settle_zero (ps : List (Nat → Bool)) :
    (settle n ps (ps.map fun _ => 0) = none ∧ readings n ps = []) ∨
      ∃ cs, settle n ps (ps.map fun _ => 0) = some cs ∧ Shows n ps cs ∧
        remaining n ps cs = readings n ps := by
  induction ps with
  | nil => exact .inr ⟨[], rfl, .nil, rfl⟩
  | cons p ps ih =>
    rw [map_cons, settle, readings]
    rcases first_or_none n p 0 with ⟨d, first⟩ | none
    · have inside := first.inside
      have found : seek p (n - 0) 0 = d := first.seek_eq (by omega)
      simp only [found, if_neg (Nat.not_le.mpr inside)]
      rcases ih with ⟨empty, noReadings⟩ | ⟨cs, settled, shows_, all⟩
      · refine .inl ⟨?_, ?_⟩
        · rw [empty, Option.map_none]
        · simp [noReadings]
      · refine .inr ⟨d :: cs, ?_, .cons ⟨inside, first.counts⟩ shows_, ?_⟩
        · rw [settled, Option.map_some]
        · rw [remaining, all, first.stops_eq, flatMap_cons]
    · refine .inl ⟨?_, ?_⟩
      · have past : seek p (n - 0) 0 = 0 + (n - 0) := none.seek_eq (by omega)
        simp only [past]
        rw [if_pos (by omega)]
      · rw [none.stops_eq, flatMap_nil]

/-- A tick goes on to the next combination; after the last one the odometer comes round. -/
theorem tick_spec (shows_ : Shows n ps cs) :
    Shows n ps (tick n ps cs).1 ∧
      (if (tick n ps cs).2 then
        remaining n ps cs = [cs] ∧ remaining n ps (tick n ps cs).1 = readings n ps
      else remaining n ps cs = cs :: remaining n ps (tick n ps cs).1) := by
  induction shows_ with
  | nil => exact ⟨.nil, rfl, rfl⟩
  | @cons p c ps cs counts shows_ ih =>
    obtain ⟨showsNext, rest⟩ := ih
    cases carry : (tick n ps cs).2 with
    | false =>
      have still : tick n (p :: ps) (c :: cs) = (c :: (tick n ps cs).1, false) := by
        simp [tick, carry]
      have inner : remaining n ps cs = cs :: remaining n ps (tick n ps cs).1 := by
        simpa [carry] using rest
      rw [still]
      refine ⟨.cons counts showsNext, ?_⟩
      show remaining n (p :: ps) (c :: cs) = _
      rw [remaining, remaining, inner, map_cons, cons_append]
    | true =>
      have turned : tick n (p :: ps) (c :: cs) =
          ((turn n p n c false).1 :: (tick n ps cs).1, (turn n p n c false).2) := by
        simp [tick, carry]
      obtain ⟨last, fresh⟩ : remaining n ps cs = [cs] ∧
          remaining n ps (tick n ps cs).1 = readings n ps := by
        simpa [carry] using rest
      rw [turned, remaining, last]
      rcases first_or_none n p (c + 1) with ⟨d, next⟩ | none
      · rw [next.turn_eq false (by have := next.inside; omega)]
        refine ⟨.cons ⟨next.inside, next.counts⟩ showsNext, ?_⟩
        show _ = (c :: cs) :: remaining n (p :: ps) (d :: _)
        rw [remaining, fresh, next.stops_eq, flatMap_cons, map_singleton,
          singleton_append]
      · -- the wheel comes round to its first position
        obtain ⟨d, first⟩ : ∃ d, First n p 0 d :=
          (first_or_none n p 0).resolve_right fun none => by
            simpa [none c (Nat.zero_le c) counts.1] using counts.2
        have le : d ≤ c := Nat.le_of_not_lt fun less => by
          simpa [first.skipped c (Nat.zero_le c) less] using counts.2
        rw [first.turn_round none counts.1 le]
        refine ⟨.cons ⟨first.inside, first.counts⟩ showsNext, ?_, ?_⟩
        · rw [none.stops_eq, flatMap_nil, append_nil, map_singleton]
        · show remaining n (p :: ps) (d :: _) = _
          rw [remaining, fresh, readings, first.stops_eq, flatMap_cons]

end Nmap.Base.Odometer
