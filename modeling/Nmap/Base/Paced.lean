import Mathlib.Data.List.Count
import Mathlib.Algebra.Order.Group.Nat
import Mathlib.Tactic.Linarith

/-!
# Paced events

Events with time stamps, started at a time and spaced by an interval on average: a number of
events may come at once, as many as a burst has, when the schedule of those before is over.
-/

namespace Nmap.Base

/-- How many events have come by a time? -/
def countUpTo (log : List Nat) (t : Nat) : Nat := log.countP fun stamp => decide (stamp ≤ t)

/-- At no time have more events come than one burst over those that the schedule allows. -/
def Paced (start interval burst : Nat) (log : List Nat) : Prop :=
  ∀ t, countUpTo log t = 0 ∨ start + (countUpTo log t - burst) * interval ≤ t

variable {start interval burst : Nat} {log : List Nat}

theorem countUpTo_append (log more : List Nat) (t : Nat) :
    countUpTo (log ++ more) t = countUpTo log t + countUpTo more t :=
  List.countP_append

theorem countUpTo_le_length (log : List Nat) (t : Nat) : countUpTo log t ≤ log.length :=
  List.countP_le_length

theorem countUpTo_replicate_of_lt (n : Nat) {stamp t : Nat} (later : t < stamp) :
    countUpTo (List.replicate n stamp) t = 0 := by
  rw [countUpTo, List.countP_replicate]
  simp [later]

theorem Paced.nil (start interval burst : Nat) : Paced start interval burst [] :=
  fun _ => .inl rfl

theorem Paced.mono (paced : Paced start interval burst log) {more : Nat} (le : burst ≤ more) :
    Paced start interval more log := by
  intro t
  rcases paced t with none | some
  · exact .inl none
  · have fewer : (countUpTo log t - more) * interval ≤ (countUpTo log t - burst) * interval :=
      Nat.mul_le_mul_right interval (by omega)
    exact .inr (by omega)

theorem Paced.append (paced : Paced start interval burst log) {n stamp : Nat} (small : n ≤ burst)
    (due : start + log.length * interval ≤ stamp) :
    Paced start interval burst (log ++ List.replicate n stamp) := by
  intro t
  rw [countUpTo_append]
  rcases Nat.lt_or_ge t stamp with before | after
  · rw [countUpTo_replicate_of_lt n before]
    exact paced t
  · right
    have old := countUpTo_le_length log t
    have new := countUpTo_le_length (List.replicate n stamp) t
    rw [List.length_replicate] at new
    have fewer : (countUpTo log t + countUpTo (List.replicate n stamp) t - burst) * interval ≤
        log.length * interval :=
      Nat.mul_le_mul_right interval (by omega)
    omega

theorem Paced.count_le (paced : Paced start interval burst log) (pos : 0 < interval) (t : Nat) :
    countUpTo log t ≤ (t - start) / interval + burst := by
  rcases paced t with none | some
  · rw [none]
    exact Nat.zero_le _
  · exact Nat.sub_le_iff_le_add.mp ((Nat.le_div_iff_mul_le pos).mpr (by omega))

end Nmap.Base
