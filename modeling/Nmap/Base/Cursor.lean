import Nmap.Base.CString

/-!
# Cursors into a C string

A C string is read through a cursor. The character behind the last one is the terminating zero,
and every read beyond it is an error.
-/

namespace Nmap.Base.Cursor

open List

variable {ε : Type} (overread : Nat → ε) (stuck : ε) (text : Bytes)

/-- The character that the cursor is at -/
def charAt (i : Nat) : Except ε UInt8 :=
  if i < text.length then .ok (text.getD i 0)
  else if i = text.length then .ok 0
  else .error (overread i)

/-- Moves the cursor on as long as the characters satisfy `p`, for so many steps at most. -/
def skipWhile (p : UInt8 → Bool) : Nat → Nat → Except ε Nat
  | 0, _ => .error stuck
  | steps + 1, i => do
    let c ← charAt overread text i
    if p c then skipWhile p steps (i + 1) else .ok i

variable {text} {i : Nat}

theorem charAt_of_le (inside : i ≤ text.length) :
    charAt overread text i = .ok ((text.drop i).headD 0) := by
  rw [charAt]
  rcases Nat.eq_or_lt_of_le inside with rfl | less
  · simp
  · rw [if_pos less, headD_eq_head?_getD, List.head?_drop, getD_eq_getElem?_getD]

theorem charAt_beyond (beyond : text.length < i) :
    charAt overread text i = .error (overread i) := by
  rw [charAt, if_neg (by omega), if_neg (by omega)]

theorem ok_bind {α β : Type} (a : α) (f : α → Except ε β) : (Except.ok a >>= f) = f a := rfl

/-- A rest of the string, seen from the cursor in front of it -/
structure At (text : Bytes) (i : Nat) (rest : Bytes) : Prop where
  inside : i ≤ text.length
  drop : text.drop i = rest

theorem At.start (text : Bytes) : At text 0 text := ⟨Nat.zero_le _, rfl⟩

variable {rest : Bytes}

theorem At.charAt_eq (here : At text i rest) :
    charAt overread text i = .ok (rest.headD 0) := by
  rw [charAt_of_le overread here.inside, here.drop]

theorem At.succ {c : UInt8} (here : At text i (c :: rest)) :
    At text (i + 1) rest := by
  have lengths := congrArg List.length here.drop
  rw [length_drop, length_cons] at lengths
  refine ⟨by omega, ?_⟩
  rw [← drop_drop, here.drop]
  rfl

theorem At.append {front : Bytes} (here : At text i (front ++ rest)) :
    At text (i + front.length) rest := by
  induction front generalizing i with
  | nil => exact here
  | cons c front ih =>
    rw [length_cons, Nat.add_comm front.length 1, ← Nat.add_assoc]
    exact ih here.succ

theorem At.eq_length (here : At text i []) : i = text.length := by
  have lengths := congrArg List.length here.drop
  have inside := here.inside
  rw [length_drop, length_nil] at lengths
  omega

theorem At.length (here : At text i rest) : i + rest.length = text.length := by
  have lengths := congrArg List.length here.drop
  have inside := here.inside
  rw [length_drop] at lengths
  omega

theorem At.of_suffix {end_ : Bytes} (here : At text i rest) (suffix : end_ <:+ rest) :
    At text (text.length - end_.length) end_ := by
  obtain ⟨front, whole⟩ := suffix
  have moved : text.length - end_.length = i + front.length := by
    have lengths := here.length
    rw [← whole, length_append] at lengths
    omega
  refine ⟨Nat.sub_le _ _, ?_⟩
  rw [moved, ← drop_drop, here.drop, ← whole, drop_left]

theorem At.nonzero {c : UInt8} (terminated : 0 ∉ text) (here : At text i (c :: rest)) : c ≠ 0 := by
  rintro rfl
  refine terminated (mem_of_mem_drop (i := i) ?_)
  rw [here.drop]
  exact mem_cons_self

theorem At.zero_not_mem (terminated : 0 ∉ text) (here : At text i rest) :
    0 ∉ rest := by
  intro mem
  refine terminated (mem_of_mem_drop (i := i) ?_)
  rwa [here.drop]

theorem dropWhile_nonzero {p : UInt8 → Bool} (terminated : 0 ∉ rest) :
    rest.dropWhile (fun c => p c && c ≠ 0) = rest.dropWhile p := by
  induction rest with
  | nil => rfl
  | cons c rest ih =>
    simp only [mem_cons, not_or] at terminated
    have other : c ≠ 0 := Ne.symm terminated.1
    by_cases goesOn : p c = true
    · rw [dropWhile_cons_of_pos goesOn, dropWhile_cons_of_pos (by simp [goesOn, other]),
        ih terminated.2]
    · rw [dropWhile_cons_of_neg goesOn, dropWhile_cons_of_neg (by simp [goesOn])]

/-- The cursor is moved over the characters that satisfy `p`. -/
theorem skipWhile_spec {p : UInt8 → Bool} (terminated : p 0 = false) (here : At text i rest)
    {steps : Nat} (enough : rest.length < steps) :
    ∃ j, skipWhile overread stuck text p steps i = .ok j ∧ At text j (rest.dropWhile p) ∧
      (text.drop i).take (j - i) = rest.takeWhile p := by
  induction steps generalizing i rest with
  | zero => exact absurd enough (Nat.not_lt_zero _)
  | succ steps ih =>
    rw [skipWhile, here.charAt_eq overread]
    cases rest with
    | nil =>
      refine ⟨i, ?_, here, by simp⟩
      show (if p 0 = true then _ else _) = _
      rw [terminated]
      rfl
    | cons c rest =>
      show ∃ j, (if p c = true then _ else _) = Except.ok j ∧ _
      by_cases goesOn : p c = true
      · obtain ⟨j, skipped, there, taken⟩ :=
          ih here.succ (Nat.lt_of_succ_lt_succ enough)
        refine ⟨j, ?_, ?_, ?_⟩
        · rw [if_pos goesOn, skipped]
        · rwa [dropWhile_cons_of_pos goesOn]
        · have behind : j = i + 1 + (rest.takeWhile p).length := by
            have whole := congrArg List.length
              (takeWhile_append_dropWhile (p := p) (l := rest))
            have to_j := there.length
            have to_i := here.length
            rw [length_append] at whole
            rw [length_cons] at to_i
            omega
          rw [takeWhile_cons_of_pos goesOn, ← taken, here.drop, here.succ.drop,
            show j - i = j - (i + 1) + 1 by omega, take_succ_cons]
      · refine ⟨i, ?_, ?_, ?_⟩
        · rw [if_neg goesOn]
        · rwa [dropWhile_cons_of_neg goesOn]
        · rw [takeWhile_cons_of_neg goesOn, Nat.sub_self, take_zero]

end Nmap.Base.Cursor
