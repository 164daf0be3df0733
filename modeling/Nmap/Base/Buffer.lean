import Nmap.Base.Utf8
import Mathlib.Data.List.TakeWhile

/-!
# Buffers

Memory that a C string is in, with its terminating zero, and whose every character is read and
written by its place. An access outside of it is an error.
-/

namespace Nmap.Base.Buffer

open List

variable {ε : Type} (outside : Nat → ε) (stuck : ε) (buf : Bytes)

def get (i : Nat) : Except ε UInt8 :=
  match buf[i]? with
  | some c => .ok c
  | none => .error (outside i)

def put (i : Nat) (c : UInt8) : Except ε Bytes :=
  if i < buf.length then .ok (buf.set i c) else .error (outside i)

variable {buf} {i : Nat}

theorem ok_bind {α β : Type} (a : α) (f : α → Except ε β) : (Except.ok a >>= f) = f a := rfl

/-! ## Reading -/

variable {c : UInt8} {rest : Bytes}

theorem get_of_drop (here : buf.drop i = c :: rest) :
    get outside buf i = .ok c := by
  have first := congrArg List.head? here
  rw [List.head?_drop, List.head?_cons] at first
  rw [get, first]

variable {front : Bytes}

theorem drop_add (here : buf.drop i = front ++ rest) :
    buf.drop (i + front.length) = rest := by
  rw [← drop_drop, here, drop_left]

theorem drop_succ (here : buf.drop i = c :: rest) :
    buf.drop (i + 1) = rest := by
  have here' : buf.drop i = [c] ++ rest := here
  exact drop_add here'

/-! ## Writing -/

theorem put_eq (inside : i < buf.length) (c : UInt8) :
    put outside buf i c = .ok (buf.set i c) := if_pos inside

theorem drop_set_of_lt {j : Nat} (before : i < j) (c : UInt8) :
    (buf.set i c).drop j = buf.drop j := by
  rw [drop_set, if_pos before]

theorem take_set_succ (inside : i < buf.length) (c : UInt8) :
    (buf.set i c).take (i + 1) = buf.take i ++ [c] := by
  rw [take_add_one, take_set, set_eq_of_length_le
    (by rw [length_take]; omega), List.getElem?_set_self inside]
  rfl

theorem put_after (here : front <+: buf) (inside : front.length < buf.length) (c : UInt8) :
    ∃ after, put outside buf front.length c = .ok after ∧ after.length = buf.length ∧
      front ++ [c] <+: after := by
  refine ⟨_, put_eq outside inside c, length_set, ?_⟩
  rw [prefix_iff_eq_take, length_append, length_singleton, take_set_succ inside,
    ← prefix_iff_eq_take.mp here]

end Nmap.Base.Buffer
