import Nmap.Base.CString

/-!
# Buffers that grow (`util.c`)

`strbuf_append` and `strbuf_sprintf` write behind what a buffer holds, and get more memory where
that does not fit. Their callers keep the size and the offset, and some of them look at the size.
-/

namespace Nmap.Ncat

open Nmap.Base List

/-- `char *buf` with its `size` and what was written, which ends at the offset. The terminating
zero behind it is inside the buffer, unless there is no buffer yet. -/
structure Strbuf where
  size : Nat
  text : Bytes
  room : text.length < size ∨ size = 0 ∧ text = []

namespace Strbuf

def offset (buf : Strbuf) : Nat := buf.text.length

/-- `char *buf = NULL; size_t size = 0, offset = 0` -/
def null : Strbuf := ⟨0, [], .inr ⟨rfl, rfl⟩⟩

theorem offset_le (buf : Strbuf) : buf.offset ≤ buf.size := by
  rcases buf.room with less | ⟨size, text⟩
  · exact Nat.le_of_lt less
  · rw [offset, text, size]
    rfl

/-- The size that leaves room for `n` bytes and a zero -/
def grown (size offset n : Nat) : Nat := if n ≥ size - offset then size + (n + 1) else size

theorem lt_grown {size offset : Nat} (inside : offset ≤ size) (n : Nat) :
    offset + n < grown size offset n := by
  unfold grown
  split <;> omega

/-- `strbuf_append` -/
def append (buf : Strbuf) (s : Bytes) : Strbuf where
  size := grown buf.size buf.offset s.length
  text := buf.text ++ s
  room := by
    rw [length_append]
    exact .inl (lt_grown buf.offset_le s.length)

/-- `strbuf_sprintf` of what is to be printed. The first round finds out how long that is, and a
second one prints it if the buffer had to grow. -/
def sprintf (buf : Strbuf) (s : Bytes) : Strbuf where
  size := grown (if buf.size = 0 then 1 else buf.size) buf.offset s.length
  text := buf.text ++ s
  room := by
    have inside : buf.text.length ≤ buf.size := buf.offset_le
    rw [length_append]
    refine .inl (lt_grown ?_ s.length)
    split
    · omega
    · exact inside

@[simp] theorem text_null : null.text = [] := rfl

@[simp] theorem size_null : null.size = 0 := rfl

@[simp] theorem text_append (buf : Strbuf) (s : Bytes) : (buf.append s).text = buf.text ++ s := rfl

@[simp] theorem text_sprintf (buf : Strbuf) (s : Bytes) :
    (buf.sprintf s).text = buf.text ++ s := rfl

theorem size_append (buf : Strbuf) (s : Bytes) : (buf.append s).size ≠ 0 := by
  have room := lt_grown buf.offset_le s.length
  exact Nat.ne_of_gt (Nat.lt_of_le_of_lt (Nat.zero_le _) room)

theorem text_foldl_sprintf {α : Type} (line : α → Bytes) (l : List α) (buf : Strbuf) :
    (l.foldl (fun buf a => buf.sprintf (line a)) buf).text = buf.text ++ l.flatMap line := by
  induction l generalizing buf with
  | nil => simp
  | cons a l ih =>
    rw [foldl_cons, ih, text_sprintf, flatMap_cons, append_assoc]

end Strbuf

end Nmap.Ncat
