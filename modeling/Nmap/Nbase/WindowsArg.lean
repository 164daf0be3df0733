import Mathlib.Data.List.Forall2
import Nmap.Base.Buffer
import Nmap.Base.CString
import Nmap.Base.TSys
import Nmap.Base.WordReader

/-!
# Arguments of a Windows command line (`nbase_str.c`)

`escape_windows_command_arg` quotes an argument so that the C runtime reads it back. The buffer
grows as it is needed, but not for a quote inside the argument (`quotes_iff`).
-/

namespace Nmap.Nbase

open Nmap.Base List

/-! ## The function -/

/-- A byte is written outside of the buffer. -/
inductive EscapeFault
  | outside (i : Nat)
  deriving DecidableEq

/-- `\` -/
def backslash : UInt8 := 0x5c

/-- `"` -/
def quote : UInt8 := 0x22

/-- The buffer with its variables -/
structure Out where
  ret : Bytes
  rpos : UInt32
  rsize : UInt32

def safeRealloc (buf : Bytes) (size : Nat) : Bytes :=
  buf.take size ++ List.replicate (size - buf.length) 0

/-- `buf[(*rpos)++] = byte` -/
def putByte (byte : UInt8) (out : Out) : Except EscapeFault Out := do
  let ret ← Buffer.put .outside out.ret out.rpos.toNat byte
  .ok { out with ret := ret, rpos := out.rpos + 1 }

def resize (size : UInt32) (out : Out) : Out :=
  { out with ret := safeRealloc out.ret size.toNat, rsize := size }

def safeAppendChar (byte : UInt8) (out : Out) : Except EscapeFault Out :=
  if out.rpos ≥ out.rsize then putByte byte (resize (out.rsize + 512) out) else putByte byte out

/-- So many backslashes -/
def appendBackslashes : Nat → Out → Except EscapeFault Out
  | 0, out => .ok out
  | n + 1, out => do
    let out ← safeAppendChar backslash out
    appendBackslashes n out

/-- The loop from `p` on, where `num_backslashes` are counted in front of it -/
def escapeFrom (numBackslashes : UInt32) : Bytes → Out → Except EscapeFault Out
  -- "Escape all backslashes, but let the terminating double quotation mark [..] be interpreted"
  | [], out => appendBackslashes (numBackslashes * 2).toNat out
  | c :: p, out =>
    if c = backslash then escapeFrom (numBackslashes + 1) p out
    else if c = quote then do
      -- "Escape all backslashes and the following double quotation mark."
      let out ← appendBackslashes (numBackslashes * 2 + 1).toNat out
      let out ← putByte c out
      escapeFrom 0 p out
    else do
      -- "Backslashes aren't special here."
      let out ← appendBackslashes numBackslashes.toNat out
      let out ← safeAppendChar c out
      escapeFrom 0 p out

/-- `escape_windows_command_arg`: the string that is returned -/
def escapeWindowsCommandArg (arg : CString) : Except EscapeFault Bytes := do
  let out ← safeAppendChar quote { ret := [0], rpos := 0, rsize := 1 }
  let out ← escapeFrom 0 arg.bytes out
  let out ← safeAppendChar quote out
  let out ← safeAppendChar 0 out
  .ok (out.ret.takeWhile (· ≠ 0))

/-! ## The C runtime -/

def isBlank (c : UInt8) : Bool := c = 0x20 || c = 0x09

/-- One character more in front of what is read -/
def prepend (front : Bytes) (read : Bytes × Bytes) : Bytes × Bytes := (front ++ read.1, read.2)

/-- An argument, from somewhere behind so many backslashes on, and what is left behind it: 2n
backslashes in front of a quote stand for n, and the quote starts or ends quoting. One backslash
more stands for a quote, and any other for itself. -/
def readArg (quoting : Bool) (n : Nat) : Bytes → Bytes × Bytes
  | [] => (List.replicate n backslash, [])
  | c :: s =>
    if c = backslash then readArg quoting (n + 1) s
    else if c = quote then
      if n % 2 = 0 then prepend (List.replicate (n / 2) backslash) (readArg (!quoting) 0 s)
      else prepend (List.replicate (n / 2) backslash ++ [quote]) (readArg quoting 0 s)
    else if !quoting && isBlank c then (List.replicate n backslash, c :: s)
    else prepend (List.replicate n backslash ++ [c]) (readArg quoting 0 s)

theorem readArg_length (quoting : Bool) (n : Nat) (s : Bytes) :
    (readArg quoting n s).2.length ≤ s.length := by
  fun_induction readArg quoting n s with
  | case1 => exact Nat.le_refl _
  | case2 quoting n s ih => exact Nat.le_succ_of_le ih
  | case3 quoting n s _ even ih => exact Nat.le_succ_of_le ih
  | case4 quoting n s _ odd ih => exact Nat.le_succ_of_le ih
  | case5 => exact Nat.le_refl _
  | case6 quoting n c s _ _ _ ih => exact Nat.le_succ_of_le ih

/-- The arguments of a command line -/
def argv : WordReader UInt8 Bytes where
  isSep := isBlank
  read c s := readArg false 0 (c :: s)
  shorter c s plain := by
    rw [readArg]
    split_ifs with _ _ _ blank
    · exact readArg_length _ _ _
    · exact readArg_length _ _ _
    · contradiction
    · simp [plain] at blank
    · exact readArg_length _ _ _

/-! ## What it should do -/

/-- What is to be written for an argument, behind so many backslashes -/
def quotedFrom (n : Nat) : Bytes → Bytes
  | [] => List.replicate (2 * n) backslash
  | c :: p =>
    if c = backslash then quotedFrom (n + 1) p
    else if c = quote then List.replicate (2 * n + 1) backslash ++ quote :: quotedFrom 0 p
    else List.replicate n backslash ++ c :: quotedFrom 0 p

/-- All arguments are quoted, with every byte inside the buffer, and they are read back from a
line of them. -/
def Quotes (args : List CString) : Prop :=
  ∃ texts, Forall₂ (fun arg text => escapeWindowsCommandArg arg = .ok text) args texts ∧
    argv.words ([0x20].intercalate texts) = args.map CString.bytes

/-- The buffer is never larger than this. -/
def limit : Nat := 2 ^ 32 - 511

/-- The buffer has room for each quote when it comes, and can be as large as the text. -/
structure Fits (arg : Bytes) : Prop where
  quotes : ∀ front back, arg = front ++ quote :: back →
    ((quotedFrom 0 front).length + 2) % 512 ≠ 1
  whole : (quotedFrom 0 arg).length + 3 ≤ limit

/-! ## The buffer -/

/-- The size of the buffer for a text of this length -/
def capacity (length : Nat) : Nat := 1 + 512 * ((length + 510) / 512)

/-- The buffer has this text at its beginning. -/
structure Holds (out : Out) (text : Bytes) : Prop where
  rpos : out.rpos.toNat = text.length
  rsize : out.rsize.toNat = capacity text.length
  size : out.ret.length = out.rsize.toNat
  front : text <+: out.ret

variable {out : Out} {text : Bytes}

theorem Holds.le_limit (holds : Holds out text) : text.length ≤ limit := by
  have small := out.rsize.toNat_lt
  rw [holds.rsize, capacity] at small
  rw [limit]
  omega

/-- A byte is written behind the text, into a buffer that is large enough for it. -/
theorem putByte_holds (rpos : out.rpos.toNat = text.length)
    (rsize : out.rsize.toNat = capacity (text.length + 1))
    (size : out.ret.length = out.rsize.toNat) (front : text <+: out.ret) (c : UInt8) :
    ∃ out', putByte c out = .ok out' ∧ Holds out' (text ++ [c]) := by
  have small := out.rsize.toNat_lt
  have inside : text.length < out.ret.length := by
    rw [size, rsize, capacity]
    omega
  obtain ⟨ret, done, length, front⟩ := Buffer.put_after EscapeFault.outside front inside c
  refine ⟨⟨ret, out.rpos + 1, out.rsize⟩, ?_, ?_, ?_, length.trans size, front⟩
  · rw [putByte, rpos, done]
    rfl
  · rw [length_append, length_singleton, UInt32.toNat_add, rpos]
    exact Nat.mod_eq_of_lt (by simp only [UInt32.toNat_one]; omega)
  · rw [length_append, length_singleton]
    exact rsize

theorem safeRealloc_front {buf : Bytes} {size : Nat} (front : text <+: buf)
    (fits : text.length ≤ size) : text <+: safeRealloc buf size := by
  have kept : text <+: buf.take size := by
    rw [prefix_iff_eq_take.mp front, prefix_take_iff]
    exact ⟨List.take_prefix _ _, by rw [length_take]; omega⟩
  exact kept.trans (prefix_append _ _)

theorem safeRealloc_length (buf : Bytes) (size : Nat) : (safeRealloc buf size).length = size := by
  rw [safeRealloc, length_append, length_take, length_replicate]
  omega

theorem resize_rpos (size : UInt32) (out : Out) : (resize size out).rpos = out.rpos := rfl

theorem resize_length (size : UInt32) (out : Out) :
    (resize size out).ret.length = size.toNat := safeRealloc_length _ _

theorem resize_holds {size : UInt32} (rpos : out.rpos.toNat = text.length)
    (larger : size.toNat = capacity (text.length + 1)) (front : text <+: out.ret)
    (fits : text.length ≤ size.toNat) (c : UInt8) :
    ∃ out', putByte c (resize size out) = .ok out' ∧ Holds out' (text ++ [c]) := by
  rw [← resize_rpos size] at rpos
  exact putByte_holds rpos larger (resize_length size out) (safeRealloc_front front fits) c

theorem putByte_outside (outside : out.ret.length ≤ out.rpos.toNat) (c : UInt8) :
    putByte c out = .error (.outside out.rpos.toNat) := by
  rw [putByte, Buffer.put, if_neg (Nat.not_lt.mpr outside)]
  rfl

theorem Holds.putByte (holds : Holds out text) (c : UInt8) :
    Exactly (text.length % 512 ≠ 1) (Holds · (text ++ [c])) (putByte c out) := by
  refine ⟨fun room => ?_, fun full => ⟨_, putByte_outside ?_ c⟩⟩
  · refine putByte_holds holds.rpos ?_ holds.size holds.front c
    rw [holds.rsize, capacity, capacity]
    omega
  · rw [holds.size, holds.rsize, holds.rpos, capacity]
    omega

/-- `safe_append_char` has room for one character more, up to the limit. There the size wraps
around, and the buffer shrinks to one byte. -/
theorem Holds.append (holds : Holds out text) (c : UInt8) :
    Exactly (text.length < limit) (Holds · (text ++ [c])) (safeAppendChar c out) := by
  have rpos := holds.rpos
  have rsize := holds.rsize
  have small := holds.le_limit
  rw [capacity] at rsize
  rw [limit] at small
  have size : (out.rsize + 512).toNat = (out.rsize.toNat + 512) % 2 ^ 32 := UInt32.toNat_add _ _
  unfold safeAppendChar
  split
  · next full =>
      rw [ge_iff_le, UInt32.le_iff_toNat_le] at full
      refine ⟨fun room => ?_, fun tooLong => ⟨_, putByte_outside ?_ c⟩⟩
      · rw [limit] at room
        have larger : (out.rsize + 512).toNat = capacity (text.length + 1) := by
          rw [capacity]
          omega
        have fits : text.length ≤ (out.rsize + 512).toNat := by
          rw [larger, capacity]
          omega
        exact resize_holds rpos larger holds.front fits c
      · rw [limit] at tooLong
        rw [resize_length, resize_rpos]
        omega
  · next free =>
      rw [ge_iff_le, UInt32.le_iff_toNat_le] at free
      exact (holds.putByte c).congr (by rw [limit]; omega)

/-- Backslashes are appended exactly if the limit allows it. -/
theorem Holds.backslashes (holds : Holds out text) (n : Nat) :
    Exactly (text.length + n ≤ limit) (Holds · (text ++ List.replicate n backslash))
      (appendBackslashes n out) := by
  induction n generalizing out text with
  | zero =>
    rw [replicate_zero, append_nil]
    exact .of_ok holds.le_limit ⟨out, rfl, holds⟩
  | succ n ih =>
    have each := (holds.append backslash).bind fun out' after => ih after
    rw [length_append, length_singleton, append_assoc, singleton_append] at each
    exact each.congr (by omega)

/-! ## What is written -/

/-- What the loop writes. The backslashes are counted in 32 bits. -/
def writtenFrom (numBackslashes : UInt32) : Bytes → Bytes
  | [] => List.replicate (numBackslashes * 2).toNat backslash
  | c :: p =>
    if c = backslash then writtenFrom (numBackslashes + 1) p
    else if c = quote then
      List.replicate (numBackslashes * 2 + 1).toNat backslash ++ quote :: writtenFrom 0 p
    else List.replicate numBackslashes.toNat backslash ++ c :: writtenFrom 0 p

/-- The loop has room for its text behind `k` characters. -/
structure Room (k : Nat) (num : UInt32) (p : Bytes) : Prop where
  quotes : ∀ front back, p = front ++ quote :: back →
    (k + (writtenFrom num front).length + 1) % 512 ≠ 1
  whole : k + (writtenFrom num p).length ≤ limit

theorem forall_front_cons {P : Bytes → Prop} {c : UInt8} {p : Bytes} :
    (∀ front back, c :: p = front ++ quote :: back → P front) ↔
      (c = quote → P []) ∧ ∀ front back, p = front ++ quote :: back → P (c :: front) := by
  constructor
  · intro all
    refine ⟨?_, fun front back whole => all (c :: front) back (by rw [whole]; rfl)⟩
    rintro rfl
    exact all [] p rfl
  · rintro ⟨first, behind⟩ (_ | ⟨d, front⟩) back whole
    · exact first (List.cons.inj whole).1
    · obtain ⟨rfl, tail⟩ := List.cons.inj whole
      exact behind front back tail

variable {k : Nat} {num : UInt32} {p : Bytes}

theorem twice_add_one (num : UInt32) : (num * 2 + 1).toNat = (num * 2).toNat + 1 := by
  rw [UInt32.toNat_add, UInt32.toNat_mul]
  simp only [UInt32.toNat_ofNat]
  omega

theorem room_nil : Room k num [] ↔ k + (num * 2).toNat ≤ limit := by
  rw [← length_replicate (n := (num * 2).toNat) (a := backslash)]
  refine ⟨Room.whole, fun fits => ⟨fun front back whole => ?_, fits⟩⟩
  exact absurd whole (by simp)

theorem writtenFrom_backslash : writtenFrom num (backslash :: p) = writtenFrom (num + 1) p :=
  if_pos rfl

theorem writtenFrom_quote : writtenFrom num (quote :: p) =
    List.replicate (num * 2 + 1).toNat backslash ++ quote :: writtenFrom 0 p :=
  (if_neg (by decide)).trans (if_pos rfl)

variable {c : UInt8}

theorem writtenFrom_other (plain : c ≠ backslash) (other : c ≠ quote) : writtenFrom num (c :: p) =
    List.replicate num.toNat backslash ++ c :: writtenFrom 0 p :=
  (if_neg plain).trans (if_neg other)

theorem room_backslash : Room k num (backslash :: p) ↔ Room k (num + 1) p := by
  constructor
  · rintro ⟨quotes, whole⟩
    rw [forall_front_cons] at quotes
    simp only [writtenFrom_backslash] at quotes whole
    exact ⟨quotes.2, whole⟩
  · rintro ⟨quotes, whole⟩
    refine ⟨forall_front_cons.mpr ⟨fun no => absurd no (by decide), ?_⟩, ?_⟩
    · simp only [writtenFrom_backslash]
      exact quotes
    · rwa [writtenFrom_backslash]

theorem room_quote : Room k num (quote :: p) ↔
    k + (num * 2 + 1).toNat ≤ limit ∧ (k + (num * 2 + 1).toNat) % 512 ≠ 1 ∧
      Room (k + ((num * 2 + 1).toNat + 1)) 0 p := by
  have length : ∀ q, (writtenFrom num (quote :: q)).length =
      (num * 2 + 1).toNat + 1 + (writtenFrom 0 q).length := by
    intro q
    rw [writtenFrom_quote, length_append, length_replicate, length_cons]
    omega
  have first : (writtenFrom num []).length + 1 = (num * 2 + 1).toNat := by
    rw [twice_add_one, writtenFrom, length_replicate]
  constructor
  · rintro ⟨quotes, whole⟩
    rw [forall_front_cons] at quotes
    simp only [length] at quotes whole
    refine ⟨by omega, ?_, fun front back split => ?_, by omega⟩
    · rw [← first, ← Nat.add_assoc]
      exact quotes.1 trivial
    · have here := quotes.2 front back split
      omega
  · rintro ⟨-, here, quotes, whole⟩
    refine ⟨forall_front_cons.mpr ⟨fun _ => ?_, fun front back split => ?_⟩, ?_⟩
    · rwa [Nat.add_assoc, first]
    · have behind := quotes front back split
      rw [length]
      omega
    · rw [length]
      omega

theorem room_other (plain : c ≠ backslash) (other : c ≠ quote) : Room k num (c :: p) ↔
    k + num.toNat ≤ limit ∧ k + num.toNat < limit ∧ Room (k + (num.toNat + 1)) 0 p := by
  have length : ∀ q, (writtenFrom num (c :: q)).length =
      num.toNat + 1 + (writtenFrom 0 q).length := by
    intro q
    rw [writtenFrom_other plain other, length_append, length_replicate, length_cons]
    omega
  constructor
  · rintro ⟨quotes, whole⟩
    rw [forall_front_cons] at quotes
    simp only [length] at quotes whole
    refine ⟨by omega, by omega, fun front back split => ?_, by omega⟩
    have here := quotes.2 front back split
    omega
  · rintro ⟨-, -, quotes, whole⟩
    refine ⟨forall_front_cons.mpr ⟨fun no => absurd no other, fun front back split => ?_⟩, ?_⟩
    · have behind := quotes front back split
      rw [length]
      omega
    · rw [length]
      omega

/-- The loop writes its text, exactly if there is room for it. -/
theorem Holds.escape (holds : Holds out text) (num : UInt32) (p : Bytes) :
    Exactly (Room text.length num p) (Holds · (text ++ writtenFrom num p))
      (escapeFrom num p out) := by
  induction p generalizing num out text with
  | nil => exact (holds.backslashes _).congr room_nil.symm
  | cons c p ih =>
    rw [escapeFrom]
    by_cases isBackslash : c = backslash
    · rw [if_pos isBackslash, isBackslash, room_backslash, writtenFrom_backslash]
      exact ih holds (num + 1)
    rw [if_neg isBackslash]
    by_cases isQuote : c = quote
    · have each := (holds.backslashes (num * 2 + 1).toNat).bind fun out' holds =>
        (holds.putByte quote).bind fun out'' holds => ih holds 0
      simp only [length_append, length_replicate, length_singleton, append_assoc,
        singleton_append] at each
      rw [if_pos isQuote, isQuote, room_quote, writtenFrom_quote]
      exact each
    · have each := (holds.backslashes num.toNat).bind fun out' holds =>
        (holds.append c).bind fun out'' holds => ih holds 0
      simp only [length_append, length_replicate, length_singleton, append_assoc,
        singleton_append] at each
      rw [if_neg isQuote, room_other isBackslash isQuote, writtenFrom_other isBackslash isQuote]
      exact each

/-- All that is written for an argument -/
def writtenText (arg : Bytes) : Bytes := quote :: (writtenFrom 0 arg ++ [quote])

theorem writtenFrom_nonzero (terminated : 0 ∉ p) (num : UInt32) : 0 ∉ writtenFrom num p := by
  have slashes : ∀ n, 0 ∉ List.replicate n backslash := fun n mem =>
    absurd (eq_of_mem_replicate mem) (by decide)
  induction p generalizing num with
  | nil => exact slashes _
  | cons c p ih =>
    simp only [mem_cons, not_or] at terminated
    have behind := ih terminated.2 0
    rw [writtenFrom]
    split_ifs
    · exact ih terminated.2 (num + 1)
    · simp only [mem_append, mem_cons, not_or]
      exact ⟨slashes _, by decide, behind⟩
    · simp only [mem_append, mem_cons, not_or]
      exact ⟨slashes _, terminated.1, behind⟩

theorem Holds.string (terminated : 0 ∉ p) (holds : Holds out (writtenText p ++ [0])) :
    out.ret.takeWhile (· ≠ 0) = writtenText p := by
  obtain ⟨rest, whole⟩ := holds.front
  have nonzero : ∀ c ∈ writtenText p, decide (c ≠ 0) = true := by
    intro c mem
    refine decide_eq_true fun zero => ?_
    have text := writtenFrom_nonzero terminated 0
    simp only [writtenText, mem_cons, mem_append, not_mem_nil, zero] at mem
    rcases mem with mem | mem | mem | mem
    · exact absurd mem (by decide)
    · exact text mem
    · exact absurd mem (by decide)
    · exact mem
  rw [← whole, append_assoc]
  exact (takeWhile_all nonzero fun c head => by cases head; rfl).1

/-- There is room for what is written of an argument. -/
def HasRoom (arg : Bytes) : Prop := Room 1 0 arg ∧ (writtenFrom 0 arg).length + 3 ≤ limit

/-- An argument is quoted, exactly if there is room for its text. -/
theorem escape_spec (arg : CString) :
    Exactly (HasRoom arg.bytes) (· = writtenText arg.bytes) (escapeWindowsCommandArg arg) := by
  have start : Holds { ret := [0], rpos := 0, rsize := 1 } [] :=
    ⟨rfl, rfl, rfl, nil_prefix⟩
  have text : [] ++ [quote] ++ writtenFrom 0 arg.bytes ++ [quote] ++ [0] =
      writtenText arg.bytes ++ [0] := by simp [writtenText]
  have last : ∀ out, Holds out ([] ++ [quote] ++ writtenFrom 0 arg.bytes ++ [quote] ++ [0]) →
      Exactly (ε := EscapeFault) True (· = writtenText arg.bytes)
        (.ok (out.ret.takeWhile (· ≠ 0))) :=
    fun out holds => .of_ok trivial ⟨_, rfl, Holds.string arg.nonzero (text ▸ holds)⟩
  have each := (start.append quote).bind fun _ holds => (holds.escape 0 arg.bytes).bind
    fun _ holds => (holds.append quote).bind fun _ holds => (holds.append 0).bind last
  simp only [length_append, length_singleton, length_nil, nil_append] at each
  refine each.congr ?_
  have top : limit = 2 ^ 32 - 511 := rfl
  rw [HasRoom]
  constructor
  · rintro ⟨-, room, -, last, -⟩
    exact ⟨room, by omega⟩
  · rintro ⟨room, whole⟩
    exact ⟨by omega, room, by omega, by omega, trivial⟩

/-! ## What is read -/

theorem prepend_prepend (a b : Bytes) (read : Bytes × Bytes) :
    prepend a (prepend b read) = prepend (a ++ b) read := by
  rw [prepend, prepend, prepend, append_assoc]

theorem readArg_replicate (quoting : Bool) (n k : Nat) (s : Bytes) :
    readArg quoting n (List.replicate k backslash ++ s) = readArg quoting (n + k) s := by
  induction k generalizing n with
  | zero => rfl
  | succ k ih =>
    rw [replicate_succ, cons_append, readArg, if_pos rfl, ih, Nat.add_assoc,
      Nat.add_comm 1]

/-- What is read of what the loop writes -/
def decodedFrom (num : UInt32) : Bytes → Bytes
  | [] => List.replicate ((num * 2).toNat / 2) backslash
  | c :: p =>
    if c = backslash then decodedFrom (num + 1) p
    else if c = quote then
      List.replicate ((num * 2).toNat / 2) backslash ++ quote :: decodedFrom 0 p
    else List.replicate num.toNat backslash ++ c :: decodedFrom 0 p

theorem twice_even (num : UInt32) : (num * 2).toNat % 2 = 0 := by
  rw [UInt32.toNat_mul]
  simp only [UInt32.toNat_ofNat]
  omega

theorem readArg_written (num : UInt32) (p rest : Bytes) :
    readArg true 0 (writtenFrom num p ++ quote :: rest) =
      prepend (decodedFrom num p) (readArg false 0 rest) := by
  have even := twice_even num
  induction p generalizing num with
  | nil =>
    rw [writtenFrom, readArg_replicate, Nat.zero_add, readArg, if_neg (by decide), if_pos rfl,
      if_pos even]
    rfl
  | cons c p ih =>
    rw [writtenFrom, decodedFrom]
    have behind := ih 0 (twice_even 0)
    split_ifs with isBackslash isQuote
    · exact ih (num + 1) (twice_even _)
    · have odd : ¬ (num * 2 + 1).toNat % 2 = 0 := by
        rw [twice_add_one]
        omega
      have half : (num * 2 + 1).toNat / 2 = (num * 2).toNat / 2 := by
        rw [twice_add_one]
        omega
      rw [append_assoc, readArg_replicate, Nat.zero_add, cons_append, readArg,
        if_neg (by decide), if_pos rfl, if_neg odd, behind, prepend_prepend, half,
        append_assoc]
      rfl
    · rw [append_assoc, readArg_replicate, Nat.zero_add, cons_append, readArg,
        if_neg isBackslash, if_neg isQuote, if_neg (by simp), behind, prepend_prepend,
        append_assoc]
      rfl

theorem readArg_ends {rest : Bytes} (ends : argv.Ends rest) : readArg false 0 rest = ([], rest) := by
  cases rest with
  | nil => rfl
  | cons c rest =>
    have blank : isBlank c = true := ends c rfl
    have plain : c ≠ backslash ∧ c ≠ quote := by
      constructor <;> rintro rfl <;> exact absurd blank (by decide)
    rw [readArg, if_neg plain.1, if_neg plain.2, if_pos (by simp [blank])]
    rfl

theorem writtenText_encodes (arg : Bytes) :
    argv.Encodes (decodedFrom 0 arg) (writtenText arg) := by
  refine ⟨fun c first => by cases first; rfl, fun c t rest text ends => ?_⟩
  cases text
  show readArg false 0 (quote :: (writtenFrom 0 arg ++ [quote]) ++ rest) = _
  rw [cons_append, append_assoc, singleton_append, readArg, if_neg (by decide),
    if_pos rfl, if_pos rfl]
  show prepend [] (readArg true 0 _) = _
  rw [readArg_written, readArg_ends ends, prepend_prepend, nil_append, prepend,
    append_nil]

/-! ## Counting -/

/-- As long as the text is short, no count wraps around. -/
theorem unwrapped {n : Nat} (short : (quotedFrom n p).length < 2 ^ 32) :
    writtenFrom (UInt32.ofNat n) p = quotedFrom n p ∧
      decodedFrom (UInt32.ofNat n) p = List.replicate n backslash ++ p := by
  have count : ∀ {n : Nat}, n < 2 ^ 32 → (UInt32.ofNat n).toNat = n :=
    UInt32.toNat_ofNat_of_lt
  have twice : ∀ {n : Nat}, 2 * n < 2 ^ 32 → (UInt32.ofNat n * 2).toNat = 2 * n := by
    intro n small
    rw [UInt32.toNat_mul, count (by omega)]
    simp only [UInt32.toNat_ofNat]
    omega
  induction p generalizing n with
  | nil =>
    rw [quotedFrom, length_replicate] at short
    rw [writtenFrom, decodedFrom, quotedFrom, twice short, append_nil,
      Nat.mul_div_cancel_left n (by decide)]
    exact ⟨rfl, rfl⟩
  | cons c p ih =>
    rw [writtenFrom, decodedFrom]
    rw [quotedFrom] at short ⊢
    split_ifs at short ⊢ with isBackslash isQuote
    · have next : UInt32.ofNat n + 1 = UInt32.ofNat (n + 1) := (UInt32.ofNat_add n 1).symm
      rw [next, isBackslash, ← singleton_append, ← append_assoc,
        ← replicate_succ']
      exact ih short
    · rw [length_append, length_replicate, length_cons] at short
      obtain ⟨written, decoded⟩ : writtenFrom 0 p = quotedFrom 0 p ∧ decodedFrom 0 p = p :=
        ih (n := 0) (by omega)
      rw [twice_add_one, twice (by omega), written, decoded, isQuote,
        Nat.mul_div_cancel_left n (by decide)]
      exact ⟨rfl, rfl⟩
    · rw [length_append, length_replicate, length_cons] at short
      obtain ⟨written, decoded⟩ : writtenFrom 0 p = quotedFrom 0 p ∧ decodedFrom 0 p = p :=
        ih (n := 0) (by omega)
      rw [count (by omega), written, decoded]
      exact ⟨rfl, rfl⟩

theorem count_le (n : Nat) :
    (UInt32.ofNat n).toNat ≤ n ∧ (UInt32.ofNat n * 2).toNat / 2 ≤ n := by
  have count : (UInt32.ofNat n).toNat ≤ n := by
    rw [UInt32.toNat_ofNat']
    exact Nat.mod_le _ _
  refine ⟨count, ?_⟩
  rw [UInt32.toNat_mul]
  simp only [UInt32.toNat_ofNat]
  omega

theorem decodedFrom_length (n : Nat) (p : Bytes) :
    (decodedFrom (UInt32.ofNat n) p).length ≤ n + p.length := by
  induction p generalizing n with
  | nil =>
    rw [decodedFrom, length_replicate]
    exact (count_le n).2
  | cons c p ih =>
    have behind : (decodedFrom 0 p).length ≤ 0 + p.length := ih 0
    obtain ⟨count, half⟩ := count_le n
    rw [decodedFrom, length_cons]
    split_ifs
    · have next := ih (n + 1)
      rw [UInt32.ofNat_add] at next
      exact next.trans (by omega)
    · rw [length_append, length_replicate, length_cons]
      omega
    · rw [length_append, length_replicate, length_cons]
      omega

/-- An argument that is read back was written without a count that wraps around. -/
theorem written_of_decoded {n : Nat}
    (decoded : decodedFrom (UInt32.ofNat n) p = List.replicate n backslash ++ p) :
    writtenFrom (UInt32.ofNat n) p = quotedFrom n p := by
  -- with the lengths of the fronts, the fronts are the same, and so is what is behind them
  have apart : ∀ {k n : Nat} {d : UInt8} {q p : Bytes}, k ≤ n → q.length ≤ p.length →
      List.replicate k backslash ++ d :: q = List.replicate n backslash ++ d :: p →
        k = n ∧ q = p := by
    intro k n d q p few short same
    have lengths := congrArg List.length same
    simp only [length_append, length_replicate, length_cons] at lengths
    obtain rfl : k = n := by omega
    exact ⟨rfl, (List.cons.inj (append_cancel_left same)).2⟩
  have even := twice_even (UInt32.ofNat n)
  induction p generalizing n with
  | nil =>
    have lengths := congrArg List.length decoded
    rw [decodedFrom, append_nil, length_replicate, length_replicate] at lengths
    rw [writtenFrom, quotedFrom]
    congr 1
    omega
  | cons c p ih =>
    have behind : (decodedFrom 0 p).length ≤ 0 + p.length := decodedFrom_length 0 p
    rw [Nat.zero_add] at behind
    obtain ⟨count, half⟩ := count_le n
    rw [decodedFrom] at decoded
    rw [writtenFrom, quotedFrom]
    split_ifs at decoded ⊢ with isBackslash isQuote
    · have next : UInt32.ofNat n + 1 = UInt32.ofNat (n + 1) := (UInt32.ofNat_add n 1).symm
      rw [next] at decoded ⊢
      rw [isBackslash, ← singleton_append, ← append_assoc,
        ← replicate_succ'] at decoded
      exact ih decoded (twice_even _)
    · rw [isQuote] at decoded
      obtain ⟨same, rest⟩ := apart half behind decoded
      have written : writtenFrom 0 p = quotedFrom 0 p := ih (n := 0) rest (twice_even 0)
      have exactly : (UInt32.ofNat n * 2).toNat = 2 * n := by omega
      rw [twice_add_one, exactly, written]
    · obtain ⟨same, rest⟩ := apart count behind decoded
      have written : writtenFrom 0 p = quotedFrom 0 p := ih (n := 0) rest (twice_even 0)
      rw [same, written]

theorem quotedFrom_front (n : Nat) (front back : Bytes) :
    (quotedFrom n front).length ≤ (quotedFrom n (front ++ quote :: back)).length := by
  induction front generalizing n with
  | nil =>
    rw [nil_append, quotedFrom, quotedFrom, if_neg (by decide), if_pos rfl]
    simp only [length_append, length_replicate]
    omega
  | cons c front ih =>
    rw [cons_append, quotedFrom, quotedFrom]
    split_ifs
    · exact ih (n + 1)
    · have behind := ih 0
      simp only [length_append, length_cons]
      omega
    · have behind := ih 0
      simp only [length_append, length_cons]
      omega

/-! ## Lists of arguments -/

/-- What is written of a list of arguments is read, each by itself. -/
theorem words_written (args : List CString) :
    argv.words ([0x20].intercalate (args.map fun arg => writtenText arg.bytes)) =
      args.map fun arg => decodedFrom 0 arg.bytes := by
  have read := WordReader.words_intercalate (r := argv) (show argv.isSep 0x20 = true from rfl) args
    fun arg _ => writtenText_encodes arg.bytes
  have all : args.filter (fun arg => writtenText arg.bytes ≠ []) = args :=
    filter_eq_self.mpr fun arg _ => decide_eq_true (cons_ne_nil _ _)
  rw [read, all]

/-- All are quoted and read back, if each of them has room and is read back. -/
theorem quotes_each (args : List CString) :
    Quotes args ↔ ∀ arg ∈ args, HasRoom arg.bytes ∧ decodedFrom 0 arg.bytes = arg.bytes := by
  constructor
  · rintro ⟨texts, each, read⟩
    have room : ∀ arg text, escapeWindowsCommandArg arg = .ok text →
        HasRoom arg.bytes ∧ writtenText arg.bytes = text :=
      fun arg text done => ((escape_spec arg).eq_ok_iff.mp done).imp id Eq.symm
    obtain ⟨fits, same⟩ := (List.forall₂_and_left _ _).mp (each.imp room)
    rw [← List.forall₂_map_left_iff (f := fun arg : CString => writtenText arg.bytes),
      List.forall₂_eq_eq_eq] at same
    rw [← same, words_written] at read
    exact fun arg mem => ⟨fits arg mem, map_inj_left.mp read arg mem⟩
  · intro each
    refine ⟨args.map fun arg => writtenText arg.bytes, ?_, ?_⟩
    · rw [List.forall₂_map_right_iff, List.forall₂_same]
      exact fun arg mem => (escape_spec arg).eq_ok_iff.mpr ⟨(each arg mem).1, rfl⟩
    · rw [words_written]
      exact map_congr_left fun arg mem => (each arg mem).2

theorem fits_iff (arg : Bytes) :
    Fits arg ↔ HasRoom arg ∧ decodedFrom 0 arg = arg := by
  -- in a text that is short enough, all fronts are written as they should be
  have fronts : ∀ front back, arg = front ++ quote :: back →
      (quotedFrom 0 arg).length + 3 ≤ limit → writtenFrom 0 front = quotedFrom 0 front := by
    intro front back whole short
    have le := quotedFrom_front 0 front back
    rw [← whole] at le
    rw [limit] at short
    exact (unwrapped (n := 0) (by omega)).1
  constructor
  · rintro ⟨quotes, whole⟩
    obtain ⟨written, decoded⟩ : writtenFrom 0 arg = quotedFrom 0 arg ∧ decodedFrom 0 arg = arg :=
      unwrapped (n := 0) (by rw [limit] at whole; omega)
    rw [HasRoom, written]
    refine ⟨⟨⟨fun front back split => ?_, ?_⟩, whole⟩, decoded⟩
    · have here := quotes front back split
      rw [fronts front back split whole]
      omega
    · rw [written]
      omega
  · rintro ⟨⟨room, whole⟩, decoded⟩
    have written : writtenFrom 0 arg = quotedFrom 0 arg := written_of_decoded (n := 0) decoded
    rw [written] at whole
    refine ⟨fun front back split => ?_, whole⟩
    have here := room.quotes front back split
    rw [fronts front back split whole] at here
    omega

/-- A quote behind so many `a` -/
def quoteBehind (n : Nat) : CString where
  bytes := List.replicate n 0x61 ++ [quote]
  nonzero mem := by
    rcases mem_append.mp mem with mem | mem
    · exact absurd (eq_of_mem_replicate mem) (by decide)
    · exact absurd (mem_singleton.mp mem) (by decide)

theorem quotedFrom_replicate (n : Nat) :
    quotedFrom 0 (List.replicate n 0x61) = List.replicate n 0x61 := by
  induction n with
  | zero => rfl
  | succ n ih =>
    rw [replicate_succ, quotedFrom, if_neg (by decide), if_neg (by decide), ih]
    rfl

end Nmap.Nbase
