import Nmap.Base.Utf8
import Mathlib.Data.List.Basic

/-!
# Line endings (`util.c`)

`fix_line_endings` puts a CR in front of the line feeds that have none. It is given a stream in
blocks, and remembers between two calls only whether the last byte so far was a CR.
-/

namespace Nmap.Ncat

open Nmap.Base List

/-- `\r` -/
def cr : UInt8 := 0x0d

/-- `\n` -/
def lf : UInt8 := 0x0a

/-! ## The function -/

/-- `src[i] == '\n' && ((i == 0) ? !prev_state : src[i - 1] != '\r')` -/
def loneLf (src : Bytes) (prevState : Bool) (i : Nat) : Bool :=
  src[i]? = some lf && (if i = 0 then !prevState else src[i - 1]? ≠ some cr)

def fixedAt (src : Bytes) (prevState : Bool) (i : Nat) : Bytes :=
  if loneLf src prevState i then [cr, lf] else [src.getD i 0]

/-- The loop that copies to a new block of this size, with what was written so far. It fails if it
would write behind the block. -/
def copyFixed (src : Bytes) (prevState : Bool) (size : Nat) : List Nat → Bytes → Option Bytes
  | [], dst => some dst
  | i :: is, dst =>
    let bytes := fixedAt src prevState i
    if dst.length + bytes.length ≤ size then copyFixed src prevState size is (dst ++ bytes)
    else none

/-- What is returned: 0, or 1 with a new block -/
inductive Fixed
  | unchanged
  | changed (dst : Bytes)
  deriving DecidableEq

/-- What the caller sends, if it gave this block -/
def Fixed.sent (src : Bytes) : Fixed → Bytes
  | .unchanged => src
  | .changed dst => dst

/-- `*state` behind a block: was the last byte a CR? -/
def endsInCr (state : Bool) (src : Bytes) : Bool :=
  if src.length > 0 then src.getLast? = some cr else state

/-- `fix_line_endings`, with the state behind it. It fails if a byte of the new block is missing. -/
def fixLineEndings (src : Bytes) (state : Bool) : Option (Fixed × Bool) := do
  let numBytes := src.length
  let prevState := state
  let state := endsInCr state src
  let fixCount := (List.range numBytes).countP (loneLf src prevState)
  if fixCount = 0 then return (.unchanged, state)
  let dst ← copyFixed src prevState (numBytes + fixCount) (List.range numBytes) []
  if dst.length = numBytes + fixCount then return (.changed dst, state) else none

/-- The blocks of a stream, with one state variable -/
def fixBlocks : Bool → List Bytes → Option (List Fixed)
  | _, [] => some []
  | state, src :: blocks => do
    let (fixed, state) ← fixLineEndings src state
    let rest ← fixBlocks state blocks
    return fixed :: rest

/-! ## The stream -/

/-- A stream with a CR in front of every line feed that has none -/
def withCr : Bool → Bytes → Bytes
  | _, [] => []
  | afterCr, c :: s => (if c = lf && !afterCr then [cr, lf] else [c]) ++ withCr (c = cr) s

theorem withCr_append (state : Bool) (a b : Bytes) :
    withCr state (a ++ b) = withCr state a ++ withCr (endsInCr state a) b := by
  induction a generalizing state with
  | nil => rfl
  | cons c a ih =>
    have last : endsInCr (c = cr) a = endsInCr state (c :: a) := by
      cases a with
      | nil => simp [endsInCr]
      | cons d a => simp [endsInCr]
    rw [cons_append, withCr, ih, last, withCr, append_assoc]

theorem sublist_withCr (state : Bool) (s : Bytes) : s.Sublist (withCr state s) := by
  induction s generalizing state with
  | nil => exact Sublist.slnil
  | cons c s ih =>
    rw [withCr]
    split
    · next lone =>
        rw [Bool.and_eq_true, decide_eq_true_eq] at lone
        rw [lone.1]
        exact ((ih _).cons_cons lf).cons cr
    · exact (ih _).cons_cons c

/-- **A line feed that got its CR does not get another one.** -/
theorem withCr_withCr (state : Bool) (s : Bytes) :
    withCr state (withCr state s) = withCr state s := by
  induction s generalizing state with
  | nil => rfl
  | cons c s ih =>
    by_cases lone : (c = lf && !state) = true
    · rw [withCr, if_pos lone]
      rw [Bool.and_eq_true, decide_eq_true_eq, Bool.not_eq_true'] at lone
      obtain ⟨rfl, rfl⟩ := lone
      have step : withCr false ([cr, lf] ++ withCr false s) =
          [cr, lf] ++ withCr false (withCr false s) := rfl
      exact step.trans (congrArg ([cr, lf] ++ ·) (ih false))
    · rw [withCr, if_neg lone, singleton_append, withCr, if_neg lone, ih]
      rfl

/-! ## The two loops -/

theorem loneLf_succ (c : UInt8) (src : Bytes) (state : Bool) (i : Nat) :
    loneLf (c :: src) state (i + 1) = loneLf src (c = cr) i := by
  cases i with
  | zero => simp [loneLf]
  | succ i => simp [loneLf]

theorem loneLf_zero (c : UInt8) (src : Bytes) (state : Bool) :
    loneLf (c :: src) state 0 = (c = lf && !state) := by
  simp [loneLf]

theorem flatMap_fixedAt (src : Bytes) (state : Bool) :
    (List.range src.length).flatMap (fixedAt src state) = withCr state src := by
  induction src generalizing state with
  | nil => rfl
  | cons c src ih =>
    have first : fixedAt (c :: src) state 0 = if c = lf && !state then [cr, lf] else [c] := by
      rw [fixedAt, loneLf_zero]
      rfl
    have rest : (fun i => fixedAt (c :: src) state (i + 1)) = fixedAt src (c = cr) := by
      funext i
      rw [fixedAt, loneLf_succ, fixedAt]
      rfl
    rw [length_cons, range_succ_eq_map, flatMap_cons, first, flatMap_map,
      rest, ih, withCr]

theorem length_withCr (src : Bytes) (state : Bool) :
    (withCr state src).length =
      src.length + (List.range src.length).countP (loneLf src state) := by
  induction src generalizing state with
  | nil => rfl
  | cons c src ih =>
    have rest : loneLf (c :: src) state ∘ Nat.succ = loneLf src (c = cr) := by
      funext i
      exact loneLf_succ c src state i
    rw [withCr, length_append, ih, length_cons, range_succ_eq_map,
      countP_cons, countP_map, rest, loneLf_zero]
    split
    · simp only [length_cons, length_nil]
      omega
    · simp only [length_cons, length_nil]
      omega

theorem copyFixed_eq {src : Bytes} {state : Bool} {size : Nat} (is : List Nat) (dst : Bytes)
    (room : dst.length + (is.flatMap (fixedAt src state)).length ≤ size) :
    copyFixed src state size is dst = some (dst ++ is.flatMap (fixedAt src state)) := by
  induction is generalizing dst with
  | nil => rw [copyFixed, flatMap_nil, append_nil]
  | cons i is ih =>
    rw [flatMap_cons, length_append] at room
    rw [copyFixed, if_pos (by omega), ih _ (by rw [length_append]; omega), flatMap_cons,
      append_assoc]

/-- **One block**: what the caller sends has its line feeds fixed, and nothing is returned if
there was nothing to fix. -/
theorem fixLineEndings_eq (src : Bytes) (state : Bool) :
    fixLineEndings src state =
      some (if withCr state src = src then .unchanged else .changed (withCr state src),
        endsInCr state src) := by
  have count := length_withCr src state
  rw [fixLineEndings]
  by_cases none_ : (List.range src.length).countP (loneLf src state) = 0
  · rw [none_] at count
    have same : withCr state src = src := ((sublist_withCr state src).eq_of_length count.symm).symm
    rw [if_pos none_, if_pos same]
    rfl
  · have differ : withCr state src ≠ src := by
      intro same
      rw [same] at count
      omega
    have room : ([] : Bytes).length +
        ((List.range src.length).flatMap (fixedAt src state)).length ≤
          src.length + (List.range src.length).countP (loneLf src state) := by
      rw [flatMap_fixedAt, count]
      exact Nat.le_of_eq (Nat.zero_add _)
    rw [if_neg none_, if_neg differ, copyFixed_eq _ _ room, flatMap_fixedAt]
    show (if ([] ++ withCr state src).length = _ then _ else none) = _
    rw [nil_append, if_pos count]
    rfl

/-! ## The stream in blocks -/

def sentBlocks (blocks : List Bytes) (fixed : List Fixed) : Bytes :=
  (List.zipWith Fixed.sent blocks fixed).flatten

theorem fixBlocks_sent (state : Bool) (blocks : List Bytes) :
    ∃ fixed, fixBlocks state blocks = some fixed ∧
      sentBlocks blocks fixed = withCr state blocks.flatten := by
  induction blocks generalizing state with
  | nil => exact ⟨[], rfl, rfl⟩
  | cons src blocks ih =>
    obtain ⟨fixed, run, same⟩ := ih (endsInCr state src)
    have first : Fixed.sent src
        (if withCr state src = src then .unchanged else .changed (withCr state src)) =
          withCr state src := by
      split
      · next unchanged => exact unchanged.symm
      · rfl
    refine ⟨(if withCr state src = src then .unchanged else .changed (withCr state src)) :: fixed,
      ?_, ?_⟩
    · rw [fixBlocks, fixLineEndings_eq]
      show (fixBlocks (endsInCr state src) blocks >>= _) = _
      rw [run]
      rfl
    · rw [sentBlocks, zipWith_cons_cons, flatten_cons, flatten_cons, withCr_append,
        ← same, first, sentBlocks]

theorem fixBlocks_unchanged (state : Bool) (blocks : List Bytes)
    (fixed : withCr state blocks.flatten = blocks.flatten) :
    fixBlocks state blocks = some (blocks.map fun _ => .unchanged) := by
  induction blocks generalizing state with
  | nil => rfl
  | cons src blocks ih =>
    rw [flatten_cons, withCr_append] at fixed
    have front : (withCr state src).length = src.length := by
      have whole := congrArg List.length fixed
      have left := (sublist_withCr state src).length_le
      have right := (sublist_withCr (endsInCr state src) blocks.flatten).length_le
      rw [length_append, length_append] at whole
      omega
    obtain ⟨same, rest⟩ := append_inj fixed front
    rw [fixBlocks, fixLineEndings_eq, if_pos same]
    show (fixBlocks (endsInCr state src) blocks >>= _) = _
    rw [ih _ rest]
    rfl

/-- **However a stream is split into blocks, what is sent is the stream with a CR in front of
every line feed that has none, and what is sent is left alone if it is given in blocks again.** -/
theorem fixBlocks_stream (blocks : List Bytes) :
    (∃ fixed, fixBlocks false blocks = some fixed ∧
      sentBlocks blocks fixed = withCr false blocks.flatten) ∧
    ∀ again : List Bytes, again.flatten = withCr false blocks.flatten →
      fixBlocks false again = some (again.map fun _ => .unchanged) := by
  refine ⟨fixBlocks_sent false blocks, ?_⟩
  intro again same
  apply fixBlocks_unchanged
  rw [same, withCr_withCr]

end Nmap.Ncat
