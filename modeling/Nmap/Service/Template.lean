import Mathlib.Data.List.DropRight
import Nmap.Service.TemplateVar

/-!
# Filling in version templates (`service_scan.cc`)

`dotmplsubst` copies a template into a buffer, with the values of the placeholders in place of
them, and then cuts off blanks and commas at the end.
-/

namespace Nmap.Service.Template

open Nmap.Base Nmap.Base.Cursor List

set_option maxRecDepth 4000

/-! ## The code -/

/-- A template: a part of a line of the probes file. Its length is an `int`. -/
structure Tmpl extends CString where
  int : bytes.length < 2 ^ 31

/-- The buffer that the template is filled in to. Its length is an `int`. -/
structure Newstr where
  bytes : Bytes
  newstrlen : Int
  size : bytes.length = newstrlen.toNat
  int : newstrlen < 2 ^ 31

/-- What is in a buffer up to the first zero -/
def cstring (bytes : Bytes) : CString where
  bytes := bytes.takeWhile (· ≠ 0)
  nonzero := by
    intro mem
    have other := mem_takeWhile_imp mem
    simp at other

/-- The function that is applied to what goes in the place of a placeholder, if there is one -/
abbrev Transform := Option (CString → Option CString)

/-- The value of a placeholder as a C string, transformed if a transform is given -/
def substOf (transform : Transform) (result : Bytes) : Option CString :=
  match transform with
  | none => some (cstring result)
  | some transform => transform (cstring result)

def toLower (c : UInt8) : UInt8 := if 0x41 ≤ c && c ≤ 0x5a then c + 0x20 else c

/-- A digit of `%02X` -/
def upperHex (n : UInt8) : UInt8 := if n < 10 then 0x30 + n else 0x37 + n

/-- One turn of the loop of `transform_cpe` -/
def transformCpeChar (c : UInt8) : Bytes :=
  if c ∈ ascii ":/?#[]@!$&'()*+,;=%<>\"" then [0x25, upperHex (c / 16), upperHex (c % 16)]
  else if isSpace c then [0x5f]
  else [toLower c]

theorem transformCpeChar_nonzero : ∀ c, c ≠ 0 → 0 ∉ transformCpeChar c :=
  forall_byte (by decide +kernel)

/-- `transform_cpe`, the only transform that is ever given -/
def transformCpe (s : CString) : CString where
  bytes := s.bytes.flatMap transformCpeChar
  nonzero := by
    intro mem
    obtain ⟨c, inside, zero⟩ := mem_flatMap.mp mem
    refine transformCpeChar_nonzero c ?_ zero
    rintro rfl
    exact s.nonzero inside

variable (subject : Subject) (data : MatchData subject) (transform : Transform) (text : Bytes)
  (newstrlen : Int)

/-- `newstr[i] = c` -/
def storeByte (newstr : Bytes) (i : Nat) (c : UInt8) : Access Bytes :=
  if i < newstr.length then .ok (newstr.set i c) else .error (.violation (.newstr i))

/-- `memcpy(newstr + dst, from, n)`, where `from` has `n` bytes -/
def memcpy (newstr : Bytes) (dst : Nat) : Bytes → Access Bytes
  | [] => .ok newstr
  | c :: rest => do
    let newstr ← storeByte newstr dst c
    memcpy newstr (dst + 1) rest

/-- `memcpy(newstr + dst, from, n)`, where `n` is an `int`. A negative one becomes a `size_t` of
more bytes than there are. -/
def memcpyInt (newstr : Bytes) (dst : Nat) (bytes : Bytes) (n : Int) : Access Bytes :=
  if n < 0 then .error (.violation (.newstr newstr.length))
  else memcpy newstr dst (bytes.take n.toNat)

def isTrimmed (c : UInt8) : Bool := isSpace c || c = 0x2c

/-- The loop that removes blanks and commas at the end -/
def trimEnd : Nat → Bytes → Access Bytes
  | 0, newstr => .ok newstr
  | dst + 1, newstr =>
    if isTrimmed (newstr.getD dst 0) then do
      let newstr ← storeByte newstr dst 0
      trimEnd dst newstr
    else .ok newstr

/-- What is done at both ends of the function that return zero -/
def terminate (newstr : Bytes) (dst : Nat) : Access Bytes := do
  let newstr ← storeByte newstr dst 0
  trimEnd dst newstr

/-- The loop over literal text up to the end of the template. `none` is for -1. -/
def copyTail : Nat → Nat → Nat → Bytes → Access (Option (Nat × Bytes))
  | 0, _, _, _ => .error .stuck
  | steps + 1, srcstart, dst, newstr => do
    let c ← charAt text srcstart
    if c = 0 then .ok (some (dst, newstr))
    else if newstrlen - 1 ≤ dst then .ok none
    else do
      let newstr ← storeByte newstr dst c
      copyTail steps (srcstart + 1) (dst + 1) newstr

/-- Copies the literal text in front of a `$`. -/
def copyFront (front : Bytes) (dst : Nat) (newstr : Bytes) : Access (Option Bytes) :=
  let newlen : Int := front.length
  if 0 < newlen then
    if newstrlen - dst ≤ newlen - 1 then .ok none
    else do
      let newstr ← memcpy newstr dst front
      .ok (some newstr)
  else .ok (some newstr)

/-- What a turn of the loop leads to -/
inductive Fill
  | fails
  | ends (newstr : Bytes)
  | goOn (srcstart dst : Nat) (newstr : Bytes)

/-- Puts in the value of the placeholder at `srcstart`. -/
def fillVar (srcstart dst : Nat) (newstr : Bytes) : Access Fill := do
  match ← substvar subject data text srcstart with
  | none => .ok .fails
  | some (result, srcend) =>
    match substOf transform result with
    | none => .ok .fails
    | some subst =>
      let newlen := (subst.bytes.length : Int).bmod (2 ^ 32)
      if newstrlen - 1 ≤ dst + newlen then .ok .fails
      else do
        let newstr ← memcpyInt newstr dst subst.bytes newlen
        .ok (.goOn srcend (dst + newlen).toNat newstr)

/-- A turn of the loop over the template -/
def fillTurn (srcstart dst : Nat) (newstr : Bytes) : Access Fill := do
  let srcend ← skipWhile text (fun c => c ≠ 0x24 && c ≠ 0) srcstart
  let c ← charAt text srcend
  if c = 0 then do
    match ← copyTail text newstrlen (text.length + 1) srcstart dst newstr with
    | none => .ok .fails
    | some (dst, newstr) => do
      let newstr ← terminate newstr dst
      .ok (.ends newstr)
  else do
    match ← copyFront newstrlen ((text.drop srcstart).take (srcend - srcstart)) dst newstr with
    | none => .ok .fails
    | some newstr =>
      fillVar subject data transform text newstrlen srcend (dst + (srcend - srcstart)) newstr

/-- The loop over the template. `none` is for -1. -/
def fillLoop : Nat → Nat → Nat → Bytes → Access (Option Bytes)
  | 0, _, _, _ => .error .stuck
  | turns + 1, srcstart, dst, newstr => do
    let c ← charAt text srcstart
    if c = 0 then
      if newstrlen - 1 ≤ dst then .ok none
      else do
        let newstr ← terminate newstr dst
        .ok (some newstr)
    else
      match ← fillTurn subject data transform text newstrlen srcstart dst newstr with
      | .fails => .ok none
      | .ends newstr => .ok (some newstr)
      | .goOn srcstart dst newstr => fillLoop turns srcstart dst newstr

/-- `dotmplsubst`: what is in `newstr` when 0 is returned, and `none` for -1 -/
def dotmplsubst (newstr : Newstr) : Access (Option Bytes) :=
  if newstr.newstrlen < 3 then .ok none
  else fillLoop subject data transform text newstr.newstrlen (text.length + 1) 0 0 newstr.bytes

/-! ## What a template stands for -/

/-- The template with each placeholder replaced by its value, cut at the first zero and
transformed -/
inductive Fills : Bytes → Bytes → Prop
  | literal {rest : Bytes} (plain : 0x24 ∉ rest) : Fills rest rest
  | placeholder {front after rest v out : Bytes} {ph : Placeholder} {subst : CString}
      (plain : 0x24 ∉ front) (reads : placeholderAt after = some (ph, rest))
      (value : HasValue subject data ph v) (transformed : substOf transform v = some subst)
      (more : Fills rest out) : Fills (front ++ 0x24 :: after) (front ++ subst.bytes ++ out)

/-- The loop comes to this rest of the template, with so many bytes in the buffer. -/
inductive Comes : Nat → Bytes → Prop
  | start (room : 3 ≤ newstrlen) : Comes 0 text
  | next {dst : Nat} {front after rest v : Bytes} {ph : Placeholder} {subst : CString}
      (comes : Comes dst (front ++ 0x24 :: after)) (plain : 0x24 ∉ front)
      (room : (dst + front.length : Nat) ≤ newstrlen)
      (reads : placeholderAt after = some (ph, rest)) (value : HasValue subject data ph v)
      (transformed : substOf transform v = some subst)
      (room' : (dst + front.length + subst.bytes.length : Nat) < newstrlen - 1) :
      Comes (dst + front.length + subst.bytes.length) rest

/-- It comes to a placeholder whose arguments are read beyond their bounds. -/
def Misreads : Prop :=
  ∃ dst front after, Comes subject data transform text newstrlen dst (front ++ 0x24 :: after) ∧
    0x24 ∉ front ∧ (dst + front.length : Nat) ≤ newstrlen ∧ Misread after

/-- It comes to a placeholder with this value, with so many bytes in front of it in the buffer. -/
def Fetches (dst : Nat) (subst : CString) : Prop :=
  ∃ start front after ph rest v,
    Comes subject data transform text newstrlen start (front ++ 0x24 :: after) ∧ 0x24 ∉ front ∧
    dst = start + front.length ∧ dst ≤ newstrlen ∧ placeholderAt after = some (ph, rest) ∧
    HasValue subject data ph v ∧ substOf transform v = some subst

/-- It comes to a value whose length is no `int`. -/
def Long : Prop :=
  ∃ dst subst, Fetches subject data transform text newstrlen dst subst ∧
    2 ^ 31 ≤ subst.bytes.length

/-- It comes to a value whose length is negative as an `int` and passes for one that fits. -/
def Overflows : Prop :=
  ∃ dst subst, Fetches subject data transform text newstrlen dst subst ∧
    (subst.bytes.length : Int).bmod (2 ^ 32) < 0 ∧
    dst + (subst.bytes.length : Int).bmod (2 ^ 32) < newstrlen - 1

/-- A run is right: nothing is written outside of the buffer, and if 0 is returned the buffer has a
C string, which is what the template stands for without blanks and commas at the end. -/
def Holds : Access (Option Bytes) → Prop
  | .ok none => True
  | .ok (some newstr) => 0 ∈ newstr ∧ ∃ out, Fills subject data transform text out ∧
      (cstring newstr).bytes = out.rdropWhile isTrimmed
  | .error .endless => True
  | .error (.violation _) => False
  | .error .stuck => False

/-! ## The buffer -/

/-- The buffer has a text in front, and no zero is in it. -/
structure Buffer (newstr done : Bytes) : Prop where
  size : newstr.length = newstrlen
  int : newstrlen < 2 ^ 31
  front : done <+: newstr
  nonzero : 0 ∉ done

variable {newstrlen} {newstr done : Bytes}

theorem Buffer.room (buffer : Buffer newstrlen newstr done) : done.length ≤ newstr.length :=
  buffer.front.length_le

theorem storeByte_eq (front : done <+: newstr) (room : done.length < newstr.length) (c : UInt8) :
    ∃ newstr', storeByte newstr done.length c = .ok newstr' ∧ newstr'.length = newstr.length ∧
      done ++ [c] <+: newstr' := by
  obtain ⟨behind, rfl⟩ := front
  cases behind with
  | nil => simp at room
  | cons b behind =>
    refine ⟨done ++ c :: behind, ?_, by simp, ⟨behind, by simp⟩⟩
    rw [storeByte, if_pos room, set_append_right _ _ (Nat.le_refl _), Nat.sub_self]
    rfl

theorem memcpy_eq (bytes : Bytes) (front : done <+: newstr)
    (room : done.length + bytes.length ≤ newstr.length) :
    ∃ newstr', memcpy newstr done.length bytes = .ok newstr' ∧ newstr'.length = newstr.length ∧
      done ++ bytes <+: newstr' := by
  induction bytes generalizing done newstr with
  | nil => exact ⟨newstr, rfl, rfl, by rwa [append_nil]⟩
  | cons c bytes ih =>
    rw [length_cons] at room
    obtain ⟨newstr₁, stored, length, front₁⟩ := storeByte_eq front (by omega) c
    obtain ⟨newstr₂, copied, length₂, front₂⟩ := ih front₁ (by
      rw [length_append, length_singleton, length]
      omega)
    refine ⟨newstr₂, ?_, by rw [length₂, length], by simpa using front₂⟩
    rw [memcpy, stored, ok_bind]
    simpa using copied

theorem cstring_eq {kept : Bytes} (nonzero : 0 ∉ kept) (front : kept ++ [0] <+: newstr) :
    (cstring newstr).bytes = kept := by
  obtain ⟨behind, rfl⟩ := front
  show ((kept ++ [0]) ++ behind).takeWhile (· ≠ 0) = kept
  rw [append_assoc, takeWhile_append_of_pos]
  · simp
  · intro c mem
    simp only [ne_eq, decide_not, Bool.not_eq_eq_eq_not, Bool.not_true, decide_eq_false_iff_not]
    rintro rfl
    exact nonzero mem

theorem getD_front {c : UInt8} (front : done ++ [c] <+: newstr) :
    newstr.getD done.length 0 = c := by
  obtain ⟨behind, rfl⟩ := front
  rw [getD_eq_getElem?_getD, append_assoc, List.getElem?_append_right (Nat.le_refl _)]
  simp

theorem trimEnd_eq (front : done ++ [0] <+: newstr) :
    ∃ newstr', trimEnd done.length newstr = .ok newstr' ∧
      done.rdropWhile isTrimmed ++ [0] <+: newstr' := by
  induction done using List.reverseRecOn generalizing newstr with
  | nil => exact ⟨newstr, rfl, front⟩
  | append_singleton done c ih =>
    have shorter : done ++ [c] <+: newstr :=
      (prefix_append (done ++ [c]) [0]).trans front
    rw [length_append, length_singleton, trimEnd, getD_front shorter]
    by_cases trimmed : isTrimmed c = true
    · have room := shorter.length_le
      rw [length_append, length_singleton] at room
      obtain ⟨newstr₁, stored, -, front₁⟩ :=
        storeByte_eq ((prefix_append done [c]).trans shorter) room 0
      rw [if_pos trimmed, stored, ok_bind, rdropWhile_concat_pos isTrimmed done c trimmed]
      exact ih front₁
    · rw [if_neg trimmed, rdropWhile_concat_neg isTrimmed done c trimmed]
      exact ⟨newstr, rfl, front⟩

def Ends (newstr out : Bytes) : Prop :=
  0 ∈ newstr ∧ (cstring newstr).bytes = out.rdropWhile isTrimmed

theorem terminate_eq (buffer : Buffer newstrlen newstr done) (room : done.length < newstr.length) :
    ∃ newstr', terminate newstr done.length = .ok newstr' ∧ Ends newstr' done := by
  obtain ⟨newstr₁, stored, -, front₁⟩ := storeByte_eq buffer.front room 0
  obtain ⟨newstr₂, trimmed, front₂⟩ := trimEnd_eq front₁
  refine ⟨newstr₂, ?_, front₂.subset (by simp), cstring_eq ?_ front₂⟩
  · rw [terminate, stored, ok_bind, trimmed]
  · exact fun mem => buffer.nonzero ((List.rdropWhile_prefix isTrimmed done).subset mem)

theorem Buffer.append {newstr' more : Bytes} (buffer : Buffer newstrlen newstr done)
    (length : newstr'.length = newstr.length) (front : done ++ more <+: newstr')
    (nonzero : 0 ∉ more) : Buffer newstrlen newstr' (done ++ more) where
  size := by rw [length, buffer.size]
  int := buffer.int
  front := front
  nonzero := by simp [buffer.nonzero, nonzero]

/-! ## A turn of the loop -/

variable {text} {src : Nat} {rest front after : Bytes}

/-- The rest of the template is copied as long as there is room for the terminating zero. -/
theorem copyTail_eq (terminated : 0 ∉ text) (here : At text src rest)
    (buffer : Buffer newstrlen newstr done) (room : rest ≠ [] ∨ done.length < newstr.length)
    {steps : Nat} (enough : rest.length < steps) :
    copyTail text newstrlen steps src done.length newstr = .ok none ∨
      ∃ newstr', copyTail text newstrlen steps src done.length newstr =
          .ok (some ((done ++ rest).length, newstr')) ∧
        Buffer newstrlen newstr' (done ++ rest) ∧ (done ++ rest).length < newstr'.length := by
  induction steps generalizing src done rest newstr with
  | zero => exact absurd enough (Nat.not_lt_zero _)
  | succ steps ih =>
    rw [copyTail, charAt_eq here, ok_bind]
    cases rest with
    | nil =>
      refine .inr ⟨newstr, ?_, ?_, ?_⟩
      · rw [append_nil]
        rfl
      · rwa [append_nil]
      · simpa using room
    | cons c rest =>
      have other : c ≠ 0 := here.nonzero terminated
      rw [headD_cons, if_neg other]
      by_cases full : newstrlen - 1 ≤ (done.length : Int)
      · exact .inl (if_pos full)
      · have size := buffer.size
        obtain ⟨newstr₁, stored, length, front₁⟩ := storeByte_eq buffer.front (by omega) c
        have buffer₁ := buffer.append length front₁ (by simpa using Ne.symm other)
        rw [if_neg full, stored, ok_bind]
        have more := ih here.succ buffer₁ (.inr (by
          rw [length_append, length_singleton, length]
          omega)) (Nat.lt_of_succ_lt_succ enough)
        rw [append_assoc, singleton_append, length_append,
          length_singleton] at more
        exact more

/-- The text in front of a `$` is copied if there is room for it. -/
theorem copyFront_eq (buffer : Buffer newstrlen newstr done) (nonzero : 0 ∉ front) :
    (newstrlen < (done.length + front.length : Nat) ∧
        copyFront newstrlen front done.length newstr = .ok none) ∨
      ((done.length + front.length : Nat) ≤ newstrlen ∧
        ∃ newstr', copyFront newstrlen front done.length newstr = .ok (some newstr') ∧
          Buffer newstrlen newstr' (done ++ front)) := by
  have size := buffer.size
  have before := buffer.room
  unfold copyFront
  dsimp only
  by_cases some : 0 < (front.length : Int)
  · rw [if_pos some]
    by_cases full : newstrlen - done.length ≤ (front.length : Int) - 1
    · exact .inl ⟨by omega, if_pos full⟩
    · rw [if_neg full]
      obtain ⟨newstr₁, copied, length, front₁⟩ := memcpy_eq front buffer.front (by omega)
      refine .inr ⟨by omega, newstr₁, ?_, buffer.append length front₁ nonzero⟩
      rw [copied]
      rfl
  · obtain rfl : front = [] := length_eq_zero_iff.mp (by omega)
    refine .inr ⟨by simpa using by omega, newstr, if_neg some, ?_⟩
    rwa [append_nil]

variable {subject data transform}

variable (subject data transform) in
/-- A turn of the loop copies the text in front of a `$` and puts in what the placeholder stands
for. -/
theorem fillTurn_front (terminated : 0 ∉ text) (here : At text src (front ++ 0x24 :: after))
    (plain : 0x24 ∉ front) (buffer : Buffer newstrlen newstr done) :
    (newstrlen < (done.length + front.length : Nat) ∧
        fillTurn subject data transform text newstrlen src done.length newstr = .ok .fails) ∨
      ((done.length + front.length : Nat) ≤ newstrlen ∧ ∃ newstr',
        fillTurn subject data transform text newstrlen src done.length newstr =
          fillVar subject data transform text newstrlen (src + front.length)
            (done ++ front).length newstr' ∧
        Buffer newstrlen newstr' (done ++ front)) := by
  have nonzero : 0 ∉ front := fun mem =>
    here.zero_not_mem terminated (mem_append_left _ mem)
  have behind : (front ++ 0x24 :: after).dropWhile (fun c => c ≠ 0x24 && c ≠ 0) =
      0x24 :: after := by
    rw [dropWhile_append_of_pos]
    · rfl
    · intro c mem
      simp only [ne_eq, Bool.and_eq_true, decide_eq_true_eq]
      exact ⟨fun same => plain (same ▸ mem), fun same => nonzero (same ▸ mem)⟩
  obtain ⟨srcend, skipped, there⟩ :=
    skipWhile_eq (p := fun c => c ≠ 0x24 && c ≠ 0) rfl here
  rw [behind] at there
  obtain rfl : srcend = src + front.length := by
    have to_end := here.length
    have from_there := there.length
    rw [length_append] at to_end
    omega
  unfold fillTurn
  rw [skipped, ok_bind, charAt_eq there, ok_bind, Nat.add_sub_cancel_left, here.drop,
    take_left, length_append]
  show (_ ∧ (if (0x24 : UInt8) = 0 then _ else _) = _) ∨
    (_ ∧ ∃ newstr', (if (0x24 : UInt8) = 0 then _ else _) = _ ∧ _)
  rw [if_neg (by simp)]
  rcases copyFront_eq buffer nonzero with ⟨full, copied⟩ | ⟨room, newstr₁, copied, buffer₁⟩
  · refine .inl ⟨full, ?_⟩
    rw [copied]
    rfl
  · refine .inr ⟨room, newstr₁, ?_, buffer₁⟩
    rw [copied]
    rfl

variable (subject data transform) in
/-- A turn of the loop copies what has no `$` to the end. -/
theorem fillTurn_plain (terminated : 0 ∉ text) (here : At text src rest) (plain : 0x24 ∉ rest)
    (some : rest ≠ []) (buffer : Buffer newstrlen newstr done) :
    fillTurn subject data transform text newstrlen src done.length newstr = .ok .fails ∨
      ∃ newstr', fillTurn subject data transform text newstrlen src done.length newstr =
          .ok (.ends newstr') ∧ Ends newstr' (done ++ rest) := by
  have behind : rest.dropWhile (fun c => c ≠ 0x24 && c ≠ 0) = [] := by
    refine dropWhile_eq_nil_iff.mpr fun c mem => ?_
    have nonzero := here.zero_not_mem terminated
    simp only [ne_eq, Bool.and_eq_true, decide_eq_true_eq]
    exact ⟨fun same => plain (same ▸ mem), fun same => nonzero (same ▸ mem)⟩
  have enough : rest.length < text.length + 1 := by
    have whole := here.length
    omega
  obtain ⟨srcend, skipped, there⟩ :=
    skipWhile_eq (p := fun c => c ≠ 0x24 && c ≠ 0) rfl here
  rw [behind] at there
  unfold fillTurn
  rw [skipped, ok_bind, charAt_eq there, ok_bind, headD_nil, if_pos rfl]
  rcases copyTail_eq terminated here buffer (.inl some) enough with
    copied | ⟨newstr₁, copied, buffer₁, room⟩
  · refine .inl ?_
    rw [copied]
    rfl
  · obtain ⟨newstr₂, terminated, ends⟩ := terminate_eq buffer₁ room
    refine .inr ⟨newstr₂, ?_, ends⟩
    rw [copied, ok_bind]
    show (terminate newstr₁ _ >>= _) = _
    rw [terminated]
    rfl

/-- The value of a placeholder is copied as it is if its length is an `int`. -/
theorem fillVar_eq {v : Bytes} {subst : CString} {j : Nat}
    (value : substvar subject data text src = .ok (some (v, j)))
    (transformed : substOf transform v = some subst) (int : subst.bytes.length < 2 ^ 31)
    (buffer : Buffer newstrlen newstr done) :
    (newstrlen - 1 ≤ (done.length + subst.bytes.length : Nat) ∧
        fillVar subject data transform text newstrlen src done.length newstr = .ok .fails) ∨
      ((done.length + subst.bytes.length : Nat) < newstrlen - 1 ∧ ∃ newstr',
        fillVar subject data transform text newstrlen src done.length newstr =
          .ok (.goOn j (done ++ subst.bytes).length newstr') ∧
        Buffer newstrlen newstr' (done ++ subst.bytes)) := by
  have size := buffer.size
  have same : (subst.bytes.length : Int).bmod (2 ^ 32) = subst.bytes.length :=
    Int.bmod_eq_of_le (by omega) (by omega)
  unfold fillVar
  rw [value, ok_bind]
  dsimp only
  rw [transformed]
  dsimp only
  rw [same]
  by_cases full : newstrlen - 1 ≤ (done.length : Int) + subst.bytes.length
  · exact .inl ⟨by omega, if_pos full⟩
  · obtain ⟨newstr₁, copied, length, front₁⟩ :=
      memcpy_eq subst.bytes buffer.front (by omega)
    refine .inr ⟨by omega, newstr₁, ?_, buffer.append length front₁ subst.nonzero⟩
    have sum : ((done.length : Int) + subst.bytes.length).toNat = (done ++ subst.bytes).length := by
      rw [length_append]
      omega
    rw [if_neg full, memcpyInt, if_neg (by omega), Int.toNat_natCast, take_length, copied, sum]
    rfl

/-! ## The loop -/

variable (subject data transform text newstrlen) in
/-- What a turn of the loop may come to with this rest of the template -/
def TurnHolds (done rest : Bytes) : Access Fill → Prop
  | .ok .fails => True
  | .ok (.ends newstr) => 0x24 ∉ rest ∧ Ends newstr (done ++ rest)
  | .ok (.goOn src dst newstr) => ∃ put rest', At text src rest' ∧ rest'.length < rest.length ∧
      dst = (done ++ put).length ∧ Buffer newstrlen newstr (done ++ put) ∧
      Comes subject data transform text newstrlen (done ++ put).length rest' ∧
      ∀ out, Fills subject data transform rest' out → Fills subject data transform rest (put ++ out)
  | .error (.violation _) => Misreads subject data transform text newstrlen
  | .error .endless => True
  | .error .stuck => False

theorem fillVar_holds (terminated : 0 ∉ text)
    (short : ¬ Long subject data transform text newstrlen)
    (comes : Comes subject data transform text newstrlen done.length (front ++ 0x24 :: after))
    (plain : 0x24 ∉ front) (room : (done.length + front.length : Nat) ≤ newstrlen)
    (there : At text src (0x24 :: after)) (buffer : Buffer newstrlen newstr (done ++ front)) :
    TurnHolds subject data transform text newstrlen done (front ++ 0x24 :: after)
      (fillVar subject data transform text newstrlen src (done ++ front).length newstr) := by
  have returns : VarReturns subject data text after (substvar subject data text src) :=
    substvar_returns terminated there
  cases value : substvar subject data text src with
  | error stop =>
    have stops : fillVar subject data transform text newstrlen src (done ++ front).length newstr =
        .error stop := by
      unfold fillVar
      rw [value]
      rfl
    rw [value] at returns
    rw [stops]
    cases stop with
    | violation _ => exact ⟨done.length, front, after, comes, plain, room, returns⟩
    | endless => exact trivial
    | stuck => exact returns
  | ok result =>
    rw [value] at returns
    cases result with
    | none =>
      have fails : fillVar subject data transform text newstrlen src (done ++ front).length
          newstr = .ok .fails := by
        unfold fillVar
        rw [value]
        rfl
      rw [fails]
      exact trivial
    | some result =>
      obtain ⟨v, j⟩ := result
      obtain ⟨-, ph, rest, reads, has, at_rest⟩ := returns
      cases transformed : substOf transform v with
      | none =>
        have fails : fillVar subject data transform text newstrlen src
            (done ++ front).length newstr = .ok .fails := by
          unfold fillVar
          rw [value, ok_bind]
          dsimp only
          rw [transformed]
        rw [fails]
        exact trivial
      | some subst =>
        have int : subst.bytes.length < 2 ^ 31 := by
          by_contra long
          have fetches : Fetches subject data transform text newstrlen
              (done.length + front.length) subst :=
            ⟨_, front, after, ph, rest, v, comes, plain, rfl, room, reads, has, transformed⟩
          exact short ⟨_, subst, fetches, Nat.le_of_not_lt long⟩
        rcases fillVar_eq value transformed int buffer with
          ⟨-, fails⟩ | ⟨room', newstr₁, goesOn, buffer₁⟩
        · rw [fails]
          exact trivial
        · have shorter := placeholderAt_length reads
          have next := Comes.next comes plain room reads has transformed
            (by rwa [← length_append])
          rw [goesOn]
          refine ⟨front ++ subst.bytes, rest, at_rest, ?_, ?_, ?_, ?_, fun out fills => ?_⟩
          · rw [length_append, length_cons]
            omega
          · rw [append_assoc]
          · rwa [← append_assoc]
          · rwa [length_append, length_append, ← Nat.add_assoc]
          · exact .placeholder plain reads has transformed fills

theorem fillTurn_holds (terminated : 0 ∉ text)
    (short : ¬ Long subject data transform text newstrlen) (some : rest ≠ [])
    (comes : Comes subject data transform text newstrlen done.length rest)
    (here : At text src rest) (buffer : Buffer newstrlen newstr done) :
    TurnHolds subject data transform text newstrlen done rest
      (fillTurn subject data transform text newstrlen src done.length newstr) := by
  by_cases dollar : 0x24 ∈ rest
  · obtain ⟨front, after, rfl, plain⟩ := eq_append_cons_of_mem dollar
    rcases fillTurn_front subject data transform terminated here plain buffer with
      ⟨-, fails⟩ | ⟨room, newstr₁, same, buffer₁⟩
    · rw [fails]
      exact trivial
    · rw [same]
      exact fillVar_holds terminated short comes plain room here.append buffer₁
  · rcases fillTurn_plain subject data transform
      terminated here dollar some buffer with fails | ⟨newstr₁, ended, ends⟩
    · rw [fails]
      exact trivial
    · rw [ended]
      exact ⟨dollar, ends⟩

variable (subject data transform text newstrlen) in
/-- What the loop may come to with this rest of the template -/
def LoopHolds (done rest : Bytes) : Access (Option Bytes) → Prop
  | .ok none => True
  | .ok (some newstr) =>
    ∃ out, Fills subject data transform rest out ∧ Ends newstr (done ++ out)
  | .error (.violation _) => Misreads subject data transform text newstrlen
  | .error .endless => True
  | .error .stuck => False

theorem fillLoop_holds (terminated : 0 ∉ text)
    (short : ¬ Long subject data transform text newstrlen) {turns : Nat}
    (enough : rest.length < turns)
    (comes : Comes subject data transform text newstrlen done.length rest)
    (here : At text src rest) (buffer : Buffer newstrlen newstr done) :
    LoopHolds subject data transform text newstrlen done rest
      (fillLoop subject data transform text newstrlen turns src done.length newstr) := by
  induction turns generalizing src done rest newstr with
  | zero => exact absurd enough (Nat.not_lt_zero _)
  | succ turns ih =>
    rw [fillLoop, charAt_eq here, ok_bind]
    cases rest with
    | nil =>
      rw [headD_nil, if_pos rfl]
      by_cases full : newstrlen - 1 ≤ (done.length : Int)
      · rw [if_pos full]
        exact trivial
      · have size := buffer.size
        obtain ⟨newstr₁, terminated, ends⟩ := terminate_eq buffer (by omega)
        rw [if_neg full, terminated]
        refine ⟨[], .literal not_mem_nil, ?_⟩
        rwa [append_nil]
    | cons c rest =>
      rw [headD_cons, if_neg (here.nonzero terminated)]
      have turn : TurnHolds subject data transform text newstrlen done (c :: rest)
          (fillTurn subject data transform text newstrlen src done.length newstr) :=
        fillTurn_holds terminated short (cons_ne_nil c rest) comes here buffer
      generalize fillTurn subject data transform text newstrlen src done.length newstr = result
        at turn
      match result, turn with
      | .ok .fails, _ => exact trivial
      | .ok (.ends newstr'), ⟨plain, ends⟩ => exact ⟨_, .literal plain, ends⟩
      | .error (.violation _), misreads => exact misreads
      | .error .endless, _ => exact trivial
      | .ok (.goOn src' _ newstr'), ⟨put, rest', there, shorter, rfl, buffer', comes', fills⟩ =>
        rw [ok_bind]
        have later := ih (by omega) comes' there buffer'
        dsimp only
        generalize fillLoop subject data transform text newstrlen turns src'
          (done ++ put).length newstr' = last at later
        match last, later with
        | .ok none, _ => exact trivial
        | .error (.violation _), misreads => exact misreads
        | .error .endless, _ => exact trivial
        | .ok (some newstr₂), ⟨out, filled, ends⟩ =>
          refine ⟨put ++ out, fills out filled, ?_⟩
          rwa [← append_assoc]

theorem fillLoop_turn (terminated : 0 ∉ text) (here : At text src rest) (nonempty : rest ≠ [])
    {turns : Nat} :
    fillLoop subject data transform text newstrlen (turns + 1) src done.length newstr =
      fillTurn subject data transform text newstrlen src done.length newstr >>= fun
        | .fails => .ok none
        | .ends newstr => .ok (some newstr)
        | .goOn src dst newstr =>
          fillLoop subject data transform text newstrlen turns src dst newstr := by
  obtain ⟨c, rest, rfl⟩ := exists_cons_of_ne_nil nonempty
  rw [fillLoop, charAt_eq here, ok_bind, headD_cons, if_neg (here.nonzero terminated)]

/-- The loop does come to where it is said to come to. -/
theorem fillLoop_comes (terminated : 0 ∉ text) {dst : Nat}
    (comes : Comes subject data transform text newstrlen dst rest)
    (buffer : Buffer newstrlen newstr []) :
    ∃ turns src done newstr', dst = done.length ∧ At text src rest ∧
      Buffer newstrlen newstr' done ∧ rest.length < turns ∧
      fillLoop subject data transform text newstrlen (text.length + 1) 0 0 newstr =
        fillLoop subject data transform text newstrlen turns src done.length newstr' := by
  induction comes with
  | start room => exact ⟨_, 0, [], newstr, rfl, .start text, buffer, Nat.lt_succ_self _, rfl⟩
  | @next dst front after rest v ph subst comes plain room reads has transformed room' ih =>
    obtain ⟨turns, src, done, newstr₁, rfl, here, buffer₁, enough, same⟩ := ih
    obtain ⟨turns, rfl⟩ := Nat.exists_eq_add_of_le' (Nat.lt_of_le_of_lt (Nat.zero_le _) enough)
    have nonempty : front ++ 0x24 :: after ≠ [] := by simp
    obtain ⟨j, value, there⟩ := substvar_eq terminated here.append reads has
    have int := buffer.int
    rcases fillTurn_front subject data transform
      terminated here plain buffer₁ with ⟨full, -⟩ | ⟨-, newstr₂, turn, buffer₂⟩
    · omega
    · rcases fillVar_eq value transformed (by omega) buffer₂ with
        ⟨full, -⟩ | ⟨-, newstr₃, goesOn, buffer₃⟩
      · rw [length_append] at full
        omega
      · refine ⟨turns, j, done ++ front ++ subst.bytes, newstr₃, ?_, there, buffer₃, ?_, ?_⟩
        · rw [length_append, length_append]
        · have shorter := placeholderAt_length reads
          rw [length_append, length_cons] at enough
          omega
        · rw [same, fillLoop_turn terminated here nonempty, turn, goesOn]
          rfl

theorem fillLoop_dollar (terminated : 0 ∉ text) {dst : Nat}
    (comes : Comes subject data transform text newstrlen dst (front ++ 0x24 :: after))
    (plain : 0x24 ∉ front) (room : (dst + front.length : Nat) ≤ newstrlen)
    (buffer : Buffer newstrlen newstr []) :
    ∃ turns src newstr', At text src (0x24 :: after) ∧
      fillLoop subject data transform text newstrlen (text.length + 1) 0 0 newstr =
        fillVar subject data transform text newstrlen src (dst + front.length) newstr' >>= fun
          | .fails => .ok none
          | .ends newstr => .ok (some newstr)
          | .goOn src dst newstr =>
            fillLoop subject data transform text newstrlen turns src dst newstr := by
  obtain ⟨turns, src, done, newstr₁, rfl, here, buffer₁, enough, same⟩ :=
    fillLoop_comes terminated comes buffer
  obtain ⟨turns, rfl⟩ := Nat.exists_eq_add_of_le' (Nat.lt_of_le_of_lt (Nat.zero_le _) enough)
  have nonempty : front ++ 0x24 :: after ≠ [] := by simp
  rcases fillTurn_front subject data transform
    terminated here plain buffer₁ with ⟨full, -⟩ | ⟨-, newstr₂, turn, -⟩
  · omega
  · refine ⟨turns, src + front.length, newstr₂, here.append, ?_⟩
    rw [same, fillLoop_turn terminated here nonempty, turn, length_append]

theorem fillLoop_misreads (terminated : 0 ∉ text)
    (misreads : Misreads subject data transform text newstrlen)
    (buffer : Buffer newstrlen newstr []) :
    ∃ violation, fillLoop subject data transform text newstrlen (text.length + 1) 0 0 newstr =
      .error (.violation violation) := by
  obtain ⟨dst, front, after, comes, plain, room, misread⟩ := misreads
  obtain ⟨turns, src, newstr', there, same⟩ := fillLoop_dollar terminated comes plain room buffer
  have returns : VarReturns subject data text after (substvar subject data text src) :=
    substvar_returns terminated there
  rw [same, fillVar]
  generalize substvar subject data text src = result at returns
  match result, returns with
  | .error (.violation violation), _ => exact ⟨violation, rfl⟩
  | .error .endless, ⟨inside, _⟩ => exact absurd misread inside
  | .ok none, ⟨inside, _⟩ => exact absurd misread inside
  | .ok (some _), ⟨inside, _⟩ => exact absurd misread inside

theorem fillLoop_overflows (terminated : 0 ∉ text)
    (overflows : Overflows subject data transform text newstrlen)
    (buffer : Buffer newstrlen newstr []) :
    ∃ violation, fillLoop subject data transform text newstrlen (text.length + 1) 0 0 newstr =
      .error (.violation violation) := by
  obtain ⟨_, subst, ⟨dst, front, after, ph, rest, v, comes, plain, rfl, room, reads, has,
    transformed⟩, negative, fits⟩ := overflows
  obtain ⟨turns, src, newstr', there, same⟩ := fillLoop_dollar terminated comes plain room buffer
  obtain ⟨j, value, -⟩ := substvar_eq terminated there reads has
  refine ⟨.newstr newstr'.length, ?_⟩
  rw [same, fillVar, value, ok_bind]
  dsimp only
  rw [transformed]
  dsimp only
  rw [if_neg (by omega), memcpyInt, if_pos negative]
  rfl

theorem Comes.room {dst : Nat} (comes : Comes subject data transform text newstrlen dst rest) :
    3 ≤ newstrlen := by
  induction comes with
  | start room => exact room
  | next _ _ _ _ _ _ _ ih => exact ih

theorem Newstr.buffer (newstr : Newstr) (room : 0 ≤ newstr.newstrlen) :
    Buffer newstr.newstrlen newstr.bytes [] where
  size := by
    rw [newstr.size]
    exact Int.toNat_of_nonneg room
  int := newstr.int
  front := nil_prefix
  nonzero := not_mem_nil

/-- A template with one integer too many -/
def crowded : Tmpl where
  bytes := ascii "$P(1,2,3,4,5,6)"
  nonzero := by decide
  int := by decide

def fourBytes : Newstr where
  bytes := [0, 0, 0, 0]
  newstrlen := 4
  size := rfl
  int := by decide

/-- What is put in for `$1` is followed by text whose comma and blank are cut off. -/
example : (dotmplsubst letter [none, some letterCapture] (some fun s => some (transformCpe s))
    (ascii "v$1, ") ⟨List.replicate 8 0xff, 8, rfl, by decide⟩) =
    .ok (some (ascii "va" ++ [0, 0, 0, 0xff, 0xff, 0xff])) := by
  decide

end Nmap.Service.Template
