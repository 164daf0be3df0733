import Mathlib.Data.List.TakeWhile
import Nmap.Base.Cursor

/-!
# Arguments of template commands (`service_scan.cc`, `utils.cc`)

A version template may hold commands such as `$SUBST(1,"_",".")`. `getsubstcommandargs` reads the
arguments, integers and strings in quotes, and `cstring_unescape` replaces what is escaped in a
string. The number of integers is not checked, and behind a string that is not closed the search
for the next separator goes on beyond the end of the text.
-/

namespace Nmap.Service.Template

open Nmap.Base Nmap.Base.Cursor List

/-! ## Escapes -/

/-- The value of one digit in `hex2char` -/
def hexValue (hex : UInt8) : UInt8 :=
  if hex < 0x41 then hex - 0x30
  else (if 0x41 ≤ hex && hex ≤ 0x5a then hex + 0x20 else hex) + 10 - 0x61

def hex2char (a b : UInt8) : Option UInt8 :=
  if isXDigit a && isXDigit b then some (hexValue a <<< 4 + hexValue b) else none

/-- The escapes of `cstring_unescape` that are one character long -/
def escaped (c : UInt8) : Option UInt8 :=
  if c = 0x5c then some 0x5c
  else if c = 0x30 then some 0
  else if c = 0x6e then some 0x0a
  else if c = 0x72 then some 0x0d
  else if c = 0x74 then some 0x09
  else none

/-- `cstring_unescape` on the characters before the terminating zero. What it writes is never
longer than what it has read, so the string may be replaced in place. -/
def cstringUnescape : Bytes → Option Bytes
  | [] => some []
  | c :: src =>
    if c = 0x5c then
      match src with
      | [] => none
      | e :: src =>
        if e = 0x78 then
          match src with
          | a :: b :: src => do
            let newchar ← hex2char a b
            let rest ← cstringUnescape src
            some (newchar :: rest)
          | _ => none
        else do
          let newchar ← escaped e
          let rest ← cstringUnescape src
          some (newchar :: rest)
    else do
      let rest ← cstringUnescape src
      some (c :: rest)

/-- `body` is a text without a quote that stands for `value` inside of quotes. -/
inductive Escapes : Bytes → Bytes → Prop
  | nil : Escapes [] []
  | plain {c : UInt8} {body value : Bytes} (nonzero : c ≠ 0) (backslash : c ≠ 0x5c)
      (quote : c ≠ 0x22) (rest : Escapes body value) : Escapes (c :: body) (c :: value)
  | short {e c : UInt8} {body value : Bytes} (escape : escaped e = some c)
      (rest : Escapes body value) : Escapes (0x5c :: e :: body) (c :: value)
  | hex {a b c : UInt8} {body value : Bytes} (digits : hex2char a b = some c)
      (rest : Escapes body value) : Escapes (0x5c :: 0x78 :: a :: b :: body) (c :: value)

section Unescape

variable {c e a b : UInt8} {src : Bytes}

attribute [local simp] cstringUnescape in
theorem unescape_plain (other : c ≠ 0x5c) :
    cstringUnescape (c :: src) = (cstringUnescape src).map (c :: ·) := by
  rw [cstringUnescape.eq_def]
  show (if c = 0x5c then _ else _) = _
  rw [if_neg other]
  cases cstringUnescape src
  · rfl
  · rfl

theorem unescape_short (other : e ≠ 0x78) :
    cstringUnescape (0x5c :: e :: src) =
      (escaped e).bind fun c => (cstringUnescape src).map (c :: ·) := by
  rw [cstringUnescape.eq_def]
  show (if e = 0x78 then _ else _) = _
  rw [if_neg other]
  cases cstringUnescape src
  · rfl
  · rfl

theorem unescape_hex :
    cstringUnescape (0x5c :: 0x78 :: a :: b :: src) =
      (hex2char a b).bind fun c => (cstringUnescape src).map (c :: ·) := by
  rw [cstringUnescape.eq_def]
  show (hex2char a b >>= _) = _
  cases cstringUnescape src
  · rfl
  · rfl

theorem unescape_hex_short (few : src.length < 2) :
    cstringUnescape (0x5c :: 0x78 :: src) = none := by
  rcases src with _ | ⟨a, _ | ⟨b, src⟩⟩
  · rfl
  · rfl
  · simp only [length_cons] at few
    omega

theorem isSome_escape {x : Option UInt8} {y : Option Bytes} :
    (x.bind fun c => y.map (c :: ·)).isSome = true ↔ x.isSome = true ∧ y.isSome = true := by
  cases x
  · simp
  · cases y
    · simp
    · simp

theorem isXDigit_of_hex {c : UInt8} (digits : hex2char a b = some c) :
    isXDigit a = true ∧ isXDigit b = true := by
  unfold hex2char at digits
  split at digits
  · next both => exact Bool.and_eq_true_iff.mp both
  · cases digits

theorem hex_of_other (other : isXDigit a = false ∨ isXDigit b = false) :
    hex2char a b = none := by
  cases char : hex2char a b with
  | none => rfl
  | some c =>
    obtain ⟨first, second⟩ := isXDigit_of_hex char
    rcases other with no | no
    · rw [first] at no
      cases no
    · rw [second] at no
      cases no

variable {body : Bytes}

/-- What is in front of a quote can be unescaped if the whole can, for no escape has a quote in
it. -/
theorem unescape_front {rest : Bytes} (valid : (cstringUnescape (body ++ 0x22 :: rest)).isSome) :
    (cstringUnescape body).isSome := by
  have quote : isXDigit 0x22 = false := by rfl
  induction body using cstringUnescape.induct with
  | case1 => rfl
  | case2 =>
    have bad : cstringUnescape (0x5c :: 0x22 :: rest) = none := unescape_short (by simp)
    rw [singleton_append, bad] at valid
    cases valid
  | case3 a b src ih =>
    rw [cons_append, cons_append, cons_append, cons_append, unescape_hex,
      isSome_escape] at valid
    rw [unescape_hex, isSome_escape]
    exact ⟨valid.1, ih valid.2⟩
  | case4 src few =>
    exfalso
    rcases src with _ | ⟨a, _ | ⟨b, src⟩⟩
    · cases rest with
      | nil => exact absurd valid (by rw [cons_append, cons_append, nil_append,
          unescape_hex_short (by simp)]; simp)
      | cons b rest =>
        rw [cons_append, cons_append, nil_append, unescape_hex,
          hex_of_other (.inl quote)] at valid
        cases valid
    · rw [cons_append, cons_append, cons_append, nil_append, unescape_hex,
        hex_of_other (.inr quote)] at valid
      cases valid
    · exact few a b src rfl
  | case5 e src other ih =>
    rw [cons_append, cons_append, unescape_short other, isSome_escape] at valid
    rw [unescape_short other, isSome_escape]
    exact ⟨valid.1, ih valid.2⟩
  | case6 c src other ih =>
    rw [cons_append, unescape_plain other, Option.isSome_map] at valid
    rw [unescape_plain other, Option.isSome_map]
    exact ih valid

theorem unescape_backslash (valid : (cstringUnescape (body ++ [0x5c])).isSome) : body.getLast? =
    some 0x5c := by
  have backslash : isXDigit 0x5c = false := by rfl
  induction body using cstringUnescape.induct with
  | case1 => cases valid
  | case2 => rfl
  | case3 a b src ih =>
    rw [cons_append, cons_append, cons_append, cons_append, unescape_hex,
      isSome_escape] at valid
    simp [List.getLast?_cons, ih valid.2]
  | case4 src few =>
    exfalso
    rcases src with _ | ⟨a, _ | ⟨b, src⟩⟩
    · cases valid
    · rw [cons_append, cons_append, cons_append, nil_append, unescape_hex,
        hex_of_other (.inr backslash)] at valid
      cases valid
    · exact few a b src rfl
  | case5 e src other ih =>
    rw [cons_append, cons_append, unescape_short other, isSome_escape] at valid
    simp [List.getLast?_cons, ih valid.2]
  | case6 c src other ih =>
    rw [cons_append, unescape_plain other, Option.isSome_map] at valid
    simp [List.getLast?_cons, ih valid]

theorem Escapes.unescape {value : Bytes} (escapes : Escapes body value) :
    cstringUnescape body = some value := by
  induction escapes with
  | nil => rfl
  | plain nonzero backslash quote rest ih =>
    rw [unescape_plain backslash, ih]
    rfl
  | @short e c body value escape rest ih =>
    have other : e ≠ 0x78 := by
      rintro rfl
      simp [escaped] at escape
    rw [unescape_short other, escape, ih]
    rfl
  | hex digits rest ih =>
    rw [unescape_hex, digits, ih]
    rfl

/-- There is neither a zero nor a quote in what is escaped. -/
theorem Escapes.plain_chars {value : Bytes} (escapes : Escapes body value) :
    0 ∉ body ∧ 0x22 ∉ body := by
  have kept {a : UInt8} (xdigit : isXDigit a = true) : 0 ≠ a ∧ 0x22 ≠ a := by
    constructor
    · rintro rfl
      cases xdigit
    · rintro rfl
      cases xdigit
  induction escapes with
  | nil => simp
  | plain nonzero backslash quote rest ih =>
    simp only [mem_cons, not_or]
    exact ⟨⟨nonzero.symm, ih.1⟩, ⟨quote.symm, ih.2⟩⟩
  | @short e c body value escape rest ih =>
    have zero : 0 ≠ e := by
      rintro rfl
      simp [escaped] at escape
    have quote : 0x22 ≠ e := by
      rintro rfl
      simp [escaped] at escape
    simp only [mem_cons, not_or]
    exact ⟨⟨by simp, zero, ih.1⟩, ⟨by simp, quote, ih.2⟩⟩
  | @hex a b c body value digits rest ih =>
    obtain ⟨first, second⟩ := isXDigit_of_hex digits
    simp only [mem_cons, not_or]
    exact ⟨⟨by simp, by simp, (kept first).1, (kept second).1, ih.1⟩,
      ⟨by simp, by simp, (kept first).2, (kept second).2, ih.2⟩⟩

end Unescape

/-! ## Accesses -/

/-- An access out of bounds -/
inductive Violation
  /-- a character behind the terminating zero -/
  | read (i : Nat)
  /-- an element of `str_args` or `int_args` -/
  | args (i : Nat)
  /-- a character of an element of `str_args` -/
  | str (i : Nat)
  /-- a byte of the buffer that a template is filled in to -/
  | newstr (i : Nat)
  deriving DecidableEq

/-- How a run ends without returning. It is stuck if the steps are not enough that it is given. -/
inductive Stop
  | violation (violation : Violation)
  /-- A loop goes on for ever. -/
  | endless
  | stuck
  deriving DecidableEq

abbrev Access := Except Stop

/-- An argument. The array `arg_types` says of each which of the two it is. -/
inductive Arg
  | string (str : Bytes)
  | int (n : Int)
  deriving DecidableEq

variable (text : Bytes)

/-- `*(args_start + ...)` -/
def charAt (i : Nat) : Access UInt8 := Cursor.charAt (fun i => .violation (.read i)) text i

/-- A loop that moves `args_start` on. There are no more steps than characters. -/
def skipWhile (p : UInt8 → Bool) (i : Nat) : Access Nat :=
  Cursor.skipWhile (fun i => .violation (.read i)) .stuck text p (text.length + 1) i

/-- Stores the argument number `num_args`. -/
def storeArg (args : List Arg) (arg : Arg) : Access (List Arg) :=
  if args.length < 5 then .ok (args ++ [arg]) else .error (.violation (.args args.length))

/-- Stores a character of a string, behind those that are there. -/
def storeChar (str : Bytes) (c : UInt8) : Access Bytes :=
  if str.length < 128 then .ok (str ++ [c]) else .error (.violation (.str str.length))

/-- A quote ends the string unless a backslash is before it, and before that anything but another
backslash. -/
def closesAt (i : Nat) (c : UInt8) : Access Bool :=
  if c = 0x22 then do
    let before ← charAt text (i - 1)
    if before ≠ 0x5c then .ok true
    else do
      let first ← charAt text (i - 2)
      .ok (first = 0x5c)
  else .ok false

/-- The loop over a string, from the character before it on. It ends at the closing quote, or at
the terminating zero, which it stores. `none` is for a string that is too long. -/
def stringLoop : Nat → Nat → Bytes → Access (Option (Nat × Bytes))
  | 0, _, _ => .error .stuck
  | steps + 1, i, str => do
    let c ← charAt text (i + 1)
    if ← closesAt text (i + 1) c then .ok (some (i + 1, str))
    else if 127 ≤ str.length then .ok none
    else do
      let str ← storeChar str c
      if c = 0 then .ok (some (i + 1, str)) else stringLoop steps (i + 1) str

/-- `strpbrk(args_start, ",)")` -/
def strpbrk (i : Nat) : Access (Option Nat) := do
  let i ← skipWhile text (fun c => c ≠ 0x2c && c ≠ 0x29 && c ≠ 0) i
  let c ← charAt text i
  .ok (if c = 0 then none else some i)

/-- What a turn of the loop leads to -/
inductive Next
  | refused
  | ends (i : Nat)
  | goOn (args : List Arg) (i : Nat)

/-- From the end of an argument to the next one -/
def separatorAt (args : List Arg) (i : Nat) : Access Next := do
  match ← strpbrk text i with
  | none => .ok .refused
  | some i => do
    let c ← charAt text i
    .ok (.goOn args (if c = 0x2c then i + 1 else i))

/-- An argument in quotes, with `args_start` at the first one -/
def stringTurn (args : List Arg) (i : Nat) : Access Next :=
  if args.length = 5 then .ok .refused
  else do
    match ← stringLoop text (text.length + 1) i [] with
    | none => .ok .refused
    | some (i, str) => do
      let _ ← storeChar str 0
      match cstringUnescape (str.takeWhile (· ≠ 0)) with
      | none => .ok .refused
      | some str => do
        let args ← storeArg args (.string str)
        separatorAt text args (i + 1)

/-- An argument without quotes. It is stored before anything is checked. -/
def intTurn (args : List Arg) (i : Nat) : Access Next := do
  let args ← storeArg args (.int ((strtolAuto (text.drop i)).1.bmod (2 ^ 32)))
  let p := text.length - (strtolAuto (text.drop i)).2.length
  if p ≤ i then .ok .refused else separatorAt text args p

/-- A turn of the loop over the arguments -/
def turn (args : List Arg) (i : Nat) : Access Next := do
  let i ← skipWhile text isSpace i
  let c ← charAt text i
  if c = 0x29 then .ok (.ends i)
  else if c = 0x22 then stringTurn text args i
  else intTurn text args i

def finish (args : List Arg) (i : Nat) : Access (Option (List Arg × Nat)) := do
  let c ← charAt text i
  .ok (some (args, if c = 0x29 then i + 1 else i))

def argsLoop : Nat → List Arg → Nat → Access (Option (List Arg × Nat))
  | 0, _, _ => .error .stuck
  | turns + 1, args, i => do
    let c ← charAt text i
    if c = 0 ∨ c = 0x29 then finish text args i
    else
      match ← turn text args i with
      | .refused => .ok none
      | .ends i => finish text args i
      | .goOn args i => argsLoop turns args i

/-- `getsubstcommandargs`: the arguments and `args_end`, or `none` for -1 -/
def getsubstcommandargs (i : Nat) : Access (Option (List Arg × Nat)) :=
  argsLoop text (text.length + 1) [] i

/-! ## Strings -/

/-- Is a quote behind `body` a closing one? -/
def closes (body : Bytes) : Bool :=
  body.getLast? ≠ some 0x5c || body.dropLast.getLast? = some 0x5c

variable {body : Bytes}

theorem closes_of_unescape (valid : (cstringUnescape body).isSome) :
    closes body = true := by
  rcases eq_nil_or_concat body with rfl | ⟨front, c, rfl⟩
  · rfl
  · by_cases backslash : c = 0x5c
    · subst backslash
      have before := unescape_backslash (by rwa [concat_eq_append] at valid)
      simp [closes, before]
    · simp [closes, backslash]

variable {text} {i : Nat} {rest : Bytes}

theorem charAt_eq (here : At text i rest) : charAt text i = .ok (rest.headD 0) :=
  here.charAt_eq _

theorem skipWhile_eq {p : UInt8 → Bool} (terminated : p 0 = false) (here : At text i rest) :
    ∃ j, skipWhile text p i = .ok j ∧ At text j (rest.dropWhile p) := by
  have least := here.length
  obtain ⟨j, skipped, there, -⟩ := skipWhile_spec (fun i => .violation (.read i)) Stop.stuck
    terminated here (Nat.lt_succ_of_le (by omega : rest.length ≤ text.length))
  exact ⟨j, skipped, there⟩

variable {tail : Bytes}

/-- What is found two characters before a quote is still in the text. -/
theorem closesAt_eq (here : At text i (0x22 :: body ++ 0x22 :: tail)) :
    closesAt text (i + 1 + body.length) 0x22 = .ok (closes body) := by
  unfold closesAt
  rw [if_pos rfl]
  rcases eq_nil_or_concat body with rfl | ⟨front, c, rfl⟩
  · rw [length_nil, Nat.add_zero, Nat.add_sub_cancel, charAt_eq here]
    rfl
  · rw [concat_eq_append] at here ⊢
    have before : At text (i + (0x22 :: front).length) (c :: 0x22 :: tail) := by
      refine At.append ?_
      simpa using here
    rw [length_append, length_singleton,
      show i + 1 + (front.length + 1) - 1 = i + (0x22 :: front).length by simp; omega,
      charAt_eq before, ok_bind]
    show (if c ≠ 0x5c then _ else _) = _
    by_cases backslash : c = 0x5c
    · subst backslash
      rw [if_neg (by simp), show i + 1 + (front.length + 1) - 2 = i + front.length by omega]
      rcases eq_nil_or_concat front with rfl | ⟨front, d, rfl⟩
      · rw [length_nil, Nat.add_zero, charAt_eq here]
        rfl
      · rw [concat_eq_append] at here ⊢
        have first : At text (i + (0x22 :: front).length) (d :: 0x5c :: 0x22 :: tail) := by
          refine At.append ?_
          simpa using here
        rw [length_append, length_singleton,
          show i + (front.length + 1) = i + (0x22 :: front).length by simp, charAt_eq first]
        simp [closes, ok_bind]
    · rw [if_pos backslash]
      simp [closes, backslash]

theorem closesAt_total (inside : i ≤ text.length) (c : UInt8) :
    ∃ closing, closesAt text i c = .ok closing := by
  have read (j : Nat) (before : j ≤ text.length) : ∃ d, charAt text j = .ok d :=
    ⟨_, charAt_of_le _ before⟩
  unfold closesAt
  split
  · obtain ⟨before, read_before⟩ := read (i - 1) (by omega)
    obtain ⟨first, read_first⟩ := read (i - 2) (by omega)
    rw [read_before, ok_bind, read_first]
    split
    · exact ⟨_, rfl⟩
    · exact ⟨_, rfl⟩
  · exact ⟨_, rfl⟩

variable {c : UInt8}

theorem closesAt_other (other : c ≠ 0x22) : closesAt text i c = .ok false :=
  if_neg other

variable {steps : Nat}

theorem stringLoop_char {str : Bytes} (here : At text (i + 1) (c :: rest)) (nonzero : c ≠ 0)
    (inside : closesAt text (i + 1) c = .ok false) (short : str.length < 127) :
    stringLoop text (steps + 1) i str = stringLoop text steps (i + 1) (str ++ [c]) := by
  have stored : storeChar str c = .ok (str ++ [c]) := if_pos (by omega)
  rw [stringLoop, charAt_eq here, ok_bind]
  show (closesAt text (i + 1) c >>= _) = _
  rw [inside, ok_bind, if_neg Bool.false_ne_true, if_neg (by omega)]
  show (storeChar str c >>= _) = _
  rw [stored, ok_bind]
  exact if_neg nonzero

theorem stringLoop_plain {mid : Bytes} (str : Bytes) (steps : Nat)
    (here : At text (i + 1) (mid ++ rest)) (quote : 0x22 ∉ mid) (zero : 0 ∉ mid)
    (fits : str.length + mid.length ≤ 127) :
    stringLoop text (steps + mid.length) i str =
      stringLoop text steps (i + mid.length) (str ++ mid) := by
  induction mid generalizing i str with
  | nil => rw [append_nil]; rfl
  | cons c mid ih =>
    simp only [mem_cons, not_or] at quote zero
    rw [length_cons] at fits
    have next := ih (i := i + 1) (str ++ [c]) here.succ quote.2 zero.2
      (by rw [length_append, length_singleton]; omega)
    rw [length_cons, ← Nat.add_assoc, stringLoop_char here (Ne.symm zero.1)
      (closesAt_other (Ne.symm quote.1)) (by omega), next, append_assoc]
    congr 1
    omega

theorem stringLoop_full {str : Bytes} (here : At text (i + 1) rest) (other : rest.headD 0 ≠ 0x22)
    (full : str.length = 127) :
    stringLoop text (steps + 1) i str = .ok none := by
  rw [stringLoop, charAt_eq here, ok_bind, closesAt_other other, ok_bind,
    if_neg Bool.false_ne_true, if_pos (by omega)]

/-- A string of more than 127 characters is refused, and so is one of 127 that the text ends in. -/
theorem stringLoop_long {s : Bytes} (here : At text (i + 1) (s ++ rest)) (quote : 0x22 ∉ s)
    (zero : 0 ∉ s) (long : 127 < s.length ∨ s.length = 127 ∧ rest = []) :
    stringLoop text (text.length + 1) i [] = .ok none := by
  have least := here.length
  rw [length_append] at least
  have many : (s.take 127).length = 127 := by
    rw [length_take]
    omega
  have whole : s ++ rest = s.take 127 ++ (s.drop 127 ++ rest) := by
    rw [← append_assoc, take_append_drop]
  rw [whole] at here
  have first := stringLoop_plain [] (text.length + 1 - 127) here
    (fun mem => quote (mem_of_mem_take mem)) (fun mem => zero (mem_of_mem_take mem))
    (by rw [many]; exact Nat.le_refl _)
  rw [many, nil_append, Nat.sub_add_cancel (by omega)] at first
  have there : At text (i + 127 + 1) (s.drop 127 ++ rest) := by
    have behind := here.append
    rwa [many, Nat.add_right_comm] at behind
  have other : (s.drop 127 ++ rest).headD 0 ≠ 0x22 := by
    rcases long with long | ⟨exact_, rfl⟩
    · cases more : s.drop 127 with
      | nil => rw [drop_eq_nil_iff] at more; omega
      | cons c t =>
        rintro rfl
        refine quote (mem_of_mem_drop (i := 127) ?_)
        rw [more]
        exact mem_cons_self
    · rw [drop_of_length_le (by omega)]
      decide
  rw [first, show text.length + 1 - 127 = text.length - 127 + 1 by omega]
  exact stringLoop_full there other many

theorem stringLoop_ends {s : Bytes} (here : At text (i + 1) s) (quote : 0x22 ∉ s) (zero : 0 ∉ s)
    (short : s.length ≤ 126) :
    stringLoop text (text.length + 1) i [] = .ok (some (text.length, s ++ [0])) := by
  have least := here.length
  have whole : At text (i + 1) (s ++ []) := by rwa [append_nil]
  have first := stringLoop_plain [] (text.length + 1 - s.length) whole quote zero
    (by rw [length_nil]; omega)
  have there : At text (i + s.length + 1) [] := by
    have behind := whole.append
    rwa [Nat.add_right_comm] at behind
  have stored : storeChar s 0 = .ok (s ++ [0]) := if_pos (by omega)
  rw [Nat.sub_add_cancel (by omega), nil_append] at first
  rw [first, show text.length + 1 - s.length = text.length - s.length + 1 by omega, stringLoop,
    charAt_eq there, ok_bind, closesAt_other (by decide), ok_bind, if_neg Bool.false_ne_true,
    if_neg (by omega)]
  show (storeChar s 0 >>= _) = _
  rw [stored, ok_bind, there.eq_length]
  rfl

/-- At the first quote -/
theorem stringLoop_quote (here : At text i (0x22 :: body ++ 0x22 :: tail)) (quote : 0x22 ∉ body)
    (zero : 0 ∉ body) (short : body.length ≤ 127) :
    stringLoop text (text.length + 1) i [] =
      (if closes body then .ok (some (i + 1 + body.length, body))
        else if 127 ≤ body.length then .ok none
        else stringLoop text (text.length - body.length) (i + 1 + body.length)
          (body ++ [0x22])) := by
  have least := here.length
  have behind : At text (i + 1) (body ++ 0x22 :: tail) := by
    refine At.succ (c := 0x22) ?_
    simpa using here
  have first := stringLoop_plain [] (text.length + 1 - body.length) behind quote
    zero (by rw [length_nil]; omega)
  have there : At text (i + body.length + 1) (0x22 :: tail) := by
    have after := behind.append
    rwa [Nat.add_right_comm] at after
  have closing := closesAt_eq here
  rw [Nat.add_right_comm] at closing
  simp only [length_append, length_cons] at least
  rw [Nat.sub_add_cancel (by omega), nil_append] at first
  rw [first, show text.length + 1 - body.length = text.length - body.length + 1 by omega,
    stringLoop, charAt_eq there, ok_bind]
  show (closesAt text (i + body.length + 1) 0x22 >>= _) = _
  rw [closing, ok_bind, Nat.add_right_comm i]
  by_cases closed : closes body = true
  · rw [if_pos closed, if_pos closed]
  · rw [if_neg closed, if_neg closed]
    by_cases full : 127 ≤ body.length
    · rw [if_pos full, if_pos full]
    · have stored : storeChar body 0x22 = .ok (body ++ [0x22]) := if_pos (by omega)
      rw [if_neg full, if_neg full]
      show (storeChar body 0x22 >>= _) = _
      rw [stored]
      rfl

/-- Whatever follows, no more than 127 characters are stored behind those that are there. -/
theorem stringLoop_bounded (str : Bytes) (here : At text (i + 1) rest)
    (enough : rest.length < steps) (short : str.length ≤ 127) :
    ∃ result, stringLoop text steps i str = .ok result ∧
      ∀ j str', result = some (j, str') → str'.length ≤ 127 ∧ ∃ more, str' = str ++ more := by
  induction steps generalizing i rest str with
  | zero => exact absurd enough (Nat.not_lt_zero _)
  | succ steps ih =>
    obtain ⟨closing, read⟩ := closesAt_total here.inside (rest.headD 0)
    rw [stringLoop, charAt_eq here, ok_bind, read, ok_bind]
    cases closing with
    | true =>
      refine ⟨_, if_pos rfl, ?_⟩
      intro j str' same
      cases same
      exact ⟨short, [], (append_nil _).symm⟩
    | false =>
      rw [if_neg Bool.false_ne_true]
      by_cases full : 127 ≤ str.length
      · refine ⟨_, if_pos full, ?_⟩
        intro j str' same
        cases same
      · have stored : storeChar str (rest.headD 0) = .ok (str ++ [rest.headD 0]) :=
          if_pos (by omega)
        have length : (str ++ [rest.headD 0]).length ≤ 127 := by
          rw [length_append, length_singleton]
          omega
        rw [if_neg full, stored, ok_bind]
        cases rest with
        | nil =>
          refine ⟨_, rfl, ?_⟩
          intro j str' same
          cases same
          exact ⟨length, _, rfl⟩
        | cons c rest =>
          by_cases zero : c = 0
          · refine ⟨_, if_pos zero, ?_⟩
            intro j str' same
            cases same
            exact ⟨length, _, rfl⟩
          · obtain ⟨result, run, bounds⟩ :=
              ih (str ++ [c]) here.succ (Nat.lt_of_succ_lt_succ enough) length
            refine ⟨result, (if_neg zero).trans run, ?_⟩
            intro j str' same
            obtain ⟨least, more, whole⟩ := bounds j str' same
            exact ⟨least, [c] ++ more, by rw [whole]; simp⟩

/-! ## What the text says -/

/-- What the front of a text is, where an argument may begin -/
inductive Step
  | refused
  | ends (rest : Bytes)
  | goOn (args : List Arg) (rest : Bytes)
  /-- The bounds of the text or of the arguments are left. -/
  | overrun

/-- The text from the next separator on, without a comma -/
def separator (args : List Arg) (tail : Bytes) : Step :=
  match tail.dropWhile (fun c => c ≠ 0x2c && c ≠ 0x29) with
  | [] => .refused
  | c :: rest => .goOn args (if c = 0x2c then rest else c :: rest)

/-- The text is behind a quote. A string that it ends in is read beyond the end, unless it is
refused before that. -/
def quoted (args : List Arg) (rest : Bytes) : Step :=
  let body := rest.takeWhile (· ≠ 0x22)
  if args.length = 5 then .refused
  else
    match cstringUnescape body, rest.dropWhile (· ≠ 0x22) with
    | none, _ => .refused
    | some _, [] => if body.length ≤ 126 then .overrun else .refused
    | some value, _ :: tail =>
      if body.length ≤ 127 then separator (args ++ [.string value]) tail else .refused

/-- The text is neither at a quote nor at the end of the arguments. -/
def number (args : List Arg) (front : Bytes) : Step :=
  if args.length = 5 then .overrun
  else if (strtolAuto front).2.length = front.length then .refused
  else separator (args ++ [.int ((strtolAuto front).1.bmod (2 ^ 32))]) (strtolAuto front).2

/-- An argument, or the end of the arguments behind blanks -/
def step (args : List Arg) (rest : Bytes) : Step :=
  match rest.dropWhile isSpace with
  | [] => number args []
  | c :: front =>
    if c = 0x29 then .ends (c :: front)
    else if c = 0x22 then quoted args front
    else number args (c :: front)

variable (text) in
def Follows : Step → Access Next → Prop
  | .refused, .ok .refused => True
  | .ends rest, .ok (.ends i) => At text i rest
  | .goOn args rest, .ok (.goOn args' i) => args' = args ∧ At text i rest
  | .overrun, .error (.violation _) => True
  | _, _ => False

theorem separatorAt_follows (nonzero : 0 ∉ text) (args : List Arg) (here : At text i rest) :
    Follows text (separator args rest) (separatorAt text args i) := by
  obtain ⟨j, skipped, there⟩ :=
    skipWhile_eq (p := fun c => c ≠ 0x2c && c ≠ 0x29 && c ≠ 0) (by rfl) here
  rw [dropWhile_nonzero (p := fun c => c ≠ 0x2c && c ≠ 0x29) (here.zero_not_mem nonzero)] at there
  unfold separatorAt strpbrk separator
  rw [skipped, ok_bind, charAt_eq there, ok_bind]
  generalize rest.dropWhile (fun c => c ≠ 0x2c && c ≠ 0x29) = end_ at there
  cases end_ with
  | nil => trivial
  | cons c end_ =>
    have other := there.nonzero nonzero
    show Follows text _ ((Except.ok (if c = 0 then none else some j) : Access (Option Nat)) >>= _)
    rw [if_neg other, ok_bind]
    show Follows text _ (charAt text j >>= _)
    rw [charAt_eq there, ok_bind]
    by_cases comma : c = 0x2c
    · subst comma
      exact ⟨rfl, there.succ⟩
    · refine ⟨rfl, ?_⟩
      show At text (if c = 0x2c then j + 1 else j) (if c = 0x2c then end_ else c :: end_)
      rw [if_neg comma, if_neg comma]
      exact there

variable {args : List Arg}

theorem storeArg_eq (few : args.length ≤ 5) (room : args.length ≠ 5) (arg : Arg) :
    storeArg args arg = .ok (args ++ [arg]) := if_pos (by omega)

theorem numberTurn_follows (nonzero : 0 ∉ text) (here : At text i rest) (few : args.length ≤ 5) :
    Follows text (number args rest) (intTurn text args i) := by
  unfold number intTurn
  rw [here.drop]
  by_cases full : args.length = 5
  · rw [if_pos full]
    have beyond : storeArg args (.int ((strtolAuto rest).1.bmod (2 ^ 32))) =
        .error (.violation (.args args.length)) := if_neg (by omega)
    rw [beyond]
    trivial
  · rw [if_neg full]
    rw [storeArg_eq few full, ok_bind]
    obtain ⟨suffix, -⟩ := strtol_suffix (autoBase rest) rest
    have there : At text (text.length - (strtolAuto rest).2.length) (strtolAuto rest).2 :=
      here.of_suffix suffix
    have least := suffix.length_le
    have whole := here.length
    show Follows text (if (strtolAuto rest).2.length = rest.length then _ else _)
      (if text.length - (strtolAuto rest).2.length ≤ i then _ else _)
    by_cases stays : (strtolAuto rest).2.length = rest.length
    · rw [if_pos stays, if_pos (by omega)]
      trivial
    · have shorter : (strtolAuto rest).2.length ≤ rest.length := least
      rw [if_neg stays, if_neg (by omega)]
      exact separatorAt_follows nonzero _ there

theorem takeWhile_nonzero {more : Bytes} (zero : 0 ∉ body) :
    (body ++ more).takeWhile (· ≠ 0) = body ++ more.takeWhile (· ≠ 0) := by
  refine takeWhile_append_of_pos ?_
  intro c mem
  have other : c ≠ 0 := by
    rintro rfl
    exact zero mem
  simp [other]

theorem stringTurn_follows (nonzero : 0 ∉ text) (here : At text i (0x22 :: rest))
    (few : args.length ≤ 5) : Follows text (quoted args rest) (stringTurn text args i) := by
  have behind := here.succ
  have zero := behind.zero_not_mem nonzero
  unfold quoted stringTurn
  by_cases full : args.length = 5
  · rw [if_pos full, if_pos full]
    trivial
  · rw [if_neg full, if_neg full]
    have whole := takeWhile_append_dropWhile (p := (· ≠ (0x22 : UInt8))) (l := rest)
    have quote : 0x22 ∉ rest.takeWhile (· ≠ (0x22 : UInt8)) := by
      intro mem
      have no := mem_takeWhile_imp mem
      simp at no
    have zero_body : 0 ∉ rest.takeWhile (· ≠ (0x22 : UInt8)) := fun mem =>
      zero ((List.takeWhile_prefix _).subset mem)
    have first := List.head?_dropWhile_not (· ≠ (0x22 : UInt8)) rest
    generalize rest.takeWhile (· ≠ 0x22) = body at whole quote zero_body
    generalize rest.dropWhile (· ≠ 0x22) = tail at whole first
    subst whole
    cases tail with
    | nil =>
      rw [append_nil] at behind
      by_cases short : body.length ≤ 126
      · rw [stringLoop_ends behind quote zero_body short]
        have room : storeChar (body ++ [0]) 0 = .ok (body ++ [0] ++ [0]) :=
          if_pos (by rw [length_append, length_singleton]; omega)
        have value : (body ++ [0]).takeWhile (· ≠ 0) = body := by
          rw [takeWhile_nonzero zero_body]
          simp
        show Follows text _ (storeChar (body ++ [0]) 0 >>= _)
        rw [room, ok_bind, value]
        cases cstringUnescape body with
        | none => trivial
        | some value =>
          -- the search for the separator begins behind the terminating zero
          have beyond : separatorAt text (args ++ [.string value]) (text.length + 1) =
              .error (.violation (.read (text.length + 1))) := by
            unfold separatorAt strpbrk skipWhile Cursor.skipWhile
            rw [charAt_beyond _ (Nat.lt_succ_self _)]
            rfl
          show Follows text (if body.length ≤ 126 then _ else _) (storeArg args _ >>= _)
          rw [if_pos short, storeArg_eq few full, ok_bind, beyond]
          trivial
      · have long : 127 < body.length ∨ body.length = 127 ∧ ([] : Bytes) = [] := by
          rcases Nat.lt_or_eq_of_le (by omega : 127 ≤ body.length) with more | same
          · exact .inl more
          · exact .inr ⟨same.symm, rfl⟩
        rw [stringLoop_long (by rwa [append_nil]) quote zero_body long]
        cases cstringUnescape body with
        | none => trivial
        | some value =>
          show Follows text (if body.length ≤ 126 then _ else _) _
          rw [if_neg short]
          trivial
    | cons c tail =>
      obtain rfl : c = 0x22 := by simpa using first
      by_cases short : body.length ≤ 127
      · rw [stringLoop_quote here quote zero_body short]
        have room : storeChar body 0 = .ok (body ++ [0]) := if_pos (by omega)
        have value : body.takeWhile (· ≠ 0) = body := by
          have same : (body ++ []).takeWhile (· ≠ 0) = _ := takeWhile_nonzero zero_body
          rwa [append_nil, takeWhile_nil, append_nil] at same
        have there : At text (i + 1 + body.length) (0x22 :: tail) := behind.append
        cases valid : cstringUnescape body with
        | some string =>
          rw [if_pos (closes_of_unescape (by rw [valid]; rfl)), ok_bind]
          show Follows text (if body.length ≤ 127 then _ else _) (storeChar body 0 >>= _)
          rw [if_pos short, room, ok_bind, value, valid]
          show Follows text _ (storeArg args (.string string) >>= _)
          rw [storeArg_eq few full, ok_bind]
          exact separatorAt_follows nonzero _ there.succ
        | none =>
          show Follows text .refused _
          by_cases closed : closes body = true
          · rw [if_pos closed, ok_bind]
            show Follows text _ (storeChar body 0 >>= _)
            rw [room, ok_bind, value, valid]
            trivial
          · rw [if_neg closed]
            by_cases most : 127 ≤ body.length
            · rw [if_pos most]
              trivial
            · rw [if_neg most]
              -- the string goes on, with an escape in it that there is not
              have further : At text (i + 1 + body.length + 1) tail := there.succ
              have enough : tail.length < text.length - body.length := by
                have to_end := further.length
                omega
              obtain ⟨result, run, bounds⟩ := stringLoop_bounded (body ++ [0x22])
                further enough (by rw [length_append, length_singleton]; omega)
              rw [run, ok_bind]
              cases result with
              | none => trivial
              | some found =>
                obtain ⟨j, str⟩ := found
                obtain ⟨least, more, rfl⟩ := bounds j str rfl
                have stored : storeChar (body ++ [0x22] ++ more) 0 =
                    .ok (body ++ [0x22] ++ more ++ [0]) := if_pos (by omega)
                have front : (body ++ [0x22] ++ more).takeWhile (· ≠ 0) =
                    body ++ 0x22 :: more.takeWhile (· ≠ 0) := by
                  rw [takeWhile_nonzero (by simp [zero_body]), append_assoc]
                  rfl
                have invalid : cstringUnescape (body ++ 0x22 :: more.takeWhile (· ≠ 0)) =
                    none := by
                  cases all : cstringUnescape (body ++ 0x22 :: more.takeWhile (· ≠ 0)) with
                  | none => rfl
                  | some v =>
                    have part := unescape_front (by rw [all]; rfl)
                    rw [valid] at part
                    cases part
                show Follows text _ (storeChar _ 0 >>= _)
                rw [stored, ok_bind, front, invalid]
                trivial
      · rw [stringLoop_long behind quote zero_body (.inl (by omega))]
        cases cstringUnescape body with
        | none => trivial
        | some value =>
          show Follows text (if body.length ≤ 127 then _ else _) _
          rw [if_neg short]
          trivial

theorem turn_follows (nonzero : 0 ∉ text) (here : At text i rest) (few : args.length ≤ 5) :
    Follows text (step args rest) (turn text args i) := by
  obtain ⟨j, skipped, there⟩ := skipWhile_eq (p := isSpace) rfl here
  unfold step turn
  rw [skipped, ok_bind, charAt_eq there, ok_bind]
  generalize rest.dropWhile isSpace = front at there
  cases front with
  | nil => exact numberTurn_follows nonzero there few
  | cons c front =>
    show Follows text (if c = 0x29 then _ else if c = 0x22 then _ else _)
      (if c = 0x29 then _ else if c = 0x22 then _ else _)
    by_cases ends : c = 0x29
    · rw [if_pos ends, if_pos ends]
      exact there
    · rw [if_neg ends, if_neg ends]
      by_cases quote : c = 0x22
      · subst quote
        rw [if_pos rfl, if_pos rfl]
        exact stringTurn_follows nonzero there few
      · rw [if_neg quote, if_neg quote]
        exact numberTurn_follows nonzero there few

/-- What the turns say, with no more turns than given: the arguments, and the text behind them.
`none` is for what is refused. -/
def readArgs : Nat → List Arg → Bytes → Option (List Arg × Bytes)
  | 0, _, _ => none
  | turns + 1, args, rest =>
    match rest with
    | [] => some (args, [])
    | c :: behind =>
      if c = 0x29 then some (args, behind)
      else
        match step args rest with
        | .goOn args rest => readArgs turns args rest
        | .ends rest => some (args, rest.tail)
        | _ => none

/-- Is there a turn of the loop in front of this text? -/
def Begins (rest : Bytes) : Prop := rest ≠ [] ∧ rest.head? ≠ some 0x29

/-- Behind arguments that are accepted comes a string that the text ends in, or behind five of them
anything that is no string. -/
inductive Overruns : List Arg → Bytes → Prop
  | here {args : List Arg} {rest : Bytes} (begins : Begins rest)
      (overrun : step args rest = .overrun) : Overruns args rest
  | later {args args' : List Arg} {rest rest' : Bytes} (begins : Begins rest)
      (accepted : step args rest = .goOn args' rest') (later : Overruns args' rest') :
      Overruns args rest

variable {args' : List Arg} {rest' : Bytes}

theorem separator_goOn (goesOn : separator args tail = .goOn args' rest') :
    args' = args ∧ rest'.length ≤ tail.length := by
  have least := (dropWhile_suffix (l := tail) fun c => c ≠ 0x2c && c ≠ 0x29).length_le
  unfold separator at goesOn
  generalize tail.dropWhile (fun c => c ≠ 0x2c && c ≠ 0x29) = end_ at goesOn least
  cases end_ with
  | nil => cases goesOn
  | cons c end_ =>
    injection goesOn with same rest_eq
    refine ⟨same.symm, ?_⟩
    rw [← rest_eq]
    rw [length_cons] at least
    split
    · omega
    · rw [length_cons]
      exact least

theorem quoted_goOn (goesOn : quoted args rest = .goOn args' rest') :
    args.length ≠ 5 ∧ ∃ value tail, tail.length < rest.length ∧
      separator (args ++ [.string value]) tail = .goOn args' rest' := by
  have least := (dropWhile_suffix (l := rest) (· ≠ (0x22 : UInt8))).length_le
  unfold quoted at goesOn
  dsimp only at goesOn
  split at goesOn
  · cases goesOn
  · next full =>
      split at goesOn
      · cases goesOn
      · split at goesOn
        · cases goesOn
        · cases goesOn
      · next value c tail valid found =>
          rw [found, length_cons] at least
          split at goesOn
          · exact ⟨full, value, tail, by omega, goesOn⟩
          · cases goesOn

/-- An argument is never the sixth one, and it is not empty. -/
theorem step_goOn (few : args.length ≤ 5) (goesOn : step args rest = .goOn args' rest') :
    args'.length ≤ 5 ∧ rest'.length < rest.length := by
  have least := (dropWhile_suffix (l := rest) isSpace).length_le
  have stored {arg : Arg} {front : Bytes} (full : args.length ≠ 5)
      (shorter : front.length < rest.length)
      (separates : separator (args ++ [arg]) front = .goOn args' rest') :
      args'.length ≤ 5 ∧ rest'.length < rest.length := by
    obtain ⟨rfl, further⟩ := separator_goOn separates
    rw [length_append, length_singleton]
    omega
  have numbered {front : Bytes} (shorter : front.length ≤ rest.length)
      (goesOn : number args front = .goOn args' rest') :
      args'.length ≤ 5 ∧ rest'.length < rest.length := by
    obtain ⟨suffix, -⟩ := strtol_suffix (autoBase front) front
    have within : (strtolAuto front).2.length ≤ front.length := suffix.length_le
    unfold number at goesOn
    split_ifs at goesOn with full stays
    exact stored full (by omega) goesOn
  unfold step at goesOn
  generalize rest.dropWhile isSpace = front at goesOn least
  cases front with
  | nil => exact numbered (Nat.zero_le _) goesOn
  | cons c front =>
    rw [length_cons] at least
    dsimp only at goesOn
    split at goesOn
    · cases goesOn
    · split at goesOn
      · obtain ⟨full, value, tail, shorter, separates⟩ := quoted_goOn goesOn
        exact stored full (by omega) separates
      · exact numbered (by rw [length_cons]; exact least) goesOn

theorem separator_ne_ends :
    separator args tail ≠ .ends rest' := by
  unfold separator
  split
  · simp
  · simp

/-- The arguments end at a parenthesis. -/
theorem step_ends (ends : step args rest = .ends rest') :
    ∃ behind, rest' = 0x29 :: behind ∧ behind.length < rest.length := by
  have least := (dropWhile_suffix (l := rest) isSpace).length_le
  have numbered (front : Bytes) : number args front ≠ .ends rest' := by
    unfold number
    split_ifs
    · simp
    · simp
    · exact separator_ne_ends
  have strings (front : Bytes) : quoted args front ≠ .ends rest' := by
    unfold quoted
    dsimp only
    split
    · simp
    · split
      · simp
      · split
        · simp
        · simp
      · split
        · exact separator_ne_ends
        · simp
  unfold step at ends
  split at ends
  · exact absurd ends (numbered _)
  · next c front spaces =>
      rw [spaces] at least
      split at ends
      · next parenthesis =>
          injection ends with same
          exact ⟨front, by rw [← same, parenthesis], least⟩
      · split at ends
        · exact absurd ends (strings _)
        · exact absurd ends (numbered _)

variable (text) in
/-- A run leaves the bounds, or returns what the text says. -/
def Returns (args : List Arg) (rest : Bytes) (turns : Nat) :
    Access (Option (List Arg × Nat)) → Prop
  | .error (.violation _) => Overruns args rest
  | .error .endless => False
  | .error .stuck => False
  | .ok none => ¬ Overruns args rest ∧ readArgs turns args rest = none
  | .ok (some (args', i)) => ¬ Overruns args rest ∧
      ∃ rest', readArgs turns args rest = some (args', rest') ∧ At text i rest'

theorem Overruns.begins {args : List Arg} (overruns : Overruns args rest) : Begins rest := by
  cases overruns with
  | here begins _ => exact begins
  | later begins _ _ => exact begins

theorem not_overruns (here : step args rest ≠ .overrun)
    (later : ∀ args' rest', step args rest = .goOn args' rest' → ¬ Overruns args' rest') :
    ¬ Overruns args rest := by
  intro overruns
  cases overruns with
  | here begins overrun => exact here overrun
  | later begins accepted overruns => exact later _ _ accepted overruns

variable {turns : Nat}

theorem argsLoop_returns (nonzero : 0 ∉ text) (here : At text i rest) (few : args.length ≤ 5)
    (enough : rest.length < turns) :
    Returns text args rest turns (argsLoop text turns args i) := by
  induction turns generalizing args i rest with
  | zero => exact absurd enough (Nat.not_lt_zero _)
  | succ turns ih =>
    rw [argsLoop, charAt_eq here, ok_bind]
    cases rest with
    | nil =>
      show Returns text args [] (turns + 1) (finish text args i)
      rw [finish, charAt_eq here]
      exact ⟨fun overruns => overruns.begins.1 rfl, [], rfl, here⟩
    | cons c rest =>
      show Returns text args (c :: rest) (turns + 1) (if c = 0 ∨ c = 0x29 then _ else _)
      by_cases closes : c = 0x29
      · subst closes
        rw [if_pos (.inr rfl), finish, charAt_eq here]
        exact ⟨fun overruns => overruns.begins.2 rfl, rest, rfl, here.succ⟩
      · have begins : Begins (c :: rest) := by
          refine ⟨cons_ne_nil _ _, ?_⟩
          intro ends
          injection ends with same
          exact closes same
        have reads : readArgs (turns + 1) args (c :: rest) =
            match step args (c :: rest) with
            | .goOn args rest => readArgs turns args rest
            | .ends rest => some (args, rest.tail)
            | _ => none := if_neg closes
        have follows := turn_follows nonzero here few
        rw [if_neg (not_or.mpr ⟨here.nonzero nonzero, closes⟩)]
        generalize turn text args i = result at follows
        cases said : step args (c :: rest) with
        | refused =>
          rw [said] at follows reads
          match result, follows with
          | .ok .refused, _ =>
            exact ⟨not_overruns (by simp [said]) (by simp [said]), reads⟩
        | ends end_ =>
          rw [said] at follows reads
          match result, follows with
          | .ok (.ends j), there =>
            show Returns text args (c :: rest) (turns + 1) (finish text args j)
            rw [finish, charAt_eq there]
            obtain ⟨behind, rfl, -⟩ := step_ends said
            have inside : ¬ Overruns args (c :: rest) :=
              not_overruns (by simp [said]) (by simp [said])
            exact ⟨inside, behind, reads, there.succ⟩
        | overrun =>
          rw [said] at follows
          match result, follows with
          | .error (.violation _), _ => exact .here begins said
        | goOn args' rest' =>
          obtain ⟨few', shorter⟩ := step_goOn few said
          have sofar : Overruns args (c :: rest) ↔ Overruns args' rest' := by
            constructor
            · intro overruns
              cases overruns with
              | here _ overrun => rw [said] at overrun; cases overrun
              | later _ accepted later =>
                rw [said] at accepted
                injection accepted with same same'
                rwa [same, same']
            · exact .later begins said
          rw [said] at follows reads
          match result, follows with
          | .ok (.goOn args'' j), ⟨same, there⟩ =>
            subst same
            have run := ih there few' (by rw [length_cons] at *; omega)
            rw [ok_bind]
            show Returns text args (c :: rest) (turns + 1) (argsLoop text turns args'' j)
            generalize argsLoop text turns args'' j = returned at run
            match returned, run with
            | .error (.violation _), overruns => exact sofar.mpr overruns
            | .ok none, ⟨inside, read⟩ => exact ⟨mt sofar.mp inside, reads.trans read⟩
            | .ok (some _), ⟨inside, rest', read, end_⟩ =>
              exact ⟨mt sofar.mp inside, rest', reads.trans read, end_⟩

theorem readArgs_enough {more : Nat} (few : args.length ≤ 5) (enough : rest.length < turns)
    (enough' : rest.length < more) :
    readArgs turns args rest = readArgs more args rest := by
  induction turns generalizing more args rest with
  | zero => exact absurd enough (Nat.not_lt_zero _)
  | succ turns ih =>
    obtain ⟨more, rfl⟩ := Nat.exists_eq_add_of_le' (Nat.lt_of_le_of_lt (Nat.zero_le _) enough')
    cases rest with
    | nil => rfl
    | cons c rest =>
      rw [readArgs, readArgs]
      by_cases closes : c = 0x29
      · rw [if_pos closes, if_pos closes]
      · rw [if_neg closes, if_neg closes]
        cases said : step args (c :: rest) with
        | goOn args' rest' =>
          obtain ⟨few', shorter⟩ := step_goOn few said
          exact ih few' (by omega) (by omega)
        | refused => rfl
        | ends _ => rfl
        | overrun => rfl

/-- What follows the arguments is no longer than what was read. -/
theorem readArgs_length (few : args.length ≤ 5)
    (reads : readArgs turns args rest = some (args', rest')) :
    rest'.length ≤ rest.length := by
  induction turns generalizing args rest with
  | zero => cases reads
  | succ turns ih =>
    cases rest with
    | nil =>
      injection reads with same
      injection same with _ same
      rw [← same]
    | cons c rest =>
      rw [readArgs] at reads
      split at reads
      · injection reads with same
        injection same with _ same
        rw [← same, length_cons]
        exact Nat.le_succ _
      · split at reads
        · next args₁ rest₁ said =>
            obtain ⟨few₁, shorter⟩ := step_goOn few said
            exact Nat.le_trans (ih few₁ reads) (Nat.le_of_lt shorter)
        · next rest₁ said =>
            obtain ⟨behind, rfl, shorter⟩ := step_ends said
            injection reads with same
            injection same with _ same
            rw [← same]
            exact Nat.le_of_lt shorter
        · cases reads

theorem Overruns.readArgs_eq (overruns : Overruns args rest) (turns : Nat) :
    readArgs turns args rest = none := by
  induction overruns generalizing turns with
  | @here args rest begins overrun =>
    cases turns with
    | zero => rfl
    | succ turns =>
      cases rest with
      | nil => exact absurd rfl begins.1
      | cons c rest =>
        rw [readArgs, if_neg fun closes => begins.2 (by rw [closes]; rfl), overrun]
  | @later args args' rest rest' begins accepted later ih =>
    cases turns with
    | zero => rfl
    | succ turns =>
      cases rest with
      | nil => exact absurd rfl begins.1
      | cons c rest =>
        rw [readArgs, if_neg fun closes => begins.2 (by rw [closes]; rfl), accepted]
        exact ih turns

/-! ## Arguments that are written as they should be -/

/-- An argument as it is written: an integer in decimal digits, or a string with its escapes -/
inductive Written
  | int (n : Int) (low : -2 ^ 31 ≤ n) (high : n < 2 ^ 31)
  | string (body value : Bytes) (escapes : Escapes body value)

namespace Written

def spelled : Written → Bytes
  | int n _ _ => signedDecimal n
  | string body _ _ => 0x22 :: body ++ [0x22]

def arg : Written → Arg
  | int n _ _ => .int n
  | string _ value _ => .string value

/-- Does the text of a string fit `SUBSTARGS_STRLEN`? -/
def Short : Written → Prop
  | int _ _ _ => True
  | string body _ _ => body.length < 128

instance : DecidablePred Short := fun w =>
  match w with
  | int _ _ _ => .isTrue trivial
  | string body _ _ => inferInstanceAs (Decidable (body.length < 128))

end Written

def listed (ws : List Written) : Bytes := [0x2c].intercalate (ws.map Written.spelled)

theorem separator_here (args : List Arg) (sep : c = 0x2c ∨ c = 0x29) :
    separator args (c :: rest) = .goOn args (if c = 0x2c then rest else c :: rest) := by
  have stays : (c :: rest).dropWhile (fun c => c ≠ 0x2c && c ≠ 0x29) = c :: rest := by
    rcases sep with rfl | rfl
    · rfl
    · rfl
  unfold separator
  rw [stays]

/-- A string is read up to its closing quote. -/
theorem step_string (room : args.length ≠ 5) {value : Bytes} (escapes : Escapes body value)
    (sep : c = 0x2c ∨ c = 0x29) :
    step args (0x22 :: body ++ [0x22] ++ c :: rest) =
      if body.length < 128 then
        .goOn (args ++ [.string value]) (if c = 0x2c then rest else c :: rest)
      else .refused := by
  have plain : ∀ d ∈ body, decide (d ≠ 0x22) = true := by
    intro d mem
    have other : d ≠ 0x22 := by
      rintro rfl
      exact escapes.plain_chars.2 mem
    simp [other]
  obtain ⟨take, drop⟩ := takeWhile_all plain (by simp : ∀ d ∈ (0x22 :: c :: rest).head?, _)
  have text_eq : 0x22 :: body ++ [0x22] ++ c :: rest = 0x22 :: (body ++ 0x22 :: c :: rest) := by
    simp
  have quoted_eq : step args (0x22 :: (body ++ 0x22 :: c :: rest)) =
      quoted args (body ++ 0x22 :: c :: rest) := rfl
  rw [text_eq, quoted_eq]
  unfold quoted
  dsimp only
  rw [if_neg room, take, drop, escapes.unescape]
  by_cases short : body.length < 128
  · rw [if_pos short]
    exact (if_pos (by omega)).trans (separator_here _ sep)
  · rw [if_neg short]
    exact if_neg (by omega)

theorem step_int (room : args.length ≠ 5) {n : Int} (low : -2 ^ 31 ≤ n) (high : n < 2 ^ 31)
    (sep : c = 0x2c ∨ c = 0x29) :
    step args (signedDecimal n ++ c :: rest) =
      .goOn (args ++ [.int n]) (if c = 0x2c then rest else c :: rest) := by
  obtain ⟨d, s, text_eq, first⟩ := signedDecimal_cons n
  have other : isSpace d = false ∧ d ≠ 0x29 ∧ d ≠ 0x22 := by
    rcases first with rfl | digit
    · decide
    · refine ⟨(isDigit_bare digit).1, ?_, ?_⟩
      · rintro rfl
        cases digit
      · rintro rfl
        cases digit
  have read : strtolAuto (signedDecimal n ++ c :: rest) = (n, c :: rest) := by
    refine strtolAuto_signedDecimal (by omega) (by omega) ?_
    intro d head
    obtain rfl : c = d := by simpa using head
    rcases sep with rfl | rfl
    · decide
    · decide
  have number_eq : step args (signedDecimal n ++ c :: rest) =
      number args (signedDecimal n ++ c :: rest) := by
    unfold step
    rw [text_eq, cons_append, dropWhile_cons_of_neg (by simp [other.1])]
    dsimp only
    rw [if_neg other.2.1, if_neg other.2.2]
  have longer : (c :: rest).length ≠ (signedDecimal n ++ c :: rest).length := by
    rw [text_eq]
    simp only [length_append, length_cons]
    omega
  have same : n.bmod (2 ^ 32) = n := Int.bmod_eq_of_le (by omega) (by omega)
  rw [number_eq, number, if_neg room, read, if_neg longer]
  dsimp only
  rw [same]
  exact separator_here _ sep

theorem step_written (room : args.length ≠ 5) (w : Written) (sep : c = 0x2c ∨ c = 0x29) :
    step args (w.spelled ++ c :: rest) =
      if w.Short then .goOn (args ++ [w.arg]) (if c = 0x2c then rest else c :: rest)
      else .refused := by
  cases w with
  | int n low high => exact (step_int room low high sep).trans (if_pos trivial).symm
  | string body value escapes =>
    rw [show Written.spelled (.string body value escapes) = 0x22 :: body ++ [0x22] from rfl,
      step_string room escapes sep]
    by_cases short : body.length < 128
    · rw [if_pos short]
      exact (if_pos short).symm
    · rw [if_neg short]
      exact (if_neg short).symm

theorem Written.spelled_cons (w : Written) : ∃ c s, w.spelled = c :: s ∧ c ≠ 0x29 := by
  cases w with
  | int n low high =>
    obtain ⟨c, s, text_eq, first⟩ := signedDecimal_cons n
    refine ⟨c, s, text_eq, ?_⟩
    rintro rfl
    rcases first with minus | digit
    · cases minus
    · cases digit
  | string body value escapes => exact ⟨_, _, rfl, by decide⟩

theorem listed_cons (w : Written) (ws : List Written) (tail : Bytes) :
    ∃ c rest, listed (w :: ws) ++ 0x29 :: tail = w.spelled ++ c :: rest ∧
      (c = 0x2c ∨ c = 0x29) ∧
      (if c = 0x2c then rest else c :: rest) = listed ws ++ 0x29 :: tail := by
  cases ws with
  | nil =>
    refine ⟨0x29, tail, ?_, .inr rfl, rfl⟩
    show [0x2c].intercalate [w.spelled] ++ _ = _
    rw [intercalate_singleton]
  | cons v ws =>
    refine ⟨0x2c, listed (v :: ws) ++ 0x29 :: tail, ?_, .inl rfl, rfl⟩
    show [0x2c].intercalate (w.spelled :: v.spelled :: ws.map Written.spelled) ++ _ = _
    rw [intercalate_cons_cons, append_assoc, append_assoc]
    rfl

theorem readArgs_listed {ws : List Written} (args : List Arg) (few : args.length + ws.length ≤ 5)
    (enough : (listed ws ++ 0x29 :: tail).length < turns) :
    ¬ Overruns args (listed ws ++ 0x29 :: tail) ∧
      readArgs turns args (listed ws ++ 0x29 :: tail) =
        if ∀ w ∈ ws, w.Short then some (args ++ ws.map Written.arg, tail) else none := by
  induction ws generalizing args turns with
  | nil =>
    refine ⟨fun overruns => overruns.begins.2 rfl, ?_⟩
    cases turns with
    | zero => exact absurd enough (Nat.not_lt_zero _)
    | succ turns =>
      rw [if_pos (by simp), map_nil, append_nil]
      rfl
  | cons w ws ih =>
    obtain ⟨c, rest, text_eq, sep, next⟩ := listed_cons w ws tail
    obtain ⟨d, s, spelled_eq, other⟩ := w.spelled_cons
    rw [length_cons] at few
    have said : step args (w.spelled ++ c :: rest) = _ :=
      step_written (by omega : args.length ≠ 5) w sep
    rw [text_eq] at enough ⊢
    cases turns with
    | zero => exact absurd enough (Nat.not_lt_zero _)
    | succ turns =>
      have reads : readArgs (turns + 1) args (w.spelled ++ c :: rest) =
          match step args (w.spelled ++ c :: rest) with
          | .goOn args rest => readArgs turns args rest
          | .ends rest => some (args, rest.tail)
          | _ => none := by
        rw [spelled_eq, cons_append]
        exact if_neg other
      rw [reads, said]
      by_cases short : w.Short
      · rw [if_pos short, next] at said
        rw [if_pos short, next]
        have shorter : (listed ws ++ 0x29 :: tail).length < turns := by
          rw [length_append, spelled_eq, length_cons, length_cons] at enough
          rw [← next]
          split
          · omega
          · rw [length_cons]
            omega
        obtain ⟨inside, read⟩ := ih (args ++ [w.arg])
          (by rw [length_append, length_singleton]; omega) shorter
        refine ⟨not_overruns (by simp [said]) ?_, ?_⟩
        · intro args' rest' same
          rw [said] at same
          injection same with args_eq rest_eq
          rwa [← args_eq, ← rest_eq]
        · show readArgs turns _ _ = _
          rw [read]
          by_cases all : ∀ w ∈ ws, w.Short
          · rw [if_pos all, if_pos (forall_mem_cons.mpr ⟨short, all⟩)]
            simp
          · rw [if_neg all, if_neg fun each => all (forall_mem_cons.mp each).2]
      · rw [if_neg short] at said
        rw [if_neg short, if_neg fun each => short (forall_mem_cons.mp each).1]
        exact ⟨not_overruns (by simp [said]) (by simp [said]), rfl⟩

/-! ## The arguments of a command -/

theorem Written.spelled_nonzero (w : Written) : 0 ∉ w.spelled := by
  cases w with
  | int n low high =>
    have digits : 0 ∉ decimal n.natAbs := fun mem => by cases decimal_digits 0 mem
    show 0 ∉ signedDecimal n
    unfold signedDecimal
    split
    · simp [digits]
    · exact digits
  | string body value escapes =>
    show 0 ∉ 0x22 :: body ++ [0x22]
    simp [escapes.plain_chars.1]

theorem listed_nonzero (ws : List Written) : 0 ∉ listed ws := by
  induction ws with
  | nil => exact not_mem_nil
  | cons w ws ih =>
    cases ws with
    | nil =>
      show 0 ∉ [0x2c].intercalate [w.spelled]
      rw [intercalate_singleton]
      exact w.spelled_nonzero
    | cons v ws =>
      have whole : listed (w :: v :: ws) = w.spelled ++ [0x2c] ++ listed (v :: ws) := by
        show [0x2c].intercalate (w.spelled :: v.spelled :: ws.map Written.spelled) = _
        rw [intercalate_cons_cons]
        rfl
      rw [whole]
      simp [w.spelled_nonzero, ih]

variable (text) in
theorem getsubstcommandargs_returns (nonzero : 0 ∉ text) (here : At text i rest) :
    Returns text [] rest (text.length + 1) (getsubstcommandargs text i) := by
  have least := here.length
  exact argsLoop_returns nonzero here (Nat.zero_le 5) (by omega)

/-- `a\x22b`, a quote between two letters -/
def quoteEscaped : Written :=
  .string (ascii "a\\x22b") (ascii "a\"b")
    (.plain (by decide) (by decide) (by decide)
      (.hex rfl (.plain (by decide) (by decide) (by decide) .nil)))

/-- `1,2,3,4,5,6)` -/
def sixIntegers : CString := ⟨ascii "1,2,3,4,5,6)", by decide⟩

/-- `"a` -/
def openString : CString := ⟨ascii "\"a", by decide⟩

end Nmap.Service.Template
