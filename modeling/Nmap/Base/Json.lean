import Nmap.Base.Utf8

/-!
# JSON texts (RFC 8259)

The values of JSON and a reader for JSON texts, over byte lists. The reader
follows the grammar of RFC 8259 production by production: white space is allowed
around the structural characters, strings are UTF-8 with escapes, a surrogate
escape needs its partner, and numbers keep their literal text. Its `fuel` bounds
the nesting and is set from the length of the text.

`Reads t v` is the compositional form: wherever the text `t` stands before
something that cannot continue it, the reader takes `t` and returns `v`. The rules
for arrays and objects build such facts from those of their parts.
-/

namespace Nmap.Base

open List

/-- A JSON value. Numbers are kept as their text, members in order. -/
inductive Json
  | null
  | bool (b : Bool)
  | number (literal : Bytes)
  | string (chars : List Char)
  | array (items : List Json)
  | object (members : List (List Char × Json))

namespace Json

set_option maxRecDepth 4000

/-! ## White space, literals and numbers -/

/-- `ws` -/
def isWs (b : UInt8) : Bool := b == 0x20 || b == 0x09 || b == 0x0a || b == 0x0d

def skipWs (s : Bytes) : Bytes := s.dropWhile isWs

/-- `DIGIT` -/
def isDigit (b : UInt8) : Bool := 0x30 ≤ b && b ≤ 0x39

/-- `int`: zero, or a digit from one to nine and more digits. -/
def readInt : Bytes → Option (Bytes × Bytes)
  | [] => none
  | b :: s =>
    if b = 0x30 then some ([b], s)
    else if isDigit b then some (b :: s.takeWhile isDigit, s.dropWhile isDigit)
    else none

/-- One or more digits after `lead`. -/
def readDigits (lead s : Bytes) : Option (Bytes × Bytes) :=
  match s.takeWhile isDigit with
  | [] => none
  | digits => some (lead ++ digits, s.dropWhile isDigit)

/-- `frac`, which may be missing. -/
def readFrac : Bytes → Option (Bytes × Bytes)
  | 0x2e :: s => readDigits [0x2e] s
  | s => some ([], s)

/-- `exp`, which may be missing. -/
def readExp : Bytes → Option (Bytes × Bytes)
  | [] => some ([], [])
  | b :: s =>
    if b = 0x65 ∨ b = 0x45 then
      match s with
      | 0x2b :: s => readDigits [b, 0x2b] s
      | 0x2d :: s => readDigits [b, 0x2d] s
      | s => readDigits [b] s
    else some ([], b :: s)

/-- `number`: the literal and what follows it. -/
def readNumber (s : Bytes) : Option (Bytes × Bytes) := do
  let (sign, s) := match s with
    | 0x2d :: s => (([0x2d] : Bytes), s)
    | s => ([], s)
  let (int, s) ← readInt s
  let (frac, s) ← readFrac s
  let (exp, s) ← readExp s
  return (sign ++ int ++ frac ++ exp, s)

/-! ## Strings -/

/-- `HEXDIG` -/
def hexValue (b : UInt8) : Option Nat :=
  if 0x30 ≤ b ∧ b ≤ 0x39 then some (b.toNat - 0x30)
  else if 0x41 ≤ b ∧ b ≤ 0x46 then some (b.toNat - 0x37)
  else if 0x61 ≤ b ∧ b ≤ 0x66 then some (b.toNat - 0x57)
  else none

/-- `4HEXDIG` -/
def readHex4 : Bytes → Option (Nat × Bytes)
  | a :: b :: c :: d :: s => do
    let a ← hexValue a
    let b ← hexValue b
    let c ← hexValue c
    let d ← hexValue d
    return (a * 4096 + b * 256 + c * 16 + d, s)
  | _ => none

/-- What follows `\u`: a code point, or the two halves of a surrogate pair. -/
def readUnicode (s : Bytes) : Option (Char × Bytes) := do
  let (n, s) ← readHex4 s
  if 0xd800 ≤ n ∧ n < 0xdc00 then
    match s with
    | 0x5c :: 0x75 :: s =>
      let (low, s) ← readHex4 s
      if 0xdc00 ≤ low ∧ low < 0xe000 then
        return (Char.ofNat (0x10000 + (n - 0xd800) * 1024 + (low - 0xdc00)), s)
      else none
    | _ => none
  else if 0xdc00 ≤ n ∧ n < 0xe000 then none
  else return (Char.ofNat n, s)

/-- What follows `escape`. -/
def readEscape : Bytes → Option (Char × Bytes)
  | [] => none
  | b :: s =>
    if b = 0x22 then some ('"', s)
    else if b = 0x5c then some ('\\', s)
    else if b = 0x2f then some ('/', s)
    else if b = 0x62 then some ('\x08', s)
    else if b = 0x66 then some ('\x0c', s)
    else if b = 0x6e then some ('\n', s)
    else if b = 0x72 then some ('\r', s)
    else if b = 0x74 then some ('\t', s)
    else if b = 0x75 then readUnicode s
    else none

/-- `*char quotation-mark`: the characters up to the closing quotation mark. -/
def readChars : Nat → Bytes → Option (List Char × Bytes)
  | 0, _ => none
  | _, [] => none
  | fuel + 1, b :: s =>
    if b = 0x22 then some ([], s)
    else do
      let (c, s) ←
        if b = 0x5c then readEscape s
        else if b < 0x20 then none
        else Utf8.decode? (b :: s)
      let (cs, s) ← readChars fuel s
      return (c :: cs, s)

/-- `string` -/
def readString : Bytes → Option (List Char × Bytes)
  | 0x22 :: s => readChars (s.length + 1) s
  | _ => none

def readName (name : Bytes) (v : Json) (s : Bytes) : Option (Json × Bytes) :=
  if s.take name.length = name then some (v, s.drop name.length) else none

/-! ## Values -/

mutual

/-- `value`, after white space -/
def readValue : Nat → Bytes → Option (Json × Bytes)
  | 0, _ => none
  | fuel + 1, s =>
    match skipWs s with
    | [] => none
    | b :: s =>
      if b = 0x22 then (readString (b :: s)).map fun (cs, s) => (string cs, s)
      else if b = 0x5b then
        match skipWs s with
        | 0x5d :: s => some (array [], s)
        | s => (readItems fuel s).map fun (vs, s) => (array vs, s)
      else if b = 0x7b then
        match skipWs s with
        | 0x7d :: s => some (object [], s)
        | s => (readMembers fuel s).map fun (ms, s) => (object ms, s)
      else if b = 0x6e then readName (ascii "null") null (b :: s)
      else if b = 0x74 then readName (ascii "true") (bool true) (b :: s)
      else if b = 0x66 then readName (ascii "false") (bool false) (b :: s)
      else (readNumber (b :: s)).map fun (literal, s) => (number literal, s)

/-- One or more values up to the closing bracket. -/
def readItems : Nat → Bytes → Option (List Json × Bytes)
  | 0, _ => none
  | fuel + 1, s => do
    let (v, s) ← readValue fuel s
    match skipWs s with
    | 0x2c :: s =>
      let (vs, s) ← readItems fuel s
      return (v :: vs, s)
    | 0x5d :: s => return ([v], s)
    | _ => none

/-- One or more members up to the closing brace. -/
def readMembers : Nat → Bytes → Option (List (List Char × Json) × Bytes)
  | 0, _ => none
  | fuel + 1, s => do
    let (k, s) ← readString (skipWs s)
    match skipWs s with
    | 0x3a :: s =>
      let (v, s) ← readValue fuel s
      match skipWs s with
      | 0x2c :: s =>
        let (ms, s) ← readMembers fuel s
        return ((k, v) :: ms, s)
      | 0x7d :: s => return ([(k, v)], s)
      | _ => none
    | _ => none

end

/-- `JSON-text`: one value and nothing else but white space. -/
def read (s : Bytes) : Option Json :=
  match readValue (s.length + 1) s with
  | some (v, s) => if skipWs s = [] then some v else none
  | none => none

/-! ## Texts that read as a value -/

/-- What may follow a number without becoming part of it. -/
def stops : Bytes → Bool
  | [] => true
  | b :: _ => !(isDigit b || b == 0x2e || b == 0x65 || b == 0x45)

/-- The text reads as the value wherever it stands. -/
def Reads (t : Bytes) (v : Json) : Prop :=
  ∀ fuel rest, t.length ≤ fuel → stops rest = true → readValue fuel (t ++ rest) = some (v, rest)

/-- The text reads as the string wherever it stands. -/
def ReadsString (t : Bytes) (cs : List Char) : Prop :=
  ∀ rest, readString (t ++ rest) = some (cs, rest)

/-- The text reads as one member of an object. -/
def ReadsMember (t : Bytes) (m : List Char × Json) : Prop :=
  ∃ ws key val, t = ws ++ (key ++ 0x3a :: val) ∧ ws.all isWs = true ∧ ReadsString key m.1 ∧
    Reads val m.2

def commaSep : List Bytes → Bytes
  | [] => []
  | [t] => t
  | t :: ts => t ++ 0x2c :: commaSep ts

theorem commaSep_cons_cons (t u : Bytes) (ts : List Bytes) :
    commaSep (t :: u :: ts) = t ++ 0x2c :: commaSep (u :: ts) := rfl

theorem commaSep_concat {ts : List Bytes} (h : ts ≠ []) (t : Bytes) :
    commaSep (ts ++ [t]) = commaSep ts ++ 0x2c :: t := by
  induction ts with
  | nil => exact absurd rfl h
  | cons u ts ih =>
    cases ts with
    | nil => rfl
    | cons u' ts =>
      have := ih (by simp)
      rw [cons_append, cons_append, commaSep_cons_cons, ← cons_append, this,
        commaSep_cons_cons]
      simp

theorem commaSep_concat_append (ts : List Bytes) (t u : Bytes) :
    commaSep (ts ++ [t]) ++ u = commaSep (ts ++ [t ++ u]) := by
  cases ts with
  | nil => rfl
  | cons t' ts =>
    rw [commaSep_concat (by simp), commaSep_concat (by simp), append_assoc,
      cons_append]

theorem skipWs_append {ws : Bytes} (h : ws.all isWs = true) (s : Bytes) :
    skipWs (ws ++ s) = skipWs s := by
  induction ws with
  | nil => rfl
  | cons b ws ih =>
    rw [all_cons, Bool.and_eq_true] at h
    rw [cons_append, skipWs, dropWhile_cons, if_pos h.1]
    exact ih h.2

variable {b : UInt8}

theorem skipWs_cons (h : isWs b = false) (s : Bytes) :
    skipWs (b :: s) = b :: s := by
  rw [skipWs, dropWhile_cons, h]
  rfl

attribute [local simp] readValue in
theorem readValue_ws {ws : Bytes} (h : ws.all isWs = true) (fuel : Nat) (s : Bytes) :
    readValue fuel (ws ++ s) = readValue fuel s := by
  cases fuel with
  | zero => rfl
  | succ fuel => simp [skipWs_append h]

theorem stops_append {ws : Bytes} (h : ws.all isWs = true) {s : Bytes} (hs : stops s = true) :
    stops (ws ++ s) = true := by
  cases ws with
  | nil => exact hs
  | cons b ws =>
    rw [all_cons, Bool.and_eq_true] at h
    have hb := h.1
    simp only [isWs, Bool.or_eq_true, beq_iff_eq] at hb
    rcases hb with ((rfl | rfl) | rfl) | rfl <;> rfl

theorem Reads.ws {ws t : Bytes} {v : Json} (h : Reads t v) (hws : ws.all isWs = true) :
    Reads (ws ++ t) v := by
  intro fuel rest hfuel hrest
  rw [append_assoc, readValue_ws hws]
  exact h fuel rest (by rw [length_append] at hfuel; omega) hrest

variable {t : Bytes}

theorem Reads.length_pos {v : Json} (h : Reads t v) : 0 < t.length := by
  by_contra hlen
  have := h 0 [] (by omega) rfl
  simp [readValue] at this

theorem Reads.read {t ws : Bytes} {v : Json} (h : Reads t v) (hws : ws.all isWs = true) :
    read (t ++ ws) = some v := by
  have value := h ((t ++ ws).length + 1) ws (by rw [length_append]; omega)
    (by simpa using stops_append hws (s := []) rfl)
  have rest : skipWs ws = [] := by simpa [skipWs] using skipWs_append hws []
  rw [Json.read, value]
  simp [rest]

/-! ### Scalars -/

theorem reads_null : Reads (ascii "null") null := by
  intro fuel rest hfuel _
  obtain ⟨fuel, rfl⟩ : ∃ n, fuel = n + 1 := ⟨fuel - 1, by simp [ascii] at hfuel; omega⟩
  simp [ascii, readValue, skipWs, isWs, readName]

theorem reads_bool (b : Bool) : Reads (ascii (if b then "true" else "false")) (bool b) := by
  intro fuel rest hfuel _
  cases b with
  | true =>
    obtain ⟨fuel, rfl⟩ : ∃ n, fuel = n + 1 := ⟨fuel - 1, by simp [ascii] at hfuel; omega⟩
    simp [ascii, readValue, skipWs, isWs, readName]
  | false =>
    obtain ⟨fuel, rfl⟩ : ∃ n, fuel = n + 1 := ⟨fuel - 1, by simp [ascii] at hfuel; omega⟩
    simp [ascii, readValue, skipWs, isWs, readName]

variable {cs : List Char}

theorem ReadsString.head (h : ReadsString t cs) :
    ∃ s, t = 0x22 :: s := by
  have := h []
  rw [append_nil] at this
  match t with
  | [] => simp [readString] at this
  | b :: s =>
    by_cases hb : b = 0x22
    · exact ⟨s, by rw [hb]⟩
    · rw [readString] at this
      · cases this
      · rintro s' h'
        exact hb (List.cons.inj h').1

theorem ReadsString.reads (h : ReadsString t cs) :
    Reads t (string cs) := by
  intro fuel rest hfuel _
  obtain ⟨s, rfl⟩ := h.head
  obtain ⟨fuel, rfl⟩ : ∃ n, fuel = n + 1 := ⟨fuel - 1, by simp at hfuel; omega⟩
  have := h rest
  rw [cons_append] at this ⊢
  rw [readValue, skipWs_cons (by decide)]
  simp [this]

theorem reads_number {s : Bytes} (first : isDigit b = true ∨ b = 0x2d)
    (h : ∀ rest, stops rest = true → readNumber (b :: s ++ rest) = some (b :: s, rest)) :
    Reads (b :: s) (number (b :: s)) := by
  intro fuel rest hfuel hrest
  obtain ⟨fuel, rfl⟩ : ∃ n, fuel = n + 1 := ⟨fuel - 1, by simp at hfuel; omega⟩
  have hnumber := h rest hrest
  have other : isWs b = false ∧ b ≠ 0x22 ∧ b ≠ 0x5b ∧ b ≠ 0x7b ∧ b ≠ 0x6e ∧ b ≠ 0x74 ∧
      b ≠ 0x66 := by
    have all : ∀ n < 256, (isDigit (UInt8.ofNat n) = true ∨ UInt8.ofNat n = 0x2d) →
        isWs (UInt8.ofNat n) = false ∧ UInt8.ofNat n ≠ 0x22 ∧ UInt8.ofNat n ≠ 0x5b ∧
          UInt8.ofNat n ≠ 0x7b ∧ UInt8.ofNat n ≠ 0x6e ∧ UInt8.ofNat n ≠ 0x74 ∧
          UInt8.ofNat n ≠ 0x66 := by decide
    have := all b.toNat b.toNat_lt
    rw [UInt8.ofNat_toNat] at this
    exact this first
  obtain ⟨hws, h1, h2, h3, h4, h5, h6⟩ := other
  rw [cons_append] at hnumber ⊢
  rw [readValue, skipWs_cons hws]
  simp [h1, h2, h3, h4, h5, h6, hnumber]

/-! ### Strings, character by character -/

/-- The text reads as one character of a string. -/
def ReadsChar (t : Bytes) (c : Char) : Prop :=
  ∀ fuel rest, readChars (fuel + 1) (t ++ rest) =
    (readChars fuel rest).map fun (cs, s) => (c :: cs, s)

variable {c : Char}

attribute [local simp] readChars in
theorem ReadsChar.length_pos (h : ReadsChar t c) : 0 < t.length := by
  by_contra hlen
  have hnil : t = [] := length_eq_zero_iff.mp (by omega)
  have := h 0 [0x22]
  rw [hnil] at this
  simp at this

theorem readsChar_escape (h : ∀ rest, readEscape (t ++ rest) = some (c, rest)) : ReadsChar
    (0x5c :: t) c := by
  intro fuel rest
  rw [cons_append, readChars, if_neg (by decide), if_pos rfl, h rest]
  cases hrest : readChars fuel rest <;> simp [hrest]

theorem readsChar_encode (h : String.utf8EncodeChar c = b :: t) (low : ¬ b < 0x20)
    (quotation : b ≠ 0x22) (escape : b ≠ 0x5c) : ReadsChar (b :: t) c := by
  intro fuel rest
  have decoded := Utf8.decode?_append c rest
  rw [h, cons_append] at decoded
  rw [cons_append, readChars, if_neg quotation, if_neg escape, if_neg low, decoded]
  cases hrest : readChars fuel rest <;> simp [hrest]

variable {texts : List Bytes}

theorem readChars_flatten (h : Forall₂ ReadsChar texts cs) (rest : Bytes) :
    ∀ fuel, texts.flatten.length < fuel →
      readChars fuel (texts.flatten ++ 0x22 :: rest) = some (cs, rest) := by
  induction h with
  | nil =>
    intro fuel hfuel
    obtain ⟨fuel, rfl⟩ : ∃ n, fuel = n + 1 := ⟨fuel - 1, by simp at hfuel; omega⟩
    simp [readChars]
  | @cons t c texts cs ht hts ih =>
    intro fuel hfuel
    rw [flatten_cons, length_append] at hfuel
    obtain ⟨fuel, rfl⟩ : ∃ n, fuel = n + 1 := ⟨fuel - 1, by omega⟩
    have later := ih fuel (by have := ht.length_pos; omega)
    rw [flatten_cons, append_assoc, ht fuel, later]
    rfl

theorem readsString_of_chars (h : Forall₂ ReadsChar texts cs) :
    ReadsString (0x22 :: (texts.flatten ++ [0x22])) cs := by
  intro rest
  rw [cons_append, append_assoc, singleton_append, readString]
  refine readChars_flatten h rest _ ?_
  rw [length_append]
  exact Nat.lt_succ_of_le (Nat.le_add_right _ _)

/-! ### Arrays and objects -/

theorem reads_emptyArray : Reads [0x5b, 0x5d] (array []) := by
  intro fuel rest hfuel _
  obtain ⟨fuel, rfl⟩ : ∃ n, fuel = n + 1 := ⟨fuel - 1, by simp at hfuel; omega⟩
  simp [readValue, skipWs, isWs]

theorem reads_emptyObject : Reads [0x7b, 0x7d] (object []) := by
  intro fuel rest hfuel _
  obtain ⟨fuel, rfl⟩ : ∃ n, fuel = n + 1 := ⟨fuel - 1, by simp at hfuel; omega⟩
  simp [readValue, skipWs, isWs]

theorem skipWs_skipWs (s : Bytes) : skipWs (skipWs s) = skipWs s := by
  induction s with
  | nil => rfl
  | cons b s ih =>
    by_cases h : isWs b = true
    · rw [skipWs, skipWs, dropWhile_cons, if_pos h]
      exact ih
    · have hb : isWs b = false := by simpa using h
      rw [skipWs_cons hb, skipWs_cons hb]

theorem readValue_skipWs (fuel : Nat) (s : Bytes) :
    readValue fuel (skipWs s) = readValue fuel s := by
  cases fuel with
  | zero => rfl
  | succ fuel => rw [readValue, readValue, skipWs_skipWs]

theorem readItems_skipWs (fuel : Nat) (s : Bytes) :
    readItems fuel (skipWs s) = readItems fuel s := by
  cases fuel with
  | zero => rfl
  | succ fuel => rw [readItems, readItems, readValue_skipWs]

theorem readMembers_skipWs (fuel : Nat) (s : Bytes) :
    readMembers fuel (skipWs s) = readMembers fuel s := by
  cases fuel with
  | zero => rfl
  | succ fuel => rw [readMembers, readMembers, skipWs_skipWs]

theorem Reads.ne_close {rest : Bytes} {v : Json} (h : Reads t v) (hrest : stops rest = true)
    (s : Bytes) : skipWs (t ++ rest) ≠ 0x5d :: s := by
  intro hclose
  have value := h (t.length + 1) rest (by omega) hrest
  rw [readValue, hclose] at value
  simp [readNumber, readInt, isDigit] at value

theorem readItems_commaSep {vs : List Json} (h : Forall₂ Reads texts vs) (ne : texts ≠ [])
    {ws : Bytes} (hws : ws.all isWs = true) (rest : Bytes) :
    ∀ fuel, (commaSep texts).length + 1 ≤ fuel →
      readItems fuel (commaSep texts ++ (ws ++ 0x5d :: rest)) = some (vs, rest) := by
  induction h with
  | nil => exact absurd rfl ne
  | @cons t v texts vs ht hts ih =>
    intro fuel hfuel
    obtain ⟨fuel, rfl⟩ : ∃ n, fuel = n + 1 := ⟨fuel - 1, by omega⟩
    cases hts with
    | nil =>
      have close : stops (ws ++ 0x5d :: rest) = true := stops_append hws (by rfl)
      have value := ht fuel _ (by simp only [commaSep] at hfuel; omega) close
      rw [commaSep, readItems, value]
      simp [skipWs_append hws, skipWs_cons (b := 0x5d) (by decide)]
    | @cons u w texts vs hu hts =>
      have comma : ∀ s, stops (0x2c :: s) = true := fun _ => rfl
      rw [commaSep_cons_cons, length_append, length_cons] at hfuel
      have value := ht fuel (0x2c :: (commaSep (u :: texts) ++ (ws ++ 0x5d :: rest)))
        (by omega) (comma _)
      have later := ih (by simp) fuel (by have := ht.length_pos; omega)
      rw [commaSep_cons_cons, append_assoc, cons_append, readItems, value]
      simp [skipWs_cons (b := 0x2c) (by decide), later]

theorem reads_array {vs : List Json} (h : Forall₂ Reads texts vs) (ne : texts ≠ [])
    {ws : Bytes} (hws : ws.all isWs = true) :
    Reads (0x5b :: (commaSep texts ++ (ws ++ [0x5d]))) (array vs) := by
  intro fuel rest hfuel _
  obtain ⟨fuel, rfl⟩ : ∃ n, fuel = n + 1 := ⟨fuel - 1, by simp at hfuel; omega⟩
  have body : 0x5b :: (commaSep texts ++ (ws ++ [0x5d])) ++ rest =
      0x5b :: (commaSep texts ++ (ws ++ 0x5d :: rest)) := by simp
  have items := readItems_commaSep h ne hws rest fuel (by simp at hfuel; omega)
  have noClose : ∀ s, skipWs (commaSep texts ++ (ws ++ 0x5d :: rest)) ≠ 0x5d :: s := by
    cases h with
    | nil => exact absurd rfl ne
    | @cons t v texts vs ht hts =>
      cases hts with
      | nil => exact ht.ne_close (stops_append hws (by rfl))
      | @cons u w texts vs hu hts =>
        rw [commaSep_cons_cons, append_assoc, cons_append]
        exact ht.ne_close (by rfl)
  rw [body, readValue, skipWs_cons (by decide)]
  simp only [show ¬ (0x5b : UInt8) = 0x22 by decide, if_false, if_true]
  rw [readItems_skipWs, items]
  rfl

/-- Members separated by commas, up to the closing brace. -/
theorem readMembers_commaSep {ms : List (List Char × Json)} (h : Forall₂ ReadsMember texts ms)
    (ne : texts ≠ []) {ws : Bytes} (hws : ws.all isWs = true) (rest : Bytes) :
    ∀ fuel, (commaSep texts).length + 1 ≤ fuel →
      readMembers fuel (commaSep texts ++ (ws ++ 0x7d :: rest)) = some (ms, rest) := by
  -- one member, whatever follows its value
  have member : ∀ {t : Bytes} {m : List Char × Json}, ReadsMember t m → ∀ fuel s,
      t.length ≤ fuel + 1 → stops s = true →
      readMembers (fuel + 1) (t ++ s) = (do
        match skipWs s with
        | 0x2c :: s =>
          let (ms, s) ← readMembers fuel s
          return (m :: ms, s)
        | 0x7d :: s => return ([m], s)
        | _ => none) := by
    rintro t ⟨k, v⟩ ⟨wsk, key, val, rfl, hwsk, hkey, hval⟩ fuel s hlen hs
    obtain ⟨key', rfl⟩ := hkey.head
    have string := hkey (0x3a :: (val ++ s))
    have value := hval fuel s (by simp at hlen; omega) hs
    rw [append_assoc, append_assoc, cons_append (a := 0x3a), readMembers,
      skipWs_append hwsk, cons_append, skipWs_cons (by decide), ← cons_append, string]
    simp [skipWs_cons (b := 0x3a) (by decide), value]
  induction h with
  | nil => exact absurd rfl ne
  | @cons t m texts ms ht hts ih =>
    intro fuel hfuel
    obtain ⟨fuel, rfl⟩ : ∃ n, fuel = n + 1 := ⟨fuel - 1, by omega⟩
    cases hts with
    | nil =>
      rw [commaSep, member ht fuel _ (by simp only [commaSep] at hfuel; omega)
        (stops_append hws (by rfl))]
      simp [skipWs_append hws, skipWs_cons (b := 0x7d) (by decide)]
    | @cons u m' texts ms hu hts =>
      rw [commaSep_cons_cons, length_append, length_cons] at hfuel
      have nonempty : 0 < t.length := by
        obtain ⟨wsk, key, val, rfl, -, -, -⟩ := ht
        simp only [length_append, length_cons]
        omega
      have later := ih (by simp) fuel (by omega)
      rw [commaSep_cons_cons, append_assoc, cons_append,
        member ht fuel _ (by omega) (by rfl)]
      simp [skipWs_cons (b := 0x2c) (by decide), later]

/-- An object text: members separated by commas, white space before the brace. -/
theorem reads_object {ms : List (List Char × Json)} (h : Forall₂ ReadsMember texts ms)
    (ne : texts ≠ []) {ws : Bytes} (hws : ws.all isWs = true) :
    Reads (0x7b :: (commaSep texts ++ (ws ++ [0x7d]))) (object ms) := by
  intro fuel rest hfuel _
  obtain ⟨fuel, rfl⟩ : ∃ n, fuel = n + 1 := ⟨fuel - 1, by simp at hfuel; omega⟩
  have body : 0x7b :: (commaSep texts ++ (ws ++ [0x7d])) ++ rest =
      0x7b :: (commaSep texts ++ (ws ++ 0x7d :: rest)) := by simp
  have members := readMembers_commaSep h ne hws rest fuel (by simp at hfuel; omega)
  have noClose : ∀ s, skipWs (commaSep texts ++ (ws ++ 0x7d :: rest)) ≠ 0x7d :: s := by
    intro s
    cases h with
    | nil => exact absurd rfl ne
    | @cons t m texts ms ht hts =>
      obtain ⟨wsk, key, val, rfl, hwsk, hkey, -⟩ := ht
      obtain ⟨key', rfl⟩ := hkey.head
      obtain ⟨s', hs'⟩ : ∃ s', commaSep ((wsk ++ (0x22 :: key' ++ 0x3a :: val)) :: texts) ++
          (ws ++ 0x7d :: rest) = wsk ++ 0x22 :: s' := by
        cases texts with
        | nil => exact ⟨_, by rw [commaSep]; simp; rfl⟩
        | cons u texts => exact ⟨_, by rw [commaSep_cons_cons]; simp; rfl⟩
      rw [hs', skipWs_append hwsk, skipWs_cons (by decide)]
      simp
  rw [body, readValue, skipWs_cons (by decide)]
  simp only [show ¬ (0x7b : UInt8) = 0x22 by decide, show ¬ (0x7b : UInt8) = 0x5b by decide,
    if_false, if_true]
  rw [readMembers_skipWs, members]
  rfl

end Json

end Nmap.Base
