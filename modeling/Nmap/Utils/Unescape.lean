import Nmap.Base.Buffer
import Nmap.Utils.Wildtest

/-!
# Escapes (`utils.cc`)

`cstring_unescape` decodes a string in place. What is read is never in front of what is written,
so every character is read as it was. The length is stored in an `unsigned int`
(`cstringUnescape_iff`).
-/

namespace Nmap.Utils

open Nmap.Base List

set_option maxRecDepth 4000

/-! ## The function -/

/-- What goes wrong -/
inductive UnescapeFault
  | outside (i : Nat)
  | assertion
  | stuck
  deriving DecidableEq

/-- `\` -/
def backslash : UInt8 := 0x5c

/-- A `char` as an `int` -/
def charInt (c : UInt8) : Int := if c < 0x80 then c.toNat else c.toNat - 256

/-- What `hex2char` takes a digit for -/
def hexPart (hex : UInt8) : Int :=
  if charInt hex < 0x41 then charInt hex - 0x30 else charInt (toLower hex) + 10 - 0x61

def hex2char (buf : Bytes) (src : Nat) : Except UnescapeFault (Option UInt8) := do
  let a ← Buffer.get .outside buf src
  if !isXDigit a then .ok none
  else do
    let b ← Buffer.get .outside buf (src + 1)
    if !isXDigit b then .ok none
    else
      let val := hexPart a * 16 + hexPart b
      if 0 ≤ val ∧ val ≤ 255 then .ok (some (UInt8.ofNat val.toNat)) else .error .assertion

/-- The `switch` behind a backslash: `newchar`, and where `src` is then -/
def unescapeChar (buf : Bytes) (src : Nat) : Except UnescapeFault (Option (UInt8 × Nat)) := do
  let e ← Buffer.get .outside buf src
  if e = backslash then .ok (some (backslash, src))
  else if e = 0x30 then .ok (some (0, src))
  else if e = 0x6e then .ok (some (0x0a, src))
  else if e = 0x72 then .ok (some (0x0d, src))
  else if e = 0x74 then .ok (some (0x09, src))
  else if e = 0x78 then do
    let newchar ← hex2char buf (src + 1)
    .ok (newchar.map fun c => (c, src + 2))
  else .ok none

/-- The loop: the buffer and `dst` where it ends -/
def unescapeFrom : Nat → Bytes → Nat → Nat → Except UnescapeFault (Option (Bytes × Nat))
  | 0, _, _, _ => .error .stuck
  | turns + 1, buf, dst, src => do
    let c ← Buffer.get .outside buf src
    if c = 0 then do
      let buf ← Buffer.put .outside buf dst 0
      .ok (some (buf, dst))
    else do
      let next ← (if c = backslash then unescapeChar buf (src + 1) else .ok (some (c, src)))
      match next with
      | none => .ok none
      | some (newchar, src) => do
        let buf ← Buffer.put .outside buf dst newchar
        unescapeFrom turns buf (dst + 1) (src + 1)

/-- `cstring_unescape`: what is in the buffer then, and `newlen` -/
def cstringUnescape (str : CString) : Except UnescapeFault (Option (Bytes × UInt32)) := do
  let r ← unescapeFrom (str.bytes.length + 1) (str.bytes ++ [0]) 0 0
  return r.map fun (buf, n) => (buf, UInt32.ofNat n)

/-! ## What it should do -/

/-- How a byte may be written -/
inductive Writes : UInt8 → Bytes → Prop
  | plain {c : UInt8} (nonzero : c ≠ 0) (other : c ≠ backslash) : Writes c [c]
  | backslash : Writes backslash [backslash, backslash]
  | zero : Writes 0 [Utils.backslash, 0x30]
  | newline : Writes 0x0a [Utils.backslash, 0x6e]
  | carriageReturn : Writes 0x0d [Utils.backslash, 0x72]
  | tab : Writes 0x09 [Utils.backslash, 0x74]
  | hex {a b : UInt8} (first : isXDigit a = true) (second : isXDigit b = true) :
      Writes (UInt8.ofNat (digitsValue 16 [a, b])) [Utils.backslash, 0x78, a, b]

/-- A byte as two digits, or as itself -/
inductive Encodes : UInt8 → Bytes → Prop
  | plain {c : UInt8} (nonzero : c ≠ 0) (other : c ≠ Utils.backslash) : Encodes c [c]
  | hex {c a b : UInt8} (first : isXDigit a = true) (second : isXDigit b = true)
      (value : digitsValue 16 [a, b] = c.toNat) : Encodes c [Utils.backslash, 0x78, a, b]

/-- The string is accepted, the bytes are at its beginning with a zero behind them, and `newlen`
is their number. -/
def Returns (str : CString) (bytes : Bytes) : Prop :=
  ∃ buf newlen, cstringUnescape str = .ok (some (buf, newlen)) ∧
    bytes ++ [0] <+: buf ∧ newlen.toNat = bytes.length

/-- Nothing outside of the string is accessed, it is accepted exactly if it can be read, and what
is returned is what it stands for. -/
structure Unescapes (str : CString) : Prop where
  accepts : ∃ r, cstringUnescape str = .ok r ∧ (r ≠ none ↔ ∃ bytes, Along Writes bytes str.bytes)
  reads : ∀ bytes, Along Writes bytes str.bytes → Returns str bytes
  readsBack : ∀ bytes, Along Encodes bytes str.bytes → Returns str bytes

/-! ## Characters -/

/-- What a letter stands for behind a backslash -/
def letterChar (e : UInt8) : Option UInt8 :=
  if e = backslash then some backslash
  else if e = 0x30 then some 0
  else if e = 0x6e then some 0x0a
  else if e = 0x72 then some 0x0d
  else if e = 0x74 then some 0x09
  else none

def readHex : Bytes → Option (UInt8 × Bytes)
  | a :: b :: text =>
    if isXDigit a && isXDigit b then some (UInt8.ofNat (digitsValue 16 [a, b]), text) else none
  | _ => none

def readEscaped : Bytes → Option (UInt8 × Bytes)
  | [] => none
  | e :: text => if e = 0x78 then readHex text else (letterChar e).map fun c => (c, text)

/-- The first character that a text stands for, with what is behind it -/
def readChar : Bytes → Option (UInt8 × Bytes)
  | [] => none
  | c :: text => if c = backslash then readEscaped text else some (c, text)

variable {c : UInt8}

theorem letterChar_writes {e : UInt8} (letter : letterChar e = some c) :
    Writes c [backslash, e] := by
  unfold letterChar at letter
  split_ifs at letter with isE isE isE isE isE
  · cases letter
    rw [isE]
    exact .backslash
  · cases letter
    rw [isE]
    exact .zero
  · cases letter
    rw [isE]
    exact .newline
  · cases letter
    rw [isE]
    exact .carriageReturn
  · cases letter
    rw [isE]
    exact .tab

theorem hexPart_digit (a : UInt8) : isXDigit a = true →
    hexPart a = ((digitValue a).getD 0 : Nat) ∧ (digitValue a).getD 0 < 16 := by
  revert a
  exact forall_byte (by decide +kernel)

variable {text : Bytes}

/-- What is read is a byte that the front of the text stands for. -/
theorem readChar_some {rest : Bytes} (terminated : 0 ∉ text)
    (read : readChar text = some (c, rest)) : ∃ part, text = part ++ rest ∧ Writes c part := by
  rcases text with _ | ⟨d, text⟩
  · cases read
  · rw [readChar] at read
    split at read
    · next escape =>
        rw [escape]
        rcases text with _ | ⟨e, text⟩
        · cases read
        · rw [readEscaped] at read
          split at read
          · next isX =>
              rw [isX]
              rcases text with _ | ⟨a, _ | ⟨b, text⟩⟩
              · cases read
              · cases read
              · rw [readHex] at read
                split at read
                · next digits =>
                    cases read
                    rw [Bool.and_eq_true] at digits
                    exact ⟨[_, _, a, b], rfl, .hex digits.1 digits.2⟩
                · cases read
          · obtain ⟨c, letter, same⟩ := Option.map_eq_some_iff.mp read
            cases same
            exact ⟨[_, e], rfl, letterChar_writes letter⟩
    · next other =>
        cases read
        exact ⟨[_], rfl, .plain (fun zero => terminated (by simp [zero])) other⟩

theorem Writes.readChar {part : Bytes} {c : UInt8} (writes : Writes c part) (rest : Bytes) :
    readChar (part ++ rest) = some (c, rest) := by
  cases writes with
  | plain nonzero other => exact if_neg other
  | hex first second =>
    show readHex (_ :: _ :: rest) = _
    rw [readHex, first, second]
    rfl
  | backslash => rfl
  | zero => rfl
  | newline => rfl
  | carriageReturn => rfl
  | tab => rfl

theorem Writes.some_char {part : Bytes} (writes : Writes c part) : part ≠ [] := by
  intro none
  cases writes <;> cases none

variable {bytes : Bytes}

theorem writes_unique {bytes' : Bytes} (along : Along Writes bytes text)
    (along' : Along Writes bytes' text) : bytes = bytes' := by
  refine Along.unique (fun c writes => writes.some_char rfl) ?_ along along'
  intro c c' part part' rest rest' writes writes' whole
  have read := writes.readChar rest
  rw [whole, writes'.readChar rest'] at read
  cases read
  exact ⟨rfl, append_cancel_right whole⟩

theorem along_writes_iff (terminated : 0 ∉ text) (some_char : text ≠ []) :
    Along Writes bytes text ↔ ∃ c bytes' rest, bytes = c :: bytes' ∧
      readChar text = some (c, rest) ∧ Along Writes bytes' rest := by
  cases bytes with
  | nil =>
    rw [Along.nil_iff]
    refine iff_of_false some_char ?_
    rintro ⟨c, bytes', rest, none, -⟩
    cases none
  | cons c bytes =>
    rw [Along.cons_iff]
    constructor
    · rintro ⟨part, rest, rfl, writes, behind⟩
      exact ⟨c, bytes, rest, rfl, writes.readChar rest, behind⟩
    · rintro ⟨c', bytes', rest, same, read, behind⟩
      cases same
      obtain ⟨part, rfl, writes⟩ := readChar_some terminated read
      exact ⟨part, rest, rfl, writes, behind⟩

/-! ## One turn -/

variable {buf : Bytes} {src : Nat}

theorem hexValue {a b : UInt8} (first : isXDigit a = true) (second : isXDigit b = true) :
    (0 ≤ hexPart a * 16 + hexPart b ∧ hexPart a * 16 + hexPart b ≤ 255) ∧
      (hexPart a * 16 + hexPart b).toNat = digitsValue 16 [a, b] := by
  obtain ⟨high, small⟩ := hexPart_digit a first
  obtain ⟨low, small'⟩ := hexPart_digit b second
  have value : digitsValue 16 [a, b] = (digitValue a).getD 0 * 16 + (digitValue b).getD 0 := by
    simp [digitsValue]
  rw [high, low, value]
  omega

theorem hex2char_spec (here : buf.drop src = text ++ [0]) :
    hex2char buf src = .ok ((readHex text).map Prod.fst) := by
  rcases text with _ | ⟨a, _ | ⟨b, text⟩⟩
  · rw [hex2char, Buffer.get_of_drop _ here]
    rfl
  · rw [hex2char, Buffer.get_of_drop _ here, Buffer.ok_bind,
      Buffer.get_of_drop _ (Buffer.drop_succ here)]
    cases isXDigit a
    · rfl
    · rfl
  · rw [hex2char, Buffer.get_of_drop _ here, Buffer.ok_bind,
      Buffer.get_of_drop _ (Buffer.drop_succ here), Buffer.ok_bind, readHex]
    cases first : isXDigit a with
    | false => rfl
    | true =>
      cases second : isXDigit b with
      | false => rfl
      | true =>
        obtain ⟨inside, value⟩ := hexValue first second
        refine (if_pos inside).trans ?_
        rw [value]
        rfl


theorem unescapeChar_eq {e : UInt8} {rest : Bytes} (here : buf.drop src = e :: rest) :
    unescapeChar buf src = if e = 0x78 then
        (hex2char buf (src + 1)).map (Option.map fun c => (c, src + 2))
      else .ok ((letterChar e).map fun c => (c, src)) := by
  rw [unescapeChar, Buffer.get_of_drop _ here, Buffer.ok_bind, letterChar]
  by_cases isX : e = 0x78
  · rw [isX]
    rfl
  · rw [if_neg isX, if_neg isX]
    split_ifs
    · rfl
    · rfl
    · rfl
    · rfl
    · rfl
    · rfl

/-- The `switch` reads what stands behind the backslash. -/
theorem unescapeChar_spec (here : buf.drop src = text ++ [0]) :
    match readEscaped text with
    | none => unescapeChar buf src = .ok none
    | some (c, rest) => ∃ src', unescapeChar buf src = .ok (some (c, src')) ∧ src ≤ src' ∧
        buf.drop (src' + 1) = rest ++ [0] := by
  rcases text with _ | ⟨e, text⟩
  · exact unescapeChar_eq here
  · have there : buf.drop (src + 1) = text ++ [0] := Buffer.drop_succ here
    rw [unescapeChar_eq here, readEscaped, hex2char_spec there]
    by_cases isX : e = 0x78
    · rw [if_pos isX, if_pos isX]
      rcases text with _ | ⟨a, _ | ⟨b, text⟩⟩
      · rfl
      · rfl
      · rw [readHex]
        cases isXDigit a && isXDigit b
        · rfl
        · exact ⟨src + 2, rfl, Nat.le_add_right _ _,
            Buffer.drop_succ (Buffer.drop_succ there)⟩
    · rw [if_neg isX, if_neg isX]
      cases letterChar e with
      | none => rfl
      | some c => exact ⟨src, rfl, Nat.le_refl _, there⟩

/-! ## The loop -/

/-- From a place on where `dst` is not behind `src`, the loop decodes what is left of the text, or
finds that it stands for nothing. -/
theorem unescapeFrom_spec (turns : Nat) :
    ∀ {buf : Bytes} {dst src : Nat} {text : Bytes}, 0 ∉ text → buf.drop src = text ++ [0] →
      dst ≤ src → text.length < turns →
      (∃ bytes buf', Along Writes bytes text ∧
        unescapeFrom turns buf dst src = .ok (some (buf', dst + bytes.length)) ∧
        buf.take dst ++ bytes ++ [0] <+: buf') ∨
      ((∀ bytes, ¬ Along Writes bytes text) ∧ unescapeFrom turns buf dst src = .ok none) := by
  induction turns with
  | zero => exact fun _ _ _ enough => absurd enough (Nat.not_lt_zero _)
  | succ turns ih =>
    intro buf dst src text terminated here order enough
    have count := congrArg List.length here
    rw [length_drop, length_append, length_singleton] at count
    have room : dst < buf.length := by omega
    have front := Buffer.take_set_succ room
    rw [unescapeFrom]
    cases text with
    | nil =>
      refine .inl ⟨[], buf.set dst 0, Along.nil_iff.mpr rfl, ?_, ?_⟩
      · rw [Buffer.get_of_drop _ here, Buffer.ok_bind, if_pos rfl, Buffer.put_eq _ room]
        rfl
      · rw [append_nil, ← front]
        exact take_prefix _ _
    | cons c text =>
      have nonzero : c ≠ 0 := fun zero => terminated (by simp [zero])
      rw [Buffer.get_of_drop _ here, Buffer.ok_bind, if_neg nonzero]
      -- what is read here, and where `src` is behind it
      have turn : match readChar (c :: text) with
          | none => (if c = backslash then unescapeChar buf (src + 1)
              else .ok (some (c, src))) = .ok none
          | some (newchar, rest) => ∃ src', (if c = backslash then unescapeChar buf (src + 1)
              else .ok (some (c, src))) = .ok (some (newchar, src')) ∧ src ≤ src' ∧
              buf.drop (src' + 1) = rest ++ [0] := by
        have there : buf.drop (src + 1) = text ++ [0] := Buffer.drop_succ here
        rw [readChar]
        by_cases escape : c = backslash
        · rw [if_pos escape, if_pos escape]
          have spec := unescapeChar_spec there
          cases read : readEscaped text with
          | none =>
            rw [read] at spec
            exact spec
          | some r =>
            rw [read] at spec
            obtain ⟨src', next, later, behind⟩ := spec
            exact ⟨src', next, Nat.le_of_succ_le later, behind⟩
        · rw [if_neg escape, if_neg escape]
          exact ⟨src, rfl, Nat.le_refl _, there⟩
      cases read : readChar (c :: text) with
      | none =>
        rw [read] at turn
        refine .inr ⟨fun bytes along => ?_, ?_⟩
        · obtain ⟨_, _, _, -, some_read, -⟩ :=
            (along_writes_iff terminated (cons_ne_nil _ _)).mp along
          rw [read] at some_read
          cases some_read
        · rw [turn]
          rfl
      | some r =>
        obtain ⟨newchar, rest⟩ := r
        rw [read] at turn
        obtain ⟨src', next, later, behind⟩ := turn
        obtain ⟨part, whole, writes⟩ := readChar_some terminated read
        have shorter : rest.length < (c :: text).length := by
          rw [whole, length_append]
          have := length_pos_iff.mpr writes.some_char
          omega
        have terminated' : 0 ∉ rest := fun mem => terminated (by
          rw [whole]
          exact mem_append_right _ mem)
        have kept : (buf.set dst newchar).drop (src' + 1) = rest ++ [0] := by
          rw [Buffer.drop_set_of_lt (by omega), behind]
        rw [next, Buffer.ok_bind]
        dsimp only
        rw [Buffer.put_eq _ room, Buffer.ok_bind]
        have some_char : c :: text ≠ [] := cons_ne_nil _ _
        have order' : dst + 1 ≤ src' + 1 := Nat.add_le_add_right (order.trans later) 1
        rcases ih terminated' kept order' (by omega) with
          ⟨bytes, buf', along, run, prefix_⟩ | ⟨none, run⟩
        · refine .inl ⟨newchar :: bytes, buf', ?_, ?_, ?_⟩
          · exact (along_writes_iff terminated some_char).mpr ⟨_, _, _, rfl, read, along⟩
          · rw [run, length_cons, Nat.add_assoc, Nat.add_comm 1]
          · rw [front, append_assoc _ [newchar]] at prefix_
            exact prefix_
        · refine .inr ⟨fun bytes along => ?_, run⟩
          obtain ⟨_, bytes', _, rfl, read', along⟩ :=
            (along_writes_iff terminated some_char).mp along
          rw [read] at read'
          cases read'
          exact none bytes' along

/-! ## What is returned -/

theorem Encodes.writes {c : UInt8} {part : Bytes} (encodes : Encodes c part) : Writes c part := by
  cases encodes with
  | plain nonzero other => exact .plain nonzero other
  | hex first second value =>
    have writes := Writes.hex first second
    rw [value, UInt8.ofNat_toNat] at writes
    exact writes

theorem along_encodes (along : Along Encodes bytes text) :
    Along Writes bytes text := by
  obtain ⟨parts, whole, each⟩ := along
  exact ⟨parts, whole, each.imp fun _ _ encodes => encodes.writes⟩

theorem returns_iff {str : CString} (along : Along Writes bytes str.bytes) :
    Returns str bytes ↔ bytes.length < 2 ^ 32 := by
  have start : (str.bytes ++ [0]).drop 0 = str.bytes ++ [0] := rfl
  rcases unescapeFrom_spec (str.bytes.length + 1) str.nonzero start (Nat.le_refl 0)
    (Nat.lt_succ_self _) with ⟨bytes', buf, along', run, decoded⟩ | ⟨none, -⟩
  · obtain rfl := writes_unique along along'
    have result : cstringUnescape str = .ok (some (buf, UInt32.ofNat bytes.length)) := by
      rw [cstringUnescape, run, Nat.zero_add]
      rfl
    constructor
    · rintro ⟨buf', newlen, same, -, count⟩
      rw [result] at same
      cases same
      rw [← count]
      exact UInt32.toNat_lt _
    · intro fits
      exact ⟨buf, _, result, decoded, UInt32.toNat_ofNat_of_lt fits⟩
  · exact absurd along (none bytes)

theorem cstringUnescape_accepts (str : CString) :
    ∃ r, cstringUnescape str = .ok r ∧ (r ≠ none ↔ ∃ bytes, Along Writes bytes str.bytes) := by
  have start : (str.bytes ++ [0]).drop 0 = str.bytes ++ [0] := rfl
  rcases unescapeFrom_spec (str.bytes.length + 1) str.nonzero start (Nat.le_refl 0)
    (Nat.lt_succ_self _) with ⟨bytes, buf, along, run, -⟩ | ⟨none, run⟩
  · refine ⟨some (buf, UInt32.ofNat (0 + bytes.length)), ?_, ?_⟩
    · rw [cstringUnescape, run]
      rfl
    · exact iff_of_true (Option.some_ne_none _) ⟨bytes, along⟩
  · refine ⟨Option.none, ?_, iff_of_false (fun some => some rfl) ?_⟩
    · rw [cstringUnescape, run]
      rfl
    · rintro ⟨bytes, along⟩
      exact none bytes along

/-- So many `a` stand for themselves. -/
theorem along_manyA (n : Nat) : Along Writes (manyA n).bytes (manyA n).bytes := by
  have each : ∀ c ∈ (manyA n).bytes, Writes c [c] := by
    intro c mem
    rw [eq_of_mem_replicate mem]
    exact .plain (by decide) (by decide)
  have along := Along.flatMap (fun c => [c]) each
  rwa [flatMap_singleton'] at along

end Nmap.Utils
