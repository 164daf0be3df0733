import Nmap.Json.ReadBack

/-!
# Printing and reading back (`json.cc`)

A dumped value is read back as its meaning at every indentation and level, and with a
negative indentation it stands on one line (`dump_reads_back`).

What is lost is the difference between keys that are the same once their malformed bytes
are replaced: an object keeps both members, and the reader sees one key twice
(`dump_repeats_key`).
-/

namespace Nmap.Base.Json

mutual

/-- No object of the value has a key twice. -/
def KeysDistinct : Json → Prop
  | .array vs => KeysDistinctItems vs
  | .object ms => (ms.map Prod.fst).Nodup ∧ KeysDistinctMembers ms
  | _ => True

def KeysDistinctItems : List Json → Prop
  | [] => True
  | v :: vs => KeysDistinct v ∧ KeysDistinctItems vs

def KeysDistinctMembers : List (List Char × Json) → Prop
  | [] => True
  | (_, v) :: ms => KeysDistinct v ∧ KeysDistinctMembers ms

end

end Nmap.Base.Json

namespace Nmap.Json

open Nmap.Base

/-! ## Dumps on one line -/

variable {s : Bytes}

/-- `json_is_number` and its parts stop at a line feed. -/
private theorem lineFeed_mem_dropWhile (h : 0x0a ∈ s) :
    0x0a ∈ s.dropWhile isDigit := by
  induction s with
  | nil => cases h
  | cons c s ih =>
    rw [List.dropWhile_cons]
    split
    · next digit =>
        rcases List.mem_cons.mp h with rfl | h
        · cases digit
        · exact ih h
    · exact h

variable {r : Bytes}

private theorem lineFeed_numberInt (eq : numberInt s = some r) (h : 0x0a ∈ s) :
    0x0a ∈ r := by
  cases s with
  | nil => cases h
  | cons c s =>
    rw [numberInt] at eq
    split at eq
    · next zero =>
        rw [← Option.some.inj eq]
        rcases List.mem_cons.mp h with rfl | h
        · cases zero
        · exact h
    · split at eq
      · rw [← Option.some.inj eq]
        exact lineFeed_mem_dropWhile h
      · cases eq

private theorem lineFeed_numberDigits (eq : numberDigits s = some r) (h : 0x0a ∈ s) : 0x0a ∈ r := by
  cases s with
  | nil => cases h
  | cons c s =>
    rw [numberDigits] at eq
    split at eq
    · rw [← Option.some.inj eq]
      exact lineFeed_mem_dropWhile h
    · cases eq

private theorem lineFeed_numberFrac (eq : numberFrac s = some r) (h : 0x0a ∈ s) :
    0x0a ∈ r := by
  cases s with
  | nil => cases h
  | cons c s =>
    rw [numberFrac] at eq
    split at eq
    · next point =>
        rcases List.mem_cons.mp h with rfl | h
        · cases point
        · exact lineFeed_numberDigits eq h
    · rw [← Option.some.inj eq]
      exact h

private theorem lineFeed_numberExp (eq : numberExp s = some r) (h : 0x0a ∈ s) :
    0x0a ∈ r := by
  cases s with
  | nil => cases h
  | cons c s =>
    by_cases letter : c = 0x65 ∨ c = 0x45
    · have tail : 0x0a ∈ s := by
        rcases List.mem_cons.mp h with rfl | h
        · rcases letter with letter | letter <;> cases letter
        · exact h
      cases s with
      | nil => cases tail
      | cons d s =>
        simp only [numberExp, letter, if_true] at eq
        split at eq
        · next sign =>
            rcases List.mem_cons.mp tail with rfl | tail
            · rcases sign with sign | sign <;> cases sign
            · exact lineFeed_numberDigits eq tail
        · exact lineFeed_numberDigits eq tail
    · simp only [numberExp, letter, if_false] at eq
      rw [← Option.some.inj eq]
      exact h

theorem number_singleLine (number : jsonIsNumber s = true) : 0x0a ∉ s := by
  intro h
  have unsigned : 0x0a ∈ (if s.head? = some 0x2d then s.drop 1 else s) := by
    split
    · next sign =>
        cases s with
        | nil => cases h
        | cons c s =>
          rcases List.mem_cons.mp h with rfl | h
          · cases sign
          · exact h
    · exact h
  unfold jsonIsNumber at number
  dsimp only at number
  split at number
  · next rest parts =>
      obtain ⟨r, int, later⟩ := Option.bind_eq_some_iff.mp parts
      obtain ⟨r', frac, exp⟩ := Option.bind_eq_some_iff.mp later
      have afterInt := lineFeed_numberInt int unsigned
      have left := lineFeed_numberExp exp (lineFeed_numberFrac frac afterInt)
      rw [List.isEmpty_iff.mp number] at left
      cases left
  · cases number

private theorem lineFeed_utf8Continue {cp cp' : Nat} (eq : utf8Continue s cp = some cp') :
    0x0a ∉ s := by
  induction s generalizing cp with
  | nil => exact List.not_mem_nil
  | cons c s ih =>
    rw [utf8Continue] at eq
    split at eq
    · cases eq
    · next continues =>
        intro h
        rcases List.mem_cons.mp h with rfl | h
        · exact continues (by decide)
        · exact ih eq h

private theorem lineFeed_quoteControl (c : UInt8) (low : c < 0x20) : 0x0a ∉ quoteControl c := by
  have all : ∀ n < 32, 0x0a ∉ quoteControl (UInt8.ofNat n) := by decide
  have := all c.toNat (UInt8.lt_iff_toNat_lt.mp low)
  rwa [UInt8.ofNat_toNat] at this

/-- Every line feed is escaped. -/
private theorem lineFeed_quoteFrom (copy : Nat) (s : Bytes) (copied : 0x0a ∉ s.take copy) :
    0x0a ∉ quoteFrom copy s := by
  induction s generalizing copy with
  | nil => exact List.not_mem_nil
  | cons c s ih =>
    have rest := ih 0 (by simp)
    have before : ∀ t : Bytes, 0x0a ∉ t → 0x0a ∉ t ++ quoteFrom 0 s := by
      intro t none h
      exact (List.mem_append.mp h).elim none rest
    cases copy with
    | succ copy =>
      rw [List.take_succ_cons, List.mem_cons, not_or] at copied
      rw [quoteFrom, List.mem_cons, not_or]
      exact ⟨copied.1, ih copy copied.2⟩
    | zero =>
      rw [quoteFrom]
      split
      · exact before _ (by decide)
      split
      · exact before _ (by decide)
      split
      · next low => exact before _ (lineFeed_quoteControl c low)
      next high =>
      have notLineFeed : (0x0a : UInt8) ≠ c := by
        rintro rfl
        exact high (by decide)
      split
      · rw [List.mem_cons, not_or]
        exact ⟨notLineFeed, rest⟩
      · dsimp only
        split
        · next sequence =>
            rw [List.mem_cons, not_or]
            refine ⟨notLineFeed, ih _ ?_⟩
            have valid := sequence.2
            unfold utf8SeqValid at valid
            split at valid
            · cases valid
            · dsimp only at valid
              split at valid
              · cases valid
              · next continues =>
                  have tail := lineFeed_utf8Continue continues
                  obtain ⟨len, len_eq⟩ : ∃ n, utf8SeqLen c = n + 1 :=
                    ⟨utf8SeqLen c - 1, by have := sequence.1; omega⟩
                  rw [len_eq, List.take_succ_cons, List.drop_succ_cons, List.drop_zero] at tail
                  rw [len_eq]
                  exact tail
        · exact before _ (by decide)

theorem jsonQuote_singleLine (s : Bytes) : 0x0a ∉ jsonQuote s := by
  have body := lineFeed_quoteFrom 0 s (by simp)
  unfold jsonQuote
  simp only [List.mem_cons, List.mem_append, List.not_mem_nil, or_false, not_or]
  exact ⟨by decide, body, by decide⟩

theorem comma_singleLine (first : Bool) : 0x0a ∉ comma first := by
  cases first <;> decide

mutual

/-- A dump with a negative indentation has no line feed. -/
theorem dump_singleLine {indent : Int} (compact : indent < 0) (level : Nat) :
    ∀ v, NumbersOk v → 0x0a ∉ dump indent level v
  | .null, _ => by
    rw [dump]
    decide
  | .bool b, _ => by
    rw [dump]
    cases b <;> decide
  | .number s, ok => by
    rw [dump]
    exact number_singleLine ok
  | .string s, _ => by
    rw [dump]
    exact jsonQuote_singleLine s
  | .array [], _ => by
    rw [dump]
    decide
  | .array (v :: vs), ok => by
    have noBreak : newline indent level = [] := by
      rw [newline, if_neg (by omega)]
    have items := dumpItems_singleLine compact level true (v :: vs) ok
    rw [dump, noBreak]
    simp only [List.mem_append, List.not_mem_nil, or_false, not_or]
    exact ⟨⟨by decide, items⟩, by decide⟩
  | .object [], _ => by
    rw [dump]
    decide
  | .object (m :: ms), ok => by
    have noBreak : newline indent level = [] := by
      rw [newline, if_neg (by omega)]
    have members := dumpMembers_singleLine compact level true (m :: ms) ok
    rw [dump, noBreak]
    simp only [List.mem_append, List.not_mem_nil, or_false, not_or]
    exact ⟨⟨by decide, members⟩, by decide⟩

theorem dumpItems_singleLine {indent : Int} (compact : indent < 0) (level : Nat) (first : Bool) :
    ∀ vs, NumbersOkItems vs → 0x0a ∉ dumpItems indent level first vs
  | [], _ => List.not_mem_nil
  | v :: vs, ok => by
    have noBreak : newline indent (level + 1) = [] := by
      rw [newline, if_neg (by omega)]
    have item := dump_singleLine compact (level + 1) v ok.1
    have items := dumpItems_singleLine compact level false vs ok.2
    rw [dumpItems, noBreak]
    simp only [List.mem_append, List.not_mem_nil, or_false, not_or]
    exact ⟨⟨comma_singleLine first, item⟩, items⟩

theorem dumpMembers_singleLine {indent : Int} (compact : indent < 0) (level : Nat)
    (first : Bool) : ∀ ms, NumbersOkMembers ms → 0x0a ∉ dumpMembers indent level first ms
  | [], _ => List.not_mem_nil
  | (k, v) :: ms, ok => by
    have noBreak : newline indent (level + 1) = [] := by
      rw [newline, if_neg (by omega)]
    have value := dump_singleLine compact (level + 1) v ok.1
    have members := dumpMembers_singleLine compact level false ms ok.2
    rw [dumpMembers, noBreak, if_neg (by omega)]
    simp only [List.mem_append, List.not_mem_nil, or_false, not_or]
    exact ⟨⟨⟨⟨comma_singleLine first, jsonQuote_singleLine k⟩, by decide⟩, value⟩, members⟩

end

/-! ## Reading back -/

mutual

/-- The keys of each object are different to a reader, that is once decoded. -/
def KeysApart : JsonValue → Prop
  | .array vs => KeysApartItems vs
  | .object ms => (ms.map fun m => Utf8.decodeLossy m.1).Nodup ∧ KeysApartMembers ms
  | _ => True

def KeysApartItems : List JsonValue → Prop
  | [] => True
  | v :: vs => KeysApart v ∧ KeysApartItems vs

def KeysApartMembers : Members → Prop
  | [] => True
  | (_, v) :: ms => KeysApart v ∧ KeysApartMembers ms

end

theorem keys_meaningMembers (ms : Members) :
    (meaningMembers ms).map Prod.fst = ms.map fun m => Utf8.decodeLossy m.1 := by
  induction ms with
  | nil => rfl
  | cons m ms ih => rw [meaningMembers, List.map_cons, List.map_cons, ih]

mutual

theorem keysDistinct_meaning : ∀ v, (meaning v).KeysDistinct ↔ KeysApart v
  | .null | .bool _ | .number _ | .string _ => Iff.rfl
  | .array vs => keysDistinct_meaningItems vs
  | .object ms => by
    rw [meaning, Json.KeysDistinct, KeysApart, keys_meaningMembers, keysDistinct_meaningMembers]

theorem keysDistinct_meaningItems : ∀ vs, Json.KeysDistinctItems (meaningItems vs) ↔
    KeysApartItems vs
  | [] => Iff.rfl
  | v :: vs => by
    rw [meaningItems, Json.KeysDistinctItems, KeysApartItems, keysDistinct_meaning,
      keysDistinct_meaningItems]

theorem keysDistinct_meaningMembers : ∀ ms, Json.KeysDistinctMembers (meaningMembers ms) ↔
    KeysApartMembers ms
  | [] => Iff.rfl
  | (_, v) :: ms => by
    rw [meaningMembers, Json.KeysDistinctMembers, KeysApartMembers, keysDistinct_meaning,
      keysDistinct_meaningMembers]

end

theorem read_dump {v : JsonValue} (numbers : NumbersOk v) (indent : Int) (level : Nat) :
    Json.read (dump indent level v) = some (meaning v) := by
  have whole : Json.read (dump indent level v ++ []) = some (meaning v) :=
    (dump_reads indent level v numbers).read rfl
  rwa [List.append_nil] at whole

/-- **Printing, then reading.** A JSON reader takes the dump of a value at any indentation and
level as that value, with its strings and keys decoded. The keys it sees are distinct if and
only if the decoded keys are, and a negative indentation keeps the dump on one line. -/
theorem dump_reads_back (v : JsonValue) (numbers : NumbersOk v) (indent : Int) (level : Nat) :
    Json.read (dump indent level v) = some (meaning v) ∧
      ((meaning v).KeysDistinct ↔ KeysApart v) ∧
      (indent < 0 → 0x0a ∉ dump indent level v) := by
  refine ⟨read_dump numbers indent level, keysDistinct_meaning v, ?_⟩
  exact fun compact => dump_singleLine compact level v numbers

/-- A number and a string that is no UTF-8, on one line -/
theorem dump_reads_back_array :
    NumbersOk (.array [.number [0x37], .string [0xff]]) ∧
      Json.read (dump (-1) 0 (.array [.number [0x37], .string [0xff]])) =
        some (meaning (.array [.number [0x37], .string [0xff]])) := by
  have numbers : NumbersOk (.array [.number [0x37], .string [0xff]]) :=
    ⟨(by decide : jsonIsNumber [0x37] = true), trivial, trivial⟩
  exact ⟨numbers, (dump_reads_back _ numbers (-1) 0).1⟩

/-- Two keys that are malformed in different ways -/
def twoKeys : JsonValue := .object [([0x80], .null), ([0x81], .bool true)]

/-- The reader sees the key U+FFFD twice. -/
theorem dump_repeats_key :
    Json.read (dump 2 0 twoKeys) =
        some (.object [([Utf8.replacement], .null), ([Utf8.replacement], .bool true)]) ∧
      ¬ Json.KeysDistinct
        (.object [([Utf8.replacement], .null), ([Utf8.replacement], .bool true)]) := by
  have decoded : ∀ b : UInt8, Utf8.decode? [b] = none →
      Utf8.decodeLossy [b] = [Utf8.replacement] := by
    intro b none
    rw [Utf8.decodeLossy_none none, Utf8.decodeLossy_nil]
  have meant : meaning twoKeys =
      .object [([Utf8.replacement], .null), ([Utf8.replacement], .bool true)] := by
    rw [twoKeys, meaning, meaningMembers, meaningMembers, meaningMembers,
      decoded 0x80 (by decide), decoded 0x81 (by decide)]
    rfl
  refine ⟨?_, ?_⟩
  · have numbers : NumbersOk twoKeys := ⟨trivial, trivial, trivial⟩
    rw [← meant]
    exact read_dump numbers 2 0
  · rintro ⟨nodup, -⟩
    simp at nodup

end Nmap.Json
