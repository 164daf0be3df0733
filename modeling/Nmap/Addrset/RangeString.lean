import Nmap.Addrset.NetBlock

/-!
# Blocks of IPv4 ranges as text (`NetBlock.cc`)

`str` writes each octet of a block as numbers, and ranges of at least three of them, separated by
commas. The range parser reads the same octets back (`parseIpv4Ranges_str`).
-/

namespace Nmap.Addrset

open Nmap.Base.Odometer List

set_option maxRecDepth 4000

/-! ## The text -/

def decimal (n : Nat) : List Char := Nat.toDigits 10 n

/-- The loop of `bitvector_to_range_string`, from `i` on and with the text so far. In every round
but the last it writes a number, so that 257 rounds are enough. -/
def rangeStringLoop (v : OctetBitvector) : Nat → Nat → List Char → List Char
  | 0, _, result => result
  | rounds + 1, i, result =>
    let i := seek (bitIsSet v) (256 - i) i
    if i ≥ 256 then result
    else
      let j := seek (fun k => !bitIsSet v k) (256 - (i + 1)) (i + 1)
      let result := if result ≠ [] then result ++ [','] else result
      rangeStringLoop v rounds j
        (if i = j - 1 then result ++ decimal i
        else if i + 1 = j - 1 then result ++ decimal i ++ ',' :: decimal (j - 1)
        else result ++ decimal i ++ '-' :: decimal (j - 1))

def bitvectorToRangeString (v : OctetBitvector) : List Char := rangeStringLoop v 257 0 []

def NetBlockIPv4Ranges.str (nb : NetBlockIPv4Ranges) : List Char :=
  bitvectorToRangeString nb.octets.bits0 ++ '.' ::
    (bitvectorToRangeString nb.octets.bits1 ++ '.' ::
      (bitvectorToRangeString nb.octets.bits2 ++ '.' ::
        bitvectorToRangeString nb.octets.bits3))

/-! ## Its items -/

/-- An item of the text: a number or a range -/
def itemText (item : Nat × Nat) : List Char :=
  if item.1 = item.2 then decimal item.1 else decimal item.1 ++ '-' :: decimal item.2

/-- The items of a round that writes `i` up to `last` -/
def roundItems (i last : Nat) : List (Nat × Nat) :=
  if i + 1 = last then [(i, i), (last, last)] else [(i, last)]

def rangeItems (v : OctetBitvector) : Nat → Nat → List (Nat × Nat)
  | 0, _ => []
  | rounds + 1, i =>
    let i := seek (bitIsSet v) (256 - i) i
    if i ≥ 256 then []
    else
      let j := seek (fun k => !bitIsSet v k) (256 - (i + 1)) (i + 1)
      roundItems i (j - 1) ++ rangeItems v rounds j

def moreText (items : List (Nat × Nat)) : List Char :=
  items.flatMap fun item => ',' :: itemText item

def itemsText : List (Nat × Nat) → List Char
  | [] => []
  | item :: items => itemText item ++ moreText items

theorem decimal_ne_nil (n : Nat) : decimal n ≠ [] := Nat.toDigits_ne_nil

theorem isDigit_decimal {n : Nat} {c : Char} (mem : c ∈ decimal n) : c.isDigit = true :=
  Nat.isDigit_of_mem_toDigits (by decide) (by decide) mem

theorem itemText_ne_nil (item : Nat × Nat) : itemText item ≠ [] := by
  unfold itemText
  split
  · exact decimal_ne_nil _
  · simp [decimal_ne_nil]

theorem roundItems_ne_nil (i last : Nat) : roundItems i last ≠ [] := by
  unfold roundItems
  split
  · exact cons_ne_nil _ _
  · exact cons_ne_nil _ _

@[simp] theorem moreText_append (items items' : List (Nat × Nat)) :
    moreText (items ++ items') = moreText items ++ moreText items' := flatMap_append

variable {items : List (Nat × Nat)}

theorem moreText_eq (some_ : items ≠ []) :
    moreText items = ',' :: itemsText items := by
  obtain ⟨item, items, rfl⟩ := exists_cons_of_ne_nil some_
  rw [moreText, flatMap_cons]
  rfl

theorem itemsText_append (some_ : items ≠ []) (items' : List (Nat × Nat)) :
    itemsText (items ++ items') = itemsText items ++ moreText items' := by
  obtain ⟨item, items, rfl⟩ := exists_cons_of_ne_nil some_
  simp [itemsText]

theorem itemsText_ne_nil (some_ : items ≠ []) :
    itemsText items ≠ [] := by
  obtain ⟨item, items, rfl⟩ := exists_cons_of_ne_nil some_
  simp [itemsText, itemText_ne_nil]

theorem round_eq (result : List Char) (i last : Nat) :
    (if i = last then result ++ decimal i
      else if i + 1 = last then result ++ decimal i ++ ',' :: decimal last
      else result ++ decimal i ++ '-' :: decimal last) =
      result ++ itemsText (roundItems i last) := by
  by_cases single : i = last
  · rw [if_pos single, roundItems, if_neg (by omega)]
    simp [itemsText, itemText, moreText, single]
  · rw [if_neg single, roundItems]
    split
    · simp [itemsText, itemText, moreText]
    · simp [itemsText, itemText, moreText, single]

attribute [local simp] rangeItems rangeStringLoop in
theorem rangeStringLoop_more (v : OctetBitvector) (rounds i : Nat) {result : List Char}
    (text : result ≠ []) :
    rangeStringLoop v rounds i result = result ++ moreText (rangeItems v rounds i) := by
  induction rounds generalizing i result with
  | zero => simp [rangeStringLoop, moreText]
  | succ rounds ih =>
    rw [rangeStringLoop, rangeItems]
    by_cases past : seek (bitIsSet v) (256 - i) i ≥ 256
    · simp [past, moreText]
    · simp only [if_neg past, if_pos text, round_eq]
      rw [ih _ (by simp [text]), moreText_append, moreText_eq (roundItems_ne_nil _ _)]
      simp

theorem bitvectorToRangeString_eq (v : OctetBitvector) :
    bitvectorToRangeString v = itemsText (rangeItems v 257 0) := by
  rw [bitvectorToRangeString, rangeStringLoop, rangeItems]
  by_cases past : seek (bitIsSet v) (256 - 0) 0 ≥ 256
  · simp [past, itemsText]
  · simp only [if_neg past, ne_eq, not_true, if_false, round_eq]
    rw [nil_append, rangeStringLoop_more _ _ _ (itemsText_ne_nil (roundItems_ne_nil _ _)),
      itemsText_append (roundItems_ne_nil _ _)]

def InItem (k : Nat) (item : Nat × Nat) : Prop := item.1 ≤ k ∧ k ≤ item.2

theorem inItem_roundItems (i last k : Nat) :
    (∃ item ∈ roundItems i last, InItem k item) ↔ i ≤ k ∧ k ≤ last := by
  unfold roundItems InItem
  split
  · simp
    omega
  · simp

theorem le_of_mem_roundItems {i last : Nat} (le : i ≤ last) {item : Nat × Nat}
    (mem : item ∈ roundItems i last) : item.1 ≤ item.2 ∧ item.2 ≤ last := by
  unfold roundItems at mem
  split at mem
  · rcases mem_cons.mp mem with rfl | mem
    · exact ⟨Nat.le_refl _, le⟩
    · rw [mem_singleton.mp mem]
      exact ⟨Nat.le_refl _, Nat.le_refl _⟩
  · rw [mem_singleton.mp mem]
    exact ⟨le, Nat.le_refl _⟩

/-- The items from a number on are ranges, and contain the bits that are set from there on. -/
theorem rangeItems_spec (v : OctetBitvector) {rounds i : Nat} (enough : 256 < i + rounds) :
    (∀ item ∈ rangeItems v rounds i, item.1 ≤ item.2 ∧ item.2 < 256) ∧
      ∀ k < 256, (∃ item ∈ rangeItems v rounds i, InItem k item) ↔
        i ≤ k ∧ bitIsSet v k = true := by
  induction rounds generalizing i with
  | zero =>
    refine ⟨by simp [rangeItems], fun k small => ?_⟩
    simp [rangeItems]
    omega
  | succ rounds ih =>
    rw [rangeItems]
    rcases first_or_none 256 (bitIsSet v) i with ⟨d, first⟩ | none
    · have inside := first.inside
      have found : seek (bitIsSet v) (256 - i) i = d := first.seek_eq (by
        have le := first.from_le
        omega)
      simp only [found, if_neg (Nat.not_le.mpr inside)]
      -- the run of bits that begins at `d` ends before `j`
      obtain ⟨j, ended, behind, upTo, run, stop⟩ : ∃ j,
          seek (fun k => !bitIsSet v k) (256 - (d + 1)) (d + 1) = j ∧ d < j ∧ j ≤ 256 ∧
            (∀ k, d < k → k < j → bitIsSet v k = true) ∧
            (j < 256 → bitIsSet v j = false) := by
        rcases first_or_none 256 (fun k => !bitIsSet v k) (d + 1) with ⟨j, next⟩ | none
        · have le := next.from_le
          have inside' := next.inside
          refine ⟨j, next.seek_eq (by omega), by omega, by omega, fun k above below => ?_, ?_⟩
          · simpa using next.skipped k above below
          · intro _
            simpa using next.counts
        · refine ⟨256, ?_, by omega, Nat.le_refl _, fun k above below => ?_, by omega⟩
          · rw [none.seek_eq (by omega)]
            omega
          · simpa using none k above below
      obtain ⟨ranges, covered⟩ := ih (i := j) (by
        have le := first.from_le
        omega)
      rw [ended]
      have le : d ≤ j - 1 := by omega
      refine ⟨?_, ?_⟩
      · intro item mem
        rcases mem_append.mp mem with mem | mem
        · have bounds := le_of_mem_roundItems le mem
          exact ⟨bounds.1, by omega⟩
        · exact ranges item mem
      · intro k small
        have either : (∃ item ∈ roundItems d (j - 1) ++ rangeItems v rounds j, InItem k item) ↔
            (d ≤ k ∧ k ≤ j - 1) ∨ (j ≤ k ∧ bitIsSet v k = true) := by
          rw [← inItem_roundItems, ← covered k small]
          simp [mem_append, or_and_right, exists_or]
        rw [either]
        constructor
        · rintro (⟨above, below⟩ | ⟨above, set⟩)
          · refine ⟨Nat.le_trans first.from_le above, ?_⟩
            rcases Nat.eq_or_lt_of_le above with rfl | above
            · exact first.counts
            · exact run k above (by omega)
          · exact ⟨by have := first.from_le; omega, set⟩
        · rintro ⟨above, set⟩
          have notBefore : ¬ k < d := fun before => by
            rw [first.skipped k above before] at set
            cases set
          rcases Nat.lt_or_ge k j with below | le
          · exact .inl ⟨by omega, by omega⟩
          · exact .inr ⟨le, set⟩
    · have past : seek (bitIsSet v) (256 - i) i ≥ 256 := by
        rcases Nat.le_total i 256 with le | ge
        · rw [none.seek_eq (by omega)]
          omega
        · rw [show 256 - i = 0 by omega, seek]
          exact ge
      simp only [if_pos past]
      refine ⟨by simp, fun k small => ?_⟩
      constructor
      · simp
      · rintro ⟨above, set⟩
        rw [none k above small] at set
        cases set

/-! ## Reading it back -/

theorem bitIsSet_fillRange (bits : OctetBitvector) {first last k : Nat} (small : k < 256) :
    bitIsSet (fillRange bits first last) k =
      (bitIsSet bits k || decide (first ≤ k ∧ k ≤ last)) := by
  have loop : ∀ rounds, bitIsSet ((List.range rounds).foldl
      (fun bits i => bitSet bits (first + i)) bits) k =
        (bitIsSet bits k || decide (first ≤ k ∧ k < first + rounds)) := by
    intro rounds
    induction rounds with
    | zero => simp
    | succ rounds ih =>
      rw [range_succ, foldl_concat, bitIsSet_bitSet _ _ small, ih, Bool.or_assoc,
        ← Bool.decide_or]
      congr 2
      exact propext (by omega)
  rw [fillRange, loop]
  congr 2
  exact propext (by omega)

def fillItems (bits : OctetBitvector) (items : List (Nat × Nat)) : OctetBitvector :=
  items.foldl (fun bits item => fillRange bits item.1 item.2) bits

theorem bitIsSet_fillItems (items : List (Nat × Nat)) (bits : OctetBitvector) {k : Nat}
    (small : k < 256) :
    bitIsSet (fillItems bits items) k = true ↔
      bitIsSet bits k = true ∨ ∃ item ∈ items, InItem k item := by
  induction items generalizing bits with
  | nil => simp [fillItems]
  | cons item items ih =>
    show bitIsSet (fillItems (fillRange bits item.1 item.2) items) k = true ↔ _
    rw [ih, bitIsSet_fillRange bits small]
    simp [or_assoc, InItem]

theorem fillItems_rangeItems (v : OctetBitvector) : fillItems 0 (rangeItems v 257 0) = v := by
  apply BitVec.eq_of_getLsbD_eq
  intro k small
  apply Bool.eq_iff_iff.mpr
  show bitIsSet _ k = true ↔ bitIsSet v k = true
  rw [bitIsSet_fillItems _ _ small, (rangeItems_spec v (by omega)).2 k small]
  simp [bitIsSet]

def NoDigit (rest : List Char) : Prop := ∀ c ∈ rest.head?, c.isDigit = false

variable {rest : List Char}

/-- `parse_long` reads the digits of a number that fits. -/
theorem parseLong_decimal {n : Nat} (fits : n < 256) (stops : NoDigit rest) :
    parseLong (decimal n ++ rest) = (some n, rest) := by
  have digits : ∀ c ∈ decimal n, c.isDigit = true := fun c mem => isDigit_decimal mem
  have taken : rest.takeWhile Char.isDigit = [] := by
    cases rest with
    | nil => rfl
    | cons c rest => rw [takeWhile_cons, stops c rfl]; rfl
  have dropped : rest.dropWhile Char.isDigit = rest := by
    cases rest with
    | nil => rfl
    | cons c rest => rw [dropWhile_cons, stops c rfl]; rfl
  have value : (decimal n).foldl (fun v c => 10 * v + (c.toNat - 48)) 0 = n :=
    Nat.ofDigitChars_ten_toDigits
  have short : n ≤ longMax := Nat.le_trans (Nat.le_of_lt fits) (by decide)
  rw [parseLong, takeWhile_append_of_pos digits, dropWhile_append_of_pos digits, taken,
    dropped, append_nil, value, if_pos short]

def Ends (rest : List Char) : Prop := ∀ c ∈ rest.head?, c.isDigit = false ∧ c ≠ '-'

theorem parseRange_itemText {item : Nat × Nat} (range : item.1 ≤ item.2 ∧ item.2 < 256)
    (ends : Ends rest) :
    parseRange (itemText item ++ rest) = some (item.1, item.2, rest) := by
  obtain ⟨first, last⟩ := item
  obtain ⟨le, fits⟩ : first ≤ last ∧ last < 256 := range
  have moved : ∀ (n : Nat) (tail : List Char), ¬ tail = decimal n ++ tail := fun n tail same =>
    decimal_ne_nil n (append_left_eq_self.mp same.symm)
  have noDigit : NoDigit rest := fun c mem => (ends c mem).1
  rw [itemText]
  by_cases single : first = last
  · rw [if_pos single, parseRange, parseLong_decimal (by omega) noDigit]
    simp only [moved, false_and, if_false, if_neg (show ¬ first > 255 by omega)]
    split
    · exact absurd rfl (ends '-' rfl).2
    · rw [single]
  · have dash : NoDigit ('-' :: (decimal last ++ rest)) := by
      intro c mem
      cases mem
      rfl
    rw [if_neg single, append_assoc, cons_append, parseRange,
      parseLong_decimal (by omega) dash]
    simp only [moved, false_and, if_false, if_neg (show ¬ first > 255 by omega),
      parseLong_decimal fits noDigit]
    rw [if_neg (by omega)]

theorem ends_moreText (items : List (Nat × Nat)) (ends : Ends rest) :
    Ends (moreText items ++ rest) := by
  cases items with
  | nil => exact ends
  | cons item items =>
    intro c mem
    cases mem
    exact ⟨rfl, by decide⟩

/-- The parser reads the items one by one. -/
theorem parseItems_itemsText (some_ : items ≠ [])
    (ranges : ∀ item ∈ items, item.1 ≤ item.2 ∧ item.2 < 256) (ends : Ends rest)
    (noComma : rest.head? ≠ some ',') {rounds : Nat} (enough : items.length ≤ rounds)
    (bits : OctetBitvector) :
    parseItems rounds bits (itemsText items ++ rest) = some (fillItems bits items, rest) := by
  induction items generalizing rounds bits with
  | nil => exact absurd rfl some_
  | cons item items ih =>
    obtain ⟨rounds, rfl⟩ : ∃ less, rounds = less + 1 :=
      ⟨rounds - 1, by simp at enough; omega⟩
    have range := ranges item mem_cons_self
    rw [itemsText, append_assoc, parseItems,
      parseRange_itemText range (ends_moreText items ends)]
    dsimp only
    by_cases last : items = []
    · subst last
      split
      · rename_i p comma
        rw [moreText, flatMap_nil, nil_append] at comma
        rw [comma] at noComma
        exact absurd rfl noComma
      · rfl
    · rw [moreText_eq last, cons_append]
      exact ih last (fun item mem => ranges item (mem_cons_of_mem _ mem))
        (by simpa using enough) _

theorem length_le_itemsText (items : List (Nat × Nat)) :
    items.length ≤ (itemsText items).length := by
  have more : ∀ items, items.length ≤ (moreText items).length := by
    intro items
    induction items with
    | nil => exact Nat.le_refl _
    | cons item items ih =>
      rw [moreText, flatMap_cons]
      simp only [length_cons, length_append]
      show items.length + 1 ≤ (itemText item).length + 1 + (moreText items).length
      omega
  cases items with
  | nil => exact Nat.le_refl _
  | cons item items =>
    have text : 0 < (itemText item).length := length_pos_iff.mpr (itemText_ne_nil item)
    have rest := more items
    rw [itemsText, length_cons, length_append]
    omega

/-- An octet with some bit set is read back. -/
theorem parseOctet_bitvectorToRangeString {v : OctetBitvector} (some_ : v ≠ 0)
    (rest : List Char) (ends : Ends rest) (noComma : rest.head? ≠ some ',') :
    parseOctet (bitvectorToRangeString v ++ rest) = some (v, rest) := by
  have items : rangeItems v 257 0 ≠ [] := by
    intro none
    have zero := fillItems_rangeItems v
    rw [none] at zero
    exact some_ zero.symm
  have ranges : ∀ item ∈ rangeItems v 257 0, item.1 ≤ item.2 ∧ item.2 < 256 :=
    (rangeItems_spec v (by omega)).1
  have bound := length_le_itemsText (rangeItems v 257 0)
  have read : ∀ rounds, (rangeItems v 257 0).length ≤ rounds →
      parseItems rounds 0 (bitvectorToRangeString v ++ rest) = some (v, rest) := by
    intro rounds enough
    rw [bitvectorToRangeString_eq, parseItems_itemsText items ranges ends noComma enough,
      fillItems_rangeItems]
  unfold parseOctet
  split
  · rename_i p star
    -- the text begins with a digit
    obtain ⟨item, more, list⟩ := exists_cons_of_ne_nil items
    obtain ⟨c, text, digits⟩ := exists_cons_of_ne_nil (decimal_ne_nil item.1)
    have first : (bitvectorToRangeString v ++ rest).head? = some c := by
      rw [bitvectorToRangeString_eq, list, itemsText, itemText]
      split
      · simp [digits]
      · simp [digits]
    rw [star, List.head?_cons, Option.some.injEq] at first
    have digit : c.isDigit = true := isDigit_decimal (n := item.1) (by simp [digits])
    rw [← first] at digit
    cases digit
  · apply read
    rw [length_append, bitvectorToRangeString_eq]
    omega

theorem bitvectorToRangeString_ne_nil {v : OctetBitvector} (some_ : v ≠ 0) :
    bitvectorToRangeString v ≠ [] := by
  intro none
  have read := parseOctet_bitvectorToRangeString some_ [] (by simp [Ends]) (by simp)
  rw [none] at read
  cases read

/-- The text of a block is read back as its octets. -/
theorem parseIpv4Ranges_str (nb : NetBlockIPv4Ranges)
    (nonempty : nb.octets.bits0 ≠ 0 ∧ nb.octets.bits1 ≠ 0 ∧ nb.octets.bits2 ≠ 0 ∧
      nb.octets.bits3 ≠ 0) :
    NetBlock.parseIpv4Ranges nb.str = some nb.octets := by
  obtain ⟨some0, some1, some2, some3⟩ := nonempty
  have dot : ∀ (v : OctetBitvector) (n : Nat) (rest : List Char), v ≠ 0 →
      parseOctets (n + 2) (bitvectorToRangeString v ++ '.' :: rest) =
        (parseOctets (n + 1) rest).map (v :: ·) := by
    intro v n rest some_
    have ends : Ends ('.' :: rest) := by
      intro c mem
      cases mem
      exact ⟨rfl, by decide⟩
    rw [parseOctets, if_neg (by simp), parseOctet_bitvectorToRangeString some_ _ ends (by simp)]
    rfl
  have last : parseOctets 1 (bitvectorToRangeString nb.octets.bits3) =
      some [nb.octets.bits3] := by
    have read := parseOctet_bitvectorToRangeString some3 [] (by simp [Ends]) (by simp)
    rw [append_nil] at read
    rw [parseOctets, if_neg (bitvectorToRangeString_ne_nil some3), read]
    simp [parseOctets]
  show Addrset.parseIpv4Ranges nb.str = _
  rw [Addrset.parseIpv4Ranges, NetBlockIPv4Ranges.str, dot _ 2 _ some0, dot _ 1 _ some1,
    dot _ 0 _ some2, last]
  rfl

/-- 10.0-255.1,3.250-255 -/
theorem parseIpv4Ranges_str_example :
    let nb : NetBlockIPv4Ranges := { NetBlockIPv4Ranges.new false with
      octets := ⟨bitSet 0 10, fillRange 0 0 255, bitSet (bitSet 0 1) 3, fillRange 0 250 255⟩ }
    NetBlock.parseIpv4Ranges nb.str = some nb.octets :=
  parseIpv4Ranges_str _ (by decide)

end Nmap.Addrset
