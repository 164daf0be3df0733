import Nmap.Json.Value

/-!
# Dumped values read back

`jsonQuote_reads`: a quoted string is read as the UTF-8 text of its bytes, with
U+FFFD where there is none. `number_reads`: what `json_is_number` accepts is read as
a number as a whole. `dump_reads` puts them together over the value.
-/

namespace Nmap.Json

open Nmap.Base List

set_option maxRecDepth 4000

/-! ## UTF-8 sequences -/

section Bits

variable (c : UInt8)

/-- What the masks of the first byte and of the others are for -/
private theorem leads : (c &&& 0x80 = 0x00 ↔ c.toNat < 128) ∧
    (c &&& 0xe0 = 0xc0 ↔ 192 ≤ c.toNat ∧ c.toNat < 224) ∧
    (c &&& 0xf0 = 0xe0 ↔ 224 ≤ c.toNat ∧ c.toNat < 240) ∧
    (c &&& 0xf8 = 0xf0 ↔ 240 ≤ c.toNat ∧ c.toNat < 248) ∧
    (c &&& 0xc0 = 0x80 ↔ 128 ≤ c.toNat ∧ c.toNat < 192) := by
  revert c
  exact forall_byte (by decide +kernel)

private theorem lead1 : c &&& 0x80 = 0x00 ↔ c.toNat < 128 := (leads c).1

private theorem lead2 : c &&& 0xe0 = 0xc0 ↔ 192 ≤ c.toNat ∧ c.toNat < 224 := (leads c).2.1

private theorem lead3 : c &&& 0xf0 = 0xe0 ↔ 224 ≤ c.toNat ∧ c.toNat < 240 := (leads c).2.2.1

private theorem lead4 : c &&& 0xf8 = 0xf0 ↔ 240 ≤ c.toNat ∧ c.toNat < 248 := (leads c).2.2.2.1

private theorem continuation : c &&& 0xc0 = 0x80 ↔ 128 ≤ c.toNat ∧ c.toNat < 192 :=
  (leads c).2.2.2.2

private theorem payload :
    (c &&& 0x1f).toNat = c.toNat % 32 ∧ (c &&& 0x0f).toNat = c.toNat % 16 ∧
      (c &&& 0x07).toNat = c.toNat % 8 ∧ (c &&& 0x3f).toNat = c.toNat % 64 := by
  simp only [UInt8.toNat_and]
  exact ⟨Nat.and_two_pow_sub_one_eq_mod _ 5, Nat.and_two_pow_sub_one_eq_mod _ 4,
    Nat.and_two_pow_sub_one_eq_mod _ 3, Nat.and_two_pow_sub_one_eq_mod _ 6⟩

end Bits

private theorem utf8Continue_cons (c : UInt8) (s : Bytes) (cp : Nat) :
    utf8Continue (c :: s) cp =
      if 128 ≤ c.toNat ∧ c.toNat < 192 then utf8Continue s (cp * 64 + c.toNat % 64) else none := by
  have shifted : cp <<< 6 ||| c.toNat % 64 = cp * 64 + c.toNat % 64 := by
    rw [← Nat.shiftLeft_add_eq_or_of_lt (by omega), Nat.shiftLeft_eq]
  rw [utf8Continue, (payload c).2.2.2, shifted]
  simp only [ne_eq, continuation, ite_not]

private def Cont (c : UInt8) : Prop := 128 ≤ c.toNat ∧ c.toNat < 192

variable {c : UInt8}

private theorem utf8Continue_cont (h : Cont c) (s : Bytes) (cp : Nat) :
    utf8Continue (c :: s) cp = utf8Continue s (cp * 64 + c.toNat % 64) := by
  rw [utf8Continue_cons]
  exact if_pos h

private theorem utf8Continue_stop (h : ¬ Cont c) (s : Bytes) (cp : Nat) :
    utf8Continue (c :: s) cp = none := by
  rw [utf8Continue_cons]
  exact if_neg h

private theorem utf8Continue_nil (cp : Nat) : utf8Continue [] cp = some cp := rfl

/-- `utf8_seq_valid` for two bytes -/
private theorem utf8SeqValid_two (a b : UInt8) (s : Bytes) :
    utf8SeqValid (a :: b :: s) 2 = true ↔
      Cont b ∧ 0x80 ≤ a.toNat % 32 * 64 + b.toNat % 64 := by
  simp only [utf8SeqValid, length_cons, headD_cons, take_succ_cons, take_zero,
    drop_succ_cons, drop_zero, (payload a).1]
  by_cases hb : Cont b
  · simp [hb, utf8Continue_cont, utf8Continue_nil]
  · simp [hb, utf8Continue_stop]

/-- `utf8_seq_valid` for three bytes -/
private theorem utf8SeqValid_three (a b c : UInt8) (s : Bytes) :
    utf8SeqValid (a :: b :: c :: s) 3 = true ↔ Cont b ∧ Cont c ∧
      0x800 ≤ (a.toNat % 16 * 64 + b.toNat % 64) * 64 + c.toNat % 64 ∧
      ¬ (0xd800 ≤ (a.toNat % 16 * 64 + b.toNat % 64) * 64 + c.toNat % 64 ∧
        (a.toNat % 16 * 64 + b.toNat % 64) * 64 + c.toNat % 64 ≤ 0xdfff) := by
  simp only [utf8SeqValid, length_cons, headD_cons, take_succ_cons, take_zero,
    drop_succ_cons, drop_zero, (payload a).2.1]
  by_cases hb : Cont b
  · by_cases hc : Cont c
    · simp [hb, hc, utf8Continue_cont, utf8Continue_nil]
      omega
    · simp [hb, hc, utf8Continue_cont, utf8Continue_stop]
  · simp [hb, utf8Continue_stop]

/-- `utf8_seq_valid` for four bytes -/
private theorem utf8SeqValid_four (a b c d : UInt8) (s : Bytes) :
    utf8SeqValid (a :: b :: c :: d :: s) 4 = true ↔ Cont b ∧ Cont c ∧ Cont d ∧
      0x10000 ≤ ((a.toNat % 8 * 64 + b.toNat % 64) * 64 + c.toNat % 64) * 64 + d.toNat % 64 ∧
      ((a.toNat % 8 * 64 + b.toNat % 64) * 64 + c.toNat % 64) * 64 + d.toNat % 64 ≤
        0x10ffff := by
  simp only [utf8SeqValid, length_cons, headD_cons, take_succ_cons, take_zero,
    drop_succ_cons, drop_zero, (payload a).2.2.1]
  by_cases hb : Cont b
  · by_cases hc : Cont c
    · by_cases hd : Cont d
      · simp [hb, hc, hd, utf8Continue_cont, utf8Continue_nil]
      · simp [hb, hc, hd, utf8Continue_cont, utf8Continue_stop]
    · simp [hb, hc, utf8Continue_cont, utf8Continue_stop]
  · simp [hb, utf8Continue_stop]

private theorem ofNat_eq {n : Nat} (h : n = c.toNat) : UInt8.ofNat n = c := by
  rw [h, UInt8.ofNat_toNat]

private theorem exists_char {n : Nat} (h : n < 0xd800 ∨ (0xdfff < n ∧ n < 0x110000)) :
    ∃ ch : Char, ch.val.toNat = n := by
  have valid : n.isValidChar := h
  exact ⟨Char.ofNatAux n valid, rfl⟩

private theorem utf8SeqLen_cases (c : UInt8) :
    (utf8SeqLen c = 1 ∧ c.toNat < 128) ∨ (utf8SeqLen c = 2 ∧ 192 ≤ c.toNat ∧ c.toNat < 224) ∨
      (utf8SeqLen c = 3 ∧ 224 ≤ c.toNat ∧ c.toNat < 240) ∨
      (utf8SeqLen c = 4 ∧ 240 ≤ c.toNat ∧ c.toNat < 248) ∨
      (utf8SeqLen c = 0 ∧ ((128 ≤ c.toNat ∧ c.toNat < 192) ∨ 248 ≤ c.toNat)) := by
  simp only [utf8SeqLen, lead1, lead2, lead3, lead4]
  split
  · omega
  · split
    · omega
    · split
      · omega
      · split <;> omega

variable {s : Bytes}

/-- The sequences `json_quote` copies are encodings of scalar values. -/
theorem exists_encode_of_valid (two : 2 ≤ utf8SeqLen c)
    (valid : utf8SeqValid (c :: s) (utf8SeqLen c) = true) :
    ∃ ch : Char, String.utf8EncodeChar ch = c :: s.take (utf8SeqLen c - 1) := by
  have long : utf8SeqLen c ≤ (c :: s).length := by
    by_contra h
    rw [utf8SeqValid, if_pos (by omega)] at valid
    cases valid
  rcases utf8SeqLen_cases c with h | ⟨h, hlo, hhi⟩ | ⟨h, hlo, hhi⟩ | ⟨h, hlo, hhi⟩ | h
  · omega
  · rw [h] at valid long ⊢
    match s, long with
    | b :: s, _ =>
      obtain ⟨⟨hb1, hb2⟩, hcp⟩ := (utf8SeqValid_two c b s).mp valid
      obtain ⟨ch, hch⟩ := exists_char (n := c.toNat % 32 * 64 + b.toNat % 64) (by omega)
      refine ⟨ch, ?_⟩
      simp only [String.utf8EncodeChar, hch]
      rw [if_neg (by omega), if_pos (by omega), ofNat_eq (c := c) (by omega),
        ofNat_eq (c := b) (by omega)]
      rfl
  · rw [h] at valid long ⊢
    match s, long with
    | b :: d :: s, _ =>
      obtain ⟨⟨hb1, hb2⟩, ⟨hd1, hd2⟩, hcp⟩ := (utf8SeqValid_three c b d s).mp valid
      obtain ⟨ch, hch⟩ := exists_char
        (n := (c.toNat % 16 * 64 + b.toNat % 64) * 64 + d.toNat % 64) (by omega)
      refine ⟨ch, ?_⟩
      simp only [String.utf8EncodeChar, hch]
      rw [if_neg (by omega), if_neg (by omega), if_pos (by omega), ofNat_eq (c := c) (by omega),
        ofNat_eq (c := b) (by omega), ofNat_eq (c := d) (by omega)]
      rfl
  · rw [h] at valid long ⊢
    match s, long with
    | b :: d :: e :: s, _ =>
      obtain ⟨⟨hb1, hb2⟩, ⟨hd1, hd2⟩, ⟨he1, he2⟩, hcp⟩ := (utf8SeqValid_four c b d e s).mp valid
      obtain ⟨ch, hch⟩ := exists_char
        (n := ((c.toNat % 8 * 64 + b.toNat % 64) * 64 + d.toNat % 64) * 64 + e.toNat % 64)
        (by omega)
      refine ⟨ch, ?_⟩
      simp only [String.utf8EncodeChar, hch]
      rw [if_neg (by omega), if_neg (by omega), if_neg (by omega), ofNat_eq (c := c) (by omega),
        ofNat_eq (c := b) (by omega), ofNat_eq (c := d) (by omega), ofNat_eq (c := e) (by omega)]
      rfl
  · omega

/-- Where `json_quote` replaces a byte, no encoding starts. -/
theorem valid_of_encode {rest : Bytes} {ch : Char} (high : 128 ≤ c.toNat)
    (h : c :: s = String.utf8EncodeChar ch ++ rest) :
    2 ≤ utf8SeqLen c ∧ utf8SeqValid (c :: s) (utf8SeqLen c) = true := by
  have range : ch.val.toNat < 0xd800 ∨ (0xdfff < ch.val.toNat ∧ ch.val.toNat < 0x110000) := ch.valid
  have small : ∀ n < 256, (UInt8.ofNat n).toNat = n := fun n hn =>
    UInt8.toNat_ofNat_of_lt hn
  simp only [String.utf8EncodeChar] at h
  generalize ch.val.toNat = v at h range
  have lens := utf8SeqLen_cases c
  split at h
  · obtain ⟨rfl, -⟩ := List.cons.inj h
    rw [small _ (by omega)] at high
    omega
  · split at h
    · obtain ⟨rfl, rfl⟩ := List.cons.inj h
      rw [small _ (by omega)] at lens
      have hlen : utf8SeqLen (UInt8.ofNat (v / 64 % 0x20 + 0xc0)) = 2 := by omega
      rw [hlen]
      refine ⟨by omega, ?_⟩
      show utf8SeqValid (_ :: _ :: rest) 2 = true
      rw [utf8SeqValid_two, Cont, small _ (by omega), small _ (by omega)]
      omega
    · split at h
      · obtain ⟨rfl, rfl⟩ := List.cons.inj h
        rw [small _ (by omega)] at lens
        have hlen : utf8SeqLen (UInt8.ofNat (v / 4096 % 0x10 + 0xe0)) = 3 := by omega
        rw [hlen]
        refine ⟨by omega, ?_⟩
        show utf8SeqValid (_ :: _ :: _ :: rest) 3 = true
        rw [utf8SeqValid_three, Cont, Cont, small _ (by omega),
          small _ (by omega), small _ (by omega)]
        omega
      · obtain ⟨rfl, rfl⟩ := List.cons.inj h
        rw [small _ (by omega)] at lens
        have hlen : utf8SeqLen (UInt8.ofNat (v / 262144 % 0x08 + 0xf0)) = 4 := by omega
        rw [hlen]
        refine ⟨by omega, ?_⟩
        show utf8SeqValid (_ :: _ :: _ :: _ :: rest) 4 = true
        rw [utf8SeqValid_four, Cont, Cont, Cont, small _ (by omega), small _ (by omega),
          small _ (by omega), small _ (by omega)]
        omega

/-! ## Strings -/

private theorem encode_ascii (h : c < 0x80) :
    String.utf8EncodeChar (Char.ofNat c.toNat) = [c] := by
  have bound : c.toNat < 128 := h
  have all : ∀ n < 128, String.utf8EncodeChar (Char.ofNat n) = [UInt8.ofNat n] := by decide
  rw [all c.toNat bound, UInt8.ofNat_toNat]

theorem decodeLossy_ascii (h : c < 0x80) (s : Bytes) :
    Utf8.decodeLossy (c :: s) = Char.ofNat c.toNat :: Utf8.decodeLossy s := by
  have := Utf8.decodeLossy_append (Char.ofNat c.toNat) s
  rwa [encode_ascii h] at this

private theorem readEscape_hex {a b : Nat} (ha : a < 16) (hb : b < 16) (rest : Bytes) :
    Json.readEscape (0x75 :: 0x30 :: 0x30 :: hexDigit a :: hexDigit b :: rest) =
      some (Char.ofNat (a * 16 + b), rest) := by
  have digit : ∀ n < 16, Json.hexValue (hexDigit n) = some n := by decide
  have zero : Json.hexValue 0x30 = some 0 := by decide
  simp [Json.readEscape, Json.readUnicode, Json.readHex4, digit a ha, digit b hb, zero]
  rw [if_neg (by omega), if_neg (by omega)]

private theorem quoteControl_reads (h : c < 0x20) :
    Json.ReadsChar (quoteControl c) (Char.ofNat c.toNat) := by
  have bound : c.toNat < 32 := h
  rw [quoteControl]
  split
  case isTrue h08 => exact h08 ▸ Json.readsChar_escape (t := [0x62]) fun _ => rfl
  split
  case isTrue h0c => exact h0c ▸ Json.readsChar_escape (t := [0x66]) fun _ => rfl
  split
  case isTrue h0a => exact h0a ▸ Json.readsChar_escape (t := [0x6e]) fun _ => rfl
  split
  case isTrue h0d => exact h0d ▸ Json.readsChar_escape (t := [0x72]) fun _ => rfl
  split
  case isTrue h09 => exact h09 ▸ Json.readsChar_escape (t := [0x74]) fun _ => rfl
  apply Json.readsChar_escape (t := [0x75, 0x30, 0x30, hexDigit (c.toNat / 16),
    hexDigit (c.toNat % 16)])
  intro rest
  have value := readEscape_hex (a := c.toNat / 16) (b := c.toNat % 16) (by omega) (by omega) rest
  rw [show c.toNat / 16 * 16 + c.toNat % 16 = c.toNat by omega] at value
  exact value

private theorem quoteFrom_copy (n : Nat) (s : Bytes) :
    quoteFrom n s = s.take n ++ quoteFrom 0 (s.drop n) := by
  induction n generalizing s with
  | zero => rfl
  | succ n ih =>
    cases s with
    | nil => rfl
    | cons c s => rw [quoteFrom, ih, take_succ_cons, drop_succ_cons, cons_append]

/-- The output of the loop, cut where the characters of the text are. -/
theorem quoteFrom_pieces (s : Bytes) : ∃ texts, quoteFrom 0 s = texts.flatten ∧
    Forall₂ Json.ReadsChar texts (Utf8.decodeLossy s) := by
  -- by the length of the rest: a copied sequence is skipped as a whole
  induction h : s.length using Nat.strongRecOn generalizing s with
  | _ n ih =>
    cases s with
    | nil => exact ⟨[], rfl, by rw [Utf8.decodeLossy_nil]; exact .nil⟩
    | cons c s =>
      have length : s.length < n := by rw [← h, length_cons]; omega
      obtain ⟨texts, htexts, hreads⟩ := ih s.length length s rfl
      have piece : ∀ {t : Bytes} {ch : Char}, Json.ReadsChar t ch →
          quoteFrom 0 (c :: s) = t ++ quoteFrom 0 s →
          Utf8.decodeLossy (c :: s) = ch :: Utf8.decodeLossy s →
          ∃ texts, quoteFrom 0 (c :: s) = texts.flatten ∧
            Forall₂ Json.ReadsChar texts (Utf8.decodeLossy (c :: s)) := by
        intro t ch ht hquote hdecode
        refine ⟨t :: texts, ?_, ?_⟩
        · rw [hquote, htexts, flatten_cons]
        · rw [hdecode]
          exact .cons ht hreads
      by_cases h22 : c = 0x22
      · subst h22
        exact piece (Json.readsChar_escape (t := [0x22]) (c := '"') fun _ => rfl) rfl
          (decodeLossy_ascii (by decide) s)
      by_cases h5c : c = 0x5c
      · subst h5c
        exact piece (Json.readsChar_escape (t := [0x5c]) (c := '\\') fun _ => rfl) rfl
          (decodeLossy_ascii (by decide) s)
      by_cases h20 : c < 0x20
      · have h80 : c < 0x80 := UInt8.lt_trans h20 (by decide : (0x20 : UInt8) < 0x80)
        refine piece (quoteControl_reads h20) ?_ (decodeLossy_ascii h80 s)
        rw [quoteFrom, if_neg h22, if_neg h5c, if_pos h20]
      by_cases h80 : c < 0x80
      · refine piece (Json.readsChar_encode (encode_ascii h80) h20 h22 h5c) ?_
          (decodeLossy_ascii h80 s)
        rw [quoteFrom, if_neg h22, if_neg h5c, if_neg h20, if_pos h80]
        rfl
      have high : 128 ≤ c.toNat := Nat.le_of_not_lt h80
      by_cases hvalid : utf8SeqLen c ≥ 2 ∧ utf8SeqValid (c :: s) (utf8SeqLen c) = true
      · obtain ⟨ch, hch⟩ := exists_encode_of_valid hvalid.1 hvalid.2
        obtain ⟨later, hlater, hlaterReads⟩ :=
          ih (s.drop (utf8SeqLen c - 1)).length (by rw [length_drop]; omega) _ rfl
        have split : c :: s = String.utf8EncodeChar ch ++ s.drop (utf8SeqLen c - 1) := by
          rw [hch, cons_append, take_append_drop]
        refine ⟨(c :: s.take (utf8SeqLen c - 1)) :: later, ?_, ?_⟩
        · rw [quoteFrom, if_neg h22, if_neg h5c, if_neg h20, if_neg h80, if_pos hvalid,
            quoteFrom_copy, hlater, flatten_cons, cons_append]
        · rw [split, Utf8.decodeLossy_append]
          exact .cons (Json.readsChar_encode hch h20 h22 h5c) hlaterReads
      · have none : Utf8.decode? (c :: s) = none := by
          cases hdecode : Utf8.decode? (c :: s) with
          | none => rfl
          | some p =>
            have encoded := Utf8.decode?_eq_some_iff.mp hdecode
            exact absurd (valid_of_encode high encoded) hvalid
        have escape : ∀ rest, Json.readEscape (ascii "ufffd" ++ rest) =
            some (Utf8.replacement, rest) := by
          intro rest
          show Json.readEscape (0x75 :: 0x66 :: 0x66 :: 0x66 :: 0x64 :: rest) = _
          simp [Json.readEscape, Json.readUnicode, Json.readHex4, Json.hexValue,
            Utf8.replacement]
        refine piece (Json.readsChar_escape escape) ?_ (Utf8.decodeLossy_none none)
        rw [quoteFrom, if_neg h22, if_neg h5c, if_neg h20, if_neg h80, if_neg hvalid]
        rfl

theorem jsonQuote_reads (s : Bytes) : Json.ReadsString (jsonQuote s) (Utf8.decodeLossy s) := by
  obtain ⟨texts, htexts, hreads⟩ := quoteFrom_pieces s
  rw [jsonQuote, htexts]
  exact Json.readsString_of_chars hreads

/-! ## Numbers -/

section Numbers

variable {rest : Bytes} (hrest : Json.stops rest = true)

include hrest

private theorem takeWhile_digits (s : Bytes) :
    (s ++ rest).takeWhile Base.Json.isDigit = s.takeWhile isDigit ∧
      (s ++ rest).dropWhile Base.Json.isDigit = s.dropWhile isDigit ++ rest := by
  induction s with
  | nil =>
    cases rest with
    | nil => exact ⟨rfl, rfl⟩
    | cons b rest =>
      have notDigit : Base.Json.isDigit b = false := by
        cases hb : Base.Json.isDigit b with
        | false => rfl
        | true => simp [Json.stops, hb] at hrest
      simp [notDigit]
  | cons c s ih =>
    rw [cons_append, takeWhile_cons, dropWhile_cons, takeWhile_cons,
      dropWhile_cons]
    by_cases hc : isDigit c = true
    · have hc' : Base.Json.isDigit c = true := hc
      rw [if_pos hc, if_pos hc', if_pos hc, if_pos hc', ih.1, ih.2]
      exact ⟨rfl, rfl⟩
    · have hc' : ¬ Base.Json.isDigit c = true := hc
      rw [if_neg hc, if_neg hc', if_neg hc, if_neg hc']
      exact ⟨rfl, rfl⟩

variable {s r : Bytes}

private theorem readInt_of_numberInt (h : numberInt s = some r) :
    ∃ lit, s = lit ++ r ∧ Json.readInt (s ++ rest) = some (lit, r ++ rest) := by
  cases s with
  | nil => cases h
  | cons c s =>
    rw [numberInt] at h
    rw [cons_append, Json.readInt]
    split at h
    · rename_i zero
      cases h
      exact ⟨[c], rfl, by rw [if_pos zero]⟩
    · rename_i nonzero
      split at h
      · rename_i range
        have digit : isDigit c = true := by
          simp only [Bool.and_eq_true, decide_eq_true_eq] at range
          simp only [isDigit, Bool.and_eq_true, decide_eq_true_eq]
          exact ⟨UInt8.le_trans (by decide : (0x30 : UInt8) ≤ 0x31) range.1, range.2⟩
        have digit' : Base.Json.isDigit c = true := digit
        obtain ⟨htake, hdrop⟩ := takeWhile_digits hrest s
        rw [dropWhile_cons, if_pos digit] at h
        cases h
        refine ⟨c :: s.takeWhile isDigit, ?_, ?_⟩
        · rw [cons_append, takeWhile_append_dropWhile]
        · rw [if_neg nonzero, if_pos digit', htake, hdrop]
      · cases h

private theorem readDigits_of_numberDigits (lead : Bytes) (h : numberDigits s = some r) :
    ∃ lit, lead ++ s = lit ++ r ∧ Json.readDigits lead (s ++ rest) = some (lit, r ++ rest) := by
  cases s with
  | nil => cases h
  | cons c s =>
    rw [numberDigits] at h
    split at h
    · rename_i digit
      obtain ⟨htake, hdrop⟩ := takeWhile_digits hrest (c :: s)
      cases h
      refine ⟨lead ++ (c :: s).takeWhile isDigit, ?_, ?_⟩
      · rw [append_assoc, takeWhile_append_dropWhile]
      · rw [Json.readDigits, htake, hdrop, takeWhile_cons, if_pos digit]
    · cases h

private theorem readFrac_of_numberFrac (h : numberFrac s = some r) :
    ∃ lit, s = lit ++ r ∧ Json.readFrac (s ++ rest) = some (lit, r ++ rest) := by
  cases s with
  | nil =>
    cases h
    refine ⟨[], rfl, ?_⟩
    rw [nil_append, Json.readFrac]
    rintro s' rfl
    simp [Json.stops] at hrest
  | cons c s =>
    rw [numberFrac] at h
    split at h
    · rename_i point
      subst point
      exact readDigits_of_numberDigits hrest [0x2e] h
    · rename_i noPoint
      cases h
      refine ⟨[], rfl, ?_⟩
      rw [Json.readFrac]
      intro s' hs'
      exact noPoint (List.cons.inj hs').1

private theorem readExp_of_numberExp (h : numberExp s = some r) :
    ∃ lit, s = lit ++ r ∧ Json.readExp (s ++ rest) = some (lit, r ++ rest) := by
  cases s with
  | nil =>
    cases h
    refine ⟨[], rfl, ?_⟩
    cases rest with
    | nil => rfl
    | cons b rest =>
      have noLetter : ¬ (b = 0x65 ∨ b = 0x45) := by
        rintro (rfl | rfl) <;> simp [Json.stops] at hrest
      simp [Json.readExp, noLetter]
  | cons c s =>
    by_cases letter : c = 0x65 ∨ c = 0x45
    · cases s with
      | nil => simp [numberExp, letter] at h
      | cons d s =>
        simp only [numberExp, letter, if_true] at h
        simp only [cons_append, Json.readExp, letter, if_true]
        by_cases plus : d = 0x2b
        · subst plus
          exact readDigits_of_numberDigits hrest [c, 0x2b] h
        · by_cases minus : d = 0x2d
          · subst minus
            exact readDigits_of_numberDigits hrest [c, 0x2d] h
          · simp only [plus, minus, or_self, if_false] at h
            simpa [plus, minus] using readDigits_of_numberDigits hrest [c] h
    · simp only [numberExp, letter, if_false] at h
      cases h
      exact ⟨[], rfl, by simp [Json.readExp, letter]⟩

private theorem readNumber_of_parts
    (h : ((numberInt s).bind fun s => (numberFrac s).bind numberExp) = some []) :
    ∃ int frac exp r, s = int ++ frac ++ exp ∧ Json.readInt (s ++ rest) = some (int, r) ∧
      ∃ r', Json.readFrac r = some (frac, r') ∧ Json.readExp r' = some (exp, rest) := by
  simp only [Option.bind_eq_some_iff] at h
  obtain ⟨r, hint, r', hfrac, hexp⟩ := h
  obtain ⟨int, rfl, hreadInt⟩ := readInt_of_numberInt hrest hint
  obtain ⟨frac, rfl, hreadFrac⟩ := readFrac_of_numberFrac hrest hfrac
  obtain ⟨exp, rfl, hreadExp⟩ := readExp_of_numberExp hrest hexp
  exact ⟨int, frac, exp, _, by simp, hreadInt, _, hreadFrac, by simpa using hreadExp⟩

end Numbers

/-- What `json_is_number` accepts is read as a number, as a whole. -/
theorem number_reads (h : jsonIsNumber s = true) : Json.Reads s (.number s) := by
  simp only [jsonIsNumber] at h
  split at h
  · rename_i r hparts
    have hnil : r = [] := by simpa using h
    subst hnil
    cases s with
    | nil => simp [numberInt] at hparts
    | cons c s =>
      by_cases sign : c = 0x2d
      · subst sign
        simp only [List.head?_cons, if_true, drop_succ_cons, drop_zero] at hparts
        apply Json.reads_number (Or.inr rfl)
        intro rest hrest
        obtain ⟨int, frac, exp, r, hs, hint, r', hfrac, hexp⟩ :=
          readNumber_of_parts hrest hparts
        have whole : Json.readNumber (0x2d :: s ++ rest) =
            some ([0x2d] ++ int ++ frac ++ exp, rest) := by
          simp [Json.readNumber, hint, hfrac, hexp]
        rw [whole, hs]
        simp
      · have noSign : ¬ (c :: s).head? = some 0x2d := by simpa using sign
        rw [if_neg noSign] at hparts
        apply Json.reads_number
        · left
          obtain ⟨r, hint, -⟩ := Option.bind_eq_some_iff.mp hparts
          rw [numberInt] at hint
          split at hint
          · rename_i zero
            rw [zero]
            decide
          · split at hint
            · rename_i range
              simp only [Bool.and_eq_true, decide_eq_true_eq] at range
              simp only [Base.Json.isDigit, Bool.and_eq_true, decide_eq_true_eq]
              exact ⟨UInt8.le_trans (by decide : (0x30 : UInt8) ≤ 0x31) range.1, range.2⟩
            · cases hint
        · intro rest hrest
          obtain ⟨int, frac, exp, r, hs, hint, r', hfrac, hexp⟩ :=
            readNumber_of_parts hrest hparts
          have whole : Json.readNumber (c :: s ++ rest) =
              some ([] ++ int ++ frac ++ exp, rest) := by
            rw [cons_append] at hint ⊢
            simp [Json.readNumber, sign, hint, hfrac, hexp]
          rw [whole, hs, nil_append]
  · cases h

/-! ## Values -/

theorem newline_ws (indent : Int) (level : Nat) : (newline indent level).all Json.isWs = true := by
  rw [newline]
  split
  · rw [all_cons, Bool.and_eq_true, indentBy]
    refine ⟨by decide, ?_⟩
    split
    · rfl
    · rw [all_replicate]
      simp [Json.isWs]
  · rfl

def itemText (indent : Int) (level : Nat) (v : JsonValue) : Bytes :=
  newline indent (level + 1) ++ dump indent (level + 1) v

def memberText (indent : Int) (level : Nat) (m : Bytes × JsonValue) : Bytes :=
  newline indent (level + 1) ++ (jsonQuote m.1 ++ 0x3a ::
    ((if indent ≥ 0 then [0x20] else []) ++ dump indent (level + 1) m.2))

theorem dumpItems_eq (indent : Int) (level : Nat) (v : JsonValue) (vs : List JsonValue)
    (first : Bool) : dumpItems indent level first (v :: vs) =
      comma first ++ Json.commaSep ((v :: vs).map (itemText indent level)) := by
  induction vs generalizing v first with
  | nil => simp [dumpItems, Json.commaSep, itemText]
  | cons w vs ih =>
    rw [dumpItems, ih]
    simp [Json.commaSep_cons_cons, itemText, comma]

theorem dumpMembers_eq (indent : Int) (level : Nat) (m : Bytes × JsonValue) (ms : Members)
    (first : Bool) : dumpMembers indent level first (m :: ms) =
      comma first ++ Json.commaSep ((m :: ms).map (memberText indent level)) := by
  induction ms generalizing m first with
  | nil => simp [dumpMembers, Json.commaSep, memberText]
  | cons m' ms ih =>
    rw [dumpMembers, ih]
    simp [Json.commaSep_cons_cons, memberText, comma]

theorem memberText_reads {indent : Int} {level : Nat} {k : Bytes} {v : JsonValue}
    (h : Json.Reads (dump indent (level + 1) v) (meaning v)) :
    Json.ReadsMember (memberText indent level (k, v)) (Utf8.decodeLossy k, meaning v) := by
  refine ⟨_, jsonQuote k, _, rfl, newline_ws indent (level + 1), jsonQuote_reads k, h.ws ?_⟩
  split <;> rfl

mutual

theorem dump_reads (indent : Int) (level : Nat) :
    ∀ v, NumbersOk v → Json.Reads (dump indent level v) (meaning v)
  | .null, _ => Json.reads_null
  | .bool b, _ => Json.reads_bool b
  | .number _, ok => number_reads ok
  | .string s, _ => (jsonQuote_reads s).reads
  | .array [], _ => Json.reads_emptyArray
  | .array (v :: vs), ok => by
    have items := items_read indent level (v :: vs) ok
    have := Json.reads_array items (by simp) (newline_ws indent level)
    rw [dump, dumpItems_eq, meaning]
    simpa [comma] using this
  | .object [], _ => Json.reads_emptyObject
  | .object (m :: ms), ok => by
    have members := members_read indent level (m :: ms) ok
    have := Json.reads_object members (by simp) (newline_ws indent level)
    rw [dump, dumpMembers_eq, meaning]
    simpa [comma] using this

theorem items_read (indent : Int) (level : Nat) : ∀ vs, NumbersOkItems vs →
    Forall₂ Json.Reads (vs.map (itemText indent level)) (meaningItems vs)
  | [], _ => .nil
  | v :: vs, ok =>
    .cons ((dump_reads indent (level + 1) v ok.1).ws (newline_ws indent (level + 1)))
      (items_read indent level vs ok.2)

theorem members_read (indent : Int) (level : Nat) : ∀ ms, NumbersOkMembers ms →
    Forall₂ Json.ReadsMember (ms.map (memberText indent level)) (meaningMembers ms)
  | [], _ => .nil
  | (_, v) :: ms, ok =>
    .cons (memberText_reads (dump_reads indent (level + 1) v ok.1))
      (members_read indent level ms ok.2)

end

end Nmap.Json
