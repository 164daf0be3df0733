import Mathlib.Data.List.Chain
import Mathlib.Data.List.Infix
import Nmap.Base.CString

/-!
# Escaping and unescaping (`xml.cc`)

`escape` makes any C string fit for attribute values and comments
(`escape_wellFormed`). `xml_unescape` reads numeric entities back, but it looks for the
names of the others one byte too early, at the ampersand, and so never finds them.
-/

namespace Nmap.Xml

open Nmap.Base List

set_option maxRecDepth 4000

/-! ## Escaping -/

/-- A digit of `%x` -/
def hexDigit (n : Nat) : UInt8 := UInt8.ofNat (if n < 10 then 0x30 + n else 0x57 + n)

/-- `%x` -/
def hexDigits (c : UInt8) : Bytes :=
  if c < 16 then [hexDigit c.toNat] else [hexDigit (c.toNat / 16), hexDigit (c.toNat % 16)]

/-- `"&#x%x;"` -/
def hexEntity (c : UInt8) : Bytes := ascii "&#x" ++ hexDigits c ++ ascii ";"

/-- What replaces a character; `afterHyphen` says that the one before was a hyphen. -/
def replacement (afterHyphen : Bool) (c : UInt8) : Bytes :=
  if c = 0x3c then ascii "&lt;"
  else if c = 0x3e then ascii "&gt;"
  else if c = 0x26 then ascii "&amp;"
  else if c = 0x22 then ascii "&quot;"
  else if c = 0x27 then ascii "&apos;"
  -- "Escape -- for comments."
  else if c = 0x2d && afterHyphen then ascii "&#45;"
  else if c < 0x20 || c > 0x7f then hexEntity c
  else [c]

/-- The loop of `escape` -/
def escapeFrom (afterHyphen : Bool) : Bytes → Bytes
  | [] => []
  | c :: s => replacement afterHyphen c ++ escapeFrom (c = 0x2d) s

def escape (str : CString) : Bytes := escapeFrom false str.bytes

/-! ## Unescaping -/

/-- The entity after an ampersand, which is followed by `s`: its character and how many bytes
of `s` it takes, or `none` for a plain copy. `p` is the text from the ampersand on. -/
def entity (p s : Bytes) : Option (UInt8 × Nat) :=
  let q := s.dropWhile (· ≠ 0x3b)
  let past := s.length - q.length + 1
  if q.isEmpty then none
  else if s.head? = some 0x23 then
    let (codepoint, invalp) :=
      if s[1]? = some 0x78 then strtol 16 (s.drop 2) else strtol 10 (s.drop 1)
    if invalp.length ≠ q.length || codepoint < 0 || codepoint > 0xff then none
    else some (UInt8.ofNat codepoint.toNat, past)
  -- the names are compared with the text at `p`, which starts with the ampersand
  else if p.take 3 = ascii "lt;" then some (0x3c, past)
  else if p.take 3 = ascii "gt;" then some (0x3e, past)
  else if p.take 4 = ascii "amp;" then some (0x26, past)
  else if p.take 5 = ascii "quot;" then some (0x22, past)
  else if p.take 5 = ascii "apos;" then some (0x27, past)
  else none

/-- The loop of `xml_unescape`. `jump` more bytes belong to an entity. -/
def unescapeFrom : Nat → Bytes → Bytes
  | _, [] => []
  | jump + 1, _ :: s => unescapeFrom jump s
  | 0, c :: s =>
    if c ≠ 0x26 then c :: unescapeFrom 0 s
    else
      match entity (c :: s) s with
      | some (d, jump) => d :: unescapeFrom jump s
      | none => c :: unescapeFrom 0 s

def xmlUnescape (str : Bytes) : Bytes := unescapeFrom 0 str

/-! ## What escaped text looks like -/

/-- The entities that `escape` emits -/
def IsEntity (e : Bytes) : Prop :=
  e ∈ ["&lt;", "&gt;", "&amp;", "&quot;", "&apos;", "&#45;"].map ascii ∨
    ∃ c : UInt8, (c < 0x20 ∨ c > 0x7f) ∧ e = hexEntity c

/-- Text that is safe in attribute values and comments -/
structure WellFormed (out : Bytes) : Prop where
  printable : ∀ c ∈ out, 0x20 ≤ c ∧ c ≤ 0x7f
  markup : ∀ c ∈ out, c ∉ [0x3c, 0x3e, 0x22, 0x27]
  hyphens : ¬ [0x2d, 0x2d] <:+: out
  ampersands : ∀ post, 0x26 :: post <:+ out → ∃ e, IsEntity e ∧ e <+: 0x26 :: post

/-- A character of an entity behind its ampersand -/
def InEntity (b : UInt8) : Prop :=
  0x20 ≤ b ∧ b ≤ 0x7f ∧ b ∉ [(0x3c : UInt8), 0x3e, 0x22, 0x27, 0x26, 0x2d]

instance : DecidablePred InEntity := fun _ => inferInstanceAs (Decidable (_ ∧ _ ∧ _))

theorem hexDigits_inEntity (c : UInt8) : ∀ d ∈ hexDigits c, InEntity d := by
  have digit : ∀ n < 16, InEntity (hexDigit n) := by decide
  unfold hexDigits
  split_ifs with small
  · exact forall_mem_singleton.mpr (digit _ (UInt8.lt_iff_toNat_lt.mp small))
  · have low := digit (c.toNat % 16) (Nat.mod_lt _ (by decide))
    have high := digit (c.toNat / 16) (Nat.div_lt_of_lt_mul c.toNat_lt)
    exact forall_mem_cons.mpr ⟨high, forall_mem_singleton.mpr low⟩

theorem IsEntity.shape {e : Bytes} (entity : IsEntity e) :
    ∃ s, e = 0x26 :: s ∧ ∀ b ∈ s, InEntity b := by
  rcases entity with named | ⟨c, -, rfl⟩
  · have each : ∀ e ∈ ["&lt;", "&gt;", "&amp;", "&quot;", "&apos;", "&#45;"].map ascii,
        e = 0x26 :: e.tail ∧ ∀ b ∈ e.tail, InEntity b := by decide
    exact ⟨_, each e named⟩
  · refine ⟨ascii "#x" ++ hexDigits c ++ ascii ";", rfl, fun b mem => ?_⟩
    rw [mem_append, mem_append] at mem
    obtain (front | digits) | last := mem
    · exact (by decide : ∀ b ∈ ascii "#x", InEntity b) b front
    · exact hexDigits_inEntity c b digits
    · exact (by decide : ∀ b ∈ ascii ";", InEntity b) b last

theorem replacement_cases (afterHyphen : Bool) (c : UInt8) :
    IsEntity (replacement afterHyphen c) ∨
      replacement afterHyphen c = [c] ∧ 0x20 ≤ c ∧ c ≤ 0x7f ∧
        c ∉ [(0x3c : UInt8), 0x3e, 0x22, 0x27, 0x26] ∧ (c = 0x2d → afterHyphen = false) := by
  unfold replacement
  split_ifs with lt gt amp quot apos hyphen control
  · exact .inl (.inl (by decide))
  · exact .inl (.inl (by decide))
  · exact .inl (.inl (by decide))
  · exact .inl (.inl (by decide))
  · exact .inl (.inl (by decide))
  · exact .inl (.inl (by decide))
  · exact .inl (.inr ⟨c, by simpa using control, rfl⟩)
  · simp only [Bool.or_eq_true, decide_eq_true_eq, not_or, UInt8.not_lt] at control
    exact .inr ⟨rfl, control.1, control.2, by simp [*], by simpa using hyphen⟩

theorem replacement_bytes (afterHyphen : Bool) (c : UInt8) : ∀ b ∈ replacement afterHyphen c,
    (0x20 ≤ b ∧ b ≤ 0x7f) ∧ b ∉ [(0x3c : UInt8), 0x3e, 0x22, 0x27] := by
  rcases replacement_cases afterHyphen c with entity | ⟨same, low, high, plain, -⟩
  · obtain ⟨s, same, inside⟩ := entity.shape
    rw [same]
    refine forall_mem_cons.mpr ⟨by decide, fun b mem => ?_⟩
    obtain ⟨low, high, plain⟩ := inside b mem
    exact ⟨⟨low, high⟩, fun markup => plain (mem_append_left [0x26, 0x2d] markup)⟩
  · rw [same]
    exact forall_mem_singleton.mpr
      ⟨⟨low, high⟩, fun markup => plain (mem_append_left [0x26] markup)⟩

theorem replacement_hyphen (afterHyphen : Bool) (c : UInt8) :
    0x2d ∉ replacement afterHyphen c ∨
      replacement afterHyphen c = [0x2d] ∧ c = 0x2d ∧ afterHyphen = false := by
  rcases replacement_cases afterHyphen c with entity | ⟨same, -, -, -, hyphen⟩
  · obtain ⟨s, same, inside⟩ := entity.shape
    rw [same, mem_cons]
    exact .inl (not_or.mpr ⟨by decide, fun mem => (inside _ mem).2.2 (by decide)⟩)
  · rw [same]
    by_cases here : c = 0x2d
    · exact .inr ⟨by rw [here], here, hyphen here⟩
    · exact .inl fun mem => here (mem_singleton.mp mem).symm

theorem replacement_ampersand {afterHyphen : Bool} {c : UInt8} {t : Bytes}
    (tail : 0x26 :: t <:+ replacement afterHyphen c) :
    IsEntity (replacement afterHyphen c) ∧ 0x26 :: t = replacement afterHyphen c := by
  rcases replacement_cases afterHyphen c with entity | ⟨same, -, -, plain, -⟩
  · refine ⟨entity, ?_⟩
    obtain ⟨s, same, inside⟩ := entity.shape
    rw [same] at tail ⊢
    rcases suffix_cons_iff.mp tail with whole | later
    · exact whole
    · exact absurd (by decide) (inside _ (later.mem mem_cons_self)).2.2
  · rw [same] at tail
    rw [← mem_singleton.mp (tail.mem mem_cons_self)] at plain
    exact absurd (by decide) plain

def NoPair (a b : UInt8) : Prop := ¬ (a = 0x2d ∧ b = 0x2d)

theorem isChain_of_not_mem {l : Bytes} (none : 0x2d ∉ l) : l.IsChain NoPair := by
  induction l with
  | nil => exact .nil
  | cons a l ih =>
    rw [mem_cons, not_or] at none
    rw [isChain_cons]
    exact ⟨fun b _ both => none.1 both.1.symm, ih none.2⟩

theorem escapeFrom_hyphens (afterHyphen : Bool) (s : Bytes) :
    (escapeFrom afterHyphen s).IsChain NoPair ∧
      (afterHyphen = true → (escapeFrom afterHyphen s).head? ≠ some 0x2d) := by
  induction s generalizing afterHyphen with
  | nil => exact ⟨.nil, fun _ => nofun⟩
  | cons c s ih =>
    obtain ⟨chain, head⟩ := ih (c = 0x2d)
    have nonempty : replacement afterHyphen c ≠ [] := by
      rcases replacement_cases afterHyphen c with entity | ⟨same, -⟩
      · obtain ⟨s, same, -⟩ := entity.shape
        rw [same]
        exact cons_ne_nil _ _
      · rw [same]
        exact cons_ne_nil _ _
    rw [escapeFrom]
    rcases replacement_hyphen afterHyphen c with none | ⟨alone, isHyphen, first⟩
    · constructor
      · rw [isChain_append]
        refine ⟨isChain_of_not_mem none, chain, fun a last b _ both => none ?_⟩
        rw [← both.1]
        exact mem_of_getLast? last
      · intro _ starts
        rw [List.head?_append_of_ne_nil _ nonempty] at starts
        exact none (mem_of_head? starts)
    · constructor
      · rw [isChain_append, alone]
        refine ⟨.singleton _, chain, fun a _ b starts both => head (by simpa using isHyphen) ?_⟩
        obtain ⟨-, rfl⟩ := both
        exact starts
      · rw [first]
        exact nofun

theorem suffix_append_cases {α : Type} {t a b : List α} (tail : t <:+ a ++ b) :
    t <:+ b ∨ ∃ u, u <:+ a ∧ t = u ++ b := by
  obtain ⟨front, eq⟩ := tail
  rcases append_eq_append_iff.mp eq with ⟨as, ha, ht⟩ | ⟨bs, -, hb⟩
  · exact .inr ⟨as, ⟨front, ha.symm⟩, ht⟩
  · exact .inl ⟨bs, hb.symm⟩

theorem escapeFrom_ampersands (afterHyphen : Bool) (s : Bytes) : ∀ post,
    0x26 :: post <:+ escapeFrom afterHyphen s → ∃ e, IsEntity e ∧ e <+: 0x26 :: post := by
  induction s generalizing afterHyphen with
  | nil =>
    intro post tail
    cases suffix_nil.mp tail
  | cons c s ih =>
    intro post tail
    rw [escapeFrom] at tail
    rcases suffix_append_cases tail with later | ⟨t, here, eq⟩
    · exact ih _ post later
    · rcases t with _ | ⟨d, t⟩
      · exact ih _ post (by rw [eq]; exact suffix_refl _)
      · have starts : d = 0x26 := by
          rw [cons_append] at eq
          exact (List.cons.inj eq).1.symm
        rw [starts] at here eq
        obtain ⟨entity, whole⟩ := replacement_ampersand here
        rw [eq, whole]
        exact ⟨_, entity, prefix_append _ _⟩

theorem escape_wellFormed (str : CString) : WellFormed (escape str) := by
  have bytes : ∀ (afterHyphen : Bool) (s : Bytes), ∀ b ∈ escapeFrom afterHyphen s,
      (0x20 ≤ b ∧ b ≤ 0x7f) ∧ b ∉ [(0x3c : UInt8), 0x3e, 0x22, 0x27] := by
    intro afterHyphen s
    induction s generalizing afterHyphen with
    | nil => exact fun b mem => absurd mem not_mem_nil
    | cons c s ih =>
      intro b mem
      rcases mem_append.mp mem with here | later
      · exact replacement_bytes afterHyphen c b here
      · exact ih _ b later
  refine ⟨fun c mem => (bytes _ _ c mem).1, fun c mem => (bytes _ _ c mem).2, ?_,
    escapeFrom_ampersands _ _⟩
  rintro ⟨front, back, eq⟩
  have chain := (escapeFrom_hyphens false str.bytes).1
  rw [← escape, ← eq] at chain
  have pair := chain.left_of_append.right_of_append
  rw [isChain_pair] at pair
  exact pair ⟨rfl, rfl⟩

/-! ## Reading back -/

/-- The characters that have a named entity -/
def named : Bytes := [0x3c, 0x3e, 0x26, 0x22, 0x27]

theorem unescapeFrom_jump (front rest : Bytes) :
    unescapeFrom front.length (front ++ rest) = unescapeFrom 0 rest := by
  induction front with
  | nil => rfl
  | cons c front ih => exact ih

/-- A numeric entity up to its semicolon -/
theorem unescape_numeric (text rest : Bytes) {value : Int} (closed : 0x3b ∉ text)
    (number : (if (0x23 :: text ++ 0x3b :: rest)[1]? = some 0x78 then
        strtol 16 ((0x23 :: text ++ 0x3b :: rest).drop 2)
      else strtol 10 ((0x23 :: text ++ 0x3b :: rest).drop 1)) = (value, 0x3b :: rest))
    (small : 0 ≤ value ∧ value ≤ 0xff) :
    unescapeFrom 0 (0x26 :: (0x23 :: text ++ 0x3b :: rest)) =
      UInt8.ofNat value.toNat :: unescapeFrom 0 rest := by
  have stop : (0x23 :: text ++ 0x3b :: rest).dropWhile (· ≠ 0x3b) = 0x3b :: rest := by
    refine (takeWhile_all ?_ ?_).2
    · intro c mem
      rcases mem_cons.mp mem with rfl | mem
      · rfl
      · simpa using fun h : c = 0x3b => closed (h ▸ mem)
    · intro c head
      cases head
      rfl
  have past : (0x23 :: text ++ 0x3b :: rest).length - (0x3b :: rest).length + 1 =
      ((0x23 :: text) ++ [0x3b]).length := by
    simp only [cons_append, length_cons, length_append, length_nil]
    omega
  have found : entity (0x26 :: (0x23 :: text ++ 0x3b :: rest)) (0x23 :: text ++ 0x3b :: rest) =
      some (UInt8.ofNat value.toNat, ((0x23 :: text) ++ [0x3b]).length) := by
    unfold entity
    dsimp only
    rw [stop, number, past]
    simp [small]
  have whole : 0x23 :: text ++ 0x3b :: rest = ((0x23 :: text) ++ [0x3b]) ++ rest := by simp
  rw [unescapeFrom, if_neg (by decide), found]
  dsimp only
  rw [whole, unescapeFrom_jump]

theorem hexDigits_read (c : UInt8) : c ≠ 0 →
    (∀ d ∈ hexDigits c, isDigitOf 16 d = true) ∧ digitsValue 16 (hexDigits c) = c.toNat ∧
      0x3b ∉ hexDigits c ∧ ∀ d ∈ (hexDigits c).head?,
        d ≠ 0x30 ∧ isSpace d = false ∧ d ≠ 0x2d ∧ d ≠ 0x2b := by
  intro nonzero
  have digit : ∀ n < 16, digitValue (hexDigit n) = some n ∧ isDigitOf 16 (hexDigit n) = true ∧
      hexDigit n ≠ 0x3b ∧ (n ≠ 0 → hexDigit n ≠ 0x30 ∧ isSpace (hexDigit n) = false ∧
        hexDigit n ≠ 0x2d ∧ hexDigit n ≠ 0x2b) := by decide
  have positive : c.toNat ≠ 0 := fun zero => nonzero (UInt8.toNat_inj.mp zero)
  unfold hexDigits
  split_ifs with small
  · obtain ⟨value, isDigit, closed, first⟩ := digit _ (UInt8.lt_iff_toNat_lt.mp small)
    refine ⟨forall_mem_singleton.mpr isDigit, ?_, fun mem => closed (mem_singleton.mp mem).symm, ?_⟩
    · simp [digitsValue, value]
    · rintro d ⟨⟩
      exact first positive
  · rw [UInt8.not_lt, UInt8.le_iff_toNat_le] at small
    obtain ⟨valueH, isDigitH, closedH, first⟩ :=
      digit (c.toNat / 16) (Nat.div_lt_of_lt_mul c.toNat_lt)
    obtain ⟨valueL, isDigitL, closedL, -⟩ := digit (c.toNat % 16) (Nat.mod_lt _ (by decide))
    refine ⟨forall_mem_cons.mpr ⟨isDigitH, forall_mem_singleton.mpr isDigitL⟩, ?_, ?_, ?_⟩
    · simp [digitsValue, valueH, valueL, Nat.div_add_mod']
    · simp [closedH.symm, closedL.symm]
    · rintro d ⟨⟩
      exact first (Nat.div_pos small (by decide)).ne'

theorem unescape_hexEntity {c : UInt8} (nonzero : c ≠ 0) (rest : Bytes) :
    unescapeFrom 0 (hexEntity c ++ rest) = c :: unescapeFrom 0 rest := by
  obtain ⟨digits, value, closed, first⟩ := hexDigits_read c nonzero
  have small := c.toNat_lt
  have number : strtol 16 (hexDigits c ++ 0x3b :: rest) = ((c.toNat : Int), 0x3b :: rest) := by
    cases split : hexDigits c with
    | nil =>
      have nothing : hexDigits c ≠ [] := by
        unfold hexDigits
        split <;> exact cons_ne_nil _ _
      exact absurd split nothing
    | cons d ds =>
      rw [split] at digits value first
      obtain ⟨plain, bare⟩ := first d rfl
      have clamped : clampLong (c.toNat : Int) = c.toNat := by
        unfold clampLong
        omega
      rw [strtol_digits digits (by intro d head; cases head; rfl) (fun _ => plain) bare, value,
        clamped]
  have text : hexEntity c ++ rest = 0x26 :: (0x23 :: (0x78 :: hexDigits c) ++ 0x3b :: rest) := by
    simp [hexEntity, ascii]
  have closed' : 0x3b ∉ 0x78 :: hexDigits c := by simpa using closed
  rw [text, unescape_numeric _ rest closed' number (by omega)]
  simp

theorem unescape_replacement (afterHyphen : Bool) {c : UInt8} (nonzero : c ≠ 0) (rest : Bytes) :
    unescapeFrom 0 (replacement afterHyphen c ++ rest) =
      (if c ∈ named then replacement afterHyphen c else [c]) ++ unescapeFrom 0 rest := by
  by_cases special : c ∈ named
  · rw [if_pos special]
    simp only [named, mem_cons, not_mem_nil, or_false] at special
    rcases special with rfl | rfl | rfl | rfl | rfl <;> rfl
  · rw [if_neg special]
    simp only [named, mem_cons, not_mem_nil, or_false, not_or] at special
    obtain ⟨lt, gt, amp, quot, apos⟩ := special
    unfold replacement
    rw [if_neg lt, if_neg gt, if_neg amp, if_neg quot, if_neg apos]
    split_ifs with hyphen control
    · have number : strtol 10 (ascii "45" ++ 0x3b :: rest) = (45, 0x3b :: rest) :=
        strtol_digits (all_eq_true.mp (by decide)) (by intro d head; cases head; rfl)
          (by decide) (by decide)
      have isHyphen : c = 0x2d := by
        rw [Bool.and_eq_true] at hyphen
        exact of_decide_eq_true hyphen.1
      rw [isHyphen]
      exact unescape_numeric (ascii "45") rest (by decide) number (by decide)
    · exact unescape_hexEntity nonzero rest
    · rw [singleton_append, unescapeFrom, if_pos amp]
      rfl

theorem unescape_escapeFrom (afterHyphen : Bool) {s : Bytes} (nonzero : 0 ∉ s) :
    ∃ parts : List Bytes, unescapeFrom 0 (escapeFrom afterHyphen s) = parts.flatten ∧
      Forall₂ (fun c part => if c ∈ named then 1 < part.length else part = [c]) s parts := by
  induction s generalizing afterHyphen with
  | nil => exact ⟨[], rfl, .nil⟩
  | cons c s ih =>
    rw [mem_cons, not_or] at nonzero
    obtain ⟨parts, back, each⟩ := ih (c = 0x2d) nonzero.2
    refine ⟨(if c ∈ named then replacement afterHyphen c else [c]) :: parts, ?_, .cons ?_ each⟩
    · rw [escapeFrom, unescape_replacement afterHyphen (Ne.symm nonzero.1), back,
        flatten_cons]
    · split
      · next special =>
          simp only [named, mem_cons, not_mem_nil, or_false] at special
          rcases special with rfl | rfl | rfl | rfl | rfl <;> decide +revert
      · rfl

theorem forall₂_flatten {s : Bytes} {parts : List Bytes}
    (each : Forall₂
      (fun c part => if c ∈ named then 1 < part.length else part = [c]) s parts) :
    s.length ≤ parts.flatten.length ∧
      (parts.flatten.length = s.length → ∀ c ∈ s, c ∉ named) ∧
      ((∀ c ∈ s, c ∉ named) → parts.flatten = s) := by
  induction each with
  | nil => exact ⟨Nat.le_refl _, fun _ c mem => absurd mem not_mem_nil, fun _ => rfl⟩
  | @cons c part s parts here _ ih =>
    obtain ⟨longer, same, back⟩ := ih
    rw [flatten_cons, length_append, length_cons]
    by_cases special : c ∈ named
    · rw [if_pos special] at here
      refine ⟨by omega, fun eq => by omega, fun plain => ?_⟩
      exact absurd special (plain c mem_cons_self)
    · rw [if_neg special] at here
      subst here
      refine ⟨by simp only [length_singleton]; omega, fun eq d mem => ?_, fun plain => ?_⟩
      · rcases mem_cons.mp mem with rfl | mem
        · exact special
        · exact same (by simp only [length_singleton] at eq; omega) d mem
      · rw [back fun d mem => plain d (mem_cons_of_mem _ mem)]
        rfl

/-- **What `xml_unescape` brings back.** Every escaped text is well formed, and it reads back
as the string exactly when the string has none of `<`, `>`, `&`, `"` and `'`. -/
theorem unescape_escape_iff (str : CString) :
    (WellFormed (escape str) ∧ xmlUnescape (escape str) = str.bytes) ↔
      ∀ c ∈ str.bytes, c ∉ named := by
  obtain ⟨parts, back, each⟩ := unescape_escapeFrom false str.nonzero
  obtain ⟨-, same, plain⟩ := forall₂_flatten each
  have read : xmlUnescape (escape str) = parts.flatten := back
  rw [read]
  constructor
  · intro ⟨_, eq⟩
    exact same (by rw [eq])
  · intro free
    exact ⟨escape_wellFormed str, plain free⟩

/-- `<` comes back as `&lt;`. -/
theorem unescape_loses_lt :
    xmlUnescape (escape ⟨ascii "<", by decide⟩) = ascii "&lt;" ∧
      ¬ ∀ str : CString, WellFormed (escape str) ∧ xmlUnescape (escape str) = str.bytes := by
  have text : xmlUnescape (escape ⟨ascii "<", by decide⟩) = ascii "&lt;" := by decide
  refine ⟨text, fun all => ?_⟩
  have back := (all ⟨ascii "<", by decide⟩).2
  rw [text] at back
  exact absurd back (by decide)

end Nmap.Xml
