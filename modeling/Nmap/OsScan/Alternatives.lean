import Nmap.OsScan.HexNumbers

/-!
# The alternatives of an expression

An expression is meant as a list of alternatives, of which one has to match. The loop
goes through them with one length for the value, which stays cut after leading zeros were
skipped for one alternative, compares what follows the last brackets of a template with all
the rest of the expression, and goes on behind the next `|`, be it in brackets.
`expr_match_alternatives` says what the loop computes where it does not come to that.
-/

namespace Nmap.OsScan

open Nmap.Base List

/-! ## Expressions -/

def Unmarked (t : Bytes) : Prop := 0x7c ∉ t ∧ 0x5b ∉ t ∧ 0x5d ∉ t

instance (t : Bytes) : Decidable (Unmarked t) :=
  inferInstanceAs (Decidable (0x7c ∉ t ∧ 0x5b ∉ t ∧ 0x5d ∉ t))

/-- Texts, separated by `|` -/
def joinBar : List Bytes → Bytes
  | [] => []
  | [t] => t
  | t :: u :: texts => t ++ 0x7c :: joinBar (u :: texts)

/-- Alternatives in brackets, with the text up to the next ones -/
structure Group where
  alternatives : List Bytes
  literal : Bytes
  unmarked : ∀ t ∈ literal :: alternatives, Unmarked t
  filled : joinBar alternatives ≠ []

def groupsText : List Group → Bytes
  | [] => []
  | g :: gs => 0x5b :: (joinBar g.alternatives ++ 0x5d :: (g.literal ++ groupsText gs))

/-- An alternative: a text, a number, a bound or a range, or else a template with at least one
group -/
inductive Alternative
  | plain (text : Bytes) (unmarked : Unmarked text)
  | template (first : Bytes) (unmarked : Unmarked first) (group : Group) (groups : List Group)

def Alternative.text : Alternative → Bytes
  | .plain text _ => text
  | .template first _ group groups => first ++ groupsText (group :: groups)

/-- Templates are for `do_nested` only. -/
def Alternative.allowed (doNested : Bool) : Alternative → Bool
  | .plain _ _ => true
  | .template _ _ _ _ => doNested

/-- An expression -/
structure Expression (doNested : Bool) where
  alternatives : List Alternative
  nonempty : alternatives ≠ []
  allowed : ∀ a ∈ alternatives, a.allowed doNested = true

def Expression.text {doNested : Bool} (e : Expression doNested) : Bytes :=
  joinBar (e.alternatives.map Alternative.text)

/-! ## What an alternative matches -/

def hexRun (value : Bytes) : Bytes := value.takeWhile isXDigit

/-- A group matches hex digits that one of its alternatives matches. -/
def Group.matches (g : Group) (digits : Bytes) : Bool :=
  !digits.isEmpty && g.alternatives.any (matchPlain digits)

/-- Literals and groups one after the other: what is left of the value for the last literal -/
def walkTemplate : Bytes → List Group → Bytes → Option (Bytes × Bytes)
  | literal, [], value => some (literal, value)
  | literal, g :: gs, value =>
    let digits := hexRun (value.drop literal.length)
    if literal.isPrefixOf value && g.matches digits then
      walkTemplate g.literal gs (value.drop (literal.length + digits.length))
    else none

/-- Does the value match this alternative on its own? -/
def Alternative.matches (value : Bytes) : Alternative → Bool
  | .plain text _ => matchPlain value text
  | .template first _ group groups =>
    (walkTemplate first (group :: groups) value).any fun (literal, rest) => rest = literal

/-! ## Where the loop reads wrongly -/

/-- A value that loses a leading zero in a comparison -/
def Padded (value : Bytes) : Prop := value.head? = some 0x30 ∧ 2 ≤ value.length

/-- The value is not compared again after it has lost its zeros. -/
def Steady (value : Bytes) (texts : List Bytes) : Prop :=
  ¬ Padded value ∨ texts.length ≤ 1 ∨ texts.head?.any (matchPlain value) = true

/-- A template is read as it is meant: groups are `Steady`, where the value leaves the template
no later group has a `|`, and if it matches all groups no alternative follows. -/
def TemplateSteady (last : Bool) : Bytes → List Group → Bytes → Prop
  | _, [], _ => last = true
  | literal, g :: gs, value =>
    let digits := hexRun (value.drop literal.length)
    (literal.isPrefixOf value = true → digits ≠ [] → Steady digits g.alternatives) ∧
      if literal.isPrefixOf value && g.matches digits then
        TemplateSteady last g.literal gs (value.drop (literal.length + digits.length))
      else ∀ h ∈ gs, h.alternatives.length ≤ 1

/-- The alternatives up to the first match are read as they are meant. -/
def AlternativesSteady (value : Bytes) : List Alternative → Prop
  | [] => True
  | .plain text _ :: rest =>
    matchPlain value text = true ∨ rest = [] ∨
      (¬ Padded value ∧ AlternativesSteady value rest)
  | .template first _ group groups :: rest =>
    TemplateSteady rest.isEmpty first (group :: groups) value ∧ AlternativesSteady value rest

/-! ## Searches -/

theorem strchrP_skip {front : Bytes} (back stop : Bytes) {c : UInt8} (none : c ∉ front) :
    strchrP (front ++ back) stop c = strchrP back stop c := by
  unfold strchrP
  have others : ∀ d ∈ front, decide (d ≠ c) = true := by
    intro d mem
    have other : d ≠ c := fun same => none (same ▸ mem)
    exact decide_eq_true other
  rw [dropWhile_append_of_pos others]

variable {p : Bytes}

theorem strchrP_length_le {stop q : Bytes} {c : UInt8} (found : strchrP p stop c = some q) :
    q.length ≤ p.length := by
  unfold strchrP at found
  dsimp only at found
  split at found
  · cases found
    exact (dropWhile_suffix _).length_le
  · cases found

theorem strchrP_of_length_le {stop : Bytes} (c : UInt8) (le : p.length ≤ stop.length) :
    strchrP p stop c = none := by
  unfold strchrP
  have shorter := (dropWhile_suffix (l := p) (· ≠ c)).length_le
  exact if_neg (by omega)

/-- The search for the next `|` behind brackets -/
theorem next_bar (front back : Bytes) (c : UInt8) :
    (if (strchrP (front ++ back) [] c).any (fun q => back.length < q.length) then
        strchrP back [] c
      else strchrP (front ++ back) [] c) = strchrP back [] c := by
  by_cases mem : c ∈ front
  · obtain ⟨a, b, rfl, first⟩ := eq_append_cons_of_mem mem
    have found : strchrP (a ++ c :: b ++ back) [] c = some (c :: (b ++ back)) := by
      rw [append_assoc, cons_append]
      exact strchrP_found first
    rw [found, if_pos]
    simp only [Option.any_some, length_cons, length_append, decide_eq_true_eq]
    omega
  · rw [strchrP_skip back [] mem, ite_self]

variable {t : Bytes}

/-- Up to the next `|` there are no brackets. -/
theorem no_nest (unmarked : Unmarked t) (rest : Bytes) :
    strchrP (t ++ 0x7c :: rest) (0x7c :: rest) 0x5b = none := by
  rw [strchrP_skip _ _ unmarked.2.1]
  have skipped : strchrP ([0x7c] ++ rest) (0x7c :: rest) 0x5b = strchrP rest (0x7c :: rest) 0x5b :=
    strchrP_skip _ _ (by decide)
  exact skipped.trans (strchrP_of_length_le _ (Nat.le_succ _))

/-! ## One alternative without brackets -/

variable {value : Bytes}

theorem comparedValue_of_not_padded (steady : ¬ Padded value) :
    comparedValue value = value := by
  unfold comparedValue
  split
  · rcases value with _ | ⟨c, _ | ⟨d, s⟩⟩
    · rfl
    · rfl
    · rw [stripZeros, if_neg]
      rintro rfl
      exact steady ⟨rfl, by simp⟩
  · rfl

theorem matchPlain_nil (t : Bytes) : matchPlain [] t = true ↔ t = [] := by
  have plain : matchPlain [] t =
      (decide (([] : Bytes).length = t.length) && (strncmp ([] : Bytes).length t []).isEq) := rfl
  rw [plain, sameText_iff]
  exact eq_comm

theorem matchPlain_empty (value : Bytes) : matchPlain value [] = decide (value.length = 0) := by
  cases value with
  | nil => rfl
  | cons c value =>
    unfold matchPlain
    split
    · rfl
    · rfl

variable {doNested : Bool} {group : Bytes → Nat → Bytes → Nat → Option Bool} {val : Bytes}

variable {vlen : Nat}

theorem matchTurn_plain {q : Option Bytes} (bar : strchrP p [] 0x7c = q)
    (nest : strchrP p (q.getD []) 0x5b = none) (text : p.take (p.length - (q.getD []).length) = t)
    (start : q = some p ∨ p = [] ↔ t = []) :
    matchTurn doNested group val vlen p =
      if matchPlain (val.take vlen) t then .matched
      else .next q (comparedValue (val.take vlen)).length := by
  unfold matchTurn
  dsimp only
  rw [bar, nest, text]
  by_cases empty : vlen = 0
  · subst empty
    rw [take_zero]
    by_cases same : t = []
    · rw [if_pos ⟨rfl, start.mpr same⟩, if_pos ((matchPlain_nil t).mpr same)]
    · rw [if_neg fun h => same (start.mp h.2), if_pos ⟨rfl, rfl⟩,
        if_neg fun h => same ((matchPlain_nil t).mp h)]
      rfl
  · rw [if_neg fun h => empty h.1, if_neg fun h => empty h.1]
    cases doNested with
    | true => rfl
    | false => rfl

variable {fuel : Nat}

theorem matchLoop_plain (unmarked : Unmarked t) (rest : Bytes) :
    matchLoop doNested group val (fuel + 1) vlen (t ++ 0x7c :: rest) =
      if matchPlain (val.take vlen) t then some true
      else matchLoop doNested group val fuel (comparedValue (val.take vlen)).length rest := by
  have text : (t ++ 0x7c :: rest).take
      ((t ++ 0x7c :: rest).length - (0x7c :: rest).length) = t := by
    rw [length_append, Nat.add_sub_cancel, take_left]
  have start : some (0x7c :: rest) = some (t ++ 0x7c :: rest) ∨ t ++ 0x7c :: rest = [] ↔
      t = [] := by
    constructor
    · rintro (first | none)
      · have lengths := congrArg List.length (Option.some.inj first)
        rw [length_append] at lengths
        exact length_eq_zero_iff.mp (by omega)
      · exact absurd none (by simp)
    · rintro rfl
      exact .inl rfl
  rw [matchLoop, matchTurn_plain (strchrP_found unmarked.1) (no_nest unmarked rest) text start]
  cases matchPlain (val.take vlen) t with
  | true => rfl
  | false => rfl

theorem matchLoop_plain_last (unmarked : Unmarked t) :
    matchLoop doNested group val (fuel + 1) vlen t = some (matchPlain (val.take vlen) t) := by
  have text : t.take (t.length - ([] : Bytes).length) = t := take_length
  rw [matchLoop, matchTurn_plain (strchrP_of_notMem [] unmarked.1)
    (strchrP_of_notMem _ unmarked.2.1) text (by simp)]
  cases matchPlain (val.take vlen) t with
  | true => rfl
  | false => rfl

/-- The loop over alternatives without brackets -/
theorem matchLoop_flat {texts : List Bytes} (nonempty : texts ≠ [])
    (unmarked : ∀ t ∈ texts, Unmarked t) (enough : texts.length ≤ fuel) (inside : vlen ≤ val.length)
    (steady : Steady (val.take vlen) texts) :
    matchLoop doNested group val fuel vlen (joinBar texts) =
      some (texts.any (matchPlain (val.take vlen))) := by
  induction texts generalizing fuel with
  | nil => exact absurd rfl nonempty
  | cons t texts ih =>
    obtain ⟨fuel, rfl⟩ : ∃ n, fuel = n + 1 := ⟨fuel - 1, by simp at enough; omega⟩
    have here := unmarked t mem_cons_self
    cases texts with
    | nil =>
      rw [joinBar, matchLoop_plain_last here]
      simp
    | cons u texts =>
      rw [joinBar, matchLoop_plain here, any_cons]
      by_cases matched : matchPlain (val.take vlen) t = true
      · rw [if_pos matched, matched, Bool.true_or]
      · have bare : ¬ Padded (val.take vlen) := by
          rcases steady with bare | short | first
          · exact bare
          · exact absurd short (by simp)
          · exact absurd first matched
        rw [if_neg matched, Bool.eq_false_iff.mpr matched, Bool.false_or,
          comparedValue_of_not_padded bare, length_take_of_le inside]
        exact ih (cons_ne_nil _ _) (fun t mem => unmarked t (mem_cons_of_mem _ mem))
          (Nat.le_of_succ_le_succ enough) (.inl bare)

theorem length_joinBar (texts : List Bytes) : texts.length ≤ (joinBar texts).length + 1 := by
  induction texts with
  | nil => exact Nat.zero_le _
  | cons t texts ih =>
    cases texts with
    | nil => simp
    | cons u texts =>
      rw [joinBar]
      simp only [length_cons, length_append] at ih ⊢
      omega

/-! ## Templates -/

theorem Group.alternatives_ne_nil (g : Group) : g.alternatives ≠ [] := fun none =>
  g.filled (by rw [none]; rfl)

theorem Unmarked.joinBar {c : UInt8} {texts : List Bytes} (other : c ≠ 0x7c)
    (none : ∀ t ∈ texts, c ∉ t) : c ∉ joinBar texts := by
  induction texts with
  | nil => exact not_mem_nil
  | cons t texts ih =>
    cases texts with
    | nil => exact none t mem_cons_self
    | cons u texts =>
      rw [OsScan.joinBar, mem_append, mem_cons]
      rintro (here | bar | later)
      · exact none t mem_cons_self here
      · exact other bar
      · exact ih (fun t mem => none t (mem_cons_of_mem _ mem)) later

theorem Group.no_close (g : Group) : 0x5d ∉ OsScan.joinBar g.alternatives :=
  Unmarked.joinBar (by decide) fun t mem => (g.unmarked t (mem_cons_of_mem _ mem)).2.2

theorem Group.literal_unmarked (g : Group) : Unmarked g.literal :=
  g.unmarked g.literal mem_cons_self

variable {subval : Bytes}

theorem exprMatchFlat_group (g : Group) (after : Bytes) (digits : hexRun subval ≠ [])
    (steady : Steady (hexRun subval) g.alternatives) :
    exprMatchFlat subval (hexRun subval).length (joinBar g.alternatives ++ 0x5d :: after)
        (joinBar g.alternatives).length =
      some (g.alternatives.any (matchPlain (hexRun subval))) := by
  have run : subval.take (hexRun subval).length = hexRun subval :=
    prefix_iff_eq_take.mp (List.takeWhile_prefix _) |>.symm
  have inside : (hexRun subval).length ≤ subval.length :=
    (List.takeWhile_prefix _).length_le
  have some : (hexRun subval).length ≠ 0 := fun h => digits (length_eq_zero_iff.mp h)
  have text : (joinBar g.alternatives).length ≠ 0 := fun h =>
    g.filled (length_eq_zero_iff.mp h)
  unfold exprMatchFlat
  dsimp only
  rw [if_neg some, if_neg text, if_neg text, take_left, matchLoop_flat
    g.alternatives_ne_nil (fun t mem => g.unmarked t (mem_cons_of_mem _ mem))
    (length_joinBar _) inside (by rw [run]; exact steady), run]

theorem groupsText_cons (g : Group) (gs : List Group) (tail : Bytes) :
    groupsText (g :: gs) ++ tail =
      0x5b :: (joinBar g.alternatives ++ 0x5d :: (g.literal ++ (groupsText gs ++ tail))) := by
  simp [groupsText]

variable {literal tail : Bytes}

/-- The brackets that come next, up to the next `|` -/
theorem next_nest (unmarked : Unmarked literal) (gs : List Group)
    (ends : tail = [] ∨ ∃ rest, tail = 0x7c :: rest) :
    strchrP (literal ++ (groupsText gs ++ tail))
        ((strchrP (literal ++ (groupsText gs ++ tail)) [] 0x7c).getD []) 0x5b =
      match gs with
      | [] => none
      | _ :: _ => some (groupsText gs ++ tail) := by
  cases gs with
  | nil =>
    show strchrP (literal ++ tail) ((strchrP (literal ++ tail) [] 0x7c).getD []) 0x5b = none
    rcases ends with rfl | ⟨rest, rfl⟩
    · rw [append_nil]
      exact strchrP_of_notMem _ unmarked.2.1
    · rw [strchrP_found unmarked.1]
      exact no_nest unmarked rest
  | cons g gs =>
    dsimp only
    rw [groupsText_cons, strchrP_skip _ _ unmarked.1]
    generalize joinBar g.alternatives ++ 0x5d :: (g.literal ++ (groupsText gs ++ tail)) = inner
    rw [strchrP_append unmarked.2.1, if_pos]
    -- the next `|` is behind the bracket
    have skipped : strchrP ([0x5b] ++ inner) [] 0x7c = strchrP inner [] 0x7c :=
      strchrP_skip _ _ (by decide)
    rw [← singleton_append, skipped]
    cases found : strchrP inner [] 0x7c with
    | none => exact Nat.zero_lt_succ _
    | some q => exact Nat.lt_succ_of_le (strchrP_length_le found)

variable {gs : List Group}

/-- Where no group has a `|`, the next one ends the template. -/
theorem bar_behind (unmarked : Unmarked literal) (single : ∀ g ∈ gs, g.alternatives.length ≤ 1)
    (tail : Bytes) :
    strchrP (literal ++ (groupsText gs ++ tail)) [] 0x7c = strchrP tail [] 0x7c := by
  rw [strchrP_skip _ _ unmarked.1]
  apply strchrP_skip
  induction gs with
  | nil => exact not_mem_nil
  | cons g gs ih =>
    have rest := ih fun g mem => single g (mem_cons_of_mem _ mem)
    have inside : 0x7c ∉ joinBar g.alternatives := by
      have short := single g mem_cons_self
      have some := g.alternatives_ne_nil
      have unmarked := g.unmarked
      rcases eq : g.alternatives with _ | ⟨t, _ | ⟨u, texts⟩⟩
      · exact absurd eq some
      · exact (unmarked t (by rw [eq]; simp)).1
      · rw [eq] at short
        exact absurd short (by simp)
    simp only [groupsText, mem_cons, mem_append]
    rintro (absurd | here | absurd | literal | later)
    · exact (by decide : ¬ (0x7c : UInt8) = 0x5b) absurd
    · exact inside here
    · exact (by decide : ¬ (0x7c : UInt8) = 0x5d) absurd
    · exact g.literal_unmarked.1 literal
    · exact rest later

/-- One turn of the loop over the brackets: the next `|` is searched behind them. -/
theorem matchNests_step {inside after : Bytes} (close : 0x5d ∉ inside) :
    matchNests group (fuel + 1) (literal ++ 0x5b :: (inside ++ 0x5d :: after))
        (strchrP (literal ++ 0x5b :: (inside ++ 0x5d :: after)) [] 0x7c)
        (0x5b :: (inside ++ 0x5d :: after)) subval =
      let q := strchrP after [] 0x7c
      let rest := subval.drop literal.length
      let digits := hexRun rest
      if literal.isPrefixOf subval = false then .failed q
      else if 0 < digits.length &&
          group rest digits.length (inside ++ 0x5d :: after) inside.length == some true then
        match strchrP after (q.getD []) 0x5b with
        | some nest => matchNests group fuel after q nest (rest.drop digits.length)
        | none => .passed after q (rest.drop digits.length)
      else .failed q := by
  have closing : strchrP (0x5b :: (inside ++ 0x5d :: after)) [] 0x5d = some (0x5d :: after) := by
    rw [← cons_append]
    refine strchrP_found fun mem => ?_
    rcases mem_cons.mp mem with absurd | here
    · exact (by decide : ¬ (0x5d : UInt8) = 0x5b) absurd
    · exact close here
  have bar : (if (strchrP (literal ++ 0x5b :: (inside ++ 0x5d :: after)) [] 0x7c).any
        (fun q => (0x5d :: after).length < q.length) then strchrP (0x5d :: after) [] 0x7c
      else strchrP (literal ++ 0x5b :: (inside ++ 0x5d :: after)) [] 0x7c) =
      strchrP after [] 0x7c := by
    have split : literal ++ 0x5b :: (inside ++ 0x5d :: after) =
        (literal ++ 0x5b :: inside) ++ 0x5d :: after := by simp
    have skipped : strchrP ([0x5d] ++ after) [] 0x7c = strchrP after [] 0x7c :=
      strchrP_skip _ _ (by decide)
    rw [split, next_bar]
    exact skipped
  have before : (literal ++ 0x5b :: (inside ++ 0x5d :: after)).length -
      (0x5b :: (inside ++ 0x5d :: after)).length = literal.length := by
    rw [length_append, Nat.add_sub_cancel]
  have group_length : (0x5b :: (inside ++ 0x5d :: after)).tail.length - (0x5d :: after).length =
      inside.length := by
    rw [tail_cons, length_append, Nat.add_sub_cancel]
  have compared : strncmp literal.length (literal ++ 0x5b :: (inside ++ 0x5d :: after)) subval ≠
      .eq ↔ literal.isPrefixOf subval = false := by
    rw [← Bool.not_eq_true, isPrefixOf_iff_prefix, prefix_iff_eq_take,
      Ne, strncmp_eq_iff, take_left]
  rw [matchNests, closing]
  dsimp only
  rw [bar, before, group_length]
  simp only [compared]
  rfl

variable {last : Bool} {g : Group}

/-- One turn of the loop over the brackets of a template that is read as it is meant -/
theorem matchNests_turn (fuel : Nat) (steady : TemplateSteady last literal (g :: gs) subval) :
    matchNests exprMatchFlat (fuel + 1) (literal ++ (groupsText (g :: gs) ++ tail))
        (strchrP (literal ++ (groupsText (g :: gs) ++ tail)) [] 0x7c)
        (groupsText (g :: gs) ++ tail) subval =
      let after := g.literal ++ (groupsText gs ++ tail)
      let digits := hexRun (subval.drop literal.length)
      if literal.isPrefixOf subval && g.matches digits then
        let rest := subval.drop (literal.length + digits.length)
        match strchrP after ((strchrP after [] 0x7c).getD []) 0x5b with
        | some nest => matchNests exprMatchFlat fuel after (strchrP after [] 0x7c) nest rest
        | none => .passed after (strchrP after [] 0x7c) rest
      else .failed (strchrP tail [] 0x7c) := by
  obtain ⟨decided, goes⟩ := steady
  -- where the value leaves the template, the next `|` ends it
  have leaves : (literal.isPrefixOf subval &&
      g.matches (hexRun (subval.drop literal.length))) = false →
      strchrP (g.literal ++ (groupsText gs ++ tail)) [] 0x7c = strchrP tail [] 0x7c := by
    intro no
    rw [if_neg (by rw [no]; exact Bool.false_ne_true)] at goes
    exact bar_behind g.literal_unmarked goes tail
  rw [groupsText_cons, matchNests_step g.no_close]
  dsimp only
  cases pre : literal.isPrefixOf subval with
  | false =>
    rw [if_pos rfl, Bool.false_and, if_neg Bool.false_ne_true]
    rw [leaves (by rw [pre]; rfl)]
  | true =>
    rw [if_neg (by decide), Bool.true_and]
    by_cases none : hexRun (subval.drop literal.length) = []
    · have no : g.matches (hexRun (subval.drop literal.length)) = false := by
        rw [none]
        rfl
      rw [no, if_neg Bool.false_ne_true, if_neg (by rw [none]; simp),
        leaves (by rw [pre, no]; rfl)]
    · have compared := exprMatchFlat_group g (g.literal ++ (groupsText gs ++ tail)) none
        (decided pre none)
      have same : (decide (0 < (hexRun (subval.drop literal.length)).length) &&
          some (g.alternatives.any (matchPlain (hexRun (subval.drop literal.length)))) ==
            some true) = g.matches (hexRun (subval.drop literal.length)) := by
        rw [decide_eq_true (length_pos_iff.mpr none), Group.matches,
          isEmpty_eq_false_iff.mpr none]
        cases g.alternatives.any (matchPlain (hexRun (subval.drop literal.length))) <;> rfl
      rw [compared, same, drop_drop]
      cases yes : g.matches (hexRun (subval.drop literal.length)) with
      | true => rfl
      | false =>
        rw [if_neg Bool.false_ne_true, if_neg Bool.false_ne_true,
          leaves (by rw [pre, yes]; rfl)]

/-- **The brackets of a template**: where it is read as it is meant, the loop ends at the end
of the template. -/
theorem matchNests_run (enough : gs.length < fuel) (ends : tail = [] ∨ ∃ rest, tail = 0x7c :: rest)
    (steady : TemplateSteady last literal (g :: gs) subval) :
    matchNests exprMatchFlat fuel (literal ++ (groupsText (g :: gs) ++ tail))
        (strchrP (literal ++ (groupsText (g :: gs) ++ tail)) [] 0x7c)
        (groupsText (g :: gs) ++ tail) subval =
      match walkTemplate literal (g :: gs) subval with
      | none => .failed (strchrP tail [] 0x7c)
      | some (literal, rest) => .passed (literal ++ tail) (strchrP tail [] 0x7c) rest := by
  induction gs generalizing literal g fuel subval with
  | nil =>
    obtain ⟨fuel, rfl⟩ : ∃ n, fuel = n + 1 := ⟨fuel - 1, by omega⟩
    rw [matchNests_turn fuel steady, walkTemplate]
    dsimp only
    split
    · rw [next_nest g.literal_unmarked [] ends, bar_behind g.literal_unmarked (by simp)]
      rfl
    · rfl
  | cons h gs ih =>
    obtain ⟨fuel, rfl⟩ : ∃ n, fuel = n + 1 := ⟨fuel - 1, by omega⟩
    rw [matchNests_turn fuel steady, walkTemplate]
    dsimp only
    have goes := steady.2
    split
    · next on =>
        rw [if_pos on] at goes
        rw [next_nest g.literal_unmarked (h :: gs) ends]
        exact ih (Nat.lt_of_succ_lt_succ enough) goes
    · rfl

theorem TemplateSteady.last_of_walk {left : Bytes × Bytes}
    (steady : TemplateSteady last literal gs value)
    (walk : walkTemplate literal gs value = some left) : last = true := by
  induction gs generalizing literal value with
  | nil => exact steady
  | cons g gs ih =>
    have goes := steady.2
    rw [walkTemplate] at walk
    split at walk
    · next on =>
        rw [if_pos on] at goes
        exact ih goes walk
    · cases walk

theorem walkTemplate_length {left : Bytes × Bytes}
    (walk : walkTemplate literal gs value = some left) :
    left.2.length ≤ value.length := by
  induction gs generalizing literal value with
  | nil =>
    cases walk
    exact Nat.le_refl _
  | cons g gs ih =>
    rw [walkTemplate] at walk
    split at walk
    · exact (ih walk).trans (by rw [length_drop]; exact Nat.sub_le _ _)
    · cases walk

/-- A `|` at the very beginning is not found in a template. -/
theorem template_start {first : Bytes} (unmarked : Unmarked first) (g : Group)
    (gs : List Group) (tail : Bytes) :
    ¬ (strchrP (first ++ (groupsText (g :: gs) ++ tail)) [] 0x7c =
        some (first ++ (groupsText (g :: gs) ++ tail)) ∨
      first ++ (groupsText (g :: gs) ++ tail) = []) := by
  rw [groupsText_cons]
  generalize joinBar g.alternatives ++ 0x5d :: (g.literal ++ (groupsText gs ++ tail)) = inner
  have skipped : strchrP (first ++ [0x5b] ++ inner) [] 0x7c = strchrP inner [] 0x7c :=
    strchrP_skip _ _ (by simp [unmarked.1])
  rintro (start | empty)
  · rw [← singleton_append, ← append_assoc, skipped] at start
    have le := strchrP_length_le start
    simp only [length_append, length_singleton] at le
    omega
  · exact absurd empty (by simp)

theorem length_groupsText (gs : List Group) : gs.length ≤ (groupsText gs).length := by
  induction gs with
  | nil => exact Nat.le_refl _
  | cons g gs ih =>
    simp only [groupsText, length_cons, length_append]
    omega

/-- The turn for a template that is read as it is meant -/
theorem matchTurn_template {first : Bytes} (unmarked : Unmarked first)
    (ends : tail = [] ∨ ∃ rest, tail = 0x7c :: rest) (isLast : last = true → tail = [])
    (steady : TemplateSteady last first (g :: gs) val) :
    matchTurn true exprMatchFlat val val.length (first ++ (groupsText (g :: gs) ++ tail)) =
      if (walkTemplate first (g :: gs) val).any fun (literal, rest) => rest = literal then .matched
      else .next (strchrP tail [] 0x7c) val.length := by
  have enough : gs.length < (first ++ (groupsText (g :: gs) ++ tail)).length + 1 := by
    have le := length_groupsText (g :: gs)
    simp only [length_append, length_cons] at le ⊢
    omega
  have run := matchNests_run enough ends steady
  have nest := next_nest unmarked (g :: gs) ends
  unfold matchTurn
  dsimp only at nest ⊢
  rw [if_neg fun h => template_start unmarked g gs tail h.2]
  simp only [nest, Option.isNone_some, Bool.false_eq_true, and_false, if_false, run]
  cases walk : walkTemplate first (g :: gs) val with
  | none => rfl
  | some left =>
    obtain ⟨literal, rest⟩ := left
    have none : tail = [] := isLast (steady.last_of_walk walk)
    have le : rest.length ≤ val.length := walkTemplate_length walk
    have left : val.length - (val.length - rest.length) = rest.length := by omega
    subst none
    dsimp only
    rw [append_nil, left]
    have same : (val.length - rest.length ≤ val.length ∧ literal.length = rest.length ∧
        strncmp rest.length rest literal = .eq) ↔ rest = literal := by
      rw [strncmp_eq_iff, take_length]
      constructor
      · rintro ⟨-, lengths, texts⟩
        rw [← lengths, take_length] at texts
        exact texts
      · rintro rfl
        exact ⟨Nat.sub_le _ _, rfl, take_length.symm⟩
    simp only [same, Option.any_some, decide_eq_true_eq]

/-- **The loop over the alternatives**, where they are read as they are meant -/
theorem matchLoop_alternatives {alternatives : List Alternative} (nonempty : alternatives ≠ [])
    (allowed : ∀ a ∈ alternatives, a.allowed doNested = true) (enough : alternatives.length ≤ fuel)
    (steady : AlternativesSteady val alternatives) :
    matchLoop doNested exprMatchFlat val fuel val.length
        (joinBar (alternatives.map Alternative.text)) =
      some (alternatives.any (Alternative.matches val)) := by
  induction alternatives generalizing fuel with
  | nil => exact absurd rfl nonempty
  | cons a rest ih =>
    obtain ⟨fuel, rfl⟩ : ∃ n, fuel = n + 1 := ⟨fuel - 1, by simp at enough; omega⟩
    have allowedRest : ∀ a ∈ rest, a.allowed doNested = true := fun a mem =>
      allowed a (mem_cons_of_mem _ mem)
    have enoughRest : rest.length ≤ fuel := Nat.le_of_succ_le_succ enough
    cases a with
    | plain text unmarked =>
      cases rest with
      | nil =>
        rw [map_singleton, joinBar, Alternative.text, matchLoop_plain_last unmarked,
          take_length]
        simp [Alternative.matches]
      | cons b rest =>
        rw [map_cons, map_cons, joinBar, Alternative.text,
          matchLoop_plain unmarked, take_length, any_cons, Alternative.matches]
        by_cases matched : matchPlain val text = true
        · rw [if_pos matched, matched, Bool.true_or]
        · obtain ⟨bare, steadyRest⟩ :=
            (steady.resolve_left matched).resolve_left (cons_ne_nil _ _)
          rw [if_neg matched, Bool.eq_false_iff.mpr matched, Bool.false_or,
            comparedValue_of_not_padded bare, ← map_cons]
          exact ih (cons_ne_nil _ _) allowedRest enoughRest steadyRest
    | template first unmarked g gs =>
      obtain ⟨steadyHere, steadyRest⟩ := steady
      have nested : doNested = true := allowed _ mem_cons_self
      subst nested
      rw [any_cons, Alternative.matches]
      cases rest with
      | nil =>
        have turn := matchTurn_template unmarked (.inl rfl) (fun _ => rfl) steadyHere
        rw [append_nil] at turn
        rw [map_singleton, joinBar, Alternative.text, matchLoop, turn]
        generalize Option.any _ (walkTemplate first (g :: gs) val) = yes
        cases yes with
        | true => rfl
        | false => rfl
      | cons b rest =>
        have turn := matchTurn_template unmarked
          (.inr ⟨joinBar ((b :: rest).map Alternative.text), rfl⟩)
          (fun absurd => by cases absurd) steadyHere
        rw [map_cons, map_cons, joinBar, Alternative.text, append_assoc,
          ← map_cons, matchLoop, turn]
        have found : strchrP (0x7c :: joinBar ((b :: rest).map Alternative.text)) [] 0x7c =
            some (0x7c :: joinBar ((b :: rest).map Alternative.text)) :=
          strchrP_found (not_mem_nil : (0x7c : UInt8) ∉ [])
        rw [found]
        generalize Option.any _ (walkTemplate first (g :: gs) val) = yes
        cases yes with
        | true => rfl
        | false =>
          rw [Bool.false_or]
          exact ih (cons_ne_nil _ _) allowedRest enoughRest steadyRest

/-- A value as it is compared with one alternative without brackets: numbers as such, without
regard to leading zeros, and anything that does not begin with a hex digit as text -/
structure ComparesNumbers : Prop where
  number : ∀ n m : HexNumber, matchPlain n.digits m.digits = true ↔ n.value = m.value
  above : ∀ n m : HexNumber, matchPlain n.digits (0x3e :: m.digits) = true ↔ m.value < n.value
  below : ∀ n m : HexNumber, matchPlain n.digits (0x3c :: m.digits) = true ↔ n.value < m.value
  between : ∀ n low high : HexNumber,
    matchPlain n.digits (low.digits ++ 0x2d :: high.digits) = true ↔
      low.value ≤ n.value ∧ n.value ≤ high.value
  literal : ∀ value text : Bytes, startsHex value = false →
    (matchPlain value text = true ↔ value = text)

theorem comparesNumbers : ComparesNumbers where
  number n m := n.match_number m
  above n m := n.match_above m
  below n m := n.match_below m
  between n low high := n.match_between low high
  literal value text plain := by
    have text_only : matchPlain value text =
        (decide (value.length = text.length) && (strncmp value.length text value).isEq) := by
      unfold matchPlain
      rw [if_neg (by rw [plain]; exact Bool.false_ne_true)]
    rw [text_only, sameText_iff]

/-- **Alternatives**: where they are read as they are meant, an expression matches if and only
if one of its alternatives does on its own. -/
theorem expr_match_alternatives {doNested : Bool} (v : CString) (e : Expression doNested)
    (steady : AlternativesSteady v.bytes e.alternatives) :
    exprMatch v.bytes 0 e.text 0 doNested =
        some (e.alternatives.any (Alternative.matches v.bytes)) ∧ ComparesNumbers := by
  refine ⟨?_, comparesNumbers⟩
  have enough : e.alternatives.length ≤ e.text.length + 1 := by
    have le := length_joinBar (e.alternatives.map Alternative.text)
    rwa [length_map] at le
  have run := matchLoop_alternatives e.nonempty e.allowed enough steady
  unfold exprMatch
  dsimp only
  rw [if_pos rfl, if_pos rfl]
  by_cases empty : e.text.length = 0
  · have text : e.text = [] := length_eq_zero_iff.mp empty
    have nothing : Unmarked [] := by decide
    rw [← Expression.text, text, length_nil, matchLoop_plain_last nothing, take_length,
      matchPlain_empty] at run
    rw [if_pos empty]
    exact run
  · rw [if_neg empty, take_length]
    exact run

/-- `X|M[1|A]S` -/
def textOrTemplate : Expression true where
  alternatives := [.plain (ascii "X") (by decide), .template (ascii "M") (by decide)
    ⟨[ascii "1", ascii "A"], ascii "S", by decide, by decide⟩ []]
  nonempty := by simp
  allowed := by simp [Alternative.allowed]

/-- The value `MAS` -/
def templateValue : CString := ⟨ascii "MAS", by decide⟩

theorem expr_match_textOrTemplate :
    exprMatch templateValue.bytes 0 textOrTemplate.text 0 true = some true := by
  have steady : AlternativesSteady templateValue.bytes textOrTemplate.alternatives := by
    refine .inr (.inr ⟨fun padded => ?_, ⟨⟨fun _ _ => .inl fun padded => ?_, ?_⟩, trivial⟩⟩)
    · exact absurd padded.1 (by decide)
    · exact absurd padded.1 (by decide)
    · rw [if_pos (by decide)]
      rfl
  rw [(expr_match_alternatives templateValue textOrTemplate steady).1]
  decide

/-- `1|A` -/
def twoNumbers : Expression true where
  alternatives := [.plain (ascii "1") (by decide), .plain (ascii "A") (by decide)]
  nonempty := by simp
  allowed := by simp [Alternative.allowed]

/-- `M[1]S|X` -/
def templateFirst : Expression true where
  alternatives := [.template (ascii "M") (by decide)
    ⟨[ascii "1"], ascii "S", by decide, by decide⟩ [], .plain (ascii "X") (by decide)]
  nonempty := by simp
  allowed := by simp [Alternative.allowed]

/-- `M[1|2]S[3|4|5]` -/
def twoGroups : Expression true where
  alternatives := [.template (ascii "M") (by decide)
    ⟨[ascii "1", ascii "2"], ascii "S", by decide, by decide⟩
    [⟨[ascii "3", ascii "4", ascii "5"], [], by decide, by decide⟩]]
  nonempty := by simp
  allowed := by simp [Alternative.allowed]

/-- A second alternative is compared with a cut value, a template that others follow never
matches, and the middle of a later group matches like an alternative. -/
theorem alternatives_disturbed :
    (twoNumbers.alternatives.any (Alternative.matches (ascii "0A")) = true ∧
      exprMatch (ascii "0A") 0 twoNumbers.text 0 true = some false) ∧
    (templateFirst.alternatives.any (Alternative.matches (ascii "M1S")) = true ∧
      exprMatch (ascii "M1S") 0 templateFirst.text 0 true = some false) ∧
    (twoGroups.alternatives.any (Alternative.matches (ascii "4")) = false ∧
      exprMatch (ascii "4") 0 twoGroups.text 0 true = some true) := by
  decide

end Nmap.OsScan
