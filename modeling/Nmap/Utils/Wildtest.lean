import Nmap.Base.Along
import Nmap.Base.Cursor

/-!
# Wildcards (`utils.cc`)

`wildtest` goes along a pattern and a text. At a star it tries the rest of the pattern at every
character of the text, and counts these in an `int`. `wildtest_iff` says when this is matching.
-/

namespace Nmap.Utils

open Nmap.Base Nmap.Base.Cursor List

set_option maxRecDepth 4000

/-! ## The function -/

def toLower (c : UInt8) : UInt8 := if 0x41 ≤ c && c ≤ 0x5a then c + 0x20 else c

/-- `*` -/
def star : UInt8 := 0x2a

/-- `?` -/
def question : UInt8 := 0x3f

def intMax : Nat := 2 ^ 31 - 1

/-- What goes wrong -/
inductive WildFault
  /-- A read behind the end of the pattern -/
  | wild (i : Nat)
  /-- A read behind the end of the text -/
  | test (i : Nat)
  /-- `i++` where `i` is `INT_MAX` -/
  | overflow
  | stuck
  deriving DecidableEq

/-- The loop over `test[i]`. `e` is `wild[1]`, and `rest` calls `wildtest` for `wild + 1`. -/
def tryEach (test : Bytes) (e : UInt8) (rest : Nat → Except WildFault Bool) (t : Nat) :
    Nat → Nat → Except WildFault Bool
  | 0, _ => .error .stuck
  | turns + 1, i => do
    let d ← charAt .test test (t + i)
    if d = 0 then .ok false
    else do
      let found ← (if toLower e = toLower d ∨ e = question then rest (t + i) else .ok false)
      if found then .ok true
      else if i = intMax then .error .overflow
      else tryEach test e rest t turns (i + 1)

/-- `wildtest`, with so many turns of its loop at most -/
def wildtestAt (wild test : Bytes) : Nat → Nat → Nat → Except WildFault Bool
  | 0, _, _ => .error .stuck
  | turns + 1, w, t => do
    let c ← charAt .wild wild w
    let d ← charAt .test test t
    if c = 0 && d = 0 then .ok (toLower c = toLower d)
    else if c = star then do
      -- `wild[1]`, behind all stars
      let next ← skipWhile .wild .stuck wild (· = star) (wild.length + 1) (w + 1)
      let e ← charAt .wild wild next
      if e = 0 then .ok true
      else tryEach test e (wildtestAt wild test turns next) t (test.length + 1) 0
    else if c = question && d = 0 then .ok false
    else if c ≠ question && toLower c ≠ toLower d then .ok false
    else wildtestAt wild test turns (w + 1) (t + 1)

def wildtest (wild test : CString) : Except WildFault Bool :=
  wildtestAt wild.bytes test.bytes (wild.bytes.length + 1) 0 0

/-! ## What it should do -/

/-- What a character of a pattern stands for -/
def StandsFor (c : UInt8) (part : Bytes) : Prop :=
  c = star ∨ ∃ d, part = [d] ∧ (c = question ∨ toLower c = toLower d)

/-- The text can be cut as the pattern says. -/
def Matches (wild test : Bytes) : Prop := Along StandsFor wild test

/-- A star is come to behind which so many characters are tried, and none of them begins what the
rest of the pattern matches, that they cannot be counted. -/
inductive Overlong : Bytes → Bytes → Prop
  | char {c d : UInt8} {wild test : Bytes} (plain : c ≠ star)
      (same : c = question ∨ toLower c = toLower d) (behind : Overlong wild test) :
      Overlong (c :: wild) (d :: test)
  | stars {wild test : Bytes} (one : Overlong (star :: wild) test) :
      Overlong (star :: star :: wild) test
  | far {e : UInt8} {wild test : Bytes} (plain : e ≠ star) (long : intMax < test.length)
      (none : ∀ k ≤ intMax, ¬ Matches (e :: wild) (test.drop k)) : Overlong (star :: e :: wild) test
  | later {e : UInt8} {wild test : Bytes} {k : Nat} (plain : e ≠ star) (counted : k ≤ intMax)
      (none : ∀ j < k, ¬ Matches (e :: wild) (test.drop j))
      (inside : Overlong (e :: wild) (test.drop k)) : Overlong (star :: e :: wild) test

/-! ## Patterns -/

variable {c d e : UInt8} {wild test : Bytes}

theorem standsFor_star (part : Bytes) : StandsFor star part := .inl rfl

theorem standsFor_plain (plain : c ≠ star) (part : Bytes) :
    StandsFor c part ↔ ∃ d, part = [d] ∧ (c = question ∨ toLower c = toLower d) :=
  or_iff_right plain

theorem matches_plain (plain : c ≠ star) :
    Matches (c :: wild) test ↔
      ∃ d rest, test = d :: rest ∧ (c = question ∨ toLower c = toLower d) ∧ Matches wild rest :=
  Along.one_iff (standsFor_plain plain)

theorem matches_plain_nil (plain : c ≠ star) : ¬ Matches (c :: wild) [] := by
  rw [matches_plain plain]
  rintro ⟨d, rest, none, -⟩
  cases none

theorem matches_plain_cons (plain : c ≠ star) :
    Matches (c :: wild) (d :: test) ↔ (c = question ∨ toLower c = toLower d) ∧
      Matches wild test := by
  rw [matches_plain plain]
  constructor
  · rintro ⟨d, rest, same, here, behind⟩
    cases same
    exact ⟨here, behind⟩
  · rintro ⟨here, behind⟩
    exact ⟨d, test, rfl, here, behind⟩

theorem matches_star : Matches (star :: wild) test ↔ ∃ k, Matches wild (test.drop k) := by
  refine (Along.star_iff standsFor_star).trans ?_
  constructor
  · rintro ⟨rest, suffix, along⟩
    rw [suffix_iff_eq_drop.mp suffix] at along
    exact ⟨_, along⟩
  · rintro ⟨k, along⟩
    exact ⟨test.drop k, drop_suffix k test, along⟩

theorem matches_stars : Matches (star :: wild) test ↔
    Matches (star :: wild.dropWhile (· = star)) test := by
  induction wild with
  | nil => rfl
  | cons c wild ih =>
    by_cases isStar : c = star
    · rw [isStar, dropWhile_cons_of_pos (by simp), ← ih]
      exact Along.star_star_iff standsFor_star
    · rw [dropWhile_cons_of_neg (by simpa using isStar)]

theorem overlong_stars : Overlong (star :: wild) test ↔
    Overlong (star :: wild.dropWhile (· = star)) test := by
  induction wild with
  | nil => rfl
  | cons c wild ih =>
    by_cases isStar : c = star
    · rw [isStar, dropWhile_cons_of_pos (by simp), ← ih]
      constructor
      · intro long
        cases long with
        | char plain => exact absurd rfl plain
        | stars one => exact one
        | far plain => exact absurd rfl plain
        | later plain => exact absurd rfl plain
      · exact .stars
    · rw [dropWhile_cons_of_neg (by simpa using isStar)]

theorem overlong_plain_nil (plain : c ≠ star) : ¬ Overlong (c :: wild) [] := by
  intro long
  cases long
  · exact plain rfl
  · exact plain rfl
  · exact plain rfl

theorem overlong_plain_cons (plain : c ≠ star) :
    Overlong (c :: wild) (d :: test) ↔ (c = question ∨ toLower c = toLower d) ∧
      Overlong wild test := by
  constructor
  · intro long
    cases long with
    | char plain same behind => exact ⟨same, behind⟩
    | stars one => exact absurd rfl plain
    | far => exact absurd rfl plain
    | later => exact absurd rfl plain
  · rintro ⟨same, behind⟩
    exact .char plain same behind

/-! ## The loop at a star -/

/-- What a call returns for a pattern and a text: whether they match, if it does not count too
far. -/
def Answers (wild test : Bytes) (r : Except WildFault Bool) : Prop :=
  r = .error .overflow ∧ Overlong wild test ∨
    ∃ found, r = .ok found ∧ (found = true ↔ Matches wild test) ∧ ¬ Overlong wild test

/-- No place up to this one begins a match, or counts too far. -/
structure Tried (e : UInt8) (wild test : Bytes) (i : Nat) : Prop where
  none : ∀ j < i, ¬ Matches (e :: wild) (test.drop j)
  short : ∀ j < i, ¬ Overlong (e :: wild) (test.drop j)

variable {i : Nat}

theorem Tried.succ (tried : Tried e wild test i) (none : ¬ Matches (e :: wild) (test.drop i))
    (short : ¬ Overlong (e :: wild) (test.drop i)) :
    Tried e wild test (i + 1) := by
  constructor
  · intro j less
    rcases Nat.lt_succ_iff_lt_or_eq.mp less with earlier | rfl
    · exact tried.none j earlier
    · exact none
  · intro j less
    rcases Nat.lt_succ_iff_lt_or_eq.mp less with earlier | rfl
    · exact tried.short j earlier
    · exact short

theorem Tried.answers_false (plain : e ≠ star) (tried : Tried e wild test i) (counted : i ≤ intMax)
    (ends : test.drop i = []) :
    Answers (star :: e :: wild) test (.ok false) := by
  have short := drop_eq_nil_iff.mp ends
  have behind : ∀ j, i ≤ j → test.drop j = [] :=
    fun j le => drop_eq_nil_of_le (Nat.le_trans short le)
  refine .inr ⟨false, rfl, ?_, ?_⟩
  · refine iff_of_false Bool.false_ne_true fun along => ?_
    obtain ⟨k, along⟩ := matches_star.mp along
    rcases Nat.lt_or_ge k i with earlier | le
    · exact tried.none k earlier along
    · rw [behind k le] at along
      exact matches_plain_nil plain along
  · intro long
    cases long with
    | char no => exact no rfl
    | stars => exact plain rfl
    | far _ long => omega
    | @later _ _ _ k _ _ _ inside =>
      rcases Nat.lt_or_ge k i with earlier | le
      · exact tried.short k earlier inside
      · rw [behind k le] at inside
        exact overlong_plain_nil plain inside

theorem Tried.answers_true (plain : e ≠ star) (tried : Tried e wild test i) (counted : i ≤ intMax)
    (here : Matches (e :: wild) (test.drop i)) (short : ¬ Overlong (e :: wild) (test.drop i)) :
    Answers (star :: e :: wild) test (.ok true) := by
  refine .inr ⟨true, rfl, iff_of_true rfl (matches_star.mpr ⟨i, here⟩), fun long => ?_⟩
  cases long with
  | char no => exact no rfl
  | stars => exact plain rfl
  | far _ _ none => exact none i counted here
  | @later _ _ _ k _ _ none inside =>
    rcases Nat.lt_trichotomy k i with earlier | rfl | after
    · exact tried.short k earlier inside
    · exact short inside
    · exact none i after here

theorem Tried.answers_overflow (plain : e ≠ star) (tried : Tried e wild test (intMax + 1))
    (long : intMax < test.length) :
    Answers (star :: e :: wild) test (.error .overflow) :=
  .inl ⟨rfl, .far plain long fun k counted => tried.none k (Nat.lt_succ_of_le counted)⟩

/-- The loop, from some place on -/
theorem tryEach_answers {text : Bytes} {t : Nat} {rest : Nat → Except WildFault Bool}
    (terminated : 0 ∉ test) (plain : e ≠ star) (here : At text t test)
    (calls : ∀ i, At text (t + i) (test.drop i) → Answers (e :: wild) (test.drop i) (rest (t + i)))
    (turns : Nat) :
    ∀ i, Tried e wild test i → i ≤ intMax → i ≤ test.length → test.length < turns + i →
      Answers (star :: e :: wild) test (tryEach text e rest t turns i) := by
  induction turns with
  | zero =>
    intro i _ _ inside enough
    omega
  | succ turns ih =>
    intro i tried counted inside enough
    have there : At text (t + i) (test.drop i) := by
      rw [← take_append_drop i test] at here
      have moved := here.append
      rwa [length_take, Nat.min_eq_left inside] at moved
    rw [tryEach, there.charAt_eq, ok_bind]
    cases left : test.drop i with
    | nil =>
      rw [headD_nil, if_pos rfl]
      exact tried.answers_false plain counted left
    | cons d tail =>
      have nonzero : d ≠ 0 := by
        rintro rfl
        refine terminated (mem_of_mem_drop (i := i) ?_)
        rw [left]
        exact mem_cons_self
      have more : i < test.length := by
        by_contra beyond
        rw [drop_eq_nil_of_le (Nat.le_of_not_lt beyond)] at left
        cases left
      -- what is left to do where no match begins
      have goOn : ¬ Matches (e :: wild) (test.drop i) → ¬ Overlong (e :: wild) (test.drop i) →
          Answers (star :: e :: wild) test
            (if i = intMax then .error .overflow else tryEach text e rest t turns (i + 1)) := by
        intro none short
        have next := tried.succ none short
        by_cases last : i = intMax
        · rw [if_pos last]
          rw [last] at next more
          exact next.answers_overflow plain more
        · rw [if_neg last]
          exact ih (i + 1) next (by omega) more (by omega)
      rw [headD_cons, if_neg nonzero]
      by_cases candidate : toLower e = toLower d ∨ e = question
      · rw [if_pos candidate]
        rcases calls i there with ⟨fault, long⟩ | ⟨found, answer, matched, short⟩
        · rw [fault]
          exact .inl ⟨rfl, .later plain counted tried.none long⟩
        · rw [answer, ok_bind]
          cases found with
          | true => exact tried.answers_true plain counted (matched.mp rfl) short
          | false => exact goOn (fun along => Bool.false_ne_true (matched.mpr along)) short
      · rw [if_neg candidate, ok_bind]
        have other : ¬ (e = question ∨ toLower e = toLower d) := fun same =>
          candidate same.symm
        refine goOn ?_ ?_
        · rw [left, matches_plain_cons plain]
          exact fun both => other both.1
        · rw [left, overlong_plain_cons plain]
          exact fun both => other both.1

/-! ## The function is matching -/

theorem toLower_zero (d : UInt8) : toLower d = toLower 0 → d = 0 := by
  revert d
  exact forall_byte (by decide +kernel)

theorem answers_nil : Answers [] test (.ok (decide (test = []))) := by
  refine .inr ⟨_, rfl, ?_, fun long => by cases long⟩
  rw [decide_eq_true_eq]
  exact Along.nil_iff.symm

theorem answers_other (plain : c ≠ star) (other : ¬ (c = question ∨ toLower c = toLower d)) :
    Answers (c :: wild) (d :: test) (.ok false) := by
  refine .inr ⟨false, rfl, iff_of_false Bool.false_ne_true ?_, ?_⟩
  · rw [matches_plain_cons plain]
    exact fun both => other both.1
  · rw [overlong_plain_cons plain]
    exact fun both => other both.1

theorem Answers.cons {r : Except WildFault Bool} (plain : c ≠ star)
    (same : c = question ∨ toLower c = toLower d) (behind : Answers wild test r) :
    Answers (c :: wild) (d :: test) r := by
  unfold Answers
  rw [matches_plain_cons plain, overlong_plain_cons plain, and_iff_right same, and_iff_right same]
  exact behind

theorem Answers.star {r : Except WildFault Bool}
    (one : Answers (star :: wild.dropWhile (· = Utils.star)) test r) :
    Answers (Utils.star :: wild) test r := by
  unfold Answers
  rw [matches_stars, overlong_stars]
  exact one

theorem wildtestAt_answers {pattern text : Bytes} (terminated : 0 ∉ pattern)
    (terminated' : 0 ∉ text) (turns : Nat) :
    ∀ {w t : Nat} {wild test : Bytes}, At pattern w wild → At text t test → wild.length < turns →
      Answers wild test (wildtestAt pattern text turns w t) := by
  induction turns with
  | zero => exact fun _ _ enough => absurd enough (Nat.not_lt_zero _)
  | succ turns ih =>
    intro w t wild test atWild atTest enough
    rw [wildtestAt, atWild.charAt_eq, ok_bind, atTest.charAt_eq, ok_bind]
    cases wild with
    | nil =>
      cases test with
      | nil => exact answers_nil
      | cons d test =>
        have nonzero := atTest.nonzero terminated'
        have other : toLower 0 ≠ toLower d := fun same => nonzero (toLower_zero d same.symm)
        rw [headD_nil, headD_cons, if_neg (by simp [nonzero]), if_neg (by decide),
          if_neg (by simp [nonzero]), if_pos (by simpa [question] using other)]
        exact answers_nil
    | cons c wild =>
      have some_char := atWild.nonzero terminated
      rw [headD_cons, if_neg (by simp [some_char])]
      by_cases isStar : c = star
      · rw [if_pos isStar, isStar]
        have shorter_wild : wild.length < pattern.length + 1 := by
          have whole := atWild.length
          rw [length_cons] at whole
          omega
        obtain ⟨next, skipped, there, -⟩ := skipWhile_spec WildFault.wild .stuck
          (p := (· = star)) (by decide) atWild.succ shorter_wild
        rw [skipped, ok_bind, there.charAt_eq, ok_bind]
        apply Answers.star
        have shorter := (dropWhile_suffix (· = star) (l := wild)).length_le
        have head := List.head?_dropWhile_not (· = star) wild
        cases left : wild.dropWhile (· = star) with
        | nil =>
          rw [headD_nil, if_pos rfl]
          exact .inr ⟨true, rfl, iff_of_true rfl (Along.star_last standsFor_star),
            fun long => by cases long with | char no => exact no rfl⟩
        | cons e tail =>
          rw [left] at there head shorter
          have plain : e ≠ star := by simpa using head
          rw [headD_cons, if_neg (there.nonzero terminated)]
          refine tryEach_answers (atTest.zero_not_mem terminated') plain atTest
            (fun i here => ih there here ?_) (text.length + 1) 0 ⟨?_, ?_⟩ (Nat.zero_le _)
            (Nat.zero_le _) ?_
          · rw [length_cons] at enough
            omega
          · exact fun j less => absurd less (Nat.not_lt_zero j)
          · exact fun j less => absurd less (Nat.not_lt_zero j)
          · have := atTest.length
            omega
      · rw [if_neg isStar]
        cases test with
        | nil =>
          have none : Answers (c :: wild) [] (.ok false) :=
            .inr ⟨false, rfl, iff_of_false Bool.false_ne_true (matches_plain_nil isStar),
              overlong_plain_nil isStar⟩
          rw [headD_nil]
          by_cases any : c = question
          · rw [if_pos (by simp [any])]
            exact none
          · have other : toLower c ≠ toLower 0 := fun same =>
              some_char (toLower_zero c same)
            rw [if_neg (by simp [any]), if_pos (by simp [any, other])]
            exact none
        | cons d test =>
          have nonzero := atTest.nonzero terminated'
          rw [headD_cons, if_neg (by simp [nonzero])]
          by_cases same : c = question ∨ toLower c = toLower d
          · rw [if_neg (by simp only [Bool.and_eq_true, decide_eq_true_eq]; tauto)]
            refine Answers.cons isStar same (ih atWild.succ atTest.succ ?_)
            rw [length_cons] at enough
            omega
          · rw [if_pos (by simp only [Bool.and_eq_true, decide_eq_true_eq]; tauto)]
            exact answers_other isStar same

theorem wildtest_answers (wild test : CString) :
    Answers wild.bytes test.bytes (wildtest wild test) :=
  wildtestAt_answers wild.nonzero test.nonzero (wild.bytes.length + 1) (At.start wild.bytes)
    (At.start test.bytes) (Nat.lt_succ_self _)

/-- `*b` -/
def anyThenB : CString := ⟨[star, 0x62], by decide⟩

/-- So many `a` -/
def manyA (n : Nat) : CString where
  bytes := List.replicate n 0x61
  nonzero mem := absurd (eq_of_mem_replicate mem) (by decide)

theorem overlong_manyA : Overlong anyThenB.bytes (manyA (intMax + 1)).bytes := by
  refine .far (by decide) ?_ fun k _ => ?_
  · rw [manyA, length_replicate]
    exact Nat.lt_succ_self intMax
  · rw [manyA, drop_replicate, matches_plain (by decide)]
    rintro ⟨d, rest, whole, same, -⟩
    have isA : d = 0x61 := eq_of_mem_replicate (by rw [whole]; exact mem_cons_self)
    rw [isA] at same
    exact absurd same (by decide)

end Nmap.Utils
