import Nmap.Base.CString
import Nmap.Ncat.HttpHeader

/-!
# Command lines (`ncat_posix.c`)

`cmdline_split` goes over a command line twice: it counts the words to know how much memory it
needs, and then copies them. A backslash escapes one character. White space behind an escaped
character is skipped inside the word, so a word that ends in escaped white space goes on with the
next one (`cmdlineSplit_iff`).
-/

namespace Nmap.Ncat.CommandLine

open Nmap.Base List

/-! ## The function -/

/-- `while ('\0' != *ptr && isspace(*ptr)) ptr++` -/
def skipSpace (ptr : Bytes) : Bytes := ptr.dropWhile isSpace

theorem skipSpace_le (ptr : Bytes) : (skipSpace ptr).length ≤ ptr.length :=
  (dropWhile_suffix isSpace).length_le

/-- The first pass: `max_tokens` -/
def maxTokens (ptr : Bytes) : Nat :=
  match _next : skipSpace ptr with
  | [] => 0
  | c :: s => maxTokens (s.dropWhile fun c => !isSpace c) + 1
termination_by ptr.length
decreasing_by
  have skipped := skipSpace_le ptr
  have word := (dropWhile_suffix (fun c => !isSpace c) (l := s)).length_le
  rw [_next, length_cons] at skipped
  omega

/-- The loop that copies a word, with `cur_arg` up to `ptr_idx`, and where it stops -/
def copyWord (ptr curArg : Bytes) : Bytes × Bytes :=
  match ptr with
  | [] => (curArg, [])
  | c :: s =>
    if isSpace c then (curArg, c :: s)
    else if c = backslash then
      match s with
      | [] => (curArg, [])
      | d :: s =>
        if d ≠ backslash then copyWord (skipSpace s) (curArg ++ [d])
        else copyWord s (curArg ++ [d])
    else copyWord s (curArg ++ [c])
termination_by ptr.length
decreasing_by
  · have skipped := skipSpace_le s
    simp only [length_cons]
    omega
  · simp only [length_cons]
    omega
  · exact Nat.lt_succ_self _

theorem copyWord_rest (ptr curArg : Bytes) :
    (copyWord ptr curArg).2 <:+ ptr ∧ ∀ c ∈ (copyWord ptr curArg).2.head?, isSpace c = true := by
  fun_induction copyWord ptr curArg with
  | case1 => exact ⟨suffix_refl _, nofun⟩
  | case2 curArg c s blank =>
    refine ⟨suffix_refl _, ?_⟩
    intro d head
    cases head
    exact blank
  | case3 => exact ⟨nil_suffix, nofun⟩
  | case4 curArg d s other blank ih =>
    have skipped : skipSpace s <:+ s := dropWhile_suffix isSpace
    exact ⟨ih.1.trans (skipped.trans ((suffix_cons d s).trans (suffix_cons _ _))),
      ih.2⟩
  | case5 curArg d s other blank ih =>
    exact ⟨ih.1.trans ((suffix_cons d s).trans (suffix_cons _ _)), ih.2⟩
  | case6 curArg c s blank other ih => exact ⟨ih.1.trans (suffix_cons c s), ih.2⟩

variable {s : Bytes} {c : UInt8}

theorem skipSpace_head {ptr : Bytes} (next : skipSpace ptr = c :: s) :
    isSpace c = false := by
  have first := List.head?_dropWhile_not isSpace ptr
  rw [show ptr.dropWhile isSpace = c :: s from next] at first
  exact first

theorem copyWord_shorter (first : isSpace c = false) (s curArg : Bytes) :
    (copyWord (c :: s) curArg).2 <:+ s := by
  obtain ⟨suffix, head⟩ := copyWord_rest (c :: s) curArg
  rcases suffix_cons_iff.mp suffix with all | rest
  · rw [all] at head
    rw [head c rfl] at first
    cases first
  · exact rest

/-- The second pass: the words in `cmd_args` -/
def cmdlineSplit (ptr : Bytes) : List Bytes :=
  match _next : skipSpace ptr with
  | [] => []
  | c :: s =>
    let word := copyWord (c :: s) []
    word.1 :: cmdlineSplit word.2
termination_by ptr.length
decreasing_by
  have skipped := skipSpace_le ptr
  have rest := (copyWord_shorter (skipSpace_head _next) s []).length_le
  rw [_next, length_cons] at skipped
  omega

/-! ## What is written -/

/-- A word with a backslash in front of white space and backslashes -/
def escape (w : Bytes) : Bytes :=
  w.flatMap fun c => if isSpace c || c = backslash then [backslash, c] else [c]

/-- The words with single spaces between them -/
def commandLine (words : List Bytes) : Bytes := [space].intercalate (words.map escape)

/-! ## The first pass counts enough -/

/-- The words that begin in a text, behind a word or not -/
def beginnings : Bool → Bytes → Nat
  | _, [] => 0
  | inside, c :: s =>
    if isSpace c then beginnings false s
    else if inside then beginnings true s
    else beginnings true s + 1

attribute [local simp] beginnings in
theorem beginnings_true_le (s : Bytes) : beginnings true s ≤ beginnings false s := by
  cases s with
  | nil => exact Nat.le_refl _
  | cons c s =>
    rw [beginnings, beginnings]
    split
    · exact Nat.le_refl _
    · exact Nat.le_succ _

theorem beginnings_suffix {t : Bytes} (suffix : s <:+ t) :
    beginnings true s ≤ beginnings true t := by
  induction t with
  | nil =>
    rw [suffix_nil.mp suffix]
  | cons c t ih =>
    rcases suffix_cons_iff.mp suffix with all | rest
    · rw [all]
    · have shorter := ih rest
      have more := beginnings_true_le t
      rw [beginnings]
      split
      · omega
      · exact shorter

theorem beginnings_of_head (head : ∀ c ∈ s.head?, isSpace c = true) :
    beginnings false s = beginnings true s := by
  cases s with
  | nil => rfl
  | cons c s => rw [beginnings, beginnings, if_pos (head c rfl), if_pos (head c rfl)]

theorem beginnings_skipSpace (s : Bytes) : beginnings false (skipSpace s) = beginnings false s := by
  induction s with
  | nil => rfl
  | cons c s ih =>
    rw [skipSpace]
    by_cases blank : isSpace c = true
    · rw [dropWhile_cons_of_pos blank, beginnings, if_pos blank]
      exact ih
    · rw [dropWhile_cons_of_neg blank]

theorem beginnings_word (s : Bytes) :
    beginnings true (s.dropWhile fun c => !isSpace c) = beginnings true s := by
  induction s with
  | nil => rfl
  | cons c s ih =>
    by_cases blank : isSpace c = true
    · rw [dropWhile_cons_of_neg (by simp [blank])]
    · rw [dropWhile_cons_of_pos (by simp [blank]), ih, beginnings, if_neg blank, if_pos rfl]

theorem maxTokens_eq (n : Nat) :
    ∀ {s : Bytes}, s.length ≤ n → maxTokens s = beginnings false s := by
  induction n with
  | zero =>
    intro s short
    rw [length_eq_zero_iff.mp (Nat.le_zero.mp short), maxTokens]
    rfl
  | succ n ih =>
    intro s short
    rw [maxTokens, ← beginnings_skipSpace]
    split
    · next none_ => rw [none_]; rfl
    · next c t next =>
        have first := skipSpace_head next
        have skipped := skipSpace_le s
        have word := dropWhile_suffix (fun c => !isSpace c) (l := t)
        have stop : ∀ c ∈ (t.dropWhile fun c => !isSpace c).head?, isSpace c = true := by
          intro d head
          have not := List.head?_dropWhile_not (fun c => !isSpace c) t
          rw [head] at not
          simpa using not
        rw [next, length_cons] at skipped
        rw [next, ih (by have := word.length_le; omega), beginnings_of_head stop, beginnings_word,
          beginnings, if_neg (by simp [first]), if_neg (by simp)]

/-- **No more words are stored than were counted.** -/
theorem cmdlineSplit_length_le (n : Nat) : ∀ {s : Bytes}, s.length ≤ n →
    (cmdlineSplit s).length ≤ beginnings false s := by
  induction n with
  | zero =>
    intro s short
    rw [length_eq_zero_iff.mp (Nat.le_zero.mp short), cmdlineSplit]
    exact Nat.le_refl _
  | succ n ih =>
    intro s short
    rw [cmdlineSplit, ← beginnings_skipSpace]
    split
    · exact Nat.zero_le _
    · next c t next =>
        have first := skipSpace_head next
        have skipped := skipSpace_le s
        have rest := copyWord_shorter first t []
        have stop := (copyWord_rest (c :: t) []).2
        have later := ih (s := (copyWord (c :: t) []).2) (by
          have := rest.length_le
          rw [next, length_cons] at skipped
          omega)
        rw [beginnings_of_head stop] at later
        have counted := beginnings_suffix rest
        rw [next, beginnings, if_neg (by simp [first]), if_neg (by simp), length_cons]
        omega

/-! ## Words that are written and read -/

theorem copyWord_nil (curArg : Bytes) : copyWord [] curArg = (curArg, []) := by rw [copyWord]

theorem copyWord_space (blank : isSpace c = true) (s curArg : Bytes) :
    copyWord (c :: s) curArg = (curArg, c :: s) := by rw [copyWord.eq_def]; exact if_pos blank

theorem copyWord_plain (text : isSpace c = false) (other : c ≠ backslash) (s curArg : Bytes) :
    copyWord (c :: s) curArg = copyWord s (curArg ++ [c]) := by
  rw [copyWord.eq_def]
  dsimp only
  rw [if_neg (by simp [text]), if_neg other]

theorem copyWord_escaped {d : UInt8} (other : d ≠ backslash) (s curArg : Bytes) :
    copyWord (backslash :: d :: s) curArg = copyWord (skipSpace s) (curArg ++ [d]) := by
  rw [copyWord.eq_def]
  dsimp only
  rw [if_neg (by decide), if_pos rfl, if_pos other]

theorem copyWord_backslash (s curArg : Bytes) :
    copyWord (backslash :: backslash :: s) curArg = copyWord s (curArg ++ [backslash]) := by
  rw [copyWord.eq_def]
  dsimp only
  rw [if_neg (by decide), if_pos rfl, if_neg (by simp)]

theorem cmdlineSplit_word {ptr : Bytes} (next : skipSpace ptr = c :: s) :
    cmdlineSplit ptr =
      (copyWord (c :: s) []).1 :: cmdlineSplit (copyWord (c :: s) []).2 := by
  rw [cmdlineSplit]
  split
  · next none_ =>
      rw [next] at none_
      cases none_
  · next c' s' next' =>
      rw [next] at next'
      cases next'
      rfl

def EndsInSpace (w : Bytes) : Prop := ∃ c ∈ w.getLast?, isSpace c = true

instance (w : Bytes) : Decidable (EndsInSpace w) :=
  match _last : w.getLast? with
  | none => isFalse fun ⟨c, mem, _⟩ => by rw [_last] at mem; cases mem
  | some c =>
    if blank : isSpace c = true then isTrue ⟨c, _last, blank⟩
    else isFalse fun ⟨d, mem, space⟩ => by rw [_last] at mem; cases mem; exact blank space

theorem escape_cons (c : UInt8) (w : Bytes) :
    escape (c :: w) = (if isSpace c || c = backslash then [backslash, c] else [c]) ++ escape w :=
  flatMap_cons

variable {w : Bytes}

theorem skipSpace_escape (some_ : w ≠ []) (rest : Bytes) :
    skipSpace (escape w ++ rest) = escape w ++ rest := by
  obtain ⟨c, w, rfl⟩ := exists_cons_of_ne_nil some_
  rw [escape_cons, skipSpace]
  split
  · exact dropWhile_cons_of_neg (by decide)
  · next plain =>
      simp only [Bool.or_eq_true, not_or] at plain
      exact dropWhile_cons_of_neg plain.1

/-- **A word is copied as it was, and if it ends in white space, so is what follows.** -/
theorem copyWord_escape (w rest curArg : Bytes) :
    copyWord (escape w ++ rest) curArg =
      copyWord (if EndsInSpace w then skipSpace rest else rest) (curArg ++ w) := by
  induction w generalizing curArg with
  | nil =>
    rw [if_neg nofun, append_nil]
    rfl
  | cons c w ih =>
    have last : w ≠ [] → (EndsInSpace (c :: w) ↔ EndsInSpace w) := by
      intro some_
      rw [EndsInSpace, List.getLast?_cons_of_ne_nil some_, EndsInSpace]
    have alone : w = [] → (EndsInSpace (c :: w) ↔ isSpace c = true) := by
      intro empty
      subst empty
      simp [EndsInSpace]
    have joined : curArg ++ [c] ++ w = curArg ++ c :: w := by simp
    rw [escape_cons]
    by_cases blank : isSpace c = true
    · have other : c ≠ backslash := by
        intro is
        rw [is] at blank
        cases blank
      rw [if_pos (by simp [blank])]
      show copyWord (backslash :: c :: (escape w ++ rest)) curArg = _
      rw [copyWord_escaped other, ← joined]
      by_cases empty : w = []
      · rw [if_pos ((alone empty).mpr blank), empty, append_nil]
        rfl
      · rw [skipSpace_escape empty, ih, if_congr (last empty) rfl rfl]
    · have ends : (if EndsInSpace w then skipSpace rest else rest) =
          if EndsInSpace (c :: w) then skipSpace rest else rest := by
        by_cases empty : w = []
        · rw [if_neg (fun yes => blank ((alone empty).mp yes)), empty, if_neg nofun]
        · rw [if_congr (last empty) rfl rfl]
      rw [← ends, ← joined]
      by_cases escaped : c = backslash
      · rw [if_pos (by simp [escaped]), escaped]
        show copyWord (backslash :: backslash :: (escape w ++ rest)) curArg = _
        rw [copyWord_backslash, ih]
      · rw [if_neg (by simp [blank, escaped])]
        show copyWord (c :: (escape w ++ rest)) curArg = _
        rw [copyWord_plain (Bool.eq_false_iff.mpr blank) escaped, ih]

/-- The words that are read, with what was copied before: a word that ends in white space goes on
with the next one. -/
def merged (curArg w : Bytes) : List Bytes → List Bytes
  | [] => [curArg ++ w]
  | w' :: ws =>
    if EndsInSpace w then merged (curArg ++ w) w' ws else (curArg ++ w) :: merged [] w' ws

theorem commandLine_cons (w w' : Bytes) (ws : List Bytes) :
    commandLine (w :: w' :: ws) = escape w ++ space :: commandLine (w' :: ws) := by
  rw [commandLine, map_cons, map_cons, intercalate_cons_cons, commandLine,
    map_cons]
  simp

theorem commandLine_single (w : Bytes) : commandLine [w] = escape w := intercalate_singleton

theorem skipSpace_commandLine (some_ : w ≠ []) (ws : List Bytes) :
    skipSpace (commandLine (w :: ws)) = commandLine (w :: ws) := by
  cases ws with
  | nil =>
    have same := skipSpace_escape some_ []
    rwa [append_nil, ← commandLine_single] at same
  | cons w' ws =>
    rw [commandLine_cons]
    exact skipSpace_escape some_ _

theorem commandLine_begins (some_ : w ≠ []) (ws : List Bytes) :
    ∃ c s, commandLine (w :: ws) = c :: s := by
  have escaped : escape w ≠ [] := by
    obtain ⟨c, v, rfl⟩ := exists_cons_of_ne_nil some_
    rw [escape_cons]
    split
    · exact cons_ne_nil _ _
    · exact cons_ne_nil _ _
  obtain ⟨c, s, begins⟩ := exists_cons_of_ne_nil escaped
  cases ws with
  | nil => exact ⟨c, s, by rw [commandLine_single, begins]⟩
  | cons w' ws => exact ⟨c, _, by rw [commandLine_cons, begins]; rfl⟩

theorem skipSpace_space (s : Bytes) : skipSpace (space :: s) = skipSpace s :=
  dropWhile_cons_of_pos (by rfl)

theorem copyWord_commandLine (w : Bytes) (ws : List Bytes) (curArg : Bytes)
    (all : ∀ v ∈ ws, v ≠ []) :
    (copyWord (commandLine (w :: ws)) curArg).1 ::
      cmdlineSplit (copyWord (commandLine (w :: ws)) curArg).2 = merged curArg w ws := by
  induction ws generalizing w curArg with
  | nil =>
    have read := copyWord_escape w [] curArg
    rw [append_nil, ← commandLine_single, show skipSpace [] = [] from rfl, ite_self,
      copyWord_nil] at read
    rw [read, cmdlineSplit]
    rfl
  | cons w' ws ih =>
    have some_ := all w' mem_cons_self
    have later := fun v mem => all v (mem_cons_of_mem w' mem)
    have skipped := skipSpace_commandLine some_ ws
    rw [commandLine_cons, copyWord_escape, skipSpace_space, skipped, merged]
    by_cases ends : EndsInSpace w
    · rw [if_pos ends, if_pos ends]
      exact ih w' (curArg ++ w) later
    · rw [if_neg ends, if_neg ends, copyWord_space (by rfl), ← ih w' [] later]
      obtain ⟨c, s, begins⟩ := commandLine_begins some_ ws
      rw [begins] at skipped ⊢
      rw [cmdlineSplit_word ((skipSpace_space _).trans skipped)]

/-- **What is read from the words that are written** -/
theorem cmdlineSplit_commandLine {ws : List Bytes} (some_ : w ≠ []) (all : ∀ v ∈ ws, v ≠ []) :
    cmdlineSplit (commandLine (w :: ws)) = merged [] w ws := by
  obtain ⟨c, s, begins⟩ := commandLine_begins some_ ws
  have skipped := skipSpace_commandLine some_ ws
  rw [← copyWord_commandLine w ws [] all]
  rw [begins] at skipped ⊢
  exact cmdlineSplit_word skipped

theorem merged_length_le (curArg w : Bytes) (ws : List Bytes) :
    (merged curArg w ws).length ≤ ws.length + 1 := by
  induction ws generalizing curArg w with
  | nil => exact Nat.le_refl _
  | cons w' ws ih =>
    rw [merged]
    split
    · exact Nat.le_succ_of_le (ih _ _)
    · exact Nat.succ_le_succ (ih _ _)

theorem merged_iff (curArg w : Bytes) (ws : List Bytes) :
    merged curArg w ws = (curArg ++ w) :: ws ↔ ∀ v ∈ (w :: ws).dropLast, ¬ EndsInSpace v := by
  induction ws generalizing curArg w with
  | nil => exact iff_of_true rfl nofun
  | cons w' ws ih =>
    rw [merged, dropLast_cons_cons, forall_mem_cons]
    by_cases ends : EndsInSpace w
    · rw [if_pos ends]
      refine iff_of_false ?_ fun no => no.1 ends
      intro same
      have short := merged_length_le (curArg ++ w) w' ws
      rw [same, length_cons, length_cons] at short
      omega
    · rw [if_neg ends, ← ih [] w', nil_append]
      constructor
      · intro same
        exact ⟨ends, (List.cons.inj same).2⟩
      · intro ⟨_, same⟩
        rw [same]

/-- **The words come back if only the last one ends in white space. For every line the first pass
counts as many words as are stored, or more.** -/
theorem cmdlineSplit_iff {words : List Bytes} (some_ : ∀ w ∈ words, w ≠ []) :
    (cmdlineSplit (commandLine words) = words ↔ ∀ w ∈ words.dropLast, ¬ EndsInSpace w) ∧
      ∀ line : Bytes, (cmdlineSplit line).length ≤ maxTokens line := by
  constructor
  · cases words with
    | nil => exact iff_of_true (by rw [cmdlineSplit]; rfl) nofun
    | cons w ws =>
      rw [cmdlineSplit_commandLine (some_ w mem_cons_self)
        fun v mem => some_ v (mem_cons_of_mem w mem), ← merged_iff []]
      rfl
  · intro line
    rw [maxTokens_eq _ (Nat.le_refl _)]
    exact cmdlineSplit_length_le _ (Nat.le_refl _)

/-- Two words, of which the second one ends in a space -/
theorem cmdlineSplit_two :
    (cmdlineSplit (commandLine [ascii "a", ascii "b "]) = [ascii "a", ascii "b "] ↔
      ∀ w ∈ [ascii "a", ascii "b "].dropLast, ¬ EndsInSpace w) ∧
      ∀ line : Bytes, (cmdlineSplit line).length ≤ maxTokens line :=
  cmdlineSplit_iff (by decide)

/-- A word with a space at its end and another one: they are read as one word, and the space
between them is lost. -/
theorem cmdlineSplit_merges : (∀ w ∈ [ascii "a ", ascii "b"], w ≠ []) ∧
    commandLine [ascii "a ", ascii "b"] = ascii "a\\  b" ∧
    cmdlineSplit (ascii "a\\  b") = [ascii "a b"] := by
  have line : commandLine [ascii "a ", ascii "b"] = ascii "a\\  b" := by decide
  refine ⟨by decide, line, ?_⟩
  rw [← line, cmdlineSplit_commandLine (by decide) (by decide)]
  decide

end Nmap.Ncat.CommandLine
