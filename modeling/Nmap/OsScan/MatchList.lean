import Nmap.OsScan.EarlyExit
import Mathlib.Data.List.Sort
import Mathlib.Data.List.Pairwise

/-!
# The list of matches (`match_fingerprint` in `osscan.cc`)

The fingerprints of the database are compared one after the other and the best are kept, in
order, in two arrays of 36. An entry is taken in only from a requirement on that rises once the
arrays are full, and each name is listed once.
-/

namespace Nmap.OsScan

open Nmap.Base List

/-! ## The function -/

def maxFpResults : Nat := 36

/-- An index of the arrays `accuracy` and `matches`; no match for what was not written -/
structure Slot where
  accuracy : ℚ
  fp : Option FingerPrint

/-- `matches[idx]->OS_name` -/
def Slot.name (s : Slot) : Option Bytes := s.fp.map FingerPrint.name

inductive OverallResults
  | success
  | noMatches
  | tooManyMatches
  deriving DecidableEq

/-- What `match_fingerprint` uses of a `FingerPrintResultsIPv4` -/
structure FingerPrintResults where
  slots : List Slot
  numPerfectMatches : Nat
  numMatches : Nat
  overallResults : OverallResults

/-- `FingerPrintResults::FingerPrintResults` -/
def FingerPrintResults.new : FingerPrintResults where
  slots := List.replicate maxFpResults ⟨0, none⟩
  numPerfectMatches := 0
  numMatches := 0
  overallResults := .noMatches

/-- What ends `match_fingerprint` before its loop does: an assertion of `expr_match`, the fatal
error after an insertion, or too many perfect matches -/
inductive MatchEnd
  | assertion
  | bogusInsertion
  | tooMany (fpr : FingerPrintResults)

/-- The two `memmove`s that delete an index, and what is set after them -/
def deleteMatch (fpr : FingerPrintResults) (idx : Nat) : FingerPrintResults :=
  let n := fpr.numMatches - 1
  let moved := fpr.slots.take idx ++ (fpr.slots.drop (idx + 1)).take (n - idx) ++
    fpr.slots.drop n
  { fpr with
    slots := moved.modify n fun s => { s with accuracy := 0 }
    numMatches := n }

/-- The loop that inserts a match, from an index on; `tmp` is what it pushes on, once it has
inserted the match. The flag is the state at its end. -/
def insertLoop (new : Slot) : Option Slot → List Slot → List Slot × Bool
  | tmp, [] => ([], tmp.isSome)
  | some tmp, s :: rest =>
    let done := insertLoop new (some s) rest
    (tmp :: done.1, done.2)
  | none, s :: rest =>
    if s.accuracy < new.accuracy then
      let done := insertLoop new (some s) rest
      (new :: done.1, done.2)
    else
      let done := insertLoop new none rest
      (s :: done.1, done.2)

def newRequirement (fpr : FingerPrintResults) (required : ℚ) : ℚ :=
  if fpr.numMatches = maxFpResults then
    min (((fpr.slots[maxFpResults - 1]?).elim 0 Slot.accuracy) + 1 / 100000) 1
  else required

def addMatch (fpr : FingerPrintResults) (required : ℚ) (new : Slot) :
    Except MatchEnd (FingerPrintResults × ℚ) :=
  if new.accuracy = 1 ∧ fpr.numPerfectMatches = maxFpResults then .error (.tooMany fpr)
  else
    let inserted := insertLoop new none fpr.slots
    if inserted.2 = false then .error .bogusInsertion
    else
      let fpr := { fpr with
        numPerfectMatches := fpr.numPerfectMatches + if new.accuracy = 1 then 1 else 0
        slots := inserted.1
        numMatches := min (fpr.numMatches + 1) maxFpResults }
      .ok (fpr, newRequirement fpr required)

def findName (fpr : FingerPrintResults) (name : Bytes) : Option Nat :=
  (fpr.slots.take fpr.numMatches).findIdx? fun s => decide (s.name = some name)

/-- One turn of the loop over the database -/
def tryMatch (d : FingerPrintDef) (observed : FingerPrint) (state : FingerPrintResults × ℚ)
    (currentOs : FingerPrint) : Except MatchEnd (FingerPrintResults × ℚ) :=
  let (fpr, required) := state
  match compareFingerprints currentOs observed d false required with
  | none => .error .assertion
  | some acc =>
    if required ≤ acc ∨ acc = 1 then
      match findName fpr currentOs.name with
      | none => addMatch fpr required ⟨acc, some currentOs⟩
      | some idx =>
        if acc ≤ (fpr.slots[idx]?).elim 0 Slot.accuracy then .ok state
        else addMatch (deleteMatch fpr idx) required ⟨acc, some currentOs⟩
    else .ok state

def matchFingerprint (d : FingerPrintDef) (prints : List FingerPrint) (observed : FingerPrint)
    (accuracyThreshold : ℚ) : Except MatchEnd FingerPrintResults :=
  let fpr := { FingerPrintResults.new with overallResults := .success }
  match prints.foldlM (tryMatch d observed) (fpr, accuracyThreshold) with
  | .error (.tooMany fpr) => .ok { fpr with overallResults := .tooManyMatches }
  | .error e => .error e
  | .ok (fpr, _) =>
    .ok { fpr with
      overallResults := if fpr.numMatches = 0 then .noMatches else fpr.overallResults }

/-! ## The claim -/

def FingerPrintResults.listed (fpr : FingerPrintResults) : List Slot :=
  fpr.slots.take fpr.numMatches

/-- The accuracy of the whole comparison -/
def wholeAccuracy (d : FingerPrintDef) (observed os : FingerPrint) : Option ℚ :=
  compareFingerprints os observed d true 0

/-- What is listed, for the entries that were compared -/
structure Listing (d : FingerPrintDef) (prints : List FingerPrint) (observed : FingerPrint)
    (threshold : ℚ) (fpr : FingerPrintResults) : Prop where
  bounded : fpr.numMatches ≤ maxFpResults
  length : fpr.listed.length = fpr.numMatches
  sorted : fpr.listed.Pairwise fun a b => b.accuracy ≤ a.accuracy
  names : (fpr.listed.map Slot.name).Nodup
  from_ : ∀ s ∈ fpr.listed, threshold ≤ s.accuracy ∧ ∃ os ∈ prints, s.fp = some os ∧
    ∀ v, wholeAccuracy d observed os = some v → v = s.accuracy
  perfect : fpr.numPerfectMatches = fpr.listed.countP fun s => decide (s.accuracy = 1)

/-- An entry is listed under its name with at least its accuracy, or the list is full and the
entry hardly better than its end. -/
def Covered (fpr : FingerPrintResults) (name : Bytes) (v : ℚ) : Prop :=
  (∃ s ∈ fpr.listed, s.name = some name ∧ v ≤ s.accuracy) ∨
    (fpr.numMatches = maxFpResults ∧
      ∃ last, fpr.listed.getLast? = some last ∧ v < last.accuracy + 1 / 100000)

/-- What `match_fingerprint` promises of its result. An assertion in `expr_match` ends the
program. -/
def MatchListOk (d : FingerPrintDef) (prints : List FingerPrint) (observed : FingerPrint)
    (threshold : ℚ) : Prop :=
  match matchFingerprint d prints observed threshold with
  | .error .assertion => True
  | .error _ => False
  | .ok fpr => Listing d prints observed threshold fpr ∧
      (fpr.overallResults ≠ .tooManyMatches →
        ∀ os ∈ prints, ∀ v, wholeAccuracy d observed os = some v → threshold ≤ v →
          Covered fpr os.name v)

/-! ## The insertion -/

/-- A match before the first that is less accurate -/
def insertDesc (new : Slot) (l : List Slot) : List Slot :=
  l.orderedInsert (fun a b => b.accuracy < a.accuracy) new

theorem insertLoop_some (new : Slot) (l : List Slot) : ∀ tmp : Slot,
    insertLoop new (some tmp) l = ((tmp :: l).dropLast, true) := by
  induction l with
  | nil => exact fun _ => rfl
  | cons s rest ih =>
    intro tmp
    rw [insertLoop, ih]
    rfl

theorem insertLoop_none (new : Slot) (l : List Slot) :
    insertLoop new none l =
      ((insertDesc new l).dropLast, l.any fun s => decide (s.accuracy < new.accuracy)) := by
  induction l with
  | nil => rfl
  | cons s rest ih =>
    rw [insertLoop, insertDesc, orderedInsert_cons]
    by_cases less : s.accuracy < new.accuracy
    · rw [if_pos less, if_pos less, insertLoop_some]
      simp [less]
    · rw [if_neg less, if_neg less, ih]
      have nonempty : insertDesc new rest ≠ [] := by
        rw [← length_pos_iff_ne_nil, insertDesc, orderedInsert_length]
        omega
      rw [← insertDesc, dropLast_cons_of_ne_nil nonempty]
      simp [less]

variable {new : Slot}

theorem insertDesc_append {r : Slot} (l rest : List Slot) (less : r.accuracy < new.accuracy) :
    insertDesc new (l ++ r :: rest) = insertDesc new l ++ r :: rest := by
  induction l with
  | nil => simp [insertDesc, less]
  | cons s l ih =>
    rw [cons_append, insertDesc, insertDesc, orderedInsert_cons,
      orderedInsert_cons]
    split
    · rfl
    · rw [← insertDesc, ← insertDesc, ih, cons_append]

def Falling (l : List Slot) : Prop := l.Pairwise fun a b => b.accuracy ≤ a.accuracy

theorem Falling.insertDesc {l : List Slot} (falling : Falling l) (new : Slot) :
    Falling (insertDesc new l) := by
  induction l with
  | nil => simp [OsScan.insertDesc, Falling]
  | cons s rest ih =>
    obtain ⟨above, below⟩ := pairwise_cons.mp falling
    rw [OsScan.insertDesc, orderedInsert_cons]
    split
    · next less =>
        refine pairwise_cons.mpr ⟨fun t mem => ?_, falling⟩
        rcases mem_cons.mp mem with rfl | mem
        · exact less.le
        · exact (above t mem).trans less.le
    · next notLess =>
        refine pairwise_cons.mpr ⟨fun t mem => ?_, ih below⟩
        rcases (mem_orderedInsert _).mp mem with rfl | mem
        · exact not_lt.mp notLess
        · exact above t mem

/-! ## The arrays -/

/-- The arrays with `l` listed, and nothing after it -/
structure Shaped (fpr : FingerPrintResults) (l : List Slot) : Prop where
  slots : ∃ rest, fpr.slots = l ++ rest ∧ ∀ s ∈ rest, s.accuracy = 0
  count : fpr.numMatches = l.length
  size : fpr.slots.length = maxFpResults

variable {fpr : FingerPrintResults} {l : List Slot}

theorem Shaped.listed (shaped : Shaped fpr l) : fpr.listed = l := by
  obtain ⟨rest, slots, -⟩ := shaped.slots
  rw [FingerPrintResults.listed, slots, shaped.count, take_left]

theorem Shaped.bounded (shaped : Shaped fpr l) : l.length ≤ maxFpResults := by
  obtain ⟨rest, slots, -⟩ := shaped.slots
  rw [← shaped.size, slots, length_append]
  omega

/-- A match is deleted: one more index is free. -/
theorem Shaped.deleteMatch (shaped : Shaped fpr l) {idx : Nat} (inside : idx < l.length) :
    Shaped (deleteMatch fpr idx) (l.eraseIdx idx) := by
  obtain ⟨rest, slots, zero⟩ := shaped.slots
  have size : (l.eraseIdx idx).length = l.length - 1 := length_eraseIdx_of_lt inside
  obtain ⟨last, atEnd⟩ : ∃ last, l.drop (l.length - 1) = [last] := by
    rw [← length_eq_one_iff, length_drop]
    omega
  have moved : fpr.slots.take idx ++ (fpr.slots.drop (idx + 1)).take (l.length - 1 - idx) ++
      fpr.slots.drop (l.length - 1) = l.eraseIdx idx ++ last :: rest := by
    rw [slots, take_append_of_le_length (by omega), drop_append_of_le_length (by omega),
      drop_append_of_le_length (by omega), take_left' (by rw [length_drop]; omega),
      atEnd, eraseIdx_eq_take_drop_succ]
    rfl
  have slots' : (OsScan.deleteMatch fpr idx).slots =
      l.eraseIdx idx ++ { last with accuracy := 0 } :: rest := by
    rw [OsScan.deleteMatch, shaped.count]
    dsimp only
    rw [moved, modify_eq_take_drop, take_left' size, drop_left' size]
    rfl
  refine ⟨⟨{ last with accuracy := 0 } :: rest, slots', ?_⟩, ?_, ?_⟩
  · rintro s mem
    rcases mem_cons.mp mem with rfl | mem
    · rfl
    · exact zero s mem
  · rw [size, ← shaped.count]
    rfl
  · have full := shaped.size
    rw [slots, length_append] at full
    rw [slots', length_append, length_cons, size]
    omega

/-- The listed matches that are left when one is added: all of them, or all but the last -/
structure LeftBy (new : Slot) (l kept : List Slot) : Prop where
  cases : (l = kept ∧ l.length < maxFpResults) ∨
    ∃ last, l = kept ++ [last] ∧ last.accuracy < new.accuracy ∧ l.length = maxFpResults

variable {kept : List Slot}

/-- A match is added: the free index or the last match is shoved off. -/
theorem Shaped.inserted (shaped : Shaped fpr l) (pos : 0 < new.accuracy)
    (left : LeftBy new l kept) :
    (insertLoop new none fpr.slots).2 = true ∧
      ∀ perfect results, Shaped ⟨(insertLoop new none fpr.slots).1, perfect,
        min (fpr.numMatches + 1) maxFpResults, results⟩ (insertDesc new kept) := by
  obtain ⟨rest, slots, zero⟩ := shaped.slots
  have size := shaped.size
  rw [slots, length_append] at size
  obtain ⟨r, rs, eq, less, zeros, count⟩ : ∃ r rs, fpr.slots = kept ++ r :: rs ∧
      r.accuracy < new.accuracy ∧ (∀ s ∈ (r :: rs).dropLast, s.accuracy = 0) ∧
      min (fpr.numMatches + 1) maxFpResults = kept.length + 1 := by
    rcases left.cases with ⟨rfl, room⟩ | ⟨last, rfl, less, full⟩
    · cases rest with
      | nil => simp at size; omega
      | cons r rs =>
        refine ⟨r, rs, slots, by rw [zero r mem_cons_self]; exact pos, ?_, ?_⟩
        · exact fun s mem => zero s (dropLast_subset _ mem)
        · rw [shaped.count]
          omega
    · have none : rest = [] := length_eq_zero_iff.mp (by omega)
      subst none
      refine ⟨last, [], by simpa using slots, less, by simp, ?_⟩
      rw [shaped.count, full]
      simp at full
      omega
  rw [insertLoop_none, eq, insertDesc_append kept rs less]
  have length : (insertDesc new kept).length = kept.length + 1 := orderedInsert_length ..
  have slots' : (insertDesc new kept ++ r :: rs).dropLast =
      insertDesc new kept ++ (r :: rs).dropLast := dropLast_append_of_ne_nil (by simp)
  refine ⟨by simp [less], fun perfect results => ⟨⟨_, slots', zeros⟩, ?_, ?_⟩⟩
  · rw [length]
    exact count
  · have size := shaped.size
    rw [eq] at size
    simp [slots', length] at size ⊢
    omega

/-! ## What is listed -/

variable {d : FingerPrintDef} {seen : List FingerPrint} {obs : FingerPrint} {threshold : ℚ}

/-- A match of a fingerprint that was seen, with the accuracy of the whole comparison -/
structure Entry (d : FingerPrintDef) (seen : List FingerPrint) (obs : FingerPrint)
    (threshold : ℚ) (s : Slot) : Prop where
  high : threshold ≤ s.accuracy
  most : s.accuracy ≤ 1
  from_ : ∃ os ∈ seen, s.fp = some os ∧ ∀ v, wholeAccuracy d obs os = some v → v = s.accuracy

theorem Entry.mono {s : Slot} (entry : Entry d seen obs threshold s) {more : List FingerPrint}
    (sub : seen ⊆ more) : Entry d more obs threshold s := by
  obtain ⟨os, mem, found⟩ := entry.from_
  exact ⟨entry.high, entry.most, os, sub mem, found⟩

/-- The arrays with `l` listed, in order and without a name twice -/
structure Listed (d : FingerPrintDef) (seen : List FingerPrint) (obs : FingerPrint)
    (threshold : ℚ) (fpr : FingerPrintResults) (l : List Slot) : Prop where
  shaped : Shaped fpr l
  falling : Falling l
  names : (l.map Slot.name).Nodup
  entries : ∀ s ∈ l, Entry d seen obs threshold s
  perfect : fpr.numPerfectMatches = l.countP fun s => decide (s.accuracy = 1)

theorem Listed.listing (listed : Listed d seen obs threshold fpr l) :
    Listing d seen obs threshold fpr := by
  have eq := listed.shaped.listed
  constructor
  · exact listed.shaped.count ▸ listed.shaped.bounded
  · rw [eq, listed.shaped.count]
  · exact eq ▸ listed.falling
  · exact eq ▸ listed.names
  · intro s mem
    have entry := listed.entries s (eq ▸ mem)
    exact ⟨entry.high, entry.from_⟩
  · rw [eq, listed.perfect]

theorem Listed.mono (listed : Listed d seen obs threshold fpr l) {more : List FingerPrint}
    (sub : seen ⊆ more) : Listed d more obs threshold fpr l :=
  { listed with entries := fun s mem => (listed.entries s mem).mono sub }

theorem Falling.getLast? {l : List Slot} (falling : Falling l) {last : Slot}
    (atEnd : l.getLast? = some last) : ∀ s ∈ l, last.accuracy ≤ s.accuracy := by
  obtain ⟨before, rfl⟩ := List.getLast?_eq_some_iff.mp atEnd
  intro s mem
  rcases mem_append.mp mem with mem | mem
  · exact (pairwise_append.mp falling).2.2 s mem last mem_cons_self
  · cases mem_singleton.mp mem
    exact le_rfl

theorem Listed.deleteMatch (listed : Listed d seen obs threshold fpr l) {idx : Nat}
    (inside : idx < l.length) (imperfect : (l[idx]).accuracy ≠ 1) :
    Listed d seen obs threshold (deleteMatch fpr idx) (l.eraseIdx idx) := by
  have sub : (l.eraseIdx idx).Sublist l := eraseIdx_sublist l idx
  refine ⟨listed.shaped.deleteMatch inside, listed.falling.sublist sub,
    listed.names.sublist (sub.map _), fun s mem => listed.entries s (sub.subset mem), ?_⟩
  show fpr.numPerfectMatches = _
  have perm : l.Perm (l[idx] :: l.eraseIdx idx) := (getElem_cons_eraseIdx_perm inside).symm
  rw [listed.perfect, perm.countP_eq, countP_cons_of_neg (by simpa using imperfect)]

theorem LeftBy.sublist (left : LeftBy new l kept) :
    kept.Sublist l := by
  rcases left.cases with ⟨rfl, -⟩ | ⟨last, rfl, -, -⟩
  · exact Sublist.refl _
  · exact sublist_append_left kept [last]

theorem LeftBy.countP (left : LeftBy new l kept) (most : new.accuracy ≤ 1) :
    l.countP (fun s => decide (s.accuracy = 1)) =
      kept.countP fun s => decide (s.accuracy = 1) := by
  rcases left.cases with ⟨rfl, -⟩ | ⟨last, rfl, less, -⟩
  · rfl
  · have imperfect : last.accuracy ≠ 1 := (less.trans_le most).ne
    rw [countP_append, countP_cons_of_neg (by simpa using imperfect), countP_nil,
      Nat.add_zero]

theorem mem_insertDesc {s : Slot} :
    s ∈ insertDesc new kept ↔ s = new ∨ s ∈ kept :=
  mem_orderedInsert _

theorem insertDesc_perm (new : Slot) (kept : List Slot) :
    (insertDesc new kept).Perm (new :: kept) :=
  perm_orderedInsert _ new kept

theorem Listed.added (listed : Listed d seen obs threshold fpr l)
    (entry : Entry d seen obs threshold new) (fresh : new.name ∉ l.map Slot.name)
    (left : LeftBy new l kept) {fpr' : FingerPrintResults}
    (shaped : Shaped fpr' (insertDesc new kept))
    (perfect : fpr'.numPerfectMatches =
      fpr.numPerfectMatches + if new.accuracy = 1 then 1 else 0) :
    Listed d seen obs threshold fpr' (insertDesc new kept) := by
  have sub := left.sublist
  refine ⟨shaped, Falling.insertDesc (listed.falling.sublist sub) new, ?_, ?_, ?_⟩
  · rw [((insertDesc_perm new kept).map Slot.name).nodup_iff, map_cons, nodup_cons]
    exact ⟨fun mem => fresh ((sub.map Slot.name).subset mem),
      listed.names.sublist (sub.map Slot.name)⟩
  · intro s mem
    rcases mem_insertDesc.mp mem with rfl | mem
    · exact entry
    · exact listed.entries s (sub.subset mem)
  · rw [perfect, listed.perfect, left.countP entry.most, (insertDesc_perm new kept).countP_eq,
      countP_cons]
    simp

theorem exists_last (full : l.length = maxFpResults) : ∃ last, l.getLast? = some last := by
  rw [← Option.isSome_iff_exists, List.getLast?_isSome, ← length_pos_iff_ne_nil, full]
  exact Nat.succ_pos _

theorem exists_leftBy (bounded : l.length ≤ maxFpResults)
    (reaches : l.length = maxFpResults → ∀ last, l.getLast? = some last →
      last.accuracy < new.accuracy) : ∃ kept, LeftBy new l kept := by
  by_cases full : l.length = maxFpResults
  · obtain ⟨last, atEnd⟩ := exists_last full
    obtain ⟨before, rfl⟩ := List.getLast?_eq_some_iff.mp atEnd
    exact ⟨before, ⟨.inr ⟨last, rfl, reaches full last atEnd, full⟩⟩⟩
  · exact ⟨l, ⟨.inl ⟨rfl, by omega⟩⟩⟩

/-- A match is added, or the arrays are full of perfect matches. -/
theorem Listed.addMatch (listed : Listed d seen obs threshold fpr l) (pos : 0 < threshold)
    {new : Slot} (entry : Entry d seen obs threshold new) (fresh : new.name ∉ l.map Slot.name)
    (reaches : l.length = maxFpResults → new.accuracy = 1 ∨
      ∀ last, l.getLast? = some last → last.accuracy < new.accuracy) (required : ℚ) :
    addMatch fpr required new = .error (.tooMany fpr) ∨
      ∃ fpr' kept, LeftBy new l kept ∧ Listed d seen obs threshold fpr' (insertDesc new kept) ∧
        addMatch fpr required new = .ok (fpr', newRequirement fpr' required) := by
  rw [OsScan.addMatch]
  split
  · exact .inl rfl
  · next room =>
      right
      obtain ⟨kept, left⟩ : ∃ kept, LeftBy new l kept := by
        refine exists_leftBy listed.shaped.bounded fun full last atEnd => ?_
        rcases reaches full with perfect | less
        · -- not all listed matches are perfect, so the last is not
          by_contra notLess
          refine room ⟨perfect, ?_⟩
          rw [listed.perfect, ← full]
          refine countP_eq_length.mpr fun s mem => decide_eq_true ?_
          have atLeast := listed.falling.getLast? atEnd s mem
          have most := (listed.entries s mem).most
          linarith
        · exact less last atEnd
      obtain ⟨done, shaped⟩ := listed.shaped.inserted (pos.trans_le entry.high) left
      rw [if_neg (by simp [done])]
      exact ⟨_, kept, left, listed.added entry fresh left (shaped _ _) rfl, rfl⟩

/-! ## What is missing from the list -/

/-- The requirement that a list of matches leaves -/
def requirement (threshold : ℚ) (l : List Slot) : ℚ :=
  if l.length = maxFpResults then
    min ((l.getLast?.elim 0 Slot.accuracy) + 1 / 100000) 1
  else threshold

theorem Shaped.newRequirement (shaped : Shaped fpr l) (threshold : ℚ) :
    newRequirement fpr threshold = requirement threshold l := by
  rw [OsScan.newRequirement, requirement, shaped.count]
  by_cases full : l.length = maxFpResults
  · obtain ⟨rest, slots, -⟩ := shaped.slots
    have size := shaped.size
    rw [slots, length_append] at size
    have none : rest = [] := length_eq_zero_iff.mp (by omega)
    rw [if_pos full, if_pos full, slots, none, append_nil, List.getLast?_eq_getElem?, full]
  · rw [if_neg full, if_neg full]

/-- `Covered`, for the matches that are listed -/
def CoveredBy (l : List Slot) (name : Bytes) (v : ℚ) : Prop :=
  (∃ s ∈ l, s.name = some name ∧ v ≤ s.accuracy) ∨
    (l.length = maxFpResults ∧
      ∃ last, l.getLast? = some last ∧ v < last.accuracy + 1 / 100000)

theorem Shaped.covered (shaped : Shaped fpr l) (name : Bytes) (v : ℚ) :
    Covered fpr name v ↔ CoveredBy l name v := by
  rw [Covered, CoveredBy, shaped.listed, shaped.count]

/-- What a new match may drive out of the list: a match with its name or, of a full list, one
that no other match is below -/
structure Drives (new : Slot) (l kept : List Slot) : Prop where
  sub : kept ⊆ l
  lost : ∀ s ∈ l, s ∈ kept ∨ (s.name = new.name ∧ s.accuracy ≤ new.accuracy) ∨
    (l.length = maxFpResults ∧ ∀ t ∈ insertDesc new kept, s.accuracy ≤ t.accuracy)
  stays : l.length = maxFpResults → (insertDesc new kept).length = maxFpResults ∧
    ∃ s ∈ l, s.accuracy ≤ new.accuracy

theorem CoveredBy.drives {new : Slot} {kept : List Slot} {name : Bytes} {v : ℚ}
    (covered : CoveredBy l name v) (falling : Falling l) (drives : Drives new l kept) :
    CoveredBy (insertDesc new kept) name v := by
  have atEnd {x : ℚ} (full : l.length = maxFpResults)
      (above : ∀ t ∈ insertDesc new kept, x ≤ t.accuracy) (below : v < x + 1 / 100000) :
      CoveredBy (insertDesc new kept) name v := by
    obtain ⟨last, atEnd⟩ := exists_last (drives.stays full).1
    have least := above last (mem_of_getLast? atEnd)
    exact .inr ⟨(drives.stays full).1, last, atEnd, by linarith⟩
  rcases covered with ⟨s, mem, named, le⟩ | ⟨full, last, isLast, below⟩
  · rcases drives.lost s mem with stays | ⟨same, less⟩ | ⟨full, least⟩
    · exact .inl ⟨s, mem_insertDesc.mpr (.inr stays), named, le⟩
    · exact .inl ⟨new, mem_insertDesc.mpr (.inl rfl), same ▸ named, le.trans less⟩
    · exact atEnd full least (by linarith)
  · refine atEnd full (fun t mem => ?_) below
    have least := falling.getLast? isLast
    rcases mem_insertDesc.mp mem with rfl | mem
    · obtain ⟨s, inList, less⟩ := (drives.stays full).2
      exact (least s inList).trans less
    · exact least t (drives.sub mem)

theorem LeftBy.drives (left : LeftBy new l kept) (falling : Falling l) : Drives new l kept := by
  refine ⟨left.sublist.subset, ?_, ?_⟩
  · intro s mem
    rcases left.cases with ⟨rfl, -⟩ | ⟨last, rfl, less, full⟩
    · exact .inl mem
    · rcases mem_append.mp mem with mem | mem
      · exact .inl mem
      · cases mem_singleton.mp mem
        refine .inr (.inr ⟨full, fun t inside => ?_⟩)
        rcases mem_insertDesc.mp inside with rfl | inside
        · exact less.le
        · exact (pairwise_append.mp falling).2.2 t inside s mem_cons_self
  · intro full
    rcases left.cases with ⟨rfl, room⟩ | ⟨last, rfl, less, -⟩
    · omega
    · refine ⟨?_, last, by simp, less.le⟩
      rw [(insertDesc_perm new kept).length_eq, length_cons, ← full, length_append]
      rfl

variable {idx : Nat}

theorem drives_eraseIdx (inside : idx < l.length) (same : (l[idx]).name = new.name)
    (less : (l[idx]).accuracy < new.accuracy) :
    Drives new l (l.eraseIdx idx) := by
  have perm : l.Perm (l[idx] :: l.eraseIdx idx) := (getElem_cons_eraseIdx_perm inside).symm
  refine ⟨(eraseIdx_sublist l idx).subset, ?_, ?_⟩
  · intro s mem
    rcases mem_cons.mp (perm.subset mem) with rfl | mem
    · exact .inr (.inl ⟨same, less.le⟩)
    · exact .inl mem
  · intro full
    refine ⟨?_, l[idx], getElem_mem inside, less.le⟩
    rw [(insertDesc_perm new _).length_eq, length_cons, length_eraseIdx_of_lt inside]
    omega

/-! ## One turn -/

theorem compareFingerprints_le_one {ref : FingerPrint} {e : ℚ}
    (ran : compareFingerprints ref obs d false threshold = some e) : e ≤ 1 := by
  obtain ⟨m, loop, rfl⟩ := Option.map_eq_some_iff.mp ran
  have le : m.2 ≤ m.1 := by
    rcases compareLoop_cut loop with whole | ⟨before, later, -, -, whole⟩
    all_goals
      obtain ⟨⟨a, b, le, eq⟩, -⟩ := compareLoop_bounds whole
      simp only [Nat.zero_add] at eq
      rw [eq]
      exact le
  rw [accuracy]
  split
  · exact zero_le_one
  · exact div_le_one_of_le₀ (by exact_mod_cast le) (Nat.cast_nonneg _)

/-- The threshold does not matter with `verbose`. -/
theorem compareFingerprints_verbose (os : FingerPrint) (threshold : ℚ) :
    compareFingerprints os obs d true threshold = wholeAccuracy d obs os := by
  rw [wholeAccuracy, compareFingerprints, compareFingerprints, compareLoop_limit]

/-- The comparison of one turn: what is taken in has the whole accuracy, and what is not was
below the requirement. -/
theorem EarlyExitSound.taken {os : FingerPrint} {required e v : ℚ} (most : required ≤ 1)
    (sound : EarlyExitSound d os obs required)
    (ran : compareFingerprints os obs d false required = some e)
    (whole : wholeAccuracy d obs os = some v) :
    ((required ≤ e ∨ e = 1) → v = e) ∧ (¬ (required ≤ e ∨ e = 1) → v < required) := by
  rw [← compareFingerprints_verbose os required] at whole
  obtain ⟨e', ran', same, low⟩ := sound v whole
  rw [ran] at ran'
  cases ran'
  rcases lt_or_ge v required with less | atLeast
  · have less' := low less
    refine ⟨fun taken => ?_, fun _ => less⟩
    rcases taken with atLeast | one
    · exact absurd less' (not_lt.mpr atLeast)
    · linarith
  · have eq := same atLeast
    exact ⟨fun _ => eq.symm, fun refused => absurd (.inl (eq ▸ atLeast)) refused⟩

/-- What holds after some turns: the list, the requirement that it leaves, and what is missing -/
structure Kept (d : FingerPrintDef) (seen : List FingerPrint) (obs : FingerPrint)
    (threshold : ℚ) (fpr : FingerPrintResults) (required : ℚ) (l : List Slot) : Prop where
  listed : Listed d seen obs threshold fpr l
  required : required = requirement threshold l
  covered : ∀ os ∈ seen, ∀ v, wholeAccuracy d obs os = some v → threshold ≤ v →
    CoveredBy l os.name v

def TurnOk (d : FingerPrintDef) (seen : List FingerPrint) (obs : FingerPrint) (threshold : ℚ) :
    Except MatchEnd (FingerPrintResults × ℚ) → Prop
  | .error .assertion => True
  | .error .bogusInsertion => False
  | .error (.tooMany fpr) => ∃ l, Listed d seen obs threshold fpr l
  | .ok (fpr, required) => ∃ l, Kept d seen obs threshold fpr required l

variable {required : ℚ} {os : FingerPrint}

theorem Listed.requirement (listed : Listed d seen obs threshold fpr l) (most : threshold ≤ 1) :
    threshold ≤ requirement threshold l ∧ requirement threshold l ≤ 1 ∧
      (l.length = maxFpResults → ∀ last, l.getLast? = some last →
        last.accuracy < requirement threshold l ∨ requirement threshold l = 1) := by
  rw [OsScan.requirement]
  split
  · next full =>
      obtain ⟨last, atEnd⟩ := exists_last full
      have high := (listed.entries last (mem_of_getLast? atEnd)).high
      rw [atEnd]
      dsimp only [Option.elim]
      refine ⟨le_min (by linarith) most, min_le_right _ _, fun _ last' atEnd' => ?_⟩
      cases atEnd'
      rcases min_choice (last.accuracy + 1 / 100000) 1 with eq | eq
      · exact .inl (by rw [eq]; linarith)
      · exact .inr eq
  · next room => exact ⟨le_rfl, most, fun full => absurd full room⟩

theorem Kept.refused (kept : Kept d seen obs threshold fpr required l)
    (missing : ∀ v, wholeAccuracy d obs os = some v → threshold ≤ v → CoveredBy l os.name v) :
    Kept d (seen ++ [os]) obs threshold fpr required l := by
  refine ⟨kept.listed.mono (subset_append_left seen [os]), kept.required, ?_⟩
  intro os' mem v whole high
  rcases mem_append.mp mem with mem | mem
  · exact kept.covered os' mem v whole high
  · cases mem_singleton.mp mem
    exact missing v whole high

variable {acc : ℚ}

/-- An entry is taken in; `l'` is what is listed without a name-sake. -/
theorem Kept.taken (kept : Kept d seen obs threshold fpr required l) {fpr' : FingerPrintResults}
    {l' : List Slot}
    (listed : Listed d (seen ++ [os]) obs threshold fpr' (insertDesc ⟨acc, some os⟩ l'))
    (drives : Drives ⟨acc, some os⟩ l l') (whole : ∀ v, wholeAccuracy d obs os = some v → v = acc) :
    Kept d (seen ++ [os]) obs threshold fpr' (newRequirement fpr' required)
      (insertDesc ⟨acc, some os⟩ l') := by
  refine ⟨listed, ?_, ?_⟩
  · rw [listed.shaped.newRequirement, requirement, requirement]
    split
    · rfl
    · next room =>
        have before : l.length ≠ maxFpResults := fun full => room (drives.stays full).1
        rw [kept.required, requirement, if_neg before]
  · intro os' mem v ran high
    rcases mem_append.mp mem with mem | mem
    · exact (kept.covered os' mem v ran high).drives kept.listed.falling drives
    · cases mem_singleton.mp mem
      refine .inl ⟨_, mem_insertDesc.mpr (.inl rfl), rfl, ?_⟩
      rw [whole v ran]

theorem Shaped.findName (shaped : Shaped fpr l) (name : Bytes) :
    findName fpr name = l.findIdx? fun s => decide (s.name = some name) := by
  rw [← shaped.listed]
  rfl

theorem Shaped.getElem? (shaped : Shaped fpr l) (inside : idx < l.length) :
    fpr.slots[idx]? = some l[idx] := by
  obtain ⟨rest, slots, -⟩ := shaped.slots
  rw [slots, List.getElem?_append_left inside, List.getElem?_eq_getElem inside]

theorem Kept.addNew (kept : Kept d seen obs threshold fpr required l) (pos : 0 < threshold)
    (most : threshold ≤ 1) (takes : required ≤ acc ∨ acc = 1)
    (entry : Entry d (seen ++ [os]) obs threshold ⟨acc, some os⟩)
    (whole : ∀ v, wholeAccuracy d obs os = some v → v = acc)
    (fresh : some os.name ∉ l.map Slot.name) :
    TurnOk d (seen ++ [os]) obs threshold (addMatch fpr required ⟨acc, some os⟩) := by
  have listed := kept.listed.mono (subset_append_left seen [os])
  obtain ⟨-, -, reaches⟩ := listed.requirement most
  rw [← kept.required] at reaches
  have above (full : l.length = maxFpResults) : acc = 1 ∨
      ∀ last, l.getLast? = some last → last.accuracy < acc := by
    by_cases one : acc = 1
    · exact .inl one
    · have atLeast : required ≤ acc := takes.resolve_right one
      refine .inr fun last atEnd => ?_
      rcases reaches full last atEnd with less | eq
      · exact less.trans_le atLeast
      · exact absurd (le_antisymm entry.most (eq ▸ atLeast)) one
  rcases listed.addMatch pos entry fresh above required with
    stop | ⟨fpr', left, leftBy, listed', added⟩
  · rw [stop]
    exact ⟨l, listed⟩
  · rw [added]
    exact ⟨_, kept.taken listed' (leftBy.drives listed.falling) whole⟩

/-- An entry is added in place of a less accurate one with its name. -/
theorem Kept.replaceName (kept : Kept d seen obs threshold fpr required l) (pos : 0 < threshold)
    (entry : Entry d (seen ++ [os]) obs threshold ⟨acc, some os⟩)
    (whole : ∀ v, wholeAccuracy d obs os = some v → v = acc) (inside : idx < l.length)
    (named : (l[idx]).name = some os.name) (less : (l[idx]).accuracy < acc) :
    TurnOk d (seen ++ [os]) obs threshold
      (addMatch (deleteMatch fpr idx) required ⟨acc, some os⟩) := by
  have listed := kept.listed.mono (subset_append_left seen [os])
  have without := listed.deleteMatch inside (less.trans_le entry.most).ne
  have size : (l.eraseIdx idx).length < maxFpResults := by
    have := kept.listed.shaped.bounded
    rw [length_eraseIdx_of_lt inside]
    omega
  have fresh : some os.name ∉ (l.eraseIdx idx).map Slot.name := by
    have perm := (getElem_cons_eraseIdx_perm inside).map Slot.name
    have nodup := perm.nodup_iff.mpr listed.names
    rw [map_cons, named] at nodup
    exact (nodup_cons.mp nodup).1
  rcases without.addMatch pos entry fresh (fun full => absurd full size.ne) required with
    stop | ⟨fpr', left, leftBy, listed', added⟩
  · rw [stop]
    exact ⟨_, without⟩
  · rw [added]
    obtain rfl : left = l.eraseIdx idx := by
      rcases leftBy.cases with ⟨eq, -⟩ | ⟨-, -, -, full⟩
      · exact eq.symm
      · exact absurd full size.ne
    exact ⟨_, kept.taken listed' (drives_eraseIdx inside named less) whole⟩

/-- One turn of the loop -/
theorem Kept.tryMatch (kept : Kept d seen obs threshold fpr required l) (pos : 0 < threshold)
    (most : threshold ≤ 1) (sound : EarlyExitSound d os obs required) :
    TurnOk d (seen ++ [os]) obs threshold (tryMatch d obs (fpr, required) os) := by
  obtain ⟨high, low, -⟩ := kept.listed.requirement most
  rw [← kept.required] at high low
  rw [OsScan.tryMatch]
  cases ran : compareFingerprints os obs d false required with
  | none => trivial
  | some acc =>
    dsimp only
    have taken {v : ℚ} (whole : wholeAccuracy d obs os = some v) :=
      EarlyExitSound.taken low sound ran whole
    by_cases takes : required ≤ acc ∨ acc = 1
    · rw [if_pos takes, kept.listed.shaped.findName]
      have whole (v : ℚ) (ran : wholeAccuracy d obs os = some v) : v = acc :=
        (taken ran).1 takes
      have entry : Entry d (seen ++ [os]) obs threshold ⟨acc, some os⟩ := by
        refine ⟨?_, compareFingerprints_le_one ran, os, by simp, rfl, whole⟩
        rcases takes with atLeast | one
        · exact high.trans atLeast
        · exact most.trans one.ge
      cases found : l.findIdx? fun s => decide (s.name = some os.name) with
      | none =>
        refine kept.addNew pos most takes entry whole fun mem => ?_
        obtain ⟨s, inList, named⟩ := mem_map.mp mem
        have other := List.findIdx?_eq_none_iff.mp found s inList
        simp [named] at other
      | some idx =>
        obtain ⟨inside, named, -⟩ := List.findIdx?_eq_some_iff_getElem.mp found
        have named : (l[idx]).name = some os.name := of_decide_eq_true named
        dsimp only
        rw [kept.listed.shaped.getElem? inside]
        by_cases higher : acc ≤ (l[idx]).accuracy
        · rw [if_pos (show acc ≤ Option.elim (some l[idx]) 0 Slot.accuracy from higher)]
          refine ⟨l, kept.refused fun v ran _ => ?_⟩
          exact .inl ⟨l[idx], getElem_mem inside, named, (whole v ran).trans_le higher⟩
        · rw [if_neg (show ¬ acc ≤ Option.elim (some l[idx]) 0 Slot.accuracy from higher)]
          exact kept.replaceName pos entry whole inside named (not_le.mp higher)
    · rw [if_neg takes]
      refine ⟨l, kept.refused fun v ran atLeast => ?_⟩
      have below := (taken ran).2 takes
      rw [kept.required, requirement] at below
      split at below
      · next full =>
          obtain ⟨last, atEnd⟩ := exists_last full
          rw [atEnd] at below
          exact .inr ⟨full, last, atEnd, below.trans_le (min_le_left _ _)⟩
      · exact absurd below (not_lt.mpr atLeast)

/-! ## The run -/

/-- The rest of the loop -/
theorem Kept.foldlM {rest : List FingerPrint} (pos : 0 < threshold) (most : threshold ≤ 1)
    (sound : ∀ os ∈ rest, ∀ required ≤ 1, EarlyExitSound d os obs required)
    (kept : Kept d seen obs threshold fpr required l) :
    TurnOk d (seen ++ rest) obs threshold
    (rest.foldlM (OsScan.tryMatch d obs) (fpr, required)) := by
  induction rest generalizing seen fpr required l with
  | nil =>
    rw [append_nil]
    exact ⟨l, kept⟩
  | cons os rest ih =>
    have limit : required ≤ 1 := by
      rw [kept.required]
      exact (kept.listed.requirement most).2.1
    have turn := kept.tryMatch pos most (sound os mem_cons_self required limit)
    have all : seen ++ os :: rest = seen ++ [os] ++ rest := by simp
    rw [foldlM_cons]
    cases ran : OsScan.tryMatch d obs (fpr, required) os with
    | ok state =>
      rw [ran] at turn
      obtain ⟨l', kept'⟩ := turn
      rw [all]
      exact ih (fun os mem => sound os (mem_cons_of_mem _ mem)) kept'
    | error stop =>
      rw [ran] at turn
      cases stop with
      | assertion => trivial
      | bogusInsertion => exact turn
      | tooMany fpr' =>
        obtain ⟨l', listed⟩ := turn
        refine ⟨l', listed.mono ?_⟩
        rw [all]
        exact subset_append_left _ _

theorem kept_new (d : FingerPrintDef) (obs : FingerPrint) (threshold : ℚ) :
    Kept d [] obs threshold { FingerPrintResults.new with overallResults := .success }
      threshold [] := by
  refine ⟨⟨⟨⟨List.replicate maxFpResults ⟨0, none⟩, rfl, ?_⟩, rfl, rfl⟩, Pairwise.nil,
    nodup_nil, ?_, rfl⟩, rfl, ?_⟩
  · intro s mem
    rw [eq_of_mem_replicate mem]
  · exact fun s mem => absurd mem not_mem_nil
  · exact fun os mem => absurd mem not_mem_nil

theorem Listed.results (listed : Listed d seen obs threshold fpr l) (results : OverallResults) :
    Listed d seen obs threshold { fpr with overallResults := results } l :=
  { listed with shaped := ⟨listed.shaped.slots, listed.shaped.count, listed.shaped.size⟩ }

/-- The list of matches, when the early exit is sound -/
theorem matchListOk_of_sound {prints : List FingerPrint} (pos : 0 < threshold)
    (most : threshold ≤ 1)
    (sound : ∀ os ∈ prints, ∀ required ≤ 1, EarlyExitSound d os obs required) :
    MatchListOk d prints obs threshold := by
  have run := (kept_new d obs threshold).foldlM pos most sound
  rw [nil_append] at run
  rw [MatchListOk, matchFingerprint]
  dsimp only
  cases ran : prints.foldlM (OsScan.tryMatch d obs)
      ({ FingerPrintResults.new with overallResults := .success }, threshold) with
  | ok state =>
    rw [ran] at run
    obtain ⟨l, kept⟩ := run
    have listed := kept.listed.results
      (if state.1.numMatches = 0 then .noMatches else state.1.overallResults)
    refine ⟨listed.listing, fun _ os mem v whole high => ?_⟩
    exact (listed.shaped.covered _ _).mpr (kept.covered os mem v whole high)
  | error stop =>
    rw [ran] at run
    cases stop with
    | assertion => trivial
    | bogusInsertion => exact run
    | tooMany fpr =>
      obtain ⟨l, listed⟩ := run
      exact ⟨(listed.results .tooManyMatches).listing, fun other => absurd rfl other⟩

theorem not_matchListOk_of_cut {e v : ℚ} (most : threshold ≤ 1)
    (whole : compareFingerprints os obs d true threshold = some v) (high : threshold ≤ v)
    (short : compareFingerprints os obs d false threshold = some e) (less : e < threshold) :
    ¬ MatchListOk d [os] obs threshold := by
  have refused : ¬ (threshold ≤ e ∨ e = 1) := by
    rintro (atLeast | one)
    · exact absurd less (not_lt.mpr atLeast)
    · linarith
  have turn (fpr : FingerPrintResults) :
      OsScan.tryMatch d obs (fpr, threshold) os = .ok (fpr, threshold) := by
    rw [OsScan.tryMatch, short]
    exact if_neg refused
  have run : matchFingerprint d [os] obs threshold = .ok .new := by
    rw [matchFingerprint, foldlM_cons, turn]
    rfl
  rw [compareFingerprints_verbose] at whole
  rw [MatchListOk, run]
  rintro ⟨-, covered⟩
  rcases covered nofun os mem_cons_self v whole high with ⟨s, mem, -⟩ | ⟨full, -⟩
  · exact absurd mem not_mem_nil
  · exact absurd full (Nat.succ_ne_zero 35).symm

def Loaded (d : FingerPrintDef) (os : FingerPrint) : Prop :=
  ∃ name lines, Distinct lines ∧ os = loadFingerprint d name lines

end Nmap.OsScan
