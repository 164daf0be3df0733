import Nmap.Base.Cuts
import Nmap.Service.TemplateArgs

/-!
# The command `$SUBST` of version templates (`service_scan.cc`)

`$SUBST(n,find,repl)` goes through a captured part of the response from left to right. Where `find`
occurs it appends `repl` and goes on behind the occurrence, else it appends the character and goes
on behind that. An empty `find` is found again and again, and near the end `memcmp` looks behind
the capture (`substLoop_correct_iff`).
-/

namespace Nmap.Service.Template

open Nmap.Base List

/-- The response that a regular expression was matched against, with what the memory holds behind
it -/
structure Subject where
  bytes : Bytes
  behind : Nat → UInt8

namespace Subject

variable (subject : Subject)

/-- `subject[i]` -/
def byte (i : Nat) : UInt8 :=
  if i < subject.bytes.length then subject.bytes.getD i 0 else subject.behind i

/-- The bytes from `i` on, so many of them -/
def span (i n : Nat) : Bytes := (List.range' i n).map subject.byte

end Subject

/-- A captured part of a subject, with the bounds that PCRE promises -/
structure Capture (subjectlen : Nat) where
  offstart : Nat
  offend : Nat
  ordered : offstart ≤ offend
  inside : offend ≤ subjectlen

def Subject.captured (subject : Subject) (capture : Capture subject.bytes.length) : Bytes :=
  subject.span capture.offstart (capture.offend - capture.offstart)

/-- The string that is being put together, and the places where `memcmp` was called -/
structure Replaced where
  result : Bytes
  compared : List Nat
  deriving DecidableEq

variable (subject : Subject) (offend : Nat) (findstr replstr : Bytes)

/-- The loop of `$SUBST`, for so many turns at most -/
def substLoop : Nat → Nat → Replaced → Option Replaced
  | 0, _, _ => none
  | turns + 1, i, out =>
    if i < offend then
      let out := { out with compared := out.compared ++ [i] }
      if subject.span i findstr.length ≠ findstr then
        substLoop turns (i + 1) { out with result := out.result ++ [subject.byte i] }
      else substLoop turns (i + findstr.length) { out with result := out.result ++ replstr }
    else some out

/-! ## Bytes of the subject -/

variable {subject offend findstr replstr} {i n : Nat}

theorem span_length : (subject.span i n).length = n := by
  rw [Subject.span, length_map, length_range']

theorem span_succ : subject.span i (n + 1) = subject.byte i :: subject.span (i + 1) n := by
  rw [Subject.span, List.range'_succ, map_cons]
  rfl

theorem span_add (m : Nat) :
    subject.span i (m + n) = subject.span i m ++ subject.span (i + m) n := by
  rw [Subject.span, Subject.span, Subject.span, ← map_append, List.range'_append_1]

/-- Where so many bytes are left, `memcmp` finds what they begin with. -/
theorem span_eq_iff (within : findstr.length ≤ n) :
    subject.span i findstr.length = findstr ↔ findstr <+: subject.span i n := by
  obtain ⟨m, rfl⟩ := Nat.exists_eq_add_of_le within
  rw [span_add]
  constructor
  · intro same
    rw [same]
    exact prefix_append _ _
  · intro front
    exact (prefix_of_prefix_length_le front (prefix_append _ _)
      (Nat.le_of_eq span_length.symm)).eq_of_length span_length.symm |>.symm

/-! ## Runs of the loop -/

variable (findstr) in
/-- There is never less of the capture left than `findstr` is long. -/
def Whole (left : Bytes) : Prop := findstr.length = 1 ∨ CutOff findstr left

theorem whole_match (some : findstr ≠ []) (here : subject.span i findstr.length = findstr) :
    Whole findstr (subject.span i (findstr.length + n)) ↔
      Whole findstr (subject.span (i + findstr.length) n) := by
  unfold Whole
  rw [span_add, here, cutOff_word some]

theorem whole_other (some : findstr ≠ [])
    (other : ¬ findstr <+: subject.span i (n + 1)) (enough : findstr.length ≤ n + 1) :
    Whole findstr (subject.span i (n + 1)) ↔ Whole findstr (subject.span (i + 1) n) := by
  have positive := length_pos_iff.mpr some
  unfold Whole
  by_cases single : findstr.length = 1
  · exact iff_of_true (.inl single) (.inl single)
  · have more : subject.span (i + 1) n ≠ [] := by
      intro none
      have length : (subject.span (i + 1) n).length = n := span_length
      rw [none, length_nil] at length
      omega
    rw [span_succ] at other ⊢
    rw [cutOff_other other more]

theorem not_whole_of_short (more : 0 < n) (short : n < findstr.length) :
    ¬ Whole findstr (subject.span i n) := by
  have length : (subject.span i n).length = n := span_length
  rintro (single | cutOff)
  · omega
  · refine not_cutOff_of_short (by rwa [length]) ?_ cutOff
    intro none
    rw [none, length_nil] at length
    omega

/-- What is known of a run from `i` on. By induction on how much of the capture is left: a turn
takes away one byte, or as many as `findstr` has. -/
theorem substLoop_run (subject : Subject) (replstr : Bytes) (some : findstr ≠ []) {turns : Nat}
    (out : Replaced) (enough : offend - i < turns) :
    ∃ new result, substLoop subject offend findstr replstr turns i out =
        Option.some ⟨out.result ++ result, out.compared ++ new⟩ ∧
      (∀ j ∈ new, i ≤ j) ∧
      ((∀ j ∈ new, j + findstr.length ≤ offend) ↔ Whole findstr (subject.span i (offend - i))) ∧
      (Whole findstr (subject.span i (offend - i)) →
        ∃ pieces, Cuts findstr (subject.span i (offend - i)) pieces ∧
          result = replstr.intercalate pieces) := by
  have positive := length_pos_iff.mpr some
  induction turns generalizing i out with
  | zero => exact absurd enough (Nat.not_lt_zero _)
  | succ turns ih =>
    rw [substLoop]
    by_cases inside : i < offend
    · rw [if_pos inside]
      obtain ⟨n, left⟩ : ∃ n, offend - i = n + 1 := ⟨offend - i - 1, by omega⟩
      rw [left]
      by_cases other : subject.span i findstr.length ≠ findstr
      · -- one character is copied
        obtain ⟨new, result, run, behind, fits, cuts⟩ := ih (i := i + 1)
          ⟨out.result ++ [subject.byte i], out.compared ++ [i]⟩ (by omega)
        rw [show offend - (i + 1) = n by omega] at fits cuts
        refine ⟨i :: new, subject.byte i :: result, ?_, ?_, ?_, ?_⟩
        · rw [if_pos other, run, append_assoc, append_assoc]
          rfl
        · intro j mem
          rcases mem_cons.mp mem with rfl | later
          · exact Nat.le_refl _
          · exact Nat.le_of_succ_le (behind j later)
        · by_cases room : findstr.length ≤ n + 1
          · have no : ¬ findstr <+: subject.span i (n + 1) := mt (span_eq_iff room).mpr other
            rw [whole_other some no room, ← fits, forall_mem_cons]
            exact and_iff_right (by omega)
          · refine iff_of_false ?_ (not_whole_of_short (Nat.succ_pos _) (by omega))
            intro all
            have here := all i mem_cons_self
            omega
        · intro whole
          have room : findstr.length ≤ n + 1 := by
            by_contra short
            exact not_whole_of_short (Nat.succ_pos _) (by omega) whole
          have no : ¬ findstr <+: subject.span i (n + 1) := mt (span_eq_iff room).mpr other
          obtain ⟨pieces, cut, same⟩ := cuts ((whole_other some no room).mp whole)
          refine ⟨extend (subject.byte i) pieces, ?_, ?_⟩
          · rw [span_succ] at no ⊢
            exact cut.extend no
          · rw [intercalate_extend _ cut.ne_nil, same]
      · -- an occurrence is replaced
        have here := Classical.not_not.mp other
        obtain ⟨new, result, run, behind, fits, cuts⟩ := ih (i := i + findstr.length)
          ⟨out.result ++ replstr, out.compared ++ [i]⟩ (by omega)
        refine ⟨i :: new, replstr ++ result, ?_, ?_, ?_, ?_⟩
        · rw [if_neg other, run, append_assoc, append_assoc]
          rfl
        · intro j mem
          rcases mem_cons.mp mem with rfl | later
          · exact Nat.le_refl _
          · have := behind j later
            omega
        · by_cases room : findstr.length ≤ n + 1
          · obtain ⟨m, split⟩ := Nat.exists_eq_add_of_le room
            rw [show offend - (i + findstr.length) = m by omega] at fits
            rw [split, whole_match some here, ← fits, forall_mem_cons]
            exact and_iff_right (by omega)
          · refine iff_of_false ?_ (not_whole_of_short (Nat.succ_pos _) (by omega))
            intro all
            have first := all i mem_cons_self
            omega
        · intro whole
          have room : findstr.length ≤ n + 1 := by
            by_contra short
            exact not_whole_of_short (Nat.succ_pos _) (by omega) whole
          obtain ⟨m, split⟩ := Nat.exists_eq_add_of_le room
          rw [show offend - (i + findstr.length) = m by omega] at cuts
          rw [split] at whole ⊢
          obtain ⟨pieces, cut, same⟩ := cuts ((whole_match some here).mp whole)
          refine ⟨[] :: pieces, ?_, ?_⟩
          · rw [span_add, here]
            exact cut.at_word
          · rw [intercalate_cons_of_ne_nil cut.ne_nil, same]
            rfl
    · have empty : subject.span i (offend - i) = [] := by
        rw [show offend - i = 0 by omega]
        rfl
      rw [if_neg inside, empty]
      refine ⟨[], [], ?_, by simp, ?_, ?_⟩
      · rw [append_nil, append_nil]
      · exact iff_of_true (by simp) (.inr .nil)
      · exact fun _ => ⟨_, .nil, rfl⟩

/-- With an empty `findstr` the loop does not get on. -/
theorem substLoop_stuck (inside : i < offend) (turns : Nat) (out : Replaced) :
    substLoop subject offend [] replstr turns i out = none := by
  induction turns generalizing out with
  | zero => rfl
  | succ turns ih =>
    rw [substLoop, if_pos inside]
    exact (if_neg (not_not_intro rfl)).trans (ih _)

/-- The claim about a run: it ends, looks at nothing outside of the capture, and puts `replstr` in
the place of each `findstr`. -/
def Correct (subject : Subject) (capture : Capture subject.bytes.length)
    (findstr replstr : Bytes) : Prop :=
  ∃ turns out, substLoop subject capture.offend findstr replstr turns capture.offstart ⟨[], []⟩ =
      some out ∧
    (∀ i ∈ out.compared, capture.offstart ≤ i ∧ i + findstr.length ≤ capture.offend) ∧
    ∃ pieces, Cuts findstr (subject.captured capture) pieces ∧
      out.result = replstr.intercalate pieces

theorem substLoop_mono {turns more : Nat} {out last : Replaced}
    (run : substLoop subject offend findstr replstr turns i out = some last)
    (least : turns ≤ more) :
    substLoop subject offend findstr replstr more i out = some last := by
  induction turns generalizing i out more with
  | zero => cases run
  | succ turns ih =>
    obtain ⟨more, rfl⟩ := Nat.exists_eq_add_of_le' (Nat.lt_of_lt_of_le (Nat.succ_pos _) least)
    rw [substLoop] at run ⊢
    split at run
    · next inside =>
        rw [if_pos inside]
        dsimp only at run ⊢
        split at run
        · next other =>
            rw [if_pos other]
            exact ih run (Nat.le_of_succ_le_succ least)
        · next here =>
            rw [if_neg here]
            exact ih run (Nat.le_of_succ_le_succ least)
    · next outside =>
        rw [if_neg outside]
        exact run

/-- The loop does what it should exactly if `findstr` is one character long, or nothing of the
capture is left behind the last occurrence. -/
theorem substLoop_correct_iff (subject : Subject) (capture : Capture subject.bytes.length)
    (findstr replstr : Bytes) :
    Correct subject capture findstr replstr ↔
      findstr.length = 1 ∨ CutOff findstr (subject.captured capture) := by
  have ordered := capture.ordered
  by_cases some : findstr = []
  · subst some
    rcases Nat.eq_or_lt_of_le ordered with empty | inside
    · have none : subject.captured capture = [] := by
        unfold Subject.captured
        rw [empty, Nat.sub_self]
        rfl
      refine iff_of_true ⟨1, ⟨[], []⟩, ?_, by simp, [[]], ?_, rfl⟩ (.inr ?_)
      · rw [substLoop, if_neg (by omega)]
      · rw [none]
        exact .nil
      · rw [none]
        exact .nil
    · refine iff_of_false ?_ ?_
      · intro ⟨turns, out, run, _⟩
        rw [substLoop_stuck inside] at run
        cases run
      · rintro (single | ⟨pieces, cuts, -⟩)
        · cases single
        · have length : (subject.captured capture).length = _ := span_length
          rw [cuts.eq_nil, length_nil] at length
          omega
  · obtain ⟨new, result, run, behind, fits, cuts⟩ := substLoop_run subject replstr some
      ⟨[], []⟩ (Nat.lt_succ_self (capture.offend - capture.offstart))
    rw [nil_append, nil_append] at run
    constructor
    · intro ⟨turns, out, run', within, _⟩
      have same : out = ⟨result, new⟩ := by
        have first := substLoop_mono run (Nat.le_max_left _ turns)
        have second := substLoop_mono run' (Nat.le_max_right (capture.offend - capture.offstart + 1)
          turns)
        rw [first] at second
        injection second with same
        exact same.symm
      subst same
      exact fits.mp fun j mem => (within j mem).2
    · intro whole
      obtain ⟨pieces, cut, same⟩ := cuts whole
      exact ⟨_, _, run, fun j mem => ⟨behind j mem, fits.mpr whole j mem⟩, pieces, cut, same⟩

/-- The letter `a`, with a `b` behind it that is not captured -/
def letter : Subject := ⟨ascii "ab", fun _ => 0⟩

def letterCapture : Capture letter.bytes.length := ⟨0, 1, by simp, by decide⟩

/-- `$SUBST(1,"","x")` does not end, and `$SUBST(1,"ab","x")` replaces what is captured only in
part. -/
theorem substLoop_incorrect :
    getsubstcommandargs (ascii "1,\"\",\"x\")") 0 =
        .ok (some ([.int 1, .string [], .string [0x78]], 9)) ∧
      ¬ Correct letter letterCapture [] [0x78] ∧
      (∀ turns, substLoop letter 1 [] [0x78] turns 0 ⟨[], []⟩ = none) ∧
      ¬ Correct letter letterCapture (ascii "ab") [0x78] ∧
      substLoop letter 1 (ascii "ab") [0x78] 2 0 ⟨[], []⟩ = some ⟨[0x78], [0]⟩ := by
  have stuck (turns : Nat) : substLoop letter 1 [] [0x78] turns 0 ⟨[], []⟩ = none :=
    substLoop_stuck (by simp) turns _
  have both : substLoop letter 1 (ascii "ab") [0x78] 2 0 ⟨[], []⟩ = some ⟨[0x78], [0]⟩ := by
    rfl
  refine ⟨by rfl, ?_, stuck, ?_, both⟩
  · intro ⟨turns, out, run, _⟩
    have none := stuck turns
    rw [show substLoop letter 1 [] [0x78] turns 0 ⟨[], []⟩ = some out from run] at none
    cases none
  · intro ⟨turns, out, run, within, _⟩
    have first := substLoop_mono both (Nat.le_max_left 2 turns)
    have second := substLoop_mono run (Nat.le_max_right 2 turns)
    rw [show letterCapture.offend = 1 from rfl, show letterCapture.offstart = 0 from rfl,
      first] at second
    injection second with same
    subst same
    have here := (within 0 mem_cons_self).2
    simp [letterCapture, ascii] at here

end Nmap.Service.Template
