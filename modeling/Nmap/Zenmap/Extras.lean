import Nmap.Zenmap.Tables

/-!
# What is read of the targets and the extras

`render` puts the targets and the extras at the end of the command line. Reading this end gives
them back only if nothing of it starts positional mode, and if each of the extras goes to the
extras again as it stands.
-/

namespace Nmap.Zenmap

open Nmap.Base.PyInt List Option

variable (u : Unicode)

/-- `Read u d cmdArgs targets extras d'`: with the dictionary `d`, the arguments are read as
these targets and extras, and `d'` is the dictionary then. -/
inductive Read : Dict → List Str → List Str → List Str → Dict → Prop
  | done {d cmdArgs} : (getOption nmapOptions cmdArgs).1 = none → Read d cmdArgs [] [] d
  | positional {d cmdArgs rest s targets extras d'} :
      getOption nmapOptions cmdArgs = (some (.positional s), rest) →
      Read d rest targets extras d' → Read d cmdArgs (s :: targets) extras d'
  | extra {d cmdArgs rest l targets extras d'} :
      getOption nmapOptions cmdArgs = (some (.extra l), rest) →
      Read d rest targets extras d' → Read d cmdArgs targets (l ++ extras) d'
  | option {d cmdArgs rest opt arg d₁ l targets extras d'} :
      getOption nmapOptions cmdArgs = (some (.option opt arg), rest) →
      handleOption u d opt arg = some (d₁, l) →
      Read d₁ rest targets extras d' → Read d cmdArgs targets (l ++ extras) d'

variable {u}

variable {ops : NmapOptions}

theorem parseArgs_none {cmdArgs : List Str} (read : (getOption nmapOptions cmdArgs).1 = none) :
    parseArgs u ops cmdArgs = some ops := by
  rw [parseArgs]
  split_ifs
  · rfl
  · rw [read]

variable {result : Result}

theorem size_read {cmdArgs rest : List Str}
    (read : getOption nmapOptions cmdArgs = (some result, rest)) : size rest < size cmdArgs := by
  have nonempty : cmdArgs ≠ [] := by
    rintro rfl
    rw [getOption_nil] at read
    cases read
  have shorter : size (getOption nmapOptions cmdArgs).2 < size cmdArgs := size_getOption nonempty
  rwa [read] at shorter

theorem parseArgs_some {cmdArgs rest : List Str}
    (read : getOption nmapOptions cmdArgs = (some result, rest)) :
    parseArgs u ops cmdArgs =
      (handleResult u ops result).bind fun ops => parseArgs u ops rest := by
  have nonempty : cmdArgs ≠ [] := by
    rintro rfl
    rw [getOption_nil] at read
    cases read
  rw [parseArgs, dif_neg nonempty]
  dsimp only
  rw [read]

variable {d d' : Dict} {targets extras : List Str}

theorem parseArgs_of_read {cmdArgs : List Str} (read : Read u d cmdArgs targets extras d')
    (same : ops.d = d) :
    parseArgs u ops cmdArgs =
      some ⟨ops.givenExecutable, ops.targetSpecs ++ targets, ops.extras ++ extras, d'⟩ := by
  induction read generalizing ops with
  | done none =>
    rw [parseArgs_none none, append_nil, append_nil, ← same]
  | positional read _ ih =>
    rw [parseArgs_some read, handleResult, bind_some]
    rw [ih (by exact same)]
    simp
  | extra read _ ih =>
    rw [parseArgs_some read, handleResult, bind_some]
    rw [ih (by exact same)]
    simp
  | option read handled _ ih =>
    rw [parseArgs_some read, handleResult, same, handled, map_some, bind_some]
    rw [ih rfl]
    simp

theorem read_of_parseArgs {out : NmapOptions} {cmdArgs : List Str}
    (parsed : parseArgs u ops cmdArgs = some out) :
    ∃ targets extras, Read u ops.d cmdArgs targets extras out.d ∧
      out.givenExecutable = ops.givenExecutable ∧
      out.targetSpecs = ops.targetSpecs ++ targets ∧ out.extras = ops.extras ++ extras := by
  induction h : size cmdArgs using Nat.strong_induction_on generalizing ops cmdArgs with
  | _ n ih =>
    cases read : getOption nmapOptions cmdArgs with
    | mk result rest =>
      cases result with
      | none =>
        have none : (getOption nmapOptions cmdArgs).1 = none := by rw [read]
        rw [parseArgs_none none] at parsed
        cases parsed
        exact ⟨[], [], .done none, rfl, (append_nil _).symm, (append_nil _).symm⟩
      | some result =>
        have shorter : size rest < n := h ▸ size_read read
        rw [parseArgs_some read] at parsed
        obtain ⟨ops₁, step, parsed⟩ := bind_eq_some_iff.mp parsed
        obtain ⟨targets, extras, rest, executable, targetSpecs, more⟩ :=
          ih _ shorter parsed rfl
        cases result with
        | positional s =>
          cases step
          exact ⟨s :: targets, extras, .positional read rest, executable,
            by rw [targetSpecs, append_assoc, singleton_append], more⟩
        | extra l =>
          cases step
          exact ⟨targets, l ++ extras, .extra read rest, executable, targetSpecs,
            by rw [more, append_assoc]⟩
        | option opt arg =>
          obtain ⟨⟨d₁, l⟩, handled, rfl⟩ := map_eq_some_iff.mp step
          exact ⟨targets, l ++ extras, .option read handled rest, executable, targetSpecs,
            by rw [more, append_assoc]⟩

theorem takes_of_read {cmdArgs rest : List Str}
    (read : getOption nmapOptions cmdArgs = (some result, rest)) :
    ∃ cmdArg tail, cmdArgs = cmdArg :: tail ∧ Takes nmapOptions cmdArg tail result rest := by
  cases cmdArgs with
  | nil =>
    rw [getOption_nil] at read
    cases read
  | cons cmdArg tail => exact ⟨cmdArg, tail, rfl, getOption_takes read⟩

/-! ## What one option adds to the extras -/

/-- The extras of `-s`: one for each type that is unknown -/
theorem handleScanTypes_extras (d : Dict) (types : Str) :
    (handleScanTypes d types).2 =
      (types.filter fun type => type ∉ scanTypes).map fun type =>
        ['-', 's', type] := by
  induction types generalizing d with
  | nil => rfl
  | cons type types ih =>
    unfold handleScanTypes
    by_cases known : type ∈ scanTypes
    · rw [if_pos known, ih, filter_cons_of_neg (by simp [known])]
    · rw [if_neg known, filter_cons_of_pos (by simp [known]), map_cons, ← ih d]

private theorem handleLevel_extras {letter : Char} {level : Int → Int} {arg : Str}
    (handled : handleLevel u d letter level arg = some (d', extras)) :
    extras = [] ∨ extras = ['-' :: letter :: arg] ∧ d' = d := by
  unfold handleLevel at handled
  split at handled
  · cases handled
    exact .inl rfl
  · split_ifs at handled
    · obtain ⟨_, _, equal⟩ := map_eq_some_iff.mp handled
      cases equal
      exact .inl rfl
    · cases handled
      exact .inr ⟨rfl, rfl⟩

/-- The extras hold nothing, or the name of the option and its argument, or both as one argument,
or the unknown types of `-s`. But for the types, the option is then not set. -/
theorem handleOption_extras {opt : Str} {arg : Option Str} {b : Branch} (kind : branch opt = some b)
    (handled : handleOption u d opt arg = some (d', extras)) :
    extras = [] ∨
    (∃ name a, b.pairName = some name ∧ arg = some a ∧ extras = [name, a] ∧ d' = d) ∨
    (∃ c, b.joinedLetter = some c ∧ extras = ['-' :: c :: arg.getD []] ∧ d' = d) ∨
    (b = .scanTypes ∧ ∃ types, arg = some types ∧ handleScanTypes d types = (d', extras)) := by
  unfold handleOption at handled
  rw [kind] at handled
  cases b with
  | flag name =>
    cases handled
    exact .inl rfl
  | value name =>
    obtain ⟨a, rfl, equal⟩ := map_eq_some_iff.mp handled
    split_ifs at equal <;> cases equal
    · exact .inl rfl
    · exact .inr (.inl ⟨name, a, rfl, rfl, rfl, rfl⟩)
  | debug =>
    cases handleLevel_extras handled with
    | inl none => exact .inl none
    | inr one => exact .inr (.inr (.inl ⟨'d', rfl, one⟩))
  | fragments =>
    obtain ⟨_, _, equal⟩ := map_eq_some_iff.mp handled
    cases equal
    exact .inl rfl
  | randomTargets =>
    obtain ⟨a, rfl, equal⟩ := map_eq_some_iff.mp handled
    split at equal <;> cases equal
    · exact .inl rfl
    · exact .inr (.inl ⟨_, a, rfl, rfl, rfl, rfl⟩)
  | osDetection =>
    dsimp only at handled
    split_ifs at handled <;> cases handled
    · exact .inl rfl
    · exact .inr (.inr (.inl ⟨'O', rfl, rfl, rfl⟩))
  | ping =>
    obtain ⟨a, rfl, equal⟩ := map_eq_some_iff.mp handled
    split at equal <;> cases equal
    · exact .inl rfl
    · exact .inr (.inr (.inl ⟨'P', rfl, rfl, rfl⟩))
  | scanTypes =>
    obtain ⟨types, rfl, equal⟩ := map_eq_some_iff.mp handled
    exact .inr (.inr (.inr ⟨rfl, types, rfl, equal⟩))
  | timing =>
    obtain ⟨a, rfl, equal⟩ := map_eq_some_iff.mp handled
    split at equal <;> cases equal
    · exact .inl rfl
    · exact .inr (.inl ⟨_, a, rfl, rfl, rfl, rfl⟩)
  | verbose =>
    cases handleLevel_extras handled with
    | inl none => exact .inl none
    | inr one => exact .inr (.inr (.inl ⟨'v', rfl, one⟩))

variable {option : Opt}

theorem handleOption_flag {arg : Option Str} (mem : option ∈ nmapOptions)
    (flag : option.hasArg = .noArgument)
    (handled : handleOption u d option.name arg = some (d', extras)) : extras = [] := by
  obtain ⟨b, kind, hasArg, _⟩ := branch_of_mem mem
  rw [flag] at hasArg
  cases handleOption_extras kind handled with
  | inl none => exact none
  | inr other =>
    obtain ⟨_, _, pair, _⟩ | ⟨_, joined, _⟩ | ⟨rfl, _⟩ := other
    · cases b <;> cases pair <;> cases hasArg
    · cases b <;> cases joined <;> cases hasArg
    · cases hasArg

/-! ## Positional mode -/

/-- Short options in one argument with a dash behind them: positional mode starts there. -/
inductive Marker : Str → Prop
  | dashes : Marker ['-', '-']
  | flag {c s} : flagChar nmapOptions c = true → Marker ('-' :: s) → Marker ('-' :: c :: s)

def EndsInMarker (s : Str) : Prop := ∃ t, t <:+ s ∧ Marker t

variable {c : Char}

theorem flagChar_of_lookup (found : lookupOption nmapOptions [c] = some option)
    (flag : option.hasArg = .noArgument) :
    flagChar nmapOptions c = true := by
  rw [flagChar, found]
  exact decide_eq_true flag

variable {s : Str}

theorem Marker.getLast (marker : Marker s) : s.getLast? = some '-' := by
  induction marker with
  | dashes => rfl
  | flag _ _ ih =>
    rename_i c t _ _
    cases t with
    | nil => exact absurd ‹Marker ['-']› (by rintro ⟨⟩)
    | cons d t =>
      rw [List.getLast?_cons_cons] at ih
      rw [List.getLast?_cons_cons, List.getLast?_cons_cons]
      exact ih

theorem EndsInMarker.mono {t : Str} (suffix : s <:+ t) (marker : EndsInMarker s) :
    EndsInMarker t := by
  obtain ⟨r, ends, marker⟩ := marker
  exact ⟨r, ends.trans suffix, marker⟩

theorem EndsInMarker.getLast (marker : EndsInMarker s) : s.getLast? = some '-' := by
  obtain ⟨t, ⟨p, rfl⟩, marker⟩ := marker
  rw [List.getLast?_append, marker.getLast]
  rfl

theorem EndsInMarker.tail (marker : EndsInMarker (c :: s)) (whole : ¬ Marker (c :: s)) :
    EndsInMarker s := by
  obtain ⟨t, suffix, marker⟩ := marker
  cases suffix_cons_iff.mp suffix with
  | inl equal => exact absurd (equal ▸ marker) whole
  | inr suffix => exact ⟨t, suffix, marker⟩

theorem EndsInMarker.flag {c : Char} {s : Str} (flag : flagChar nmapOptions c = true)
    (marker : EndsInMarker ('-' :: s)) : EndsInMarker ('-' :: c :: s) := by
  by_cases whole : Marker ('-' :: s)
  · exact ⟨_, suffix_rfl, .flag flag whole⟩
  · exact (marker.tail whole).mono ((suffix_cons c s).trans (suffix_cons '-' _))

theorem EndsInMarker.of_letter (letter : c ∈ ['d', 'v', 'O', 'P', 's'])
    (marker : EndsInMarker ('-' :: c :: s)) : EndsInMarker s := by
  have taken := flagChar_letter c letter
  have other : c ≠ '-' := by
    rintro rfl
    exact absurd letter (by decide)
  refine (marker.tail ?_).tail ?_
  · intro whole
    cases whole with
    | dashes => exact other rfl
    | flag flag _ =>
      rw [taken] at flag
      contradiction
  · intro whole
    cases whole <;> exact other rfl

open Classical in
/-- How many of the arguments end in a marker -/
noncomputable def markers (l : List Str) : Nat := l.countP fun s => decide (EndsInMarker s)

@[simp] theorem markers_nil : markers [] = 0 := rfl

open Classical in
theorem markers_cons (s : Str) (l : List Str) :
    markers (s :: l) = markers l + if EndsInMarker s then 1 else 0 := by
  rw [markers, countP_cons, markers]
  simp

theorem markers_append (l₁ l₂ : List Str) : markers (l₁ ++ l₂) = markers l₁ + markers l₂ := by
  rw [markers, countP_append, markers, markers]

theorem markers_cons_le {t : Str} {l₁ l₂ : List Str} (ends : EndsInMarker s → EndsInMarker t)
    (le : markers l₁ ≤ markers l₂) : markers (s :: l₁) ≤ markers (t :: l₂) := by
  rw [markers_cons, markers_cons]
  split_ifs with first second
  · omega
  · exact absurd (ends first) second
  · omega
  · omega

theorem markers_cons_of_not (l : List Str) (no : ¬ EndsInMarker s) :
    markers (s :: l) = markers l := by
  rw [markers_cons, if_neg no, Nat.add_zero]

theorem markers_append_of_not {l₁ : List Str} (l₂ : List Str) (no : ∀ s ∈ l₁, ¬ EndsInMarker s) :
    markers (l₁ ++ l₂) = markers l₂ := by
  induction l₁ with
  | nil => rfl
  | cons s l₁ ih =>
    rw [cons_append, markers_cons_of_not _ (no s mem_cons_self),
      ih fun t mem => no t (mem_cons_of_mem s mem)]

theorem le_markers_cons (s : Str) (l : List Str) : markers l ≤ markers (s :: l) := by
  rw [markers_cons]
  omega

/-- The extras of one option have no more markers than its argument. -/
private theorem markers_handled {arg : Option Str} {rest : List Str} {n : Nat}
    (mem : option ∈ nmapOptions) (handled : handleOption u d option.name arg = some (d', extras))
    (rest_le : markers rest ≤ n) (arg_le : ∀ a, arg = some a → markers (a :: rest) ≤ n) : markers
    (extras ++ rest) ≤ n := by
  obtain ⟨b, kind, _, _, alone, _⟩ := branch_of_mem mem
  obtain rfl | ⟨name, a, pair, rfl, rfl, _⟩ | ⟨c, joined, rfl, _⟩ | ⟨_, types, _, scan⟩ :=
    handleOption_extras kind handled
  · exact rest_le
  · have plain := alone name pair
    obtain ⟨_, _, _, _, _, last⟩ := standsAlone_cases plain
    show markers (name :: a :: rest) ≤ n
    rw [markers_cons_of_not _ fun marker => last marker.getLast]
    exact arg_le a rfl
  · have letter := Branch.joinedLetter_mem joined
    show markers (('-' :: c :: arg.getD []) :: rest) ≤ n
    cases arg with
    | none =>
      rw [markers_cons_of_not _ fun marker => by
        have last := (EndsInMarker.of_letter letter marker).getLast
        contradiction]
      exact rest_le
    | some a =>
      exact Nat.le_trans (markers_cons_le (EndsInMarker.of_letter letter) (Nat.le_refl _))
        (arg_le a rfl)
  · have unknown := handleScanTypes_extras d types
    rw [scan] at unknown
    dsimp only at unknown
    rw [unknown, markers_append_of_not]
    · exact rest_le
    · intro s mem marker
      obtain ⟨type, _, rfl⟩ := mem_map.mp mem
      have single := EndsInMarker.of_letter (by simp) marker
      obtain ⟨t, suffix, marker⟩ := single
      have short := suffix.length_le
      cases marker <;> simp at short

variable {d₁ : Dict} {cmdArg : Str}

theorem markers_option {opt : Str} {arg : Option Str} {cmdArgs rest l : List Str}
    (takes : Takes nmapOptions cmdArg cmdArgs (.option opt arg) rest)
    (handled : handleOption u d opt arg = some (d₁, l)) :
    markers (l ++ rest) ≤ markers (cmdArg :: cmdArgs) := by
  cases takes with
  | flag _ found flag =>
    rw [handleOption_flag (lookupOption_mem found) flag handled, nil_append]
    exact markers_cons_le (EndsInMarker.flag (flagChar_of_lookup found flag)) (Nat.le_refl _)
  | attached _ _ found =>
    have known := lookupOption_mem found
    refine markers_handled known handled (le_markers_cons _ _) fun a split => ?_
    exact markers_cons_le (EndsInMarker.mono (splitOption_suffix split).1) (Nat.le_refl _)
  | next a _ _ found =>
    have rest_le := le_markers_cons a rest
    refine markers_handled (lookupOption_mem found) handled
      (Nat.le_trans rest_le (le_markers_cons _ _)) fun a' same => ?_
    cases same
    exact le_markers_cons _ _

/-- The targets and the extras have no more markers than the arguments, and fewer if positional
mode starts. If it does not, no target starts with a dash. -/
theorem Read.markers_le {cmdArgs : List Str} (read : Read u d cmdArgs targets extras d') :
    markers (targets ++ extras) ≤ markers cmdArgs ∧
    (cmdArgs.head? = some ['-', '-'] → markers (targets ++ extras) < markers cmdArgs) ∧
    (markers (targets ++ extras) = markers cmdArgs → ∀ s ∈ targets, s.head? ≠ some '-') := by
  induction read with
  | done =>
    rename_i cmdArgs _
    refine ⟨Nat.zero_le _, fun head => ?_, fun _ s mem => by contradiction⟩
    cases cmdArgs with
    | nil => contradiction
    | cons s cmdArgs =>
      cases head
      rw [markers_cons, if_pos ⟨_, suffix_rfl, .dashes⟩]
      exact Nat.succ_pos _
  | positional read _ ih =>
    rename_i s targets extras _ _
    obtain ⟨cmdArg, tail, rfl, takes⟩ := takes_of_read read
    obtain ⟨le, strict, plain⟩ := ih
    rw [cons_append, markers_cons]
    cases takes with
    | marker =>
      -- the marker stays in the list, and is lost in the end
      have fewer := strict rfl
      rw [markers_cons] at fewer
      rw [markers_cons, markers_cons]
      refine ⟨by omega, fun _ => by omega, fun equal => by omega⟩
    | positional first =>
      rw [markers_cons]
      refine ⟨by omega, fun head => ?_, fun equal t mem => ?_⟩
      · cases head
        exact absurd rfl first
      · cases mem_cons.mp mem with
        | inl same => exact same ▸ first
        | inr mem => exact plain (by omega) t mem
  | extra read _ ih =>
    rename_i targets extras _ _
    obtain ⟨cmdArg, tail, rfl, takes⟩ := takes_of_read read
    obtain ⟨le, strict, plain⟩ := ih
    cases takes with
    | extra n _ other =>
      have split : markers (cmdArg :: tail) =
          markers (cmdArg :: tail.take n) + markers (tail.drop n) := by
        rw [← markers_append, cons_append, take_append_drop]
      rw [markers_append] at le plain
      rw [markers_append, markers_append, split]
      refine ⟨by omega, fun head => ?_, fun equal => plain (by omega)⟩
      cases head
      exact absurd rfl other
  | option read handled _ ih =>
    obtain ⟨cmdArg, tail, rfl, takes⟩ := takes_of_read read
    obtain ⟨le, strict, plain⟩ := ih
    have fewer := markers_option takes handled
    rw [markers_append] at le plain fewer
    rw [markers_append, markers_append]
    refine ⟨by omega, fun head => ?_, fun equal => plain (by omega)⟩
    cases head
    cases takes with
    | flag other => exact absurd rfl other
    | attached _ other => exact absurd rfl other
    | next _ _ other => exact absurd rfl other

/-! ## Extras that stay as they are -/

/-- `Kept u d extras`: read on its own, each of the extras goes to the extras again as it stands,
and sets nothing. -/
inductive Kept (u : Unicode) (d : Dict) : List Str → Prop
  | nil : Kept u d []
  | extra {cmdArgs rest l} : getOption nmapOptions cmdArgs = (some (.extra l), rest) →
      Kept u d rest → Kept u d cmdArgs
  | option {cmdArgs rest opt arg l} :
      getOption nmapOptions cmdArgs = (some (.option opt arg), rest) →
      handleOption u d opt arg = some (d, l) → cmdArgs = l ++ rest →
      Kept u d rest → Kept u d cmdArgs

/-- `cmdArg` is `whole`, or what is left of it after short options that take no argument. -/
def RestOf (whole cmdArg : Str) : Prop :=
  whole = cmdArg ∨
    (∃ c s, whole = '-' :: c :: s ∧ flagChar nmapOptions c = true) ∧ cmdArg.length < whole.length

theorem RestOf.length_le {whole : Str} (rest : RestOf whole cmdArg) :
    cmdArg.length ≤ whole.length := by
  cases rest with
  | inl same => rw [same]
  | inr shorter => exact Nat.le_of_lt shorter.2

theorem RestOf.eq (rest : RestOf ('-' :: c :: s) cmdArg) (other : flagChar nmapOptions c = false) :
    '-' :: c :: s = cmdArg := by
  cases rest with
  | inl same => exact same
  | inr shorter =>
    obtain ⟨⟨c', s', equal, flag⟩, _⟩ := shorter
    cases equal
    rw [other] at flag
    contradiction

/-- `-s` with one letter has that letter for its argument, or none after `=`. -/
theorem splitOption_type {type : Char}
    (found : lookupOption nmapOptions (splitOption nmapOptions ['-', 's', type]).name =
      some option)
    (scan : option.name = ['s']) :
    (splitOption nmapOptions ['-', 's', type]).arg = some [type] ∨
      (splitOption nmapOptions ['-', 's', type]).arg = some [] := by
  obtain ⟨_, _, _, _, _, _, s_found⟩ := TableFacts.letters tableFacts
  rw [splitOption_dash [type] (by decide)] at found ⊢
  by_cases equals : type = '='
  · subst equals
    rw [if_pos (by show (lookupOption nmapOptions ['s']).isSome = true; rw [s_found]; rfl)]
    exact .inr rfl
  · have plain : splitArg ['s', type] = ⟨['s', type], none, none⟩ := by
      simp [splitArg, List.dropWhile, equals]
    rw [plain] at found ⊢
    by_cases long : (lookupOption nmapOptions ['s', type]).isSome
    · rw [if_pos long] at found
      have length := (lookupOption_begins found).length_le
      rw [scan] at length
      simp [canonicalize] at length
    · rw [if_neg long, s_found]
      exact .inl rfl

/-- What an option adds to the extras does not go beyond what was read for it: where it has the
argument and what came after it in it, it is just that, and nothing was set. `whole` is the
argument that `cmdArg` is the rest of. -/
theorem extras_of_option {whole opt : Str} {arg : Option Str} {taken rest l w v : List Str}
    (takes : Takes nmapOptions cmdArg (taken ++ rest) (.option opt arg) rest)
    (handled : handleOption u d opt arg = some (d₁, l)) (restOf : RestOf whole cmdArg)
    (equal : l = w ++ whole :: taken ++ v) : w = [] ∧ v = [] ∧ whole = cmdArg ∧ d₁ = d := by
  have length : l.length = w.length + (taken.length + 1) + v.length := by
    rw [equal, length_append, length_append, length_cons]
  have mem : whole ∈ l := by
    rw [equal]
    simp
  obtain ⟨option, rfl, found, taken_eq⟩ := takes.taken
  obtain ⟨b, kind, _, scan, alone, _⟩ := branch_of_mem (lookupOption_mem found)
  -- where the extras are as many as the arguments, the first of them is the first argument
  have first : ∀ {c s t}, l = ('-' :: c :: s) :: t → flagChar nmapOptions c = false →
      l.length = taken.length + 1 → w = [] ∧ v = [] ∧ whole = cmdArg := by
    intro c s t head other many
    have no_w : w = [] := eq_nil_of_length_eq_zero (by omega)
    have no_v : v = [] := eq_nil_of_length_eq_zero (by omega)
    subst no_w no_v
    rw [equal, nil_append, cons_append] at head
    rw [(List.cons.inj head).1] at restOf ⊢
    exact ⟨rfl, rfl, restOf.eq other⟩
  obtain rfl | ⟨name, a, pair, rfl, rfl, same⟩ | ⟨c, joined, rfl, same⟩ |
    ⟨rfl, types, rfl, types_eq⟩ := handleOption_extras kind handled
  · contradiction
  · obtain ⟨c, s, rfl, other, no_arg, _⟩ := standsAlone_cases (alone name pair)
    obtain ⟨rfl, own⟩ | ⟨_, a', _, rfl⟩ := taken_eq
    · -- the argument was in `cmdArg`, so that neither of the two is
      cases mem_cons.mp mem with
      | inl whole_eq =>
        subst whole_eq
        rw [← restOf.eq other, no_arg] at own
        contradiction
      | inr whole_eq =>
        obtain rfl := mem_singleton.mp whole_eq
        exact absurd (splitOption_suffix own).2 (Nat.not_lt.mpr restOf.length_le)
    · obtain ⟨no_w, no_v, whole_eq⟩ := first rfl other rfl
      exact ⟨no_w, no_v, whole_eq, same⟩
  · have other := flagChar_letter c (Branch.joinedLetter_mem joined)
    obtain ⟨no_w, no_v, whole_eq⟩ := first rfl other <| by
      rw [length_singleton] at length ⊢
      omega
    exact ⟨no_w, no_v, whole_eq, same⟩
  · have unknown := handleScanTypes_extras d types
    rw [types_eq] at unknown
    dsimp only at unknown
    rw [unknown] at mem
    obtain ⟨type, unset, rfl⟩ := mem_map.mp mem
    have other := flagChar_letter 's' (by simp)
    have whole_eq := restOf.eq other
    rw [← whole_eq] at found taken_eq
    have own := splitOption_type found (scan rfl)
    obtain ⟨rfl, same⟩ | ⟨missing, _⟩ := taken_eq
    · rw [same] at own
      obtain rfl : types = [type] := by
        cases own with
        | inl single => exact Option.some.inj single
        | inr empty =>
          rw [Option.some.inj empty] at unset
          contradiction
      have new := (mem_filter.mp unset).2
      rw [handleScanTypes, if_neg (of_decide_eq_true new)] at types_eq
      cases types_eq
      obtain ⟨no_w, no_v, _⟩ := first rfl other rfl
      exact ⟨no_w, no_v, whole_eq, rfl⟩
    · rw [missing] at own
      exact own.elim nofun nofun

theorem Read.of_nil (read : Read u d [] targets extras d') : targets = [] ∧ extras = [] ∧ d' =
    d := by
  have stop : ∀ {result rest}, getOption nmapOptions [] ≠ (some result, rest) := by
    intro result rest equal
    rw [getOption_nil] at equal
    cases equal
  cases read with
  | done => exact ⟨rfl, rfl, rfl⟩
  | positional read => exact absurd read stop
  | extra read => exact absurd read stop
  | option read => exact absurd read stop

/-- If the extras are just these arguments, then they are kept. This holds with more extras in
front, and with an argument in place of its rest. -/
def KeptIfSame (u : Unicode) (d : Dict) (cmdArgs extras : List Str) (d' : Dict) : Prop :=
  ∀ cmdArg tail whole w, cmdArgs = cmdArg :: tail → RestOf whole cmdArg →
    extras = w ++ whole :: tail → w = [] ∧ whole = cmdArg ∧ Kept u d cmdArgs ∧ d' = d

theorem KeptIfSame.all {cmdArgs : List Str} (keptIf : KeptIfSame u d cmdArgs extras d')
    (read : Read u d cmdArgs targets extras d') {w : List Str} (equal : extras = w ++ cmdArgs) : w =
    [] ∧ Kept u d cmdArgs ∧ d' = d := by
  cases cmdArgs with
  | nil =>
    obtain ⟨_, rfl, same⟩ := read.of_nil
    exact ⟨(append_nil w) ▸ equal.symm, .nil, same⟩
  | cons cmdArg tail =>
    obtain ⟨no_w, _, kept⟩ := keptIf cmdArg tail cmdArg w rfl (.inl rfl) equal
    exact ⟨no_w, kept⟩

theorem KeptIfSame.now {l rest front : List Str} (keptIf : KeptIfSame u d rest extras d')
    (read : Read u d rest targets extras d') (equal : l ++ extras = front ++ rest) : ∃ v, l =
    front ++ v ∧ rest = v ++ extras := by
  obtain ⟨w, first, second⟩ | ⟨v, first, second⟩ := append_eq_append_iff.mp equal
  · obtain ⟨rfl, _⟩ := keptIf.all read second
    exact ⟨[], by rw [first, append_nil, append_nil], second.symm⟩
  · exact ⟨v, first, second⟩

private theorem keptIfSame_extra {cmdArgs rest l : List Str}
    (read : getOption nmapOptions (cmdArg :: cmdArgs) = (some (.extra l), rest))
    (later : Read u d rest targets extras d') (keptIf : KeptIfSame u d rest extras d') :
    KeptIfSame u d (cmdArg :: cmdArgs) (l ++ extras) d' := by
  intro _ tail whole w cons restOf equal
  cases cons
  cases getOption_takes read with
  | extra n =>
    have across : cmdArg :: cmdArgs.take n ++ extras =
        w ++ whole :: cmdArgs.take n ++ cmdArgs.drop n := by
      rw [equal, append_assoc, cons_append, take_append_drop]
    obtain ⟨v, first, second⟩ := keptIf.now later across
    have length := congrArg List.length first
    simp only [length_append, length_cons] at length
    obtain rfl : w = [] := eq_nil_of_length_eq_zero (by omega)
    obtain rfl : v = [] := eq_nil_of_length_eq_zero (by omega)
    obtain ⟨_, kept, same⟩ := keptIf.all later (w := []) second.symm
    exact ⟨rfl, (List.cons.inj first).1.symm, .extra read kept, same⟩

private theorem keptIfSame_option {opt : Str} {arg : Option Str} {cmdArgs rest l : List Str}
    (read : getOption nmapOptions (cmdArg :: cmdArgs) = (some (.option opt arg), rest))
    (handled : handleOption u d opt arg = some (d₁, l)) (later : Read u d₁ rest targets extras d')
    (keptIf : KeptIfSame u d₁ rest extras d') :
    KeptIfSame u d (cmdArg :: cmdArgs) (l ++ extras) d' := by
  intro _ tail whole w cons restOf equal
  cases cons
  have takes := getOption_takes read
  by_cases taken : ∃ taken, cmdArgs = taken ++ rest
  · obtain ⟨taken, rfl⟩ := taken
    rw [← cons_append, ← append_assoc] at equal
    obtain ⟨v, first, second⟩ := keptIf.now later equal
    obtain ⟨rfl, rfl, rfl, rfl⟩ := extras_of_option takes handled restOf first
    obtain ⟨_, kept, same⟩ := keptIf.all later (w := []) second.symm
    exact ⟨rfl, rfl, .option read handled (by rw [first]; simp) kept, same⟩
  · cases takes with
    | flag other found flag =>
      rename_i c s option
      -- nothing goes to the extras for the first option, and the rest is no whole argument
      have longer : ('-' :: s).length < whole.length :=
        Nat.lt_of_lt_of_le (Nat.lt_succ_self _) restOf.length_le
      have flagged : ∃ c s, whole = '-' :: c :: s ∧ flagChar nmapOptions c = true := by
        cases restOf with
        | inl same => exact ⟨c, s, same, flagChar_of_lookup found flag⟩
        | inr shorter => exact shorter.1
      rw [handleOption_flag (lookupOption_mem found) flag handled] at equal
      obtain ⟨_, same, _⟩ := keptIf _ _ whole w rfl (.inr ⟨flagged, longer⟩) equal
      exact absurd (congrArg List.length same) (Nat.ne_of_gt longer)
    | attached => exact absurd ⟨[], rfl⟩ taken
    | next a => exact absurd ⟨[a], rfl⟩ taken

theorem Read.keptIfSame {cmdArgs : List Str} (read : Read u d cmdArgs targets extras d')
    (none : targets = []) :
    KeptIfSame u d cmdArgs extras d' := by
  induction read with
  | done =>
    intro cmdArg tail whole w _ _ equal
    exact absurd equal.symm (by simp)
  | positional => contradiction
  | extra read later ih =>
    obtain ⟨cmdArg, tail, rfl, _⟩ := takes_of_read read
    exact keptIfSame_extra read later (ih none)
  | option read handled later ih =>
    obtain ⟨cmdArg, tail, rfl, _⟩ := takes_of_read read
    exact keptIfSame_option read handled later (ih none)

theorem Read.kept {cmdArgs : List Str} (read : Read u d cmdArgs [] cmdArgs d') :
    Kept u d cmdArgs ∧ d' = d :=
  ((read.keptIfSame rfl).all read (w := []) rfl).2

theorem Kept.read {d : Dict} {extras : List Str} (kept : Kept u d extras) :
    Read u d extras [] extras d := by
  induction kept with
  | nil => exact .done (by rw [getOption_nil])
  | extra read _ ih =>
    obtain ⟨cmdArg, tail, rfl, takes⟩ := takes_of_read read
    cases takes with
    | extra n =>
      have again := Read.extra read ih
      rwa [cons_append, take_append_drop] at again
  | option read handled equal _ ih =>
    have again := Read.option read handled ih
    rwa [← equal] at again

/-! ## Targets and extras -/

theorem read_cons_iff {cmdArgs : List Str} (plain : s.head? ≠ some '-') :
    Read u d (s :: cmdArgs) (s :: targets) extras d' ↔ Read u d cmdArgs targets extras d' := by
  have first : getOption nmapOptions (s :: cmdArgs) = (some (.positional s), cmdArgs) :=
    getOption_positional plain
  constructor
  · intro read
    cases read with
    | positional step later =>
      rw [first] at step
      cases step
      exact later
    | extra step =>
      rw [first] at step
      cases step
    | option step =>
      rw [first] at step
      cases step
  · exact .positional first

/-- The targets and the extras are read back if and only if no target starts with a dash and all
of the extras are kept. -/
theorem read_targets_extras_iff :
    Read u d (targets ++ extras) targets extras d' ↔
      (∀ s ∈ targets, s.head? ≠ some '-') ∧ Kept u d extras ∧ d' = d := by
  have peel : ∀ {l : List Str}, (∀ s ∈ l, s.head? ≠ some '-') →
      (Read u d (l ++ extras) l extras d' ↔ Read u d extras [] extras d') := by
    intro l plain
    induction l with
    | nil => rfl
    | cons s l ih =>
      rw [cons_append, read_cons_iff (plain s mem_cons_self)]
      exact ih fun t mem => plain t (mem_cons_of_mem s mem)
  constructor
  · intro read
    have plain := read.markers_le.2.2 rfl
    exact ⟨plain, ((peel plain).mp read).kept⟩
  · intro ⟨plain, kept, same⟩
    rw [peel plain, same]
    exact kept.read

end Nmap.Zenmap
