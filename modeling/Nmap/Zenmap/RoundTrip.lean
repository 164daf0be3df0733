import Nmap.Zenmap.ReadBack

/-!
# Command lines survive rendering

When a command line is parsed, rendered and parsed again, all options, targets and extras stay as
they were, unless one of a few things came up that `render` does not write as it would be read.
-/

namespace Nmap.Zenmap

open Nmap.Base.PyInt List Option

variable (u : Unicode)

/-- A value with 0 and unset identified -/
def normalize : Option Value → Option Value
  | some (.number n) => if n = 0 then none else some (.number n)
  | other => other

/-- What is parsed from the rendered options is what they were, and is rendered in the same way. -/
def RoundTrips (ops : NmapOptions) : Prop :=
  ∃ ops', parse u (render ops) = some ops' ∧ ops'.executable = ops.executable ∧
    ops'.targetSpecs = ops.targetSpecs ∧ ops'.extras = ops.extras ∧
    (∀ key, normalize (ops'.d key) = normalize (ops.d key)) ∧ render ops' = render ops

/-- What `render` writes is read as it was meant. -/
structure Survives (ops : NmapOptions) : Prop where
  targets : ∀ s ∈ ops.targetSpecs, s.head? ≠ some '-'
  /-- `render` has no case for `--min-retries`. -/
  minRetries : ops.d.get "--min-retries".toList = none
  debug : ∀ n, ops.d.get "-d".toList = some (.number n) → 0 ≤ n
  verbose : ∀ n, ops.d.get "-v".toList = some (.number n) → -1 ≤ n
  os : ∀ s, ops.d.get "-O".toList = some (.text s) → s ≠ [] ∧ s.head? ≠ some '='
  extras : Kept u ops.d ops.extras

variable {u}

variable {ops : NmapOptions}

/-- The rendered command line has a parse: the options are read back, then come the targets and
the extras. -/
theorem parse_render_iff {ops' : NmapOptions} (typed : Typed ops.d) :
    parse u (render ops) = some ops' ↔
      ∃ targets extras, Read u (readBack ops.d renderOrder) (ops.targetSpecs ++ ops.extras)
        targets extras ops'.d ∧
        ops' = ⟨some ops.executable, targets, extras, ops'.d⟩ := by
  have start : parse u (render ops) = parseArgs u ⟨some ops.executable, [], [], fun _ => none⟩
      (renderOptions ops.d ++ (ops.targetSpecs ++ ops.extras)) := by
    rw [parse, render, append_assoc]
    rfl
  rw [start]
  constructor
  · intro parsed
    obtain ⟨targets, extras, read, executable, targetSpecs, more⟩ := read_of_parseArgs parsed
    refine ⟨targets, extras, (readsTo_renderOptions typed _ _ _ _).mp read, ?_⟩
    cases ops'
    cases executable
    cases targetSpecs
    cases more
    rfl
  · rintro ⟨targets, extras, read, equal⟩
    have all := (readsTo_renderOptions typed _ _ _ _).mpr read
    rw [parseArgs_of_read all rfl, equal]
    rfl

/-! ## The dictionary that is read back -/

theorem own_items : .debug ∈ renderOrder ∧ .verbose ∈ renderOrder ∧
    .optional "-O".toList ∈ renderOrder := by
  rw [spelledOrder.2]
  decide

theorem own_keys :
    canonicalizeName "-d".toList = "debug".toList ∧
    canonicalizeName "-v".toList = "verbose".toList ∧
    canonicalizeName "-T".toList = "timing".toList ∧
    canonicalizeName "-iR".toList = "iR".toList ∧
    canonicalizeName "--min-retries".toList = "min-retries".toList := by
  have all := ItemFacts.own itemFacts
  simp only [strs, map_cons, map_nil, List.cons.injEq] at all
  obtain ⟨debug, _, verbose, _, timing, random, minRetries, _⟩ := all
  exact ⟨debug, verbose, timing, random, minRetries⟩

variable {d : Dict} {item : Item}

theorem readBack_get (mem : item ∈ renderOrder) :
    (readBack d renderOrder).get item.name = item.back (d.get item.name) :=
  readBack_of_mem renderOrder_apart mem

theorem renderOrder_minRetries (mem : item ∈ renderOrder) :
    canonicalizeName item.name ≠ canonicalizeName "--min-retries".toList := by
  intro same
  obtain ⟨_, _, _, _, own⟩ := own_keys
  have all := ItemFacts.pairwise itemFacts
  rw [← ItemFacts.keys itemFacts, pairwise_append] at all
  have apart := all.2.2 _ (mem_map_of_mem mem) _ (mem_singleton_self _) (same.trans own)
  exact absurd apart.2 (by simp)

/-- The dictionaries differ at most in the numbers of `-d` and `-v`. -/
def Agree (d d' : Dict) : Prop :=
  ∀ key, key ≠ canonicalizeName "-d".toList → key ≠ canonicalizeName "-v".toList → d' key = d key

variable {d' : Dict}

theorem Agree.symm (agree : Agree d d') : Agree d' d := fun key debug verbose =>
  (agree key debug verbose).symm

theorem Agree.get (agree : Agree d d') {name : Str} {shape : Shape}
    (kind : shapeOf (canonicalizeName name) = some shape) (other : shape ≠ .number) :
    d'.get name = d.get name := by
  have number : ∀ {item : Item}, item ∈ renderOrder → item.shape = .number →
      canonicalizeName name ≠ canonicalizeName item.name := by
    intro item mem own same
    rw [same, shapeOf_item mem, own] at kind
    exact other (Option.some.inj kind).symm
  have debug := number own_items.1 rfl
  have verbose := number own_items.2.1 rfl
  exact agree _ debug verbose

theorem Agree.get_timing (agree : Agree d d') :
    d'.get "-T".toList = d.get "-T".toList := by
  obtain ⟨debug, verbose, timing, _⟩ := own_keys
  refine agree _ ?_ ?_
  · rw [debug, timing]
    simp
  · rw [verbose, timing]
    simp

theorem Agree.get_randomTargets (agree : Agree d d') :
    d'.get "-iR".toList = d.get "-iR".toList := by
  obtain ⟨debug, verbose, _, random, _⟩ := own_keys
  refine agree _ ?_ ?_
  · rw [debug, random]
    simp
  · rw [verbose, random]
    simp

/-- Types that are set already set nothing. -/
private theorem handleScanTypes_same (agree : Agree d d') (types : Str)
    (same : (handleScanTypes d types).1 = d) :
    handleScanTypes d' types = (d', (handleScanTypes d types).2) := by
  have keeps : ∀ (types : Str) (b : Dict) (name : Str), b.get name = some .flag →
      (handleScanTypes b types).1.get name = some .flag := by
    intro types
    induction types with
    | nil => exact fun _ _ set => set
    | cons type types ih =>
      intro b name set
      rw [handleScanTypes]
      by_cases known : type ∈ scanTypes
      · rw [if_pos known]
        refine ih _ name ?_
        by_cases key : canonicalizeName name = canonicalizeName ['-', 's', type]
        · rw [Dict.get, key]
          exact Dict.get_set b ['-', 's', type] .flag
        · rw [Dict.get, Dict.set, Function.update_of_ne key]
          exact set
      · rw [if_neg known]
        exact ih b name set
  induction types with
  | nil => rfl
  | cons type types ih =>
    rw [handleScanTypes] at same ⊢
    rw [handleScanTypes]
    by_cases known : type ∈ scanTypes
    · rw [if_pos known] at same
      rw [if_pos known, if_pos known]
      have kind := TableFacts.scanPing tableFacts (['-', 's', type], .flag)
        (mem_append_left _ (mem_map_of_mem known))
      have set := keeps types _ ['-', 's', type] (Dict.get_set d ['-', 's', type] .flag)
      rw [same] at set
      have unchanged : ∀ b : Dict, b.get ['-', 's', type] = some .flag →
          b.set ['-', 's', type] .flag = b := fun b set => by
        rw [Dict.set, ← set]
        exact Function.update_eq_self _ b
      rw [unchanged d set] at same ⊢
      rw [unchanged d' ((agree.get kind (by simp)).trans set)]
      exact ih same
    · rw [if_neg known] at same
      rw [if_neg known, if_neg known, ih same]

private theorem handleLevel_same {d₁ : Dict} {letter : Char} {level : Int → Int} {arg : Str}
    {l : List Str} (handled : handleLevel u d letter level arg = some (d₁, l)) (added : l ≠ []) :
    handleLevel u d' letter level arg = some (d', l) := by
  unfold handleLevel at handled ⊢
  cases number : int u arg with
  | some n =>
    rw [number] at handled
    cases handled
    contradiction
  | none =>
    rw [number] at handled
    dsimp only at handled ⊢
    split_ifs at handled ⊢
    · obtain ⟨_, _, equal⟩ := map_eq_some_iff.mp handled
      cases equal
      contradiction
    · cases handled
      rfl

/-- An option that goes to the extras and sets nothing does so with a dictionary that agrees. -/
theorem handleOption_same {d₁ : Dict} (agree : Agree d d') {option : Opt} {arg : Option Str}
    {l : List Str} (mem : option ∈ nmapOptions)
    (handled : handleOption u d option.name arg = some (d₁, l)) (unchanged : d₁ = d)
    (added : l ≠ []) : handleOption u d' option.name arg = some (d', l) := by
  obtain ⟨b, kind, _, _, _, target⟩ := branch_of_mem mem
  unfold handleOption at handled ⊢
  rw [kind] at handled ⊢
  cases b with
  | flag name =>
    cases handled
    contradiction
  | value name =>
    obtain ⟨a, rfl, equal⟩ := map_eq_some_iff.mp handled
    dsimp only
    rw [map_some, agree.get (target _ _ rfl) (by simp)]
    split_ifs at equal ⊢ with unset
    · cases equal
      contradiction
    · cases equal
      rfl
  | debug => exact handleLevel_same handled added
  | fragments =>
    obtain ⟨_, _, equal⟩ := map_eq_some_iff.mp handled
    cases equal
    contradiction
  | randomTargets =>
    obtain ⟨a, rfl, equal⟩ := map_eq_some_iff.mp handled
    dsimp only
    rw [map_some, agree.get_randomTargets]
    split at equal
    · exact absurd (Prod.mk.inj equal).2.symm added
    · obtain ⟨_, rfl⟩ := Prod.mk.inj equal
      rfl
  | osDetection =>
    dsimp only at handled ⊢
    rw [agree.get (target _ _ rfl) (by simp)]
    split_ifs at handled ⊢ with unset
    · cases handled
      contradiction
    · cases handled
      rfl
  | ping =>
    obtain ⟨a, rfl, equal⟩ := map_eq_some_iff.mp handled
    dsimp only
    rw [map_some]
    split at equal
    · exact absurd (Prod.mk.inj equal).2.symm added
    · obtain ⟨_, rfl⟩ := Prod.mk.inj equal
      rfl
  | scanTypes =>
    obtain ⟨a, rfl, equal⟩ := map_eq_some_iff.mp handled
    dsimp only
    rw [map_some, handleScanTypes_same agree a (by rw [equal, unchanged]), equal]
  | timing =>
    obtain ⟨a, rfl, equal⟩ := map_eq_some_iff.mp handled
    dsimp only
    rw [map_some, agree.get_timing]
    split at equal
    · exact absurd (Prod.mk.inj equal).2.symm added
    · obtain ⟨_, rfl⟩ := Prod.mk.inj equal
      rfl
  | verbose => exact handleLevel_same handled added

theorem Kept.agree {d d' : Dict} {extras : List Str} (kept : Kept u d extras)
    (agree : Agree d d') : Kept u d' extras := by
  induction kept with
  | nil => exact .nil
  | extra read _ ih => exact .extra read ih
  | option read handled equal _ ih =>
    have shorter := size_read read
    obtain ⟨cmdArg, tail, rfl, takes⟩ := takes_of_read read
    obtain ⟨option, mem, rfl, _⟩ := takes.argument
    refine .option read (handleOption_same agree mem handled rfl ?_) equal ih
    rintro rfl
    rw [equal] at shorter
    exact Nat.lt_irrefl _ shorter

/-- What is not read back as it was -/
theorem Item.back_eq {value : Option Value} (debug : item ≠ .debug) (verbose : item ≠ .verbose)
    (os : item = .optional "-O".toList → ∀ s, value = some (.text s) →
      s ≠ [] ∧ s.head? ≠ some '=') : item.back value = value := by
  cases item with
  | debug => exact absurd rfl debug
  | verbose => exact absurd rfl verbose
  | optional name =>
    unfold Item.back
    split
    · rename_i name' s item_eq
      cases item_eq
      split_ifs with own
      · obtain ⟨nonempty, equals⟩ := os (own ▸ rfl) s rfl
        unfold osBack
        split
        · contradiction
        · exact absurd rfl equals
        · rfl
      · rfl
    · contradiction
    · contradiction
    · rfl
  | flag => rfl
  | value => rfl
  | joined => rfl
  | fragments => rfl

theorem agree_readBack (typed : Typed d) (minRetries : d.get "--min-retries".toList = none)
    (os : ∀ s, d.get "-O".toList = some (.text s) → s ≠ [] ∧ s.head? ≠ some '=') :
    Agree d (readBack d renderOrder) := by
  intro key debug verbose
  by_cases known : ∃ item ∈ renderOrder, canonicalizeName item.name = key
  · obtain ⟨item, mem, rfl⟩ := known
    rw [readBack_of_mem renderOrder_apart mem]
    refine Item.back_eq ?_ ?_ ?_
    · rintro rfl
      exact debug rfl
    · rintro rfl
      exact verbose rfl
    · rintro rfl s held
      exact os s held
  · rw [readBack_of_not_mem fun item mem same => known ⟨item, mem, same⟩]
    cases held : d key with
    | none => rfl
    | some value =>
      obtain ⟨shape, kind, _⟩ := typed key value held
      obtain item | rfl := item_of_shapeOf kind
      · exact absurd item known
      · obtain ⟨_, _, _, _, own⟩ := own_keys
        rw [Dict.get, own, held] at minRetries
        exact absurd minRetries (some_ne_none value)

theorem Survives.agree (survives : Survives u ops) (typed : Typed ops.d) :
    Agree ops.d (readBack ops.d renderOrder) :=
  agree_readBack typed survives.minRetries survives.os

/-- The numbers are rendered again as they were. -/
theorem renderItem_number (typed : Typed d) (mem : item ∈ renderOrder)
    (number : item = .debug ∨ item = .verbose) :
    renderItem (readBack d renderOrder) item = renderItem d item := by
  have back := readBack_get (d := d) mem
  have fits : ∀ value, d.get item.name = some value → item.shape.Fits value :=
    fun value held => typed.get (shapeOf_item mem) held
  obtain rfl | rfl := number
  · rw [renderItem, renderItem]
    have back : (readBack d renderOrder).get "-d".toList =
      Item.debug.back (d.get "-d".toList) := back
    rw [back]
    cases held : d.get "-d".toList with
    | none => rfl
    | some value =>
      cases fits value held with
      | number n =>
        rw [Item.back]
        split_ifs with pos
        · rfl
        · dsimp only
          rw [if_neg (by omega), if_neg (by omega)]
  · rw [renderItem, renderItem]
    have back : (readBack d renderOrder).get "-v".toList =
      Item.verbose.back (d.get "-v".toList) := back
    rw [back]
    cases held : d.get "-v".toList with
    | none => rfl
    | some value =>
      cases fits value held with
      | number n =>
        rw [Item.back]
        split_ifs with written
        · rfl
        · have low : n.toNat = 0 := by omega
          dsimp only
          rw [if_neg (by omega), low]
          rfl

theorem renderItem_congr (same : d'.get item.name = d.get item.name) :
    renderItem d' item = renderItem d item := by
  cases item <;> simp only [Item.name] at same <;> simp only [renderItem, same]

theorem Survives.renderOptions {ops : NmapOptions} (survives : Survives u ops)
    (typed : Typed ops.d) :
    renderOptions (readBack ops.d renderOrder) = renderOptions ops.d := by
  refine flatMap_congr fun item mem => ?_
  by_cases number : item = .debug ∨ item = .verbose
  · exact renderItem_number typed mem number
  · refine renderItem_congr ?_
    rw [readBack_get mem]
    refine Item.back_eq (fun debug => number (.inl debug)) (fun verbose => number (.inr verbose)) ?_
    rintro rfl s held
    exact survives.os s held

theorem normalize_level {d : Dict} {item : Item} (typed : Typed d) (mem : item ∈ renderOrder)
    (level : (item = .debug ∧ ∀ n, d.get item.name = some (.number n) → 0 ≤ n) ∨
      item = .verbose ∧ ∀ n, d.get item.name = some (.number n) → -1 ≤ n) :
    normalize (readBack d renderOrder (canonicalizeName item.name)) =
      normalize (d (canonicalizeName item.name)) := by
  refine (congrArg normalize (readBack_get mem)).trans ?_
  show normalize (item.back (d.get item.name)) = normalize (d.get item.name)
  cases held : d.get item.name with
  | none => rcases level with ⟨rfl, -⟩ | ⟨rfl, -⟩ <;> rfl
  | some value =>
    have known := typed.get (shapeOf_item mem) held
    rcases level with ⟨rfl, low⟩ | ⟨rfl, low⟩ <;>
    · cases known with
      | number n =>
        have bound := low n held
        rw [Item.back]
        split_ifs with pos
        · rfl
        · rw [normalize, normalize, if_pos (by omega)]
          exact fun _ equal => by cases equal

/-- Every option has the same value again, with 0 and unset identified. -/
theorem Survives.normalize {ops : NmapOptions} (survives : Survives u ops) (typed : Typed ops.d)
    (key : Str) : normalize (readBack ops.d renderOrder key) = normalize (ops.d key) := by
  by_cases debug : key = canonicalizeName "-d".toList
  · have same := normalize_level typed own_items.1 (.inl ⟨rfl, survives.debug⟩)
    rwa [debug]
  by_cases verbose : key = canonicalizeName "-v".toList
  · have same := normalize_level typed own_items.2.1 (.inr ⟨rfl, survives.verbose⟩)
    rwa [verbose]
  · rw [survives.agree typed key debug verbose]

/-! ## The round trip -/

theorem executable_some (ops : NmapOptions) (targets extras : List Str) (d : Dict) :
    NmapOptions.executable ⟨some ops.executable, targets, extras, d⟩ = ops.executable := by
  obtain ⟨given, _, _, _⟩ := ops
  cases given with
  | none => rfl
  | some s => cases s <;> rfl

theorem Survives.roundTrips (survives : Survives u ops) (typed : Typed ops.d) :
    RoundTrips u ops := by
  have kept := survives.extras.agree (survives.agree typed)
  have read := read_targets_extras_iff.mpr ⟨survives.targets, kept, rfl⟩
  refine ⟨⟨some ops.executable, ops.targetSpecs, ops.extras, readBack ops.d renderOrder⟩,
    (parse_render_iff typed).mpr ⟨_, _, read, rfl⟩, executable_some _ _ _ _, rfl, rfl,
    survives.normalize typed, ?_⟩
  rw [render, render, executable_some, survives.renderOptions typed]

theorem RoundTrips.survives (roundTrips : RoundTrips u ops) (typed : Typed ops.d) :
    Survives u ops := by
  obtain ⟨ops', parsed, _, targets, extras, values, _⟩ := roundTrips
  obtain ⟨targets', extras', read, equal⟩ := (parse_render_iff typed).mp parsed
  rw [equal] at targets extras
  dsimp only at targets extras
  rw [targets, extras] at read
  obtain ⟨plain, kept, back⟩ := read_targets_extras_iff.mp read
  rw [back] at values
  have value : ∀ {item : Item}, item ∈ renderOrder →
      normalize (item.back (ops.d.get item.name)) = normalize (ops.d.get item.name) := by
    intro item mem
    have same := values (canonicalizeName item.name)
    rwa [readBack_of_mem renderOrder_apart mem] at same
  have minRetries : ops.d.get "--min-retries".toList = none := by
    cases held : ops.d.get "--min-retries".toList with
    | none => rfl
    | some set =>
      have same := values (canonicalizeName "--min-retries".toList)
      rw [readBack_of_not_mem fun item mem => renderOrder_minRetries mem] at same
      obtain ⟨_, _, _, _, own⟩ := own_keys
      have kind : shapeOf (canonicalizeName "--min-retries".toList) = some .text := by
        rw [own]
        refine shapeOf_of_mem ?_
        rw [← ItemFacts.keys itemFacts]
        exact mem_append_right _ (mem_singleton_self _)
      rw [Dict.get] at held
      rw [held] at same
      cases typed.get kind held
      cases same
  have os : ∀ s, ops.d.get "-O".toList = some (.text s) → s ≠ [] ∧ s.head? ≠ some '=' := by
    intro s held
    have same := value own_items.2.2
    rw [show ops.d.get (Item.optional "-O".toList).name = some (.text s) from held, Item.back,
      if_pos rfl] at same
    refine ⟨?_, ?_⟩
    · rintro rfl
      cases same
    · intro equals
      cases s with
      | nil => contradiction
      | cons c rest =>
        cases equals
        change some (Value.text rest) = some (Value.text ('=' :: rest)) at same
        injection same with same
        injection same with same
        exact List.cons_ne_self _ _ same.symm
  refine ⟨plain, minRetries, fun n held => ?_, fun n held => ?_, os,
    kept.agree (agree_readBack typed minRetries os).symm⟩
  · have same := value own_items.1
    rw [show ops.d.get Item.debug.name = some (.number n) from held, Item.back] at same
    by_contra low
    rw [if_neg (by omega), normalize, normalize, if_neg (by omega)] at same
    · cases same
    · exact fun _ equal => by cases equal
  · have same := value own_items.2.1
    rw [show ops.d.get Item.verbose.name = some (.number n) from held, Item.back] at same
    by_contra low
    rw [if_neg (by omega), normalize, normalize, if_neg (by omega)] at same
    · cases same
    · exact fun _ equal => by cases equal

/-- Every command line is parsed, and it survives rendering if and only if what is rendered is read
as it was meant. -/
theorem parse_roundTrips_iff (u : Unicode) (optList : List Str) :
    ∃ ops, parse u optList = some ops ∧ (RoundTrips u ops ↔ Survives u ops) := by
  obtain ⟨ops, parsed, typed⟩ := parse_typed u optList
  exact ⟨ops, parsed, fun roundTrips => roundTrips.survives typed, fun survives =>
    survives.roundTrips typed⟩

/-- `--min-retries` is lost: `render` does not write it. -/
theorem minRetries_lost :
    ∃ ops, parse .ascii (strs ["nmap", "--min-retries", "5"]) = some ops ∧
      ops.d.get "--min-retries".toList = some (.text "5".toList) ∧ ¬ RoundTrips .ascii ops := by
  have found : (splitOption nmapOptions "--min-retries".toList).arg = none ∧
      (splitOption nmapOptions "--min-retries".toList).remainder = none ∧
      lookupOption nmapOptions (splitOption nmapOptions "--min-retries".toList).name =
        some ⟨"min-retries".toList, .requiredArgument⟩ ∧
      branch "min-retries".toList = some (.value "--min-retries".toList) := by
    rw [spelledOptions.2]
    decide +kernel
  obtain ⟨missing, whole, known, kind⟩ := found
  have read := getOption_next "5".toList [] (by simp) (by simp) whole known rfl missing
  have handled : handleOption .ascii (fun _ => none) "min-retries".toList (some "5".toList) =
      some (Dict.set (fun _ => none) "--min-retries".toList (.text "5".toList), []) := by
    unfold handleOption
    rw [kind]
    rfl
  let start : NmapOptions := ⟨some "nmap".toList, [], [], fun _ => none⟩
  have empty : start.d = fun _ => none := rfl
  have all := parseArgs_of_read (.option read handled (.done (by rw [getOption_nil]))) empty
  have set := Dict.get_set (fun _ => none) "--min-retries".toList (.text "5".toList)
  refine ⟨_, all, set, fun roundTrips => ?_⟩
  obtain ⟨ops, parsed, typed⟩ := parse_typed .ascii (strs ["nmap", "--min-retries", "5"])
  cases parsed.symm.trans all
  have lost := (roundTrips.survives typed).minRetries
  rw [set] at lost
  cases lost

end Nmap.Zenmap
