import Nmap.Zenmap.Extras

/-!
# The values in the dictionary

Each key of the dictionary has values of one kind only, whatever is parsed. Nothing that is done to
a value can fail then, so that every command line has a parse.
-/

namespace Nmap.Zenmap

open Nmap.Base.PyInt Option

/-- Every value is of the kind of its key. -/
def Typed (d : Dict) : Prop :=
  ∀ key value, d key = some value → ∃ shape, shapeOf key = some shape ∧ shape.Fits value

variable {d : Dict} {name : Str} {shape : Shape}

theorem typed_empty : Typed fun _ => none := by
  intro key value held
  contradiction

variable {value : Value}

theorem Typed.get (typed : Typed d) (kind : shapeOf (canonicalizeName name) = some shape)
    (held : d.get name = some value) : shape.Fits value := by
  obtain ⟨other, same, fits⟩ := typed _ _ held
  rw [kind] at same
  cases same
  exact fits

theorem Typed.set (typed : Typed d) (kind : shapeOf (canonicalizeName name) = some shape)
    (fits : shape.Fits value) : Typed (d.set name value) := by
  intro key other held
  by_cases same : key = canonicalizeName name
  · subst same
    rw [Dict.set, Function.update_self] at held
    cases held
    exact ⟨shape, kind, fits⟩
  · rw [Dict.set, Function.update_of_ne same] at held
    exact typed key other held

theorem Typed.add (typed : Typed d) (kind : shapeOf (canonicalizeName name) = some shape) {n : Int}
    (number : shape = .number ∨ shape = .count ∧ 0 < n) :
    ∃ d', d.add name n = some d' ∧ Typed d' := by
  unfold Dict.add
  cases held : d.get name with
  | none =>
    rw [getD_none]
    refine ⟨_, rfl, typed.set kind ?_⟩
    obtain rfl | ⟨rfl, pos⟩ := number
    · exact .number _
    · exact .count (by omega)
  | some value =>
    have fits := typed.get kind held
    rw [getD_some]
    obtain rfl | ⟨rfl, pos⟩ := number
    · cases fits
      exact ⟨_, rfl, typed.set kind (.number _)⟩
    · cases fits with
      | count before => exact ⟨_, rfl, typed.set kind (.count (by omega))⟩

private theorem of_ite_eq_some {α : Type} {c : Prop} [Decidable c] {a b : α} {x : Option α}
    (equal : (if c then some a else x) = some b) : a = b ∨ x = some b := by
  split at equal
  · exact .inl (Option.some.inj equal)
  · exact .inr equal

theorem shapeOf_ping {type ports : Str} (ping : pingValue type ports = some (name, value)) :
    ∃ shape, shapeOf (canonicalizeName name) = some shape ∧ shape.Fits value := by
  have set : ∀ {other : Str} {v : Value} (shape : Shape), (other, v) = (name, value) →
      (other, shape) ∈ pingNames → shape.Fits v →
      ∃ shape, shapeOf (canonicalizeName name) = some shape ∧ shape.Fits value := by
    intro other v shape equal mem fits
    obtain ⟨rfl, rfl⟩ := Prod.mk.inj equal
    exact ⟨shape, TableFacts.scanPing tableFacts (other, shape) (List.mem_append_right _ mem), fits⟩
  unfold pingValue at ping
  iterate 5
    obtain equal | ping := of_ite_eq_some ping
    · exact set .flag equal (by simp [pingNames]) .flag
  iterate 6
    obtain equal | ping := of_ite_eq_some ping
    · exact set .text equal (by simp [pingNames]) (.text _)
  contradiction

theorem Typed.scanTypes (typed : Typed d) (types : Str) : Typed (handleScanTypes d types).1 := by
  induction types generalizing d with
  | nil => exact typed
  | cons type types ih =>
    rw [handleScanTypes]
    by_cases known : type ∈ Zenmap.scanTypes
    · rw [if_pos known]
      refine ih (typed.set (TableFacts.scanPing tableFacts (_, .flag) ?_) .flag)
      exact List.mem_append_left _ (List.mem_map_of_mem known)
    · rw [if_neg known]
      exact ih typed

variable {u : Unicode}

private theorem handleLevel_isSome (typed : Typed d) {letter : Char} (level : Int → Int)
    (arg : Str) (kind : shapeOf (canonicalizeName ['-', letter]) = some .number) :
    ∃ done, handleLevel u d letter level arg = some done := by
  unfold handleLevel
  cases int u arg with
  | some n => exact ⟨_, rfl⟩
  | none =>
    dsimp only
    split_ifs
    · obtain ⟨d', added, _⟩ := typed.add (n := arg.length + 1) kind (.inl rfl)
      exact ⟨(d', []), by rw [added]; rfl⟩
    · exact ⟨_, rfl⟩

theorem handleOption_isSome (typed : Typed d) {option : Opt} {arg : Option Str}
    (mem : option ∈ nmapOptions) (argument : option.hasArg = .requiredArgument → arg ≠ none) :
    ∃ done, handleOption u d option.name arg = some done := by
  obtain ⟨b, kind, hasArg, _, _, target⟩ := branch_of_mem mem
  have given : b.hasArg = .requiredArgument → ∃ a, arg = some a := fun required =>
    ne_none_iff_exists'.mp (argument (hasArg ▸ required))
  unfold handleOption
  rw [kind]
  cases b with
  | flag => exact ⟨_, rfl⟩
  | debug => exact handleLevel_isSome typed id _ (target _ _ rfl)
  | verbose => exact handleLevel_isSome typed _ _ (target _ _ rfl)
  | osDetection => exact ⟨_, rfl⟩
  | fragments =>
    obtain ⟨d', added, _⟩ := typed.add (n := 1) (target _ _ rfl) (.inr ⟨rfl, by decide⟩)
    exact ⟨(d', []), by dsimp only; rw [added]; rfl⟩
  | value | randomTargets | ping | scanTypes | timing =>
    obtain ⟨a, rfl⟩ := given rfl
    exact ⟨_, rfl⟩

private theorem typed_handleLevel (typed : Typed d) {d' : Dict} {letter : Char} {level : Int → Int}
    {arg : Str} {extras : List Str}
    (kind : shapeOf (canonicalizeName ['-', letter]) = some .number)
    (handled : handleLevel u d letter level arg = some (d', extras)) : Typed d' := by
  unfold handleLevel at handled
  cases number : int u arg with
  | some n =>
    rw [number] at handled
    cases handled
    exact typed.set kind (.number _)
  | none =>
    rw [number] at handled
    dsimp only at handled
    split_ifs at handled
    · obtain ⟨_, added, equal⟩ := map_eq_some_iff.mp handled
      cases equal
      obtain ⟨_, same, typed⟩ := typed.add (n := arg.length + 1) kind (.inl rfl)
      rw [added] at same
      cases same
      exact typed
    · cases handled
      exact typed

/-- All values are of their kinds again when an option was handled. -/
theorem Typed.handled (typed : Typed d) {d' : Dict} {option : Opt} {arg : Option Str}
    {extras : List Str} (mem : option ∈ nmapOptions)
    (handled : handleOption u d option.name arg = some (d', extras)) : Typed d' := by
  obtain ⟨b, kind, _, _, _, target⟩ := branch_of_mem mem
  unfold handleOption at handled
  rw [kind] at handled
  cases b with
  | flag name =>
    cases handled
    exact typed.set (target _ _ rfl) .flag
  | value name =>
    obtain ⟨a, rfl, equal⟩ := map_eq_some_iff.mp handled
    split_ifs at equal <;> cases equal
    · exact typed.set (target _ _ rfl) (.text a)
    · exact typed
  | debug => exact typed_handleLevel typed (target _ _ rfl) handled
  | fragments =>
    obtain ⟨_, added, equal⟩ := map_eq_some_iff.mp handled
    cases equal
    obtain ⟨_, same, typed⟩ := typed.add (n := 1) (target _ _ rfl) (.inr ⟨rfl, by decide⟩)
    rw [added] at same
    cases same
    exact typed
  | randomTargets =>
    obtain ⟨a, rfl, equal⟩ := map_eq_some_iff.mp handled
    split at equal <;> cases equal
    · exact typed.set (target _ _ rfl) (.number _)
    · exact typed
  | osDetection =>
    dsimp only at handled
    split_ifs at handled <;> cases handled
    · refine typed.set (target _ _ rfl) ?_
      cases arg
      · exact .osFlag
      · exact .osText _
    · exact typed
  | ping =>
    obtain ⟨a, rfl, equal⟩ := map_eq_some_iff.mp handled
    split at equal <;> cases equal
    · rename_i ping
      obtain ⟨shape, kind, fits⟩ := shapeOf_ping ping
      exact typed.set kind fits
    · exact typed
  | scanTypes =>
    obtain ⟨a, rfl, equal⟩ := map_eq_some_iff.mp handled
    have after := typed.scanTypes a
    rwa [equal] at after
  | timing =>
    obtain ⟨a, rfl, equal⟩ := map_eq_some_iff.mp handled
    split at equal <;> cases equal
    · exact typed.set (target _ _ rfl) (.number _)
    · exact typed
  | verbose => exact typed_handleLevel typed (target _ _ rfl) handled

theorem Takes.argument {options : List Opt} {cmdArg opt : Str} {arg : Option Str}
    {cmdArgs rest : List Str} (takes : Takes options cmdArg cmdArgs (.option opt arg) rest) :
    ∃ option ∈ options, option.name = opt ∧
      (option.hasArg = .requiredArgument → arg ≠ none) := by
  cases takes with
  | flag _ found flag =>
    refine ⟨_, lookupOption_mem found, rfl, fun required => ?_⟩
    rw [flag] at required
    contradiction
  | attached _ _ found _ given => exact ⟨_, lookupOption_mem found, rfl, given⟩
  | next a _ _ found => exact ⟨_, lookupOption_mem found, rfl, fun _ => some_ne_none a⟩

/-- Everything is read: no assertion of `handle_result` fails. -/
theorem Typed.parseArgs {ops : NmapOptions} (typed : Typed ops.d) (cmdArgs : List Str) :
    ∃ out, parseArgs u ops cmdArgs = some out ∧ Typed out.d := by
  induction h : size cmdArgs using Nat.strong_induction_on generalizing ops cmdArgs with
  | _ n ih =>
    cases read : getOption nmapOptions cmdArgs with
    | mk result rest =>
      cases result with
      | none => exact ⟨ops, parseArgs_none (by rw [read]), typed⟩
      | some result =>
        rw [parseArgs_some read]
        have shorter : size rest < n := h ▸ size_read read
        cases result with
        | positional s =>
          rw [handleResult, bind_some]
          exact ih _ shorter (by exact typed) rest rfl
        | extra l =>
          rw [handleResult, bind_some]
          exact ih _ shorter (by exact typed) rest rfl
        | option opt arg =>
          obtain ⟨cmdArg, tail, rfl, takes⟩ := takes_of_read read
          obtain ⟨option, mem, rfl, argument⟩ := takes.argument
          obtain ⟨⟨d', extras⟩, handled⟩ := handleOption_isSome (u := u) typed mem argument
          rw [handleResult, handled]
          exact ih _ shorter (typed.handled mem handled) rest rfl

theorem parse_typed (u : Unicode) (optList : List Str) :
    ∃ ops, parse u optList = some ops ∧ Typed ops.d :=
  typed_empty.parseArgs optList.tail

end Nmap.Zenmap
