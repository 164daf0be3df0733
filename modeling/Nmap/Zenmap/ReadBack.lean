import Mathlib.Data.List.Induction
import Mathlib.Data.List.Pairwise
import Mathlib.Tactic.IntervalCases
import Nmap.Zenmap.Values

/-!
# Rendered options are read back

Every option that `render` writes is read with the value that it was written from, but for a few
values: `-O` with an empty argument or one that starts with `=`, and numbers that are not written.
-/

namespace Nmap.Zenmap

open Nmap.Base.PyInt List

set_option maxRecDepth 10000

/-! ## The items of `render` -/

def Item.name : Item → Str
  | .flag name | .value name | .joined name | .optional name => name
  | .debug => "-d".toList
  | .fragments => "-f".toList
  | .verbose => "-v".toList

def Item.shape : Item → Shape
  | .flag _ => .flag
  | .value name => if name = "-iR".toList then .number else .text
  | .joined name => if name = "-T".toList then .number else .text
  | .optional name => if name = "-O".toList then .os else .text
  | .debug | .verbose => .number
  | .fragments => .count

/-- `name` is read as an option that sets it to `True`. -/
def readsFlag (options : List Opt) (name : Str) : Bool :=
  let split := splitOption options name
  match lookupOption options split.name with
  | none => false
  | some option =>
    match branch option.name, split.arg with
    | some (.flag other), none => other = name
    | some .scanTypes, some [type] => type ∈ scanTypes ∧ name = ['-', 's', type]
    | some .ping, some arg => pingValue (arg.take 1) (arg.drop 1) = some (name, .flag)
    | _, _ => false

/-- `name` is read as an option whose argument comes next, and sets `name` to it. -/
def readsValue (options : List Opt) (name : Str) : Bool :=
  let split := splitOption options name
  match lookupOption options split.name, split.arg with
  | some option, none =>
    match branch option.name with
    | some (.value other) => other = name ∧ name ≠ "-iR".toList
    | some .randomTargets => name = "-iR".toList
    | _ => false
  | _, _ => false

def itemFact (options : List Opt) : Item → Bool
  | .flag name =>
    name.head? = some '-' ∧ name ≠ ['-', '-'] ∧ (splitOption options name).remainder = none ∧
      readsFlag options name
  | .value name =>
    name.head? = some '-' ∧ name ≠ ['-', '-'] ∧ (splitOption options name).remainder = none ∧
      readsValue options name
  | .joined name =>
    name = "-T".toList || ['S', 'A', 'U', 'O', 'Y'].any fun type => name = ['-', 'P', type]
  | .optional name => name = "-O".toList ∨ name = "-PB".toList
  | _ => true

/-- `renderOrder` with its strings spelled out -/
def spelledOrder : { l : List Item // renderOrder = l } :=
  ⟨_, by
    simp only [renderOrder, strs, map_cons, map_nil, cons_append, nil_append,
      String.reduceToList]
    rfl⟩

theorem eq_of_parts {α : Type} {l m : List α} (n : Nat) (front : l.take n = m.take n)
    (back : l.drop n = m.drop n) : l = m := by
  rw [← take_append_drop n l, front, back, take_append_drop]

/-- An option that does not go on like this after its first letter -/
def joinsNothing (option : Opt) : Bool :=
  (['O', 'T', 'P'].all fun c => option.name.head? = some c → option.name = [c]) &&
    "0123456789".toList.all fun c =>
      ¬ ['d', c] <+: canonicalize option.name ∧ ¬ ['v', c] <+: canonicalize option.name

/-- What an evaluation of the items shows -/
structure ItemFacts : Prop where
  items : ∀ item ∈ renderOrder, itemFact nmapOptions item = true
  /-- the keys of `render`, and the one that it leaves out -/
  keys : (renderOrder.map fun item => (canonicalizeName item.name, item.shape)) ++
    [("min-retries".toList, .text)] = keyTable
  pairwise : keyTable.Pairwise fun x y => x.1 = y.1 → x.2 = .flag ∧ y.2 = .flag
  /-- the names that `render` and `handle_result` treat in their own way -/
  own : ["-d", "-f", "-v", "-O", "-T", "-iR", "--min-retries"].map
      (fun s => canonicalizeName s.toList) =
    strs ["debug", "f", "verbose", "O", "timing", "iR", "min-retries"]
  branches :
    branch ['d'] = some .debug ∧ branch ['f'] = some .fragments ∧ branch ['v'] = some .verbose ∧
    branch ['O'] = some .osDetection ∧ branch ['T'] = some .timing ∧ branch ['P'] = some .ping
  joins : ∀ option ∈ nmapOptions, joinsNothing option = true

theorem itemFacts : ItemFacts where
  items := by
    rw [spelledOrder.2, spelledOptions.2]
    iterate 6 refine forall_mem_parts 16 (by decide +kernel) ?_
    decide +kernel
  keys := by
    simp only [canonicalizeName, spelledOrder.2, spelledOptions.2, spelledKeys.2]
    iterate 6 refine eq_of_parts 16 (by decide +kernel) ?_
    decide +kernel
  pairwise := by
    rw [spelledKeys.2]
    decide +kernel
  own := by
    simp only [map_cons, map_nil, canonicalizeName, spelledOptions.2]
    decide +kernel
  branches := by decide +kernel
  joins := by
    rw [spelledOptions.2]
    decide +kernel

theorem no_option_joined :
    (∀ option ∈ nmapOptions, ∀ c ∈ ['O', 'T', 'P'], option.name.head? = some c →
      option.name = [c]) ∧
    ∀ option ∈ nmapOptions, ∀ c ∈ "0123456789".toList,
      ¬ ['d', c] <+: canonicalize option.name ∧ ¬ ['v', c] <+: canonicalize option.name := by
  constructor
  · intro option mem c letter
    have alone := (Bool.and_eq_true_iff.mp (ItemFacts.joins itemFacts option mem)).1
    exact of_decide_eq_true (all_eq_true.mp alone c letter)
  · intro option mem c digit
    have alone := (Bool.and_eq_true_iff.mp (ItemFacts.joins itemFacts option mem)).2
    exact of_decide_eq_true (all_eq_true.mp alone c digit)

/-! ## Reading some arguments -/

variable (u : Unicode)

/-- From the dictionary `d`, these arguments are read with nothing for the targets and the extras,
and `d'` is the dictionary then. -/
def ReadsTo (d : Dict) (args : List Str) (d' : Dict) : Prop :=
  ∀ rest targets extras last,
    Read u d (args ++ rest) targets extras last ↔ Read u d' rest targets extras last

variable {u}

theorem ReadsTo.nil (d : Dict) : ReadsTo u d [] d := fun _ _ _ _ => Iff.rfl

variable {d : Dict}

theorem ReadsTo.append {d₁ d₂ : Dict} {args₁ args₂ : List Str} (first : ReadsTo u d args₁ d₁)
    (second : ReadsTo u d₁ args₂ d₂) : ReadsTo u d (args₁ ++ args₂) d₂ := by
  intro rest targets extras last
  rw [append_assoc, first, second]

theorem ReadsTo.step {d d' : Dict} {args : List Str} {opt : Str} {arg : Option Str}
    (read : ∀ rest, getOption nmapOptions (args ++ rest) = (some (.option opt arg), rest))
    (handled : handleOption u d opt arg = some (d', [])) : ReadsTo u d args d' := by
  intro rest targets extras last
  constructor
  · intro all
    cases all with
    | done stop =>
      rw [read rest] at stop
      contradiction
    | positional step =>
      rw [read rest] at step
      cases step
    | extra step =>
      rw [read rest] at step
      cases step
    | option step again later =>
      rw [read rest] at step
      cases step
      rw [handled] at again
      cases again
      exact later
  · exact .option (read rest) handled

/-- `d` with the value that was read, if any -/
def Dict.setOpt (d : Dict) (name : Str) : Option Value → Dict
  | none => d
  | some value => d.set name value

theorem handleScanTypes_known {type : Char} (known : type ∈ scanTypes) :
    handleScanTypes d [type] = (d.set ['-', 's', type] .flag, []) := by
  rw [handleScanTypes, if_pos known]
  rfl

variable {name : Str}

theorem readsTo_flag (mem : .flag name ∈ renderOrder) (d : Dict) :
    ReadsTo u d [name] (d.set name .flag) := by
  have fact := ItemFacts.items itemFacts _ mem
  rw [itemFact, decide_eq_true_eq] at fact
  obtain ⟨dash, other, whole, reads⟩ := fact
  unfold readsFlag at reads
  dsimp only at reads
  cases found : lookupOption nmapOptions (splitOption nmapOptions name).name with
  | none =>
    rw [found] at reads
    contradiction
  | some option =>
    rw [found] at reads
    dsimp only at reads
    obtain ⟨b, kind, hasArg, _⟩ := branch_of_mem (lookupOption_mem found)
    rw [kind] at reads
    have read := fun rest wanted given =>
      getOption_attached rest other dash whole found wanted given
    cases arg : (splitOption nmapOptions name).arg with
    | none =>
      rw [arg] at reads read
      cases b with
      | flag set =>
        obtain rfl := of_decide_eq_true reads
        refine .step (fun rest => read rest (fun _ => rfl) fun required => ?_)
          (by rw [handleOption, kind])
        rw [← hasArg] at required
        contradiction
      | _ => contradiction
    | some a =>
      rw [arg] at reads read
      have required : b.hasArg = .requiredArgument → ∀ rest,
          getOption nmapOptions ([name] ++ rest) =
            (some (.option option.name (some a)), rest) := by
        intro required rest
        rw [hasArg] at required
        refine read rest (fun flag => ?_) fun _ => Option.some_ne_none a
        rw [required] at flag
        contradiction
      cases b with
      | ping =>
        have set := of_decide_eq_true reads
        refine .step (required rfl) ?_
        unfold handleOption
        rw [kind]
        dsimp only
        rw [Option.map_some, set]
      | scanTypes =>
        cases a with
        | nil => contradiction
        | cons type types =>
          cases types with
          | cons => contradiction
          | nil =>
            obtain ⟨known, rfl⟩ := of_decide_eq_true reads
            refine .step (required rfl) ?_
            unfold handleOption
            rw [kind]
            dsimp only
            rw [Option.map_some, handleScanTypes_known known]
      | _ => contradiction

/-- A name whose argument comes next, with what its branch makes of the argument -/
private theorem readsTo_value (mem : .value name ∈ renderOrder) :
    ∃ opt, (branch opt = some (.value name) ∧ name ≠ "-iR".toList ∨
        branch opt = some .randomTargets ∧ name = "-iR".toList) ∧
      ∀ value rest, getOption nmapOptions ([name, value] ++ rest) =
        (some (.option opt (some value)), rest) := by
  have fact := ItemFacts.items itemFacts _ mem
  rw [itemFact, decide_eq_true_eq] at fact
  obtain ⟨dash, other, whole, reads⟩ := fact
  unfold readsValue at reads
  dsimp only at reads
  cases found : lookupOption nmapOptions (splitOption nmapOptions name).name with
  | none =>
    rw [found] at reads
    contradiction
  | some option =>
    rw [found] at reads
    cases arg : (splitOption nmapOptions name).arg with
    | some a =>
      rw [arg] at reads
      contradiction
    | none =>
      rw [arg] at reads
      dsimp only at reads
      obtain ⟨b, kind, hasArg, _⟩ := branch_of_mem (lookupOption_mem found)
      rw [kind] at reads
      have read : b.hasArg = .requiredArgument → ∀ value rest,
          getOption nmapOptions ([name, value] ++ rest) =
            (some (.option option.name (some value)), rest) := fun required value rest =>
        getOption_next value rest other dash whole found (hasArg ▸ required) arg
      refine ⟨option.name, ?_⟩
      cases b with
      | value set =>
        obtain ⟨rfl, text⟩ := of_decide_eq_true reads
        exact ⟨.inl ⟨kind, text⟩, read rfl⟩
      | randomTargets => exact ⟨.inr ⟨kind, of_decide_eq_true reads⟩, read rfl⟩
      | _ => contradiction

/-! ## What the branches set -/

section Branches

variable {u : Unicode} {d d' : Dict} {opt : Str}

variable {arg : Str}

theorem handleOption_timing (kind : branch opt = some .timing) {n : Int}
    (unset : d.get "-T".toList = none) (number : int u arg = some n) :
    handleOption u d opt (some arg) = some (d.set "-T".toList (.number n), []) := by
  unfold handleOption
  rw [kind]
  dsimp only
  rw [Option.map_some, unset, timingNumber, number]

theorem handleOption_ping (kind : branch opt = some .ping) {name : Str} {value : Value}
    (set : pingValue (arg.take 1) (arg.drop 1) = some (name, value)) :
    handleOption u d opt (some arg) = some (d.set name value, []) := by
  unfold handleOption
  rw [kind]
  dsimp only
  rw [Option.map_some, set]

theorem handleOption_os (kind : branch opt = some .osDetection)
    (unset : d.get "-O".toList = none) (arg : Option Str) :
    handleOption u d opt arg =
      some (d.set "-O".toList (match arg with
        | none => .flag
        | some arg => .text arg), []) := by
  unfold handleOption
  rw [kind]
  dsimp only
  exact congrArg some (if_pos unset)

theorem handleOption_fragments (kind : branch opt = some .fragments)
    (added : d.add "-f".toList 1 = some d') :
    handleOption u d opt none = some (d', []) := by
  unfold handleOption
  rw [kind]
  dsimp only
  rw [added]
  rfl

theorem handleLevel_nil (letter : Char) (level : Int → Int)
    (added : d.add ['-', letter] 1 = some d') :
    handleLevel u d letter level [] = some (d', []) := by
  show (d.add ['-', letter] 1).map _ = _
  rw [added]
  rfl

theorem handleLevel_number (letter : Char) (level : Int → Int) {n : Int}
    (number : int u arg = some n) :
    handleLevel u d letter level arg = some (d.set ['-', letter] (.number (level n)), []) := by
  rw [handleLevel, number]

theorem handleOption_debug (kind : branch opt = some .debug) (arg : Option Str) :
    handleOption u d opt arg = handleLevel u d 'd' id (arg.getD []) := by
  unfold handleOption
  rw [kind]

theorem handleOption_verbose (kind : branch opt = some .verbose) (arg : Option Str) :
    handleOption u d opt arg =
      handleLevel u d 'v' (fun n => if n = 0 then -1 else n) (arg.getD []) := by
  unfold handleOption
  rw [kind]

end Branches

/-! ## Short options with their arguments -/

@[simp] theorem Dict.get_set (d : Dict) (name : Str) (value : Value) :
    (d.set name value).get name = some value := by
  rw [Dict.set, Dict.get, Function.update_self]

@[simp] theorem Dict.set_set (d : Dict) (name : Str) (v w : Value) :
    (d.set name v).set name w = d.set name w := by
  rw [Dict.set, Dict.set, Dict.set, Function.update_idem]

variable {c : Char}

/-- `-O`, `-T` and `-P` begin no longer option. -/
theorem no_option_begins (mem : c ∈ ['O', 'T', 'P']) (x : Char) :
    ∀ option ∈ nmapOptions, ¬ canonicalize [c, x] <+: canonicalize option.name := by
  intro option known begins
  have plain : c ≠ '_' ∧ c ≠ '-' := by
    constructor <;> rintro rfl <;> exact absurd mem (by decide)
  have length := begins.length_le
  obtain ⟨t, equal⟩ := begins
  cases name : option.name with
  | nil =>
    rw [name] at length
    simp [canonicalize] at length
  | cons o rest =>
    rw [name] at equal
    simp only [canonicalize, map_cons, cons_append, List.cons.injEq, if_neg plain.1]
      at equal
    have first : o = c := by
      by_contra differs
      have same := equal.1
      split at same
      · exact plain.2 same
      · exact differs same.symm
    have only := no_option_joined.1 option known c mem (by rw [name, first]; rfl)
    rw [only] at length
    simp [canonicalize] at length

theorem readsTo_joined {d' : Dict} {x : Char} {option : Opt} (rest : Str) (other : c ≠ '-')
    (equals : c ≠ '=') (equals' : x ≠ '=') (found : lookupOption nmapOptions [c] = some option)
    (taken : option.hasArg ≠ .noArgument)
    (unknown : ∀ option ∈ nmapOptions, ¬ canonicalize [c, x] <+: canonicalize option.name)
    (handled : handleOption u d option.name (some (x :: rest)) = some (d', [])) :
    ReadsTo u d ['-' :: c :: x :: rest] d' := by
  have split := splitOption_joined rest other equals equals' found taken unknown
  refine .step (fun args => ?_) handled
  have read : getOption nmapOptions (('-' :: c :: x :: rest) :: args) =
      (some (.option option.name (splitOption nmapOptions ('-' :: c :: x :: rest)).arg), args) :=
    getOption_attached args (by simp) rfl (by rw [split]) (by rw [split]; exact found)
      (fun flag => absurd flag taken) fun _ => by
        rw [split]
        simp
  rw [split] at read
  exact read

theorem readsTo_letter {d' : Dict} {option : Opt} (other : c ≠ '-') (equals : c ≠ '=')
    (found : lookupOption nmapOptions [c] = some option)
    (optional : option.hasArg ≠ .requiredArgument)
    (handled : handleOption u d option.name none = some (d', [])) : ReadsTo u d [['-', c]] d' := by
  have split := splitOption_letter other equals found
  refine .step (fun args => ?_) handled
  have read : getOption nmapOptions (['-', c] :: args) =
      (some (.option option.name (splitOption nmapOptions ['-', c]).arg), args) :=
    getOption_attached args (by simp [other]) rfl (by rw [split]) (by rw [split]; exact found)
      (fun _ => by rw [split]) fun required => absurd required optional
  rw [split] at read
  exact read

theorem str_cons (n : Int) :
    ∃ x rest, str n = x :: rest ∧ x ≠ '=' ∧ (0 ≤ n → x ∈ "0123456789".toList) := by
  have digit : ∀ m : Nat, ∃ x rest, Nat.toDigits 10 m = x :: rest ∧ x.isDigit = true := by
    intro m
    cases found : Nat.toDigits 10 m with
    | nil => exact absurd found Nat.toDigits_ne_nil
    | cons x rest =>
      exact ⟨x, rest, rfl, isDigit_toDigits (n := m) (by rw [found]; exact mem_cons_self)⟩
  cases n with
  | negSucc n =>
    refine ⟨'-', _, rfl, by decide, fun nonneg => ?_⟩
    exact absurd nonneg (by simp)
  | ofNat n =>
    obtain ⟨x, rest, equal, isDigit⟩ := digit n
    refine ⟨x, rest, equal, ?_, fun _ => ?_⟩
    · rintro rfl
      exact absurd isDigit (by decide)
    · rw [Char.isDigit, Bool.and_eq_true, decide_eq_true_eq, decide_eq_true_eq] at isDigit
      have bounds : 48 ≤ x.toNat ∧ x.toNat ≤ 57 := isDigit
      rw [← Char.ofNat_toNat x]
      obtain ⟨low, high⟩ := bounds
      generalize x.toNat = code at low high
      interval_cases code <;> decide

theorem readsTo_timing (unset : d.get "-T".toList = none) (n : Int) :
    ReadsTo u d ["-T".toList ++ str n] (d.set "-T".toList (.number n)) := by
  obtain ⟨_, _, _, _, found, _⟩ := TableFacts.letters tableFacts
  obtain ⟨_, _, _, _, kind, _⟩ := ItemFacts.branches itemFacts
  obtain ⟨x, rest, equal, equals, _⟩ := str_cons n
  have number : int u (x :: rest) = some n := equal ▸ int_str n
  rw [equal]
  show ReadsTo u d ['-' :: 'T' :: x :: rest] _
  refine readsTo_joined rest (by decide) (by decide) equals found (by simp)
    (no_option_begins (by simp) x) ?_
  exact handleOption_timing kind unset number

theorem readsTo_ports {type : Char} (mem : type ∈ ['S', 'A', 'U', 'O', 'Y', 'B']) (ports : Str) :
    ReadsTo u d ['-' :: 'P' :: type :: ports] (d.set ['-', 'P', type] (.text ports)) := by
  obtain ⟨_, _, _, _, _, found, _⟩ := TableFacts.letters tableFacts
  obtain ⟨_, _, _, _, _, kind⟩ := ItemFacts.branches itemFacts
  refine readsTo_joined ports (by decide) (by decide) ?_ found (by simp)
    (no_option_begins (by simp) type) ?_
  · rintro rfl
    exact absurd mem (by decide)
  · have set : pingValue [type] ports = some (['-', 'P', type], .text ports) := by
      simp only [mem_cons, not_mem_nil, or_false] at mem
      obtain rfl | rfl | rfl | rfl | rfl | rfl := mem <;> simp [pingValue]
    exact handleOption_ping kind set

/-- What is read of `-O` with a string joined to it -/
def osBack : Str → Value
  | [] => .flag
  | '=' :: s => .text s
  | s => .text s

theorem readsTo_os_flag (unset : d.get "-O".toList = none) :
    ReadsTo u d ["-O".toList] (d.set "-O".toList .flag) := by
  obtain ⟨_, _, _, found, _⟩ := TableFacts.letters tableFacts
  obtain ⟨_, _, _, kind, _⟩ := ItemFacts.branches itemFacts
  show ReadsTo u d [['-', 'O']] _
  exact readsTo_letter (by decide) (by decide) found (by simp) (handleOption_os kind unset none)

theorem readsTo_os (unset : d.get "-O".toList = none) (s : Str) :
    ReadsTo u d ["-O".toList ++ s] (d.set "-O".toList (osBack s)) := by
  obtain ⟨_, _, _, found, _⟩ := TableFacts.letters tableFacts
  obtain ⟨_, _, _, kind, _⟩ := ItemFacts.branches itemFacts
  have handled : ∀ arg : Str, handleOption u d ['O'] (some arg) =
      some (d.set "-O".toList (.text arg), []) := fun arg => handleOption_os kind unset (some arg)
  cases s with
  | nil =>
    rw [append_nil]
    exact readsTo_os_flag unset
  | cons x rest =>
    show ReadsTo u d ['-' :: 'O' :: x :: rest] _
    by_cases equals : x = '='
    · subst equals
      -- the option is long then, and its argument what follows the `=`
      have split : splitOption nmapOptions ('-' :: 'O' :: '=' :: rest) =
          ⟨['O'], some rest, none⟩ := by
        have name : splitArg ('O' :: '=' :: rest) = ⟨['O'], some rest, none⟩ := by
          simp [splitArg, List.dropWhile, List.takeWhile]
        rw [splitOption_dash _ (by decide), name]
        dsimp only
        rw [found]
        rfl
      refine .step (fun args => ?_) (handled rest)
      let option : Opt := ⟨['O'], .optionalArgument⟩
      have read : getOption nmapOptions (('-' :: 'O' :: '=' :: rest) :: args) =
          (some (.option option.name
            (splitOption nmapOptions ('-' :: 'O' :: '=' :: rest)).arg), args) :=
        getOption_attached args (by simp) rfl (by rw [split]) (by rw [split]; exact found)
          (fun flag => by cases flag) fun required => by cases required
      rw [split] at read
      exact read
    · have text : osBack (x :: rest) = .text (x :: rest) := by
        unfold osBack
        split
        · rename_i none
          cases none
        · rename_i same
          exact absurd (List.cons.inj same).1 equals
        · rfl
      rw [text]
      exact readsTo_joined rest (by decide) (by decide) equals found (by simp)
        (no_option_begins (by simp) x) (handled _)

variable {n : Int}

theorem readsTo_debug (unset : d.get "-d".toList = none) (pos : 0 < n) :
    ReadsTo u d (if n = 1 then ["-d".toList] else if n > 1 then ["-d".toList ++ str n] else [])
      (d.set "-d".toList (.number n)) := by
  obtain ⟨found, _⟩ := TableFacts.letters tableFacts
  obtain ⟨kind, _⟩ := ItemFacts.branches itemFacts
  by_cases one : n = 1
  · rw [if_pos one, one]
    show ReadsTo u d [['-', 'd']] _
    refine readsTo_letter (by decide) (by decide) found (by simp) ?_
    rw [handleOption_debug kind]
    refine handleLevel_nil 'd' id ?_
    show d.add "-d".toList 1 = _
    rw [Dict.add, unset]
    rfl
  · obtain ⟨x, rest, equal, equals, digit⟩ := str_cons n
    have number : int u (x :: rest) = some n := equal ▸ int_str n
    rw [if_neg one, if_pos (by omega), equal]
    show ReadsTo u d ['-' :: 'd' :: x :: rest] _
    refine readsTo_joined rest (by decide) (by decide) equals found (by simp) ?_ ?_
    · intro option mem begins
      have plain : canonicalize ['d', x] = ['d', x] := by
        have := digit (by omega)
        simp only [canonicalize, map_cons, map_nil]
        rw [if_neg (by decide), if_neg]
        rintro rfl
        exact absurd this (by decide)
      rw [plain] at begins
      exact (no_option_joined.2 option mem x (digit (by omega))).1 begins
    · rw [handleOption_debug kind]
      exact handleLevel_number 'd' id number

theorem readsTo_repeat {arg : Str}
    (step : ∀ {b b' : Dict}, b.add name 1 = some b' → ReadsTo u b [arg] b')
    (unset : d.get name = none) (n : Nat) :
    ReadsTo u d (List.replicate (n + 1) arg) (d.set name (.number (n + 1 : Nat))) := by
  induction n with
  | zero =>
    refine step ?_
    rw [Dict.add, unset]
    rfl
  | succ n ih =>
    rw [replicate_succ']
    refine ih.append (step ?_)
    rw [Dict.add, Dict.get_set, Option.getD_some]
    dsimp only
    rw [Dict.set_set]
    rfl

theorem readsTo_fragments (unset : d.get "-f".toList = none) (pos : 0 < n) :
    ReadsTo u d (List.replicate n.toNat "-f".toList) (d.set "-f".toList (.number n)) := by
  obtain ⟨_, found, _⟩ := TableFacts.letters tableFacts
  obtain ⟨_, kind, _⟩ := ItemFacts.branches itemFacts
  obtain ⟨m, rfl⟩ : ∃ m : Nat, n = (m + 1 : Nat) := ⟨n.toNat - 1, by omega⟩
  rw [Int.toNat_natCast]
  refine readsTo_repeat (fun {b b'} added => ?_) unset m
  show ReadsTo u b [['-', 'f']] b'
  exact readsTo_letter (by decide) (by decide) found (by simp) (handleOption_fragments kind added)

theorem readsTo_verbose (unset : d.get "-v".toList = none) (written : n = -1 ∨ 0 < n) :
    ReadsTo u d (if n = -1 then ["-v0".toList] else List.replicate n.toNat "-v".toList)
      (d.set "-v".toList (.number n)) := by
  obtain ⟨_, _, found, _⟩ := TableFacts.letters tableFacts
  obtain ⟨_, _, kind, _⟩ := ItemFacts.branches itemFacts
  obtain rfl | pos := written
  · rw [if_pos rfl]
    show ReadsTo u d [['-', 'v', '0']] _
    refine readsTo_joined [] (by decide) (by decide) (by decide) found (by simp) ?_ ?_
    · intro option mem begins
      have digit : '0' ∈ "0123456789".toList := by simp
      have plain : canonicalize ['v', '0'] = ['v', '0'] := by simp [canonicalize]
      rw [plain] at begins
      exact (no_option_joined.2 option mem '0' digit).2 begins
    · have zero : int u ['0'] = some 0 := int_str 0
      rw [handleOption_verbose kind]
      show handleLevel u d 'v' (fun n => if n = 0 then -1 else n) ['0'] = _
      rw [handleLevel_number 'v' _ zero, if_pos rfl]
      rfl
  · obtain ⟨m, rfl⟩ : ∃ m : Nat, n = (m + 1 : Nat) := ⟨n.toNat - 1, by omega⟩
    rw [if_neg (by omega), Int.toNat_natCast]
    refine readsTo_repeat (fun {b b'} added => ?_) unset m
    show ReadsTo u b [['-', 'v']] b'
    refine readsTo_letter (by decide) (by decide) found (by simp) ?_
    rw [handleOption_verbose kind]
    exact handleLevel_nil 'v' (fun n => if n = 0 then -1 else n) added

/-! ## All options -/

/-- The value that is read back, for the value that was rendered -/
def Item.back : Item → Option Value → Option Value
  | .optional name, some (.text s) => some (if name = "-O".toList then osBack s else .text s)
  | .debug, some (.number n) => if 0 < n then some (.number n) else none
  | .verbose, some (.number n) => if n = -1 ∨ 0 < n then some (.number n) else none
  | _, other => other

variable {b : Dict}

private theorem readsTo_value_item (mem : .value name ∈ renderOrder) {value : Value}
    (fits : (Item.value name).shape.Fits value) (unset : b.get name = none) :
    ReadsTo u b [name, value.toStr] (b.set name value) := by
  obtain ⟨opt, kind, read⟩ := readsTo_value mem
  refine .step (read value.toStr) ?_
  unfold handleOption
  obtain ⟨kind, other⟩ | ⟨kind, rfl⟩ := kind
  · rw [Item.shape, if_neg other] at fits
    cases fits
    rw [kind]
    dsimp only
    rw [Option.map_some, if_pos unset]
    rfl
  · rw [Item.shape, if_pos rfl] at fits
    cases fits with
    | number n =>
      rw [kind]
      dsimp only [Value.toStr]
      rw [Option.map_some, unset, int_str]

private theorem readsTo_joined_item (mem : .joined name ∈ renderOrder) {value : Value}
    (fits : (Item.joined name).shape.Fits value) (unset : b.get name = none) :
    ReadsTo u b [name ++ value.toStr] (b.set name value) := by
  have fact := ItemFacts.items itemFacts _ mem
  rw [itemFact, Bool.or_eq_true, decide_eq_true_eq, any_eq_true] at fact
  simp only [decide_eq_true_eq] at fact
  obtain rfl | ⟨type, known, rfl⟩ := fact
  · rw [Item.shape, if_pos rfl] at fits
    cases fits with
    | number n => exact readsTo_timing unset n
  · rw [Item.shape, if_neg (by simp)] at fits
    cases fits with
    | text ports =>
      refine readsTo_ports ?_ ports
      simp only [mem_cons, not_mem_nil, or_false] at known ⊢
      tauto

private theorem readsTo_optional_item (mem : .optional name ∈ renderOrder)
    (fits : ∀ value, d.get name = some value → (Item.optional name).shape.Fits value)
    (unset : b.get name = none) :
    ReadsTo u b (renderItem d (.optional name))
      (b.setOpt name ((Item.optional name).back (d.get name))) := by
  have fact := ItemFacts.items itemFacts _ mem
  rw [itemFact, decide_eq_true_eq] at fact
  rw [renderItem]
  cases held : d.get name with
  | none => exact .nil b
  | some value =>
    have fits := fits value held
    obtain rfl | rfl := fact
    · rw [Item.shape, if_pos rfl] at fits
      cases fits with
      | osFlag => exact readsTo_os_flag unset
      | osText s => exact readsTo_os unset s
    · rw [Item.shape, if_neg (by simp)] at fits
      cases fits with
      | text ports =>
        have back : (Item.optional "-PB".toList).back (some (.text ports)) =
            some (.text ports) := by
          simp [Item.back]
        rw [back]
        exact readsTo_ports (by decide : 'B' ∈ ['S', 'A', 'U', 'O', 'Y', 'B']) ports

variable {item : Item}

/-- What is written for an option is read back, and nothing else. -/
theorem readsTo_item (mem : item ∈ renderOrder)
    (fits : ∀ value, d.get item.name = some value → item.shape.Fits value)
    (unset : item.shape ≠ .flag → b.get item.name = none) :
    ReadsTo u b (renderItem d item) (b.setOpt item.name (item.back (d.get item.name))) := by
  cases item with
  | flag name =>
    show ReadsTo u b (if truthy (d.get name) then [name] else []) (b.setOpt name (d.get name))
    cases held : d.get name with
    | none => exact .nil b
    | some value =>
      cases fits value held
      exact readsTo_flag mem b
  | value name =>
    show ReadsTo u b (renderItem d (.value name)) (b.setOpt name (d.get name))
    rw [renderItem]
    cases held : d.get name with
    | none => exact .nil b
    | some value =>
      refine readsTo_value_item mem (fits value held) (unset ?_)
      rw [Item.shape]
      split <;> simp
  | joined name =>
    show ReadsTo u b (renderItem d (.joined name)) (b.setOpt name (d.get name))
    rw [renderItem]
    cases held : d.get name with
    | none => exact .nil b
    | some value =>
      refine readsTo_joined_item mem (fits value held) (unset ?_)
      rw [Item.shape]
      split <;> simp
  | optional name =>
    refine readsTo_optional_item mem fits (unset ?_)
    rw [Item.shape]
    split <;> simp
  | debug =>
    show ReadsTo u b (renderItem d .debug)
      (b.setOpt "-d".toList (Item.debug.back (d.get "-d".toList)))
    rw [renderItem]
    cases held : d.get "-d".toList with
    | none => exact .nil b
    | some value =>
      cases fits value held with
      | number n =>
        dsimp only
        by_cases pos : 0 < n
        · rw [Item.back, if_pos pos]
          exact readsTo_debug (unset (by simp [Item.shape])) pos
        · rw [Item.back, if_neg pos, if_neg (by omega), if_neg (by omega)]
          exact .nil b
  | fragments =>
    show ReadsTo u b (renderItem d .fragments) (b.setOpt "-f".toList (d.get "-f".toList))
    rw [renderItem]
    cases held : d.get "-f".toList with
    | none => exact .nil b
    | some value =>
      cases fits value held with
      | count pos => exact readsTo_fragments (unset (by simp [Item.shape])) pos
  | verbose =>
    show ReadsTo u b (renderItem d .verbose)
      (b.setOpt "-v".toList (Item.verbose.back (d.get "-v".toList)))
    rw [renderItem]
    cases held : d.get "-v".toList with
    | none => exact .nil b
    | some value =>
      cases fits value held with
      | number n =>
        dsimp only
        by_cases written : n = -1 ∨ 0 < n
        · rw [Item.back, if_pos written]
          exact readsTo_verbose (unset (by simp [Item.shape])) written
        · have low : n.toNat = 0 := by omega
          rw [Item.back, if_neg written, if_neg (by omega), low]
          exact .nil b

/-- The dictionary after these options were read back -/
def readBack (d : Dict) (items : List Item) : Dict :=
  items.foldl (fun b item => b.setOpt item.name (item.back (d.get item.name))) fun _ => none

theorem readBack_concat (d : Dict) (items : List Item) (item : Item) :
    readBack d (items ++ [item]) =
      (readBack d items).setOpt item.name (item.back (d.get item.name)) := by
  rw [readBack, foldl_append]
  rfl

/-- Two items have the same key only if both are flags. -/
def Apart (x y : Item) : Prop :=
  canonicalizeName x.name = canonicalizeName y.name → x.shape = .flag ∧ y.shape = .flag

theorem Item.back_flag (flag : item.shape = .flag) (value : Option Value) :
    item.back value = value := by
  cases item with
  | flag => rfl
  | optional name =>
    rw [Item.shape] at flag
    split at flag <;> contradiction
  | debug => contradiction
  | verbose => contradiction
  | value => rfl
  | joined => rfl
  | fragments => rfl

variable {key : Str}

theorem Dict.setOpt_of_ne {value : Option Value} (differ : canonicalizeName name ≠ key) :
    d.setOpt name value key = d key := by
  cases value with
  | none => rfl
  | some value => exact Function.update_of_ne (Ne.symm differ) _ _

theorem readBack_of_not_mem {items : List Item}
    (absent : ∀ item ∈ items, canonicalizeName item.name ≠ key) : readBack d items key = none := by
  induction items using List.reverseRecOn with
  | nil => rfl
  | append_singleton items item ih =>
    rw [readBack_concat, Dict.setOpt_of_ne (absent item (by simp))]
    exact ih fun x mem => absent x (mem_append_left _ mem)

/-- Every item has what is read back of it. -/
theorem readBack_of_mem {items : List Item} (apart : items.Pairwise Apart) (mem : item ∈ items) :
    readBack d items (canonicalizeName item.name) = item.back (d.get item.name) := by
  induction items using List.reverseRecOn generalizing item with
  | nil => contradiction
  | append_singleton items last ih =>
    rw [pairwise_append] at apart
    obtain ⟨apart, _, others⟩ := apart
    rw [readBack_concat]
    -- the last one, if it has the key
    have of_last : canonicalizeName item.name = canonicalizeName last.name →
        item.back (d.get item.name) = last.back (d.get last.name) →
        (readBack d items).setOpt last.name (last.back (d.get last.name))
          (canonicalizeName item.name) = item.back (d.get item.name) := by
      intro key back
      rw [back, key]
      cases held : last.back (d.get last.name) with
      | some value => exact Function.update_self _ _ _
      | none =>
        show readBack d items (canonicalizeName last.name) = none
        by_cases before : ∃ x ∈ items, canonicalizeName x.name = canonicalizeName last.name
        · obtain ⟨x, known, same⟩ := before
          obtain ⟨flag, flag'⟩ := others x known last (mem_singleton_self _) same
          rw [← same, ih apart known, Item.back_flag flag, Dict.get, same]
          rwa [Item.back_flag flag'] at held
        · exact readBack_of_not_mem fun x known same => before ⟨x, known, same⟩
    cases mem_append.mp mem with
    | inr single =>
      obtain rfl := mem_singleton.mp single
      exact of_last rfl rfl
    | inl known =>
      by_cases same : canonicalizeName item.name = canonicalizeName last.name
      · obtain ⟨flag, flag'⟩ := others item known last (mem_singleton_self _) same
        refine of_last same ?_
        rw [Item.back_flag flag, Item.back_flag flag', Dict.get, Dict.get, same]
      · rw [Dict.setOpt_of_ne (Ne.symm same)]
        exact ih apart known

theorem renderOrder_apart : renderOrder.Pairwise Apart := by
  have all := ItemFacts.pairwise itemFacts
  rw [← ItemFacts.keys itemFacts, pairwise_append, pairwise_map] at all
  exact all.1

theorem shapeOf_of_mem {shape : Shape} (mem : (key, shape) ∈ keyTable) :
    shapeOf key = some shape := by
  rw [shapeOf]
  cases found : keyTable.find? fun entry => entry.1 = key with
  | none => exact absurd (List.find?_eq_none.mp found _ mem) (by simp)
  | some entry =>
    have same := List.find?_some found
    rw [decide_eq_true_eq] at same
    by_cases equal : entry = (key, shape)
    · rw [equal]
      rfl
    · have symmetric : Std.Symm fun x y : Str × Shape => x.1 = y.1 → x.2 = .flag ∧ y.2 = .flag :=
        ⟨fun x y apart keys => (apart keys.symm).symm⟩
      obtain ⟨flag, flag'⟩ := (ItemFacts.pairwise itemFacts).forall
        (mem_of_find?_eq_some found) mem equal same
      rw [Option.map_some, flag]
      exact congrArg some flag'.symm

theorem shapeOf_item (mem : item ∈ renderOrder) :
    shapeOf (canonicalizeName item.name) = some item.shape := by
  refine shapeOf_of_mem ?_
  rw [← ItemFacts.keys itemFacts]
  exact mem_append_left _ (mem_map.mpr ⟨item, mem, rfl⟩)

/-- A key that has values is the key of an item, but for the one that `render` leaves out. -/
theorem item_of_shapeOf {shape : Shape} (known : shapeOf key = some shape) :
    (∃ item ∈ renderOrder, canonicalizeName item.name = key) ∨ key = "min-retries".toList := by
  obtain ⟨entry, found, rfl⟩ := Option.map_eq_some_iff.mp known
  have same := List.find?_some found
  rw [decide_eq_true_eq] at same
  have mem := mem_of_find?_eq_some found
  rw [← ItemFacts.keys itemFacts] at mem
  cases mem_append.mp mem with
  | inl mem =>
    obtain ⟨item, listed, rfl⟩ := mem_map.mp mem
    exact .inl ⟨item, listed, same⟩
  | inr mem =>
    rw [mem_singleton.mp mem] at same
    exact .inr same.symm

/-- All that `render` writes for the options is read back. -/
theorem readsTo_renderOptions (typed : Typed d) :
    ReadsTo u (fun _ => none) (renderOptions d) (readBack d renderOrder) := by
  have from_here : ∀ todo done, done ++ todo = renderOrder →
      ReadsTo u (readBack d done) (todo.flatMap (renderItem d)) (readBack d renderOrder) := by
    intro todo
    induction todo with
    | nil =>
      intro done all
      rw [← all, append_nil]
      exact .nil _
    | cons item todo ih =>
      intro done all
      have mem : item ∈ renderOrder := all ▸ by simp
      have later := ih (done ++ [item]) (by rw [append_assoc]; exact all)
      rw [readBack_concat] at later
      rw [flatMap_cons]
      have fits : ∀ value, d.get item.name = some value → item.shape.Fits value :=
        fun value held => typed.get (shapeOf_item mem) held
      refine (readsTo_item mem fits ?_).append later
      intro other
      refine readBack_of_not_mem fun x before same => ?_
      have apart := renderOrder_apart
      rw [← all, pairwise_append] at apart
      exact other (apart.2.2 x before item mem_cons_self same).2
  exact from_here renderOrder [] rfl

end Nmap.Zenmap
