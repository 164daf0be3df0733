import Mathlib.Tactic.Common
import Nmap.Zenmap.NmapOptions

/-!
# The tables of options

What holds of each option, each key and each name in the tables of `NmapOptions`. The tables are
finite, so that each of these facts is an evaluation.
-/

namespace Nmap.Zenmap

open List

set_option maxRecDepth 10000

/-! ## Kinds of values -/

inductive Shape
  | flag
  | text
  | number
  /-- how many times an option was given -/
  | count
  /-- the value of `-O`, which need not have an argument -/
  | os
  deriving DecidableEq, Repr

inductive Shape.Fits : Shape → Value → Prop
  | flag : Fits .flag .flag
  | text (s : Str) : Fits .text (.text s)
  | number (n : Int) : Fits .number (.number n)
  | count {n : Int} : 0 < n → Fits .count (.number n)
  | osFlag : Fits .os .flag
  | osText (s : Str) : Fits .os (.text s)

/-- The keys of the dictionary with their kinds of values, in the order of `render`.
`--min-retries` comes last: `render` leaves it out. -/
def keyTable : List (Str × Shape) :=
  (strs [
    "sA", "sC", "sF", "sL", "sM", "sN", "sO", "sP", "sR", "sS", "sT", "sU", "sV", "sW", "sX",
    "sY", "sZ"]).map (·, .flag) ++
  [("sI".toList, .text), ("6".toList, .flag), ("p".toList, .text), ("timing".toList, .number),
    ("O".toList, .os), ("A".toList, .flag), ("debug".toList, .number), ("f".toList, .count),
    ("verbose".toList, .number), ("F".toList, .flag), ("n".toList, .flag), ("iL".toList, .text),
    ("iR".toList, .number)] ++
  (strs [
    "oA", "oG", "oN", "oS", "oX", "min-hostgroup", "max-hostgroup", "min-parallelism",
    "max-parallelism", "min-rtt-timeout", "max-rtt-timeout", "initial-rtt-timeout", "scan-delay",
    "max-scan-delay", "min-rate", "max-rate", "max-retries", "max-os-tries",
    "host-timeout"]).map (·, .text) ++
  (strs ["P0", "P", "PM", "PP", "PR"]).map (·, .flag) ++
  (strs ["PS", "PA", "PU", "PO", "PY", "PB"]).map (·, .text) ++
  (strs [
    "allports", "append-output", "badsum", "defeat-rst-ratelimit", "osscan-guess", "help",
    "iflist", "log-errors", "no-stylesheet", "open", "osscan-guess", "osscan-limit",
    "packet-trace", "privileged", "r", "R", "rH", "reason", "release-memory", "script-trace",
    "script-updatedb", "send-eth", "send-ip", "system-dns", "traceroute", "unprivileged",
    "version", "version-all", "version-light", "version-trace", "webxml"]).map (·, .flag) ++
  (strs [
    "b", "D", "datadir", "data-length", "dns-servers", "e", "exclude", "excludefile",
    "source-port", "ip-options", "mtu", "port-ratio", "S", "scanflags", "script", "script-args",
    "script-help", "servicedb", "spoof-mac", "stylesheet", "top-ports", "ttl", "versiondb",
    "version-intensity", "min-retries"]).map (·, .text)

def shapeOf (key : Str) : Option Shape :=
  (keyTable.find? fun entry => entry.1 = key).map Prod.snd

/-! ## Branches -/

/-- A short option that takes no argument: others may follow it in the same argument. -/
def flagChar (options : List Opt) (c : Char) : Bool :=
  match lookupOption options [c] with
  | some option => option.hasArg = .noArgument
  | none => false

/-- The name before the argument that goes to the extras with it -/
def Branch.pairName : Branch → Option Str
  | .value name => some name
  | .randomTargets => some "-iR".toList
  | .timing => some "-T".toList
  | _ => none

/-- The letter of an option that goes to the extras in one argument with its own -/
def Branch.joinedLetter : Branch → Option Char
  | .debug => some 'd'
  | .verbose => some 'v'
  | .osDetection => some 'O'
  | .ping => some 'P'
  | _ => none

def Branch.hasArg : Branch → HasArg
  | .flag _ | .fragments => .noArgument
  | .debug | .verbose | .osDetection => .optionalArgument
  | .value _ | .randomTargets | .ping | .scanTypes | .timing => .requiredArgument

/-- The name that is set, and the kind of value, if it is always the same -/
def Branch.target : Branch → Option (Str × Shape)
  | .flag name => some (name, .flag)
  | .value name => some (name, .text)
  | .debug => some ("-d".toList, .number)
  | .fragments => some ("-f".toList, .count)
  | .randomTargets => some ("-iR".toList, .number)
  | .osDetection => some ("-O".toList, .os)
  | .timing => some ("-T".toList, .number)
  | .verbose => some ("-v".toList, .number)
  | .ping | .scanTypes => none

/-- A name that stands alone: read again, it has no argument yet, it is no short options in one
argument, and it does not end in a dash. -/
def standsAlone (options : List Opt) (name : Str) : Bool :=
  match name with
  | '-' :: c :: _ =>
    flagChar options c = false ∧ (splitOption options name).arg = none ∧
      name.getLast? ≠ some '-'
  | _ => false

def optionFact (options : List Opt) (table : List (Str × Shape)) (option : Opt) : Bool :=
  match branch option.name with
  | none => false
  | some b =>
    b.hasArg = option.hasArg ∧ (b = .scanTypes → option.name = ['s']) ∧
      (b.pairName.all fun name => standsAlone options name) ∧
      b.target.all fun (name, shape) =>
        (table.find? fun entry => entry.1 = canonicalizeName name).map Prod.snd = some shape

/-! ## Evaluation -/

/-- `nmapOptions` with its strings spelled out -/
def spelledOptions : { l : List Opt // nmapOptions = l } :=
  ⟨_, by
    simp only [nmapOptions, makeOptions, longOpts, shortOpts, map_cons, map_nil,
      String.reduceToList]
    rfl⟩

/-- `keyTable` with its strings spelled out -/
def spelledKeys : { l : List (Str × Shape) // keyTable = l } :=
  ⟨_, by
    simp only [keyTable, strs, map_cons, map_nil, cons_append, nil_append,
      String.reduceToList]
    rfl⟩

theorem forall_mem_parts {α : Type} {p : α → Prop} {l : List α} (n : Nat)
    (front : ∀ x ∈ l.take n, p x) (back : ∀ x ∈ l.drop n, p x) : ∀ x ∈ l, p x := by
  rw [← take_append_drop n l]
  exact forall_mem_append.mpr ⟨front, back⟩

/-- The names that `-s` and `-P` set, with the kinds of values -/
def scanNames : List (Str × Shape) := scanTypes.map fun type => (['-', 's', type], .flag)

def pingNames : List (Str × Shape) :=
  ['n', 'E', 'M', 'P', 'R'].map (fun type => (['-', 'P', type], .flag)) ++
    ['S', 'A', 'U', 'O', 'B', 'Y'].map fun type => (['-', 'P', type], .text)

/-- What an evaluation of the tables shows -/
structure TableFacts : Prop where
  options : ∀ option ∈ nmapOptions, optionFact nmapOptions keyTable option = true
  letters :
    lookupOption nmapOptions ['d'] = some ⟨['d'], .optionalArgument⟩ ∧
    lookupOption nmapOptions ['f'] = some ⟨['f'], .noArgument⟩ ∧
    lookupOption nmapOptions ['v'] = some ⟨['v'], .optionalArgument⟩ ∧
    lookupOption nmapOptions ['O'] = some ⟨['O'], .optionalArgument⟩ ∧
    lookupOption nmapOptions ['T'] = some ⟨['T'], .requiredArgument⟩ ∧
    lookupOption nmapOptions ['P'] = some ⟨['P'], .requiredArgument⟩ ∧
    lookupOption nmapOptions ['s'] = some ⟨['s'], .requiredArgument⟩
  scanPing : ∀ x ∈ scanNames ++ pingNames, shapeOf (canonicalizeName x.1) = some x.2

theorem tableFacts : TableFacts where
  options := by
    simp only [optionFact, canonicalizeName, spelledOptions.2, spelledKeys.2]
    iterate 6 refine forall_mem_parts 16 (by decide +kernel) ?_
    decide +kernel
  letters := by
    rw [spelledOptions.2]
    decide +kernel
  scanPing := by
    simp only [shapeOf, canonicalizeName, spelledOptions.2, spelledKeys.2]
    decide +kernel

/-- None of the letters that `handle_result` writes into an extra takes no argument. -/
theorem flagChar_letter : ∀ c ∈ ['d', 'v', 'O', 'P', 's'], flagChar nmapOptions c = false := by
  simp [flagChar, TableFacts.letters tableFacts]

/-! ## What the evaluation says -/

theorem branch_of_mem {option : Opt} (mem : option ∈ nmapOptions) :
    ∃ b, branch option.name = some b ∧ b.hasArg = option.hasArg ∧
      (b = .scanTypes → option.name = ['s']) ∧
      (∀ name, b.pairName = some name → standsAlone nmapOptions name = true) ∧
      ∀ name shape, b.target = some (name, shape) →
        shapeOf (canonicalizeName name) = some shape := by
  have fact := TableFacts.options tableFacts option mem
  unfold optionFact at fact
  cases found : branch option.name with
  | none =>
    rw [found] at fact
    contradiction
  | some b =>
    rw [found] at fact
    simp only [decide_eq_true_eq] at fact
    obtain ⟨hasArg, scan, alone, target⟩ := fact
    refine ⟨b, rfl, hasArg, scan, fun name pair => ?_, fun name shape set => ?_⟩
    · rw [pair] at alone
      exact alone
    · rw [set] at target
      exact of_decide_eq_true target

theorem standsAlone_cases {options : List Opt} {name : Str}
    (alone : standsAlone options name = true) :
    ∃ c s, name = '-' :: c :: s ∧ flagChar options c = false ∧
      (splitOption options name).arg = none ∧ name.getLast? ≠ some '-' := by
  unfold standsAlone at alone
  split at alone
  · exact ⟨_, _, rfl, of_decide_eq_true alone⟩
  · contradiction

theorem Branch.joinedLetter_mem {b : Branch} {c : Char} (letter : b.joinedLetter = some c) :
    c ∈ ['d', 'v', 'O', 'P', 's'] := by
  cases b <;> cases letter <;> simp

end Nmap.Zenmap
