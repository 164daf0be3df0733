import Mathlib.Logic.Function.Basic
import Nmap.Base.PyInt
import Nmap.Zenmap.GetOption

/-!
# The options of a command line (`NmapOptions`)

`parse` reads a command line into a dictionary, a list of targets and a list of extras, `render`
writes a command line from them. An option that is set already, or whose value makes no sense,
goes to the extras.
-/

namespace Nmap.Zenmap

open Nmap.Base.PyInt

/-! ## The names -/

/-- `SHORT_OPTIONS` -/
def shortOpts : String := "6Ab:D:d::e:Ffg:hi:M:m:nO::o:P:p:RrS:s:T:v::V"

/-- `LONG_OPTIONS` -/
def longOpts : List (String × HasArg) := [
  ("allports", .noArgument), ("append-output", .noArgument), ("badsum", .noArgument),
  ("data-length", .requiredArgument), ("datadir", .requiredArgument),
  ("debug", .optionalArgument), ("defeat-rst-ratelimit", .noArgument),
  ("dns-servers", .requiredArgument), ("exclude", .requiredArgument),
  ("excludefile", .requiredArgument), ("fuzzy", .noArgument), ("help", .noArgument),
  ("host-timeout", .requiredArgument), ("iL", .requiredArgument), ("iR", .requiredArgument),
  ("iflist", .noArgument), ("initial-rtt-timeout", .requiredArgument),
  ("ip-options", .requiredArgument), ("log-errors", .noArgument),
  ("max-hostgroup", .requiredArgument), ("max-os-tries", .requiredArgument),
  ("max-parallelism", .requiredArgument), ("max-rate", .requiredArgument),
  ("max-retries", .requiredArgument), ("max-rtt-timeout", .requiredArgument),
  ("max-scan-delay", .requiredArgument), ("min-hostgroup", .requiredArgument),
  ("min-parallelism", .requiredArgument), ("min-rate", .requiredArgument),
  ("min-retries", .requiredArgument), ("min-rtt-timeout", .requiredArgument),
  ("mtu", .requiredArgument), ("no-stylesheet", .noArgument), ("oA", .requiredArgument),
  ("oG", .requiredArgument), ("oM", .requiredArgument), ("oN", .requiredArgument),
  ("oS", .requiredArgument), ("oX", .requiredArgument), ("open", .noArgument),
  ("osscan-guess", .noArgument), ("osscan-limit", .noArgument), ("packet-trace", .noArgument),
  ("port-ratio", .requiredArgument), ("privileged", .noArgument),
  ("randomize-hosts", .noArgument), ("reason", .noArgument), ("release-memory", .noArgument),
  ("scan-delay", .requiredArgument), ("scanflags", .requiredArgument), ("sI", .requiredArgument),
  ("script", .requiredArgument), ("script-args", .requiredArgument),
  ("script-trace", .noArgument), ("script-updatedb", .noArgument),
  ("script-help", .requiredArgument), ("send-eth", .noArgument), ("send-ip", .noArgument),
  ("servicedb", .requiredArgument), ("source-port", .requiredArgument),
  ("spoof-mac", .requiredArgument), ("stylesheet", .requiredArgument),
  ("system-dns", .noArgument), ("timing", .requiredArgument), ("top-ports", .requiredArgument),
  ("traceroute", .noArgument), ("ttl", .requiredArgument), ("unprivileged", .noArgument),
  ("verbose", .optionalArgument), ("version", .noArgument), ("version-all", .noArgument),
  ("version-intensity", .requiredArgument), ("version-light", .noArgument),
  ("version-trace", .noArgument), ("versiondb", .requiredArgument), ("webxml", .noArgument)]

def nmapOptions : List Opt := makeOptions shortOpts longOpts

def strs (l : List String) : List Str := l.map String.toList

/-- `EQUIVALENT_OPTIONS`. The first of each list stands for the others. -/
def equivalentOptions : List (List Str) := [
  ["debug", "d"], ["help", "h"], ["iL", "i"], ["max-parallelism", "M"], ["osscan-guess", "fuzzy"],
  ["oG", "oM", "m"], ["oN", "o"], ["sP", "sn"], ["P", "PE", "PI"], ["PA", "PT"],
  ["P0", "PD", "PN", "Pn"], ["rH", "randomize-hosts"], ["source-port", "g"], ["timing", "T"],
  ["verbose", "v"], ["version", "V"]].map strs

/-- `EQUIVALENCE_MAP.get(option, option)` -/
def equivalent (option : Str) : Str :=
  match equivalentOptions.find? fun names => option ∈ names.tail with
  | some (base :: _) => base
  | _ => option

/-- `NmapOptions.canonicalize_name`. The names that are given here have no remainder. -/
def canonicalizeName (name : Str) : Str :=
  let split := splitOption nmapOptions name
  let option := match split.arg with
    | none =>
      match lookupOption nmapOptions split.name with
      | some option => option.name
      | none => split.name
    | some _ => name.dropWhile (· = '-')
  equivalent option

/-! ## The dictionary -/

inductive Value
  /-- `True` -/
  | flag
  | text (s : Str)
  | number (n : Int)
  deriving DecidableEq, Repr

abbrev Dict := Str → Option Value

/-- `__getitem__` -/
def Dict.get (d : Dict) (name : Str) : Option Value := d (canonicalizeName name)

/-- `__setitem__` -/
def Dict.set (d : Dict) (name : Str) (value : Value) : Dict :=
  Function.update d (canonicalizeName name) (some value)

/-- `setdefault(name, 0)`, and then `+=`. Only a number can be added to. -/
def Dict.add (d : Dict) (name : Str) (n : Int) : Option Dict :=
  match (d.get name).getD (.number 0) with
  | .number k => some (d.set name (.number (k + n)))
  | _ => none

/-! ## Options that are read (`handle_result`) -/

def shortFlags : List Str := strs [
  "6", "A", "F", "h", "n", "R", "r", "V"]

def longFlags : List Str := strs [
  "allports", "append-output", "badsum", "defeat-rst-ratelimit", "fuzzy", "help", "iflist",
  "log-errors", "no-stylesheet", "open", "osscan-guess", "osscan-limit", "packet-trace",
  "privileged", "randomize-hosts", "reason", "release-memory", "script-trace", "script-updatedb",
  "send-eth", "send-ip", "system-dns", "traceroute", "unprivileged", "version", "version-all",
  "version-light", "version-trace", "webxml"]

def shortValues : List Str := strs [
  "b", "D", "e", "g", "i", "iL", "m", "M", "o", "oA", "oG", "oM", "oN", "oS", "oX", "p", "S", "sI"]

def longValues : List Str := strs [
  "datadir", "data-length", "dns-servers", "exclude", "excludefile", "host-timeout",
  "initial-rtt-timeout", "ip-options", "max-hostgroup", "max-os-tries", "max-parallelism",
  "max-rate", "max-retries", "max-rtt-timeout", "max-scan-delay", "min-hostgroup",
  "min-parallelism", "min-rate", "min-retries", "min-rtt-timeout", "mtu", "port-ratio",
  "scan-delay", "scanflags", "script", "script-args", "script-help", "servicedb", "source-port",
  "spoof-mac", "stylesheet", "top-ports", "ttl", "versiondb", "version-intensity"]

/-- The branches of `handle_result`, for the name of an option -/
inductive Branch
  /-- `self[name] = True` -/
  | flag (name : Str)
  /-- `self[name] = arg`, once -/
  | value (name : Str)
  | debug
  | fragments
  | randomTargets
  | osDetection
  | ping
  | scanTypes
  | timing
  | verbose
  deriving DecidableEq, Repr

def branch (opt : Str) : Option Branch :=
  if opt ∈ shortFlags then some (.flag ('-' :: opt))
  else if opt ∈ longFlags then some (.flag ('-' :: '-' :: opt))
  else if opt ∈ shortValues then some (.value ('-' :: opt))
  else if opt ∈ longValues then some (.value ('-' :: '-' :: opt))
  else if opt = "d".toList ∨ opt = "debug".toList then some .debug
  else if opt = "f".toList then some .fragments
  else if opt = "iR".toList then some .randomTargets
  else if opt = "O".toList then some .osDetection
  else if opt = "P".toList then some .ping
  else if opt = "s".toList then some .scanTypes
  else if opt = "T".toList ∨ opt = "timing".toList then some .timing
  else if opt = "v".toList ∨ opt = "verbose".toList then some .verbose
  else none

/-- What a kind of ping is kept as, for the two parts of the argument of `-P` -/
def pingValue (type ports : Str) : Option (Str × Value) :=
  if type = ['0'] ∨ type = ['D'] ∨ type = ['N'] ∨ type = ['n'] ∧ ports = [] then
    some ("-Pn".toList, .flag)
  else if (type = [] ∨ type = ['I'] ∨ type = ['E']) ∧ ports = [] then some ("-PE".toList, .flag)
  else if type = ['M'] ∧ ports = [] then some ("-PM".toList, .flag)
  else if type = ['P'] ∧ ports = [] then some ("-PP".toList, .flag)
  else if type = ['R'] ∧ ports = [] then some ("-PR".toList, .flag)
  else if type = ['S'] then some ("-PS".toList, .text ports)
  else if type = ['T'] ∨ type = ['A'] then some ("-PA".toList, .text ports)
  else if type = ['U'] then some ("-PU".toList, .text ports)
  else if type = ['O'] then some ("-PO".toList, .text ports)
  else if type = ['B'] then some ("-PB".toList, .text ports)
  else if type = ['Y'] then some ("-PY".toList, .text ports)
  else none

/-- `TIMING_PROFILE_NAMES` -/
def timingProfile (name : Str) : Option Int :=
  if name = "paranoid".toList then some 0
  else if name = "sneaky".toList then some 1
  else if name = "polite".toList then some 2
  else if name = "normal".toList then some 3
  else if name = "aggressive".toList then some 4
  else if name = "insane".toList then some 5
  else none

/-- The types of scans after `-s` -/
def scanTypes : Str := "ACFLMNOPRSTUVWXYZn".toList

/-- The loop over the argument of `-s` -/
def handleScanTypes (d : Dict) : Str → Dict × List Str
  | [] => (d, [])
  | type :: types =>
    if type ∈ scanTypes then
      handleScanTypes (d.set ['-', 's', type] .flag) types
    else
      let (d, extras) := handleScanTypes d types
      (d, ['-', 's', type] :: extras)

variable (u : Unicode)

/-- `-d` and `-v`: a number, or the letter several times -/
def handleLevel (d : Dict) (letter : Char) (level : Int → Int) (arg : Str) :
    Option (Dict × List Str) :=
  match int u arg with
  | some n => some (d.set ['-', letter] (.number (level n)), [])
  | none =>
    if arg.all (· = letter) then (d.add ['-', letter] (arg.length + 1)).map fun d => (d, [])
    else some (d, ['-' :: letter :: arg])

def timingNumber (arg : Str) : Option Int :=
  match int u arg with
  | some n => some n
  | none => timingProfile (u.lower arg)

/-- A normal option in `handle_result`: the dictionary, and what goes to the extras. An assertion
may fail. -/
def handleOption (d : Dict) (opt : Str) (arg : Option Str) : Option (Dict × List Str) :=
  match branch opt with
  | none => none
  | some (.flag name) => some (d.set name .flag, [])
  | some (.value name) => arg.map fun arg =>
    if d.get name = none then (d.set name (.text arg), []) else (d, [name, arg])
  | some .debug => handleLevel u d 'd' id (arg.getD [])
  | some .fragments => (d.add "-f".toList 1).map fun d => (d, [])
  | some .randomTargets => arg.map fun arg =>
    match d.get "-iR".toList, int u arg with
    | none, some n => (d.set "-iR".toList (.number n), [])
    | _, _ => (d, ["-iR".toList, arg])
  | some .osDetection =>
    let value := match arg with
      | none => .flag
      | some arg => .text arg
    some (if d.get "-O".toList = none then (d.set "-O".toList value, [])
      else (d, ["-O".toList ++ arg.getD []]))
  | some .ping => arg.map fun arg =>
    match pingValue (arg.take 1) (arg.drop 1) with
    | some (name, value) => (d.set name value, [])
    | none => (d, ["-P".toList ++ arg])
  | some .scanTypes => arg.map fun arg => handleScanTypes d arg
  | some .timing => arg.map fun arg =>
    match d.get "-T".toList, timingNumber u arg with
    | none, some n => (d.set "-T".toList (.number n), [])
    | _, _ => (d, ["-T".toList, arg])
  | some .verbose => handleLevel u d 'v' (fun n => if n = 0 then -1 else n) (arg.getD [])

/-! ## Parsing -/

structure NmapOptions where
  /-- `_executable` -/
  givenExecutable : Option Str
  targetSpecs : List Str
  extras : List Str
  d : Dict

/-- `self._executable or "nmap"` -/
def NmapOptions.executable (ops : NmapOptions) : Str :=
  match ops.givenExecutable with
  | some (c :: s) => c :: s
  | _ => "nmap".toList

def handleResult (ops : NmapOptions) : Result → Option NmapOptions
  | .positional s => some { ops with targetSpecs := ops.targetSpecs ++ [s] }
  | .extra l => some { ops with extras := ops.extras ++ l }
  | .option opt arg => (handleOption u ops.d opt arg).map fun (d, extras) =>
    { ops with d := d, extras := ops.extras ++ extras }

/-- The loop of `parse` over `getopt_long_only_extras` -/
def parseArgs (ops : NmapOptions) (cmdArgs : List Str) : Option NmapOptions :=
  if nonempty : cmdArgs = [] then some ops
  else
    match (getOption nmapOptions cmdArgs).1 with
    | none => some ops
    | some result =>
      have : size (getOption nmapOptions cmdArgs).2 < size cmdArgs := size_getOption nonempty
      (handleResult u ops result).bind fun ops => parseArgs ops (getOption nmapOptions cmdArgs).2
  termination_by size cmdArgs

def parse (optList : List Str) : Option NmapOptions :=
  parseArgs u ⟨optList.head?, [], [], fun _ => none⟩ optList.tail

/-! ## Rendering -/

/-- What `render` does with one option, or with a few in the same way -/
inductive Item
  /-- `if self[name]`: the name -/
  | flag (name : Str)
  /-- `if self[name] is not None`: the name and the value -/
  | value (name : Str)
  /-- `if self[name] is not None`: both as one argument -/
  | joined (name : Str)
  /-- a string as one argument with the name, or the name alone -/
  | optional (name : Str)
  | debug
  | fragments
  | verbose
  deriving DecidableEq, Repr

/-- `if self[name]` -/
def truthy : Option Value → Bool
  | none => false
  | some .flag => true
  | some (.text s) => s ≠ []
  | some (.number n) => n ≠ 0

/-- `str`, for a value -/
def Value.toStr : Value → Str
  | .flag => "True".toList
  | .text s => s
  | .number n => str n

def renderItem (d : Dict) : Item → List Str
  | .flag name => if truthy (d.get name) then [name] else []
  | .value name =>
    match d.get name with
    | none => []
    | some value => [name, value.toStr]
  | .joined name =>
    match d.get name with
    | none => []
    | some value => [name ++ value.toStr]
  | .optional name =>
    match d.get name with
    | some (.text s) => [name ++ s]
    | other => if truthy other then [name] else []
  | .debug =>
    match d.get "-d".toList with
    | some (.number n) =>
      if n = 1 then ["-d".toList] else if n > 1 then ["-d".toList ++ str n] else []
    | _ => []
  | .fragments =>
    match d.get "-f".toList with
    | some (.number n) => List.replicate n.toNat "-f".toList
    | _ => []
  | .verbose =>
    match d.get "-v".toList with
    | some (.number n) =>
      if n = -1 then ["-v0".toList] else List.replicate n.toNat "-v".toList
    | _ => []

/-- The options in the order in which `render` writes them -/
def renderOrder : List Item :=
  (strs ["-sA", "-sC", "-sF", "-sL", "-sM", "-sN", "-sO", "-sn", "-sR",
    "-sS", "-sT", "-sU", "-sV", "-sW", "-sX", "-sY", "-sZ"]).map .flag ++
  [.value "-sI".toList, .flag "-6".toList, .value "-p".toList, .joined "-T".toList,
    .optional "-O".toList, .flag "-A".toList, .debug, .fragments, .verbose,
    .flag "-F".toList, .flag "-n".toList, .value "-iL".toList, .value "-iR".toList] ++
  (strs ["-oA", "-oG", "-oN", "-oS", "-oX"]).map .value ++
  (strs [
    "--min-hostgroup", "--max-hostgroup", "--min-parallelism", "--max-parallelism",
    "--min-rtt-timeout", "--max-rtt-timeout", "--initial-rtt-timeout", "--scan-delay",
    "--max-scan-delay", "--min-rate", "--max-rate", "--max-retries", "--max-os-tries",
    "--host-timeout"]).map .value ++
  (strs ["-Pn", "-PE", "-PM", "-PP", "-PR"]).map .flag ++
  (strs ["-PS", "-PA", "-PU", "-PO", "-PY"]).map .joined ++
  [.optional "-PB".toList] ++
  (strs [
    "--allports", "--append-output", "--badsum", "--defeat-rst-ratelimit", "--fuzzy", "--help",
    "--iflist", "--log-errors", "--no-stylesheet", "--open", "--osscan-guess", "--osscan-limit",
    "--packet-trace", "--privileged", "-r", "-R", "--randomize-hosts", "--reason",
    "--release-memory", "--script-trace", "--script-updatedb", "--send-eth", "--send-ip",
    "--system-dns", "--traceroute", "--unprivileged", "--version", "--version-all",
    "--version-light", "--version-trace", "--webxml"]).map .flag ++
  (strs [
    "-b", "-D", "--datadir", "--data-length", "--dns-servers", "-e", "--exclude", "--excludefile",
    "-g", "--ip-options", "--mtu", "--port-ratio", "-S", "--scanflags", "--script",
    "--script-args", "--script-help", "--servicedb", "--spoof-mac", "--stylesheet", "--top-ports",
    "--ttl", "--versiondb", "--version-intensity"]).map .value

/-- The options as `render` writes them, without the targets and the extras -/
def renderOptions (d : Dict) : List Str := renderOrder.flatMap (renderItem d)

def render (ops : NmapOptions) : List Str :=
  ops.executable :: renderOptions ops.d ++ ops.targetSpecs ++ ops.extras

end Nmap.Zenmap
