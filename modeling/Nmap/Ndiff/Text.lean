import Mathlib.Data.List.DropRight
import Nmap.Ndiff.HostDiff

/-!
# The text of a difference (`ndiff.py`)

`HostDiff.print_text` writes lines, of which those that differ begin with "-" or "+". What one
`print` writes is a line, and each row of a table is.
-/

namespace Nmap.Ndiff

/-! ## Strings -/

/-- `", ".join(parts)` and the like -/
def joinWith (sep : String) : List String → String
  | [] => ""
  | [part] => part
  | part :: parts => part ++ sep ++ joinWith sep parts

/-- `str.isspace` for one character -/
def isSpace (c : Char) : Bool :=
  (0x09 ≤ c.toNat && c.toNat ≤ 0x0d) || (0x1c ≤ c.toNat && c.toNat ≤ 0x20) ||
    (0x2000 ≤ c.toNat && c.toNat ≤ 0x200a) ||
    [0x85, 0xa0, 0x1680, 0x2028, 0x2029, 0x202f, 0x205f, 0x3000].contains c.toNat

def rstrip (s : String) : String := String.ofList (s.toList.rdropWhile isSpace)

def ljust (s : String) (width : Nat) : String :=
  s ++ String.ofList (List.replicate (width - s.length) ' ')

/-- The line boundaries of `splitlines` -/
def isLineBreak (c : Char) : Bool :=
  (0x0a ≤ c.toNat && c.toNat ≤ 0x0d) || (0x1c ≤ c.toNat && c.toNat ≤ 0x1e) ||
    [0x85, 0x2028, 0x2029].contains c.toNat

/-- `splitlines`, with the characters of the line so far -/
def splitlinesFrom : List Char → List Char → List String
  | line, [] => if line = [] then [] else [String.ofList line]
  | line, '\r' :: '\n' :: rest => String.ofList line :: splitlinesFrom [] rest
  | line, c :: rest =>
    if isLineBreak c then String.ofList line :: splitlinesFrom [] rest
    else splitlinesFrom (line ++ [c]) rest

def splitlines (s : String) : List String := splitlinesFrom [] s.toList

/-- The line begins with the mark of a difference. -/
def Marked (line : String) : Prop :=
  line.toList.head? = some '-' ∨ line.toList.head? = some '+'

instance (line : String) : Decidable (Marked line) := inferInstanceAs (Decidable (_ ∨ _))

/-! ## What is shown of the data -/

def Port.stateString (p : Port) : String := p.state.getD "unknown"

def Port.specString (p : Port) : String := toString p.spec.number ++ "/" ++ p.spec.protocol

def Service.nameString (s : Service) : Option String :=
  let parts := s.tunnel.toList ++ s.name.toList
  if parts = [] then none else some (joinWith "/" parts)

def Service.versionString (s : Service) : Option String :=
  let parts := s.product.toList ++ s.version.toList ++
    s.extrainfo.toList.map fun info => "(" ++ info ++ ")"
  if parts = [] then none else some (joinWith " " parts)

def Port.columns (p : Port) : List (Option String) :=
  [some p.specString, some p.stateString, p.service.nameString, p.service.versionString]

def ScriptResult.getLines (sr : ScriptResult) : List String :=
  match splitlines sr.output with
  | [] => []
  | first :: rest =>
    let lines := (sr.id ++ ": " ++ first) :: rest
    lines.dropLast.map (fun line => "|  " ++ line) ++
      lines.getLast?.toList.map fun line => "|_ " ++ line

def Host.formatName (h : Host) : String :=
  let addresses := joinWith ", " ((h.addresses.mergeSort Address.le).map Address.s)
  let hostnames := joinWith ", " (h.hostnames.mergeSort (· ≤ ·))
  if hostnames.length > 0 then
    if addresses.length > 0 then hostnames ++ " (" ++ addresses ++ ")" else hostnames
  else if addresses.length > 0 then addresses
  else "<no name>"

/-- Two counts are the same, and one of the states is none and the other a text, which do not
compare. -/
def Host.Unsortable (h : Host) : Prop :=
  ∃ x ∈ h.extraports, ∃ y ∈ h.extraports, x.2 = y.2 ∧ x.1 = none ∧ y.1 ≠ none

instance (h : Host) : Decidable h.Unsortable := inferInstanceAs (Decidable (∃ x ∈ _, _))

/-- `extraports_string`: a sort of counts and states in reverse -/
def Host.extraportsString (h : Host) : Except PyError String :=
  if h.Unsortable then .error .typeError
  else
    let sorted := h.extraports.mergeSort fun x y =>
      x.2 > y.2 || x.2 == y.2 && decide (x.1.getD "" ≥ y.1.getD "")
    .ok (joinWith ", " (sorted.map fun item =>
      toString item.2 ++ " " ++ item.1.getD "None" ++ " ports"))

/-! ## Tables -/

/-- A row of a table: columns, or a raw string -/
inductive Row
  | columns (strings : List String)
  | raw (s : String)

structure Table where
  head : String
  padding : List String
  widths : List Nat
  rows : List Row

/-- `Table`, the constructor: what is before the first "*" of the template, and what is between
them or after the last -/
def Table.new (template : String) : Table where
  head := String.ofList ((template.toList.splitOn '*').headD [])
  padding :=
    let rest := (template.toList.splitOn '*').tail
    (if rest.getLast? = some [] then rest.dropLast else rest).map String.ofList
  widths := []
  rows := []

/-- The widths of the columns with one row more -/
def growWidths : List Nat → List String → List Nat
  | widths, [] => widths
  | [], s :: row => s.length :: growWidths [] row
  | width :: widths, s :: row => max width s.length :: growWidths widths row

/-- `append`: "Remove trailing Nones." -/
def Table.append (table : Table) (row : List (Option String)) : Table :=
  let strings := (row.rdropWhile Option.isNone).map fun s => s.getD ""
  { table with widths := growWidths table.widths strings, rows := table.rows ++ [.columns strings] }

def Table.appendRaw (table : Table) (s : String) : Table :=
  { table with rows := table.rows ++ [.raw s] }

/-- The columns of a row with the padding between them -/
def padColumns : List String → List Nat → List String → String
  | s :: row, width :: widths, pad :: padding =>
    ljust s width ++ pad ++ padColumns row widths padding
  | s :: row, width :: widths, [] => ljust s width ++ padColumns row widths []
  | _, _, _ => ""

def Table.rowLine (table : Table) : Row → String
  | .columns strings => rstrip (table.head ++ padColumns strings table.widths table.padding)
  | .raw s => s

/-- `__str__`, line by line -/
def Table.lines (table : Table) : List String := table.rows.map table.rowLine

/-! ## Differences in tables -/

/-- What opcodes show of two lists: each element with its mark -/
def opcodeLines (prefixes : String × String × String) (a b : List String) (opcodes : List Opcode) :
    List String :=
  opcodes.flatMap fun x =>
    let ofA := (a.drop x.i1).take (x.i2 - x.i1)
    let ofB := (b.drop x.j1).take (x.j2 - x.j1)
    (if x.op = .replace ∨ x.op = .delete then ofA.map (prefixes.1 ++ ·) else []) ++
      (if x.op = .replace ∨ x.op = .insert then ofB.map (prefixes.2.1 ++ ·) else []) ++
      (if x.op = .equal then ofA.map (prefixes.2.2 ++ ·) else [])

section Print

variable (difflib : Difflib) (verbose : Bool)

/-- The rows that `ScriptResultDiff.append_to_port_table` appends -/
def ScriptResultDiff.rows (diff : ScriptResultDiff) : List String :=
  let a := (diff.srA.map ScriptResult.getLines).getD []
  let b := (diff.srB.map ScriptResult.getLines).getD []
  if a ≠ b ∨ verbose = true then opcodeLines ("-", "+", " ") a b (difflib a b) else []

def ScriptResultDiff.appendToPortTable (table : Table) (diff : ScriptResultDiff) : Table :=
  (diff.rows difflib verbose).foldl Table.appendRaw table

/-- The rows of the port itself, for columns that differ -/
def PortDiff.appendColumns (hostA hostB : Host) (diff : PortDiff) (table : Table) : Table :=
  let table :=
    if hostA.isExtraports diff.portA.state then table
    else table.append (some "-" :: diff.portA.columns)
  if hostB.isExtraports diff.portB.state then table
  else table.append (some "+" :: diff.portB.columns)

/-- `PortDiff.append_to_port_table`. Where the columns are equal a list is compared with an
integer. -/
def PortDiff.appendToPortTable (hostA hostB : Host) (diff : PortDiff) (table : Table) :
    Except PyError Table := do
  let table ←
    if diff.portA.columns = diff.portB.columns then
      if verbose then .ok (table.append (some " " :: diff.portA.columns)) else .error .typeError
    else .ok (diff.appendColumns hostA hostB table)
  return diff.scriptResultDiffs.foldl (ScriptResultDiff.appendToPortTable difflib verbose) table

def printScriptResultDiffsText (title : String) (a b : List ScriptResult)
    (diffs : List ScriptResultDiff) : List String :=
  let table := diffs.foldl (ScriptResultDiff.appendToPortTable difflib verbose) (Table.new "*")
  if table.rows.length > 0 then
    "" :: (if b.length = 0 then "-" ++ title ++ ":"
      else if a.length = 0 then "+" ++ title ++ ":"
      else " " ++ title ++ ":") :: table.lines
  else []

/-! ## `HostDiff.print_text` -/

namespace HostDiff

variable (d : HostDiff)

def nameLines : List String :=
  if d.idChanged then
    (if d.hostA.state.isSome then ["-" ++ d.hostA.formatName ++ ":"] else []) ++
      (if d.hostB.state.isSome then ["+" ++ d.hostB.formatName ++ ":"] else [])
  else [" " ++ d.hostA.formatName ++ ":"]

def stateLines : List String :=
  if d.stateChanged then
    d.hostA.state.toList.map (fun state => "-Host is " ++ state ++ ".") ++
      d.hostB.state.toList.map (fun state => "+Host is " ++ state ++ ".")
  else if verbose then [" Host is " ++ d.hostB.state.getD "None" ++ "."]
  else []

/-- The line for the extra ports of one host -/
def extraportsLine (mark : String) (h : Host) : Except PyError (List String) :=
  if h.extraports.length > 0 then
    h.extraportsString.map fun shown => [mark ++ "Not shown: " ++ shown]
  else .ok []

def extraportsLines : Except PyError (List String) := do
  if d.extraportsChanged then
    let a ← extraportsLine "-" d.hostA
    let b ← extraportsLine "+" d.hostB
    return a ++ b
  else if verbose then extraportsLine " " d.hostA
  else return []

def portTable : Except PyError Table :=
  let mark := if d.hostA.state.isNone then "+" else if d.hostB.state.isNone then "-" else " "
  let table := (Table.new "** * * *").append
    [some mark, some "PORT", some "STATE", some "SERVICE", some "VERSION"]
  d.portDiffs.foldlM (fun table x =>
    x.2.appendToPortTable difflib verbose d.hostA d.hostB table) table

def osLines : List String :=
  if d.osChanged ∨ verbose = true then
    (if d.hostA.os.length > 0 then
        if d.hostB.os.length > 0 then [" OS details:"] else ["-OS details:"]
      else if d.hostB.os.length > 0 then ["+OS details:"] else []) ++
      opcodeLines ("-  ", "+  ", "   ") d.hostA.os d.hostB.os d.osDiffs
  else []

end HostDiff

/-- Where a `print` goes -/
inductive Stream
  | stdout | file
  deriving DecidableEq, Repr

/-- `print_text`: the lines with the streams that they are written to. The host scripts are printed
without `f`, so to the standard output. -/
def HostDiff.printText (d : HostDiff) (f : Stream) : Except PyError (List (Stream × String)) := do
  let extraports ← d.extraportsLines verbose
  let table ← d.portTable difflib verbose
  let ports := if table.rows.length > 1 then table.lines else []
  let toF := d.nameLines ++ d.stateLines verbose ++ extraports ++ ports ++ d.osLines verbose
  let scripts := printScriptResultDiffsText difflib verbose "Host script results"
    d.hostA.scriptResults d.hostB.scriptResults d.scriptResultDiffs
  return toF.map (f, ·) ++ scripts.map (.stdout, ·)

end Print

end Nmap.Ndiff
