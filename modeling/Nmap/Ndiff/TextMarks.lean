import Nmap.Ndiff.Text

/-!
# When the text shows a difference (`ndiff.py`)

One lemma for each part of `print_text` says when one of its lines has a mark, or when it raises an
exception. Together they say when the text of a host has a marked line.
-/

namespace Nmap.Ndiff

open List

/-- Each opcode but "equal" changes something, and takes it from inside the lists. -/
structure Difflib.Lawful (difflib : Difflib) : Prop where
  allEqual : difflib.AllEqualIff
  ofA : ∀ a b, ∀ x ∈ difflib a b, x.op = .replace ∨ x.op = .delete → x.i1 < x.i2 ∧ x.i2 ≤ a.length
  ofB : ∀ a b, ∀ x ∈ difflib a b, x.op = .replace ∨ x.op = .insert → x.j1 < x.j2 ∧ x.j2 ≤ b.length

theorem marked_minus (s : String) : Marked ("-" ++ s) := by
  left
  rw [String.toList_append]
  rfl

theorem marked_plus (s : String) : Marked ("+" ++ s) := by
  right
  rw [String.toList_append]
  rfl

theorem not_marked_space (s : String) : ¬ Marked (" " ++ s) := by
  unfold Marked
  rw [String.toList_append]
  simp

theorem slice_ne_nil {l : List String} {i j : Nat} (less : i < j) (inside : j ≤ l.length) :
    (l.drop i).take (j - i) ≠ [] := by
  intro nil
  have length := congrArg List.length nil
  rw [length_take, length_drop, length_nil] at length
  omega

/-- Of two lists that are not equal some line is shown with the mark of the one or the other. -/
theorem opcodeLines_marked {difflib : Difflib} (law : difflib.Lawful) {a b : List String}
    (differ : a ≠ b) {minus plus equal : String} :
    ∃ line ∈ opcodeLines (minus, plus, equal) a b (difflib a b),
      ∃ s, line = minus ++ s ∨ line = plus ++ s := by
  obtain ⟨x, mem, other⟩ : ∃ x ∈ difflib a b, x.op ≠ .equal := by
    by_contra all
    push Not at all
    exact differ ((law.allEqual a b).mp all)
  by_cases fromA : x.op = .replace ∨ x.op = .delete
  · obtain ⟨less, inside⟩ := law.ofA a b x mem fromA
    obtain ⟨s, rest, slice⟩ := exists_cons_of_ne_nil (slice_ne_nil less inside)
    refine ⟨minus ++ s, mem_flatMap.mpr ⟨x, mem, ?_⟩, s, .inl rfl⟩
    simp only [fromA, if_true, slice, map_cons]
    simp
  · have fromB : x.op = .replace ∨ x.op = .insert := by
      cases op : x.op with
      | replace => exact .inl rfl
      | insert => exact .inr rfl
      | delete => exact absurd (.inr op) fromA
      | equal => exact absurd op other
    obtain ⟨less, inside⟩ := law.ofB a b x mem fromB
    obtain ⟨s, rest, slice⟩ := exists_cons_of_ne_nil (slice_ne_nil less inside)
    refine ⟨plus ++ s, mem_flatMap.mpr ⟨x, mem, ?_⟩, s, .inr rfl⟩
    simp only [fromA, if_false, fromB, if_true, slice, map_cons]
    simp

/-! ### Tables -/

/-- The lines of the script results, where the two sides differ in their lines -/
def ScriptResultDiff.LinesDiffer (diff : ScriptResultDiff) : Prop :=
  (diff.srA.map ScriptResult.getLines).getD [] ≠ (diff.srB.map ScriptResult.getLines).getD []

theorem foldl_appendRaw (table : Table) (lines : List String) :
    lines.foldl Table.appendRaw table = { table with rows := table.rows ++ lines.map .raw } := by
  induction lines generalizing table with
  | nil => rw [foldl_nil, map_nil, append_nil]
  | cons line lines ih =>
    rw [foldl_cons, ih]
    simp [Table.appendRaw]

theorem foldl_scripts (difflib : Difflib) (diffs : List ScriptResultDiff) (table : Table) :
    diffs.foldl (ScriptResultDiff.appendToPortTable difflib false) table =
      { table with
        rows := table.rows ++ (diffs.flatMap fun diff => diff.rows difflib false).map .raw } := by
  induction diffs generalizing table with
  | nil => simp
  | cons diff diffs ih =>
    rw [foldl_cons, ih, ScriptResultDiff.appendToPortTable, foldl_appendRaw]
    simp

/-- The scripts are printed iff the lines of one of them differ, and then a line has a mark. -/
theorem printScripts_marked {difflib : Difflib} (law : difflib.Lawful) (title : String)
    (a b : List ScriptResult) (diffs : List ScriptResultDiff) :
    (∃ line ∈ printScriptResultDiffsText difflib false title a b diffs, Marked line) ↔
      ∃ diff ∈ diffs, diff.LinesDiffer := by
  rw [printScriptResultDiffsText, foldl_scripts]
  constructor
  · rintro ⟨line, mem, -⟩
    by_contra none
    push Not at none
    have empty : (diffs.flatMap fun diff => diff.rows difflib false) = [] := by
      rw [flatMap_eq_nil_iff]
      intro diff memDiff
      have same := none diff memDiff
      unfold ScriptResultDiff.LinesDiffer at same
      rw [not_not] at same
      rw [ScriptResultDiff.rows, if_neg (by simp [same])]
    simp [empty, Table.new] at mem
  · rintro ⟨diff, memDiff, differ⟩
    have rows : diff.rows difflib false = opcodeLines ("-", "+", " ") _ _ (difflib _ _) :=
      if_pos (.inl differ)
    obtain ⟨line, memLine, s, mark⟩ : ∃ line ∈ opcodeLines ("-", "+", " ") _ _ (difflib _ _),
        ∃ s, line = "-" ++ s ∨ line = "+" ++ s := opcodeLines_marked law differ
    have memRows : line ∈ diffs.flatMap fun diff => diff.rows difflib false :=
      mem_flatMap.mpr ⟨diff, memDiff, rows ▸ memLine⟩
    refine ⟨line, ?_, ?_⟩
    · rw [if_pos]
      · refine mem_cons_of_mem _ (mem_cons_of_mem _ (mem_map.mpr ⟨.raw line, ?_, rfl⟩))
        exact mem_append_right _ (mem_map.mpr ⟨line, memRows, rfl⟩)
      · have mem : Row.raw line ∈ (Table.new "*").rows ++
            (diffs.flatMap fun diff => diff.rows difflib false).map .raw :=
          mem_append_right _ (mem_map.mpr ⟨line, memRows, rfl⟩)
        exact length_pos_of_mem mem
    · rcases mark with rfl | rfl
      · exact marked_minus s
      · exact marked_plus s

/-- A table without text before its columns, and with a column -/
structure Table.Ready (table : Table) : Prop where
  head : table.head = ""
  widths : table.widths ≠ []

/-- A row whose first column is the mark of a difference -/
def Row.IsMarked (row : Row) : Prop :=
  ∃ mark rest, row = .columns (mark :: rest) ∧ (mark = "-" ∨ mark = "+")

theorem growWidths_ne_nil {widths : List Nat} (some_ : widths ≠ []) (row : List String) :
    growWidths widths row ≠ [] := by
  obtain ⟨width, widths, rfl⟩ := exists_cons_of_ne_nil some_
  cases row with
  | nil => simp [growWidths]
  | cons s row => simp [growWidths]

variable {table : Table}

theorem Table.Ready.append (ready : table.Ready) (row : List (Option String)) :
    (table.append row).Ready :=
  ⟨ready.head, growWidths_ne_nil ready.widths _⟩

theorem rstrip_marked {mark s : String} (isMark : mark = "-" ∨ mark = "+") :
    Marked (rstrip (mark ++ s)) := by
  obtain ⟨c, single, notSpace, marked⟩ : ∃ c, mark.toList = [c] ∧ isSpace c = false ∧
      (c = '-' ∨ c = '+') := by
    rcases isMark with rfl | rfl
    · exact ⟨'-', rfl, rfl, .inl rfl⟩
    · exact ⟨'+', rfl, rfl, .inr rfl⟩
  have chars : (mark ++ s).toList = c :: s.toList := by
    rw [String.toList_append, single, singleton_append]
  obtain ⟨rest, kept⟩ : ∃ rest, (mark ++ s).toList.rdropWhile isSpace = c :: rest := by
    have some_ : (mark ++ s).toList.rdropWhile isSpace ≠ [] := by
      intro nil
      have all := rdropWhile_eq_nil_iff.mp nil c (chars ▸ mem_cons_self)
      rw [notSpace] at all
      cases all
    obtain ⟨d, rest, cons⟩ := exists_cons_of_ne_nil some_
    obtain ⟨more, whole⟩ := rdropWhile_prefix isSpace (l := (mark ++ s).toList)
    rw [cons, chars, cons_append, List.cons.injEq] at whole
    exact ⟨rest, whole.1 ▸ cons⟩
  unfold Marked rstrip
  rw [kept, String.toList_ofList]
  exact marked.imp (fun eq => by rw [eq]; rfl) (fun eq => by rw [eq]; rfl)

theorem Row.IsMarked.line {row : Row} (marked : row.IsMarked) {table : Table}
    (ready : table.Ready) : Marked (table.rowLine row) := by
  obtain ⟨mark, rest, rfl, isMark⟩ := marked
  obtain ⟨width, widths, cons⟩ := exists_cons_of_ne_nil ready.widths
  obtain ⟨s, line⟩ : ∃ s, table.head ++ padColumns (mark :: rest) table.widths table.padding =
      mark ++ s := by
    rw [ready.head, cons, String.empty_append]
    cases table.padding with
    | nil =>
      rw [padColumns, ljust, String.append_assoc]
      exact ⟨_, rfl⟩
    | cons pad padding =>
      rw [padColumns, ljust, String.append_assoc, String.append_assoc]
      exact ⟨_, rfl⟩
  rw [Table.rowLine, line]
  exact rstrip_marked isMark

theorem rdropWhile_isNone (s : String) (columns : List (Option String)) :
    ∃ rest, (some s :: columns).rdropWhile Option.isNone = some s :: rest := by
  have some_ : (some s :: columns).rdropWhile Option.isNone ≠ [] := by
    intro nil
    have all := rdropWhile_eq_nil_iff.mp nil (some s) mem_cons_self
    cases all
  obtain ⟨d, rest, cons⟩ := exists_cons_of_ne_nil some_
  obtain ⟨more, whole⟩ := rdropWhile_prefix Option.isNone (l := some s :: columns)
  rw [cons, cons_append, List.cons.injEq] at whole
  exact ⟨rest, whole.1 ▸ cons⟩

theorem append_isMarked (mark : String) (isMark : mark = "-" ∨ mark = "+") (table : Table)
    (columns : List (Option String)) :
    ∃ row : Row, row.IsMarked ∧
      (table.append (some mark :: columns)).rows = table.rows ++ [row] := by
  obtain ⟨rest, kept⟩ := rdropWhile_isNone mark columns
  refine ⟨.columns (mark :: rest.map fun s => s.getD ""), ⟨mark, _, rfl, isMark⟩, ?_⟩
  rw [Table.append, kept]
  rfl

theorem ready_append (head : table.head = "") (s : String) (columns : List (Option String)) :
    (table.append (some s :: columns)).Ready := by
  obtain ⟨rest, kept⟩ := rdropWhile_isNone s columns
  refine ⟨head, ?_⟩
  rw [Table.append, kept]
  show growWidths table.widths (s :: _) ≠ []
  cases table.widths with
  | nil => simp [growWidths]
  | cons width widths => simp [growWidths]

variable {hostA hostB : Host} {diff : PortDiff}

/-- The rows of a port: one at least has a mark, unless both states are folded. -/
theorem PortDiff.appendColumns_marked
    (shown : ¬ (hostA.isExtraports diff.portA.state = true ∧
      hostB.isExtraports diff.portB.state = true))
    (ready : table.Ready) :
    (diff.appendColumns hostA hostB table).Ready ∧
      ∃ more, (diff.appendColumns hostA hostB table).rows = table.rows ++ more ∧
        ∃ row ∈ more, row.IsMarked := by
  obtain ⟨minus, minusMarked, minusRows⟩ :=
    append_isMarked "-" (.inl rfl) table diff.portA.columns
  unfold PortDiff.appendColumns
  cases foldedA : hostA.isExtraports diff.portA.state with
  | true =>
    have shownB : hostB.isExtraports diff.portB.state = false :=
      Bool.eq_false_iff.mpr fun b => shown ⟨foldedA, b⟩
    obtain ⟨plus, plusMarked, plusRows⟩ :=
      append_isMarked "+" (.inr rfl) table diff.portB.columns
    simp only [shownB, if_true, Bool.false_eq_true, if_false]
    exact ⟨ready.append _, [plus], plusRows, plus, mem_singleton.mpr rfl, plusMarked⟩
  | false =>
    cases foldedB : hostB.isExtraports diff.portB.state with
    | true =>
      simp only [if_true, Bool.false_eq_true, if_false]
      exact ⟨ready.append _, [minus], minusRows, minus, mem_singleton.mpr rfl, minusMarked⟩
    | false =>
      obtain ⟨plus, -, plusRows⟩ := append_isMarked "+" (.inr rfl)
        (table.append (some "-" :: diff.portA.columns)) diff.portB.columns
      simp only [Bool.false_eq_true, if_false]
      refine ⟨(ready.append _).append _, [minus, plus], ?_, minus, mem_cons_self,
        minusMarked⟩
      rw [plusRows, minusRows, append_assoc]
      rfl

theorem PortDiff.appendToPortTable_ok (difflib : Difflib)
    (columns : diff.portA.columns ≠ diff.portB.columns)
    (shown : ¬ (hostA.isExtraports diff.portA.state = true ∧
      hostB.isExtraports diff.portB.state = true))
    (ready : table.Ready) :
    ∃ table', diff.appendToPortTable difflib false hostA hostB table = .ok table' ∧
      table'.Ready ∧ ∃ more, table'.rows = table.rows ++ more ∧ ∃ row ∈ more, row.IsMarked := by
  obtain ⟨readyColumns, more, rows, row, mem, marked⟩ := appendColumns_marked shown ready
  refine ⟨diff.scriptResultDiffs.foldl (ScriptResultDiff.appendToPortTable difflib false)
    (diff.appendColumns hostA hostB table), ?_, ?_⟩
  · rw [PortDiff.appendToPortTable, if_neg columns]
    rfl
  · rw [foldl_scripts, rows]
    refine ⟨⟨readyColumns.head, readyColumns.widths⟩, ?_⟩
    rw [append_assoc]
    exact ⟨_, rfl, row, mem_append_left _ mem, marked⟩

theorem PortDiff.appendToPortTable_error (difflib : Difflib)
    (columns : diff.portA.columns = diff.portB.columns) (table : Table) :
    diff.appendToPortTable difflib false hostA hostB table = .error .typeError := by
  rw [PortDiff.appendToPortTable, if_pos columns]
  rfl

theorem foldlM_ports (difflib : Difflib) {diffs : List (Port × PortDiff)}
    (columns : ∀ x ∈ diffs, x.2.portA.columns ≠ x.2.portB.columns)
    (shown : ∀ x ∈ diffs, ¬ (hostA.isExtraports x.2.portA.state = true ∧
      hostB.isExtraports x.2.portB.state = true))
    (ready : table.Ready) :
    ∃ table', diffs.foldlM (fun table x =>
        x.2.appendToPortTable difflib false hostA hostB table) table = .ok table' ∧
      table'.Ready ∧ ∃ more, table'.rows = table.rows ++ more ∧
        (diffs = [] → more = []) ∧ (diffs ≠ [] → ∃ row ∈ more, row.IsMarked) := by
  induction diffs generalizing table with
  | nil =>
    exact ⟨table, rfl, ready, [], (append_nil _).symm, fun _ => rfl, fun h => absurd rfl h⟩
  | cons x diffs ih =>
    obtain ⟨middle, first, readyMiddle, more, rows, row, mem, marked⟩ :=
      PortDiff.appendToPortTable_ok difflib (columns x mem_cons_self)
        (shown x mem_cons_self) ready
    obtain ⟨last, rest, readyLast, others, rowsLast, -⟩ :=
      ih (fun y mem => columns y (mem_cons_of_mem _ mem))
        (fun y mem => shown y (mem_cons_of_mem _ mem)) readyMiddle
    refine ⟨last, ?_, readyLast, more ++ others, ?_, fun nil => absurd nil (cons_ne_nil _ _),
      fun _ => ⟨row, mem_append_left _ mem, marked⟩⟩
    · rw [foldlM_cons, first]
      exact rest
    · rw [rowsLast, rows, append_assoc]

theorem foldlM_ports_error (difflib : Difflib) {diffs : List (Port × PortDiff)}
    {x : Port × PortDiff} (mem : x ∈ diffs) (columns : x.2.portA.columns = x.2.portB.columns)
    (table : Table) :
    ∃ e, diffs.foldlM (fun table x =>
      x.2.appendToPortTable difflib false hostA hostB table) table = .error e := by
  induction diffs generalizing table with
  | nil => exact absurd mem not_mem_nil
  | cons y diffs ih =>
    rw [foldlM_cons]
    rcases mem_cons.mp mem with rfl | mem
    · rw [PortDiff.appendToPortTable_error difflib columns]
      exact ⟨_, rfl⟩
    · cases y.2.appendToPortTable difflib false hostA hostB table with
      | error e => exact ⟨e, rfl⟩
      | ok table' => exact ih mem table'

/-! ### The parts of `print_text` -/

section Parts

variable (difflib : Difflib) {a b : Host}

/-- The columns of some port that is listed are equal. -/
def ColumnsHide (a b : Host) : Prop :=
  ∃ spec, ¬ Folded a b spec ∧ ¬ SamePort (a.portOr spec) (b.portOr spec) ∧
    (a.portOr spec).columns = (b.portOr spec).columns

theorem mem_portDiffsOf {x : Port × PortDiff} (mem : x ∈ portDiffsOf false a b) :
    ∃ spec, x.2 = PortDiff.new false (a.portOr spec) (b.portOr spec) ∧ ¬ Folded a b spec ∧
      ¬ SamePort (a.portOr spec) (b.portOr spec) := by
  obtain ⟨spec, -, listed⟩ := mem_filterMap.mp mem
  dsimp only at listed
  split at listed
  · rename_i shown
    cases listed
    have differ := (includeDiff_eq_false_iff (a := a) (b := b) spec).not.mp (by simp [shown])
    exact ⟨spec, rfl, not_or.mp differ⟩
  · cases listed

theorem exists_portDiff {spec : Spec} (shown : ¬ Folded a b spec)
    (differ : ¬ SamePort (a.portOr spec) (b.portOr spec)) :
    ∃ x ∈ portDiffsOf false a b, x.2.portA = a.portOr spec ∧ x.2.portB = b.portOr spec := by
  have mem : spec ∈ allSpecs a b := by
    by_contra absent
    exact shown (folded_of_absent absent)
  have listed : includeDiff false a b (PortDiff.new false (a.portOr spec) (b.portOr spec)) = true := by
    have out := (includeDiff_eq_false_iff (a := a) (b := b) spec).not.mpr (not_or.mpr ⟨shown, differ⟩)
    simpa using out
  exact ⟨_, mem_filterMap.mpr ⟨spec, mem, if_pos listed⟩, rfl, rfl⟩

/-- The table of the ports is made unless the columns of a port are equal, and is printed with a
mark iff a port is listed. -/
theorem portTable_ok (shown : ¬ ColumnsHide a b) :
    ∃ table, (HostDiff.new difflib false a b).portTable difflib false = .ok table ∧
      (portDiffsOf false a b = [] → table.rows.length = 1) ∧
      (portDiffsOf false a b ≠ [] → table.rows.length > 1 ∧ ∃ line ∈ table.lines, Marked line) := by
  let start := (Table.new "** * * *").append
    [some (if a.state.isNone then "+" else if b.state.isNone then "-" else " "), some "PORT",
      some "STATE", some "SERVICE", some "VERSION"]
  have ready : start.Ready := ready_append rfl _ _
  have one : start.rows.length = 1 := rfl
  obtain ⟨table, made, readyTable, more, rows, none, some_⟩ :=
    foldlM_ports difflib
      (fun x (mem : x ∈ portDiffsOf false a b) => by
        obtain ⟨spec, new, notFolded, differ⟩ := mem_portDiffsOf mem
        rw [new]
        exact fun same => shown ⟨spec, notFolded, differ, same⟩)
      (fun x mem => by
        obtain ⟨spec, new, notFolded, -⟩ := mem_portDiffsOf mem
        rw [new]
        exact notFolded)
      ready
  refine ⟨table, made, fun nil => ?_, fun nonempty => ?_⟩
  · rw [rows, none nil, append_nil, one]
  · obtain ⟨row, mem, marked⟩ := some_ nonempty
    refine ⟨?_, table.rowLine row, ?_, marked.line readyTable⟩
    · have pos := length_pos_of_mem mem
      rw [rows, length_append, one]
      omega
    · exact mem_map.mpr ⟨row, rows ▸ mem_append_right _ mem, rfl⟩

theorem portTable_error (hidden : ColumnsHide a b) :
    ∃ e, (HostDiff.new difflib false a b).portTable difflib false = .error e := by
  obtain ⟨spec, notFolded, differ, same⟩ := hidden
  obtain ⟨x, mem, portA, portB⟩ := exists_portDiff notFolded differ
  exact foldlM_ports_error difflib mem (by rw [portA, portB, same]) _

theorem nameLines_marked (oneState : a.state ≠ none ∨ b.state ≠ none) :
    (∃ line ∈ (HostDiff.new difflib false a b).nameLines, Marked line) ↔
      (HostDiff.new difflib false a b).idChanged = true := by
  unfold HostDiff.nameLines
  cases changed : (HostDiff.new difflib false a b).idChanged with
  | false =>
    simp only [Bool.false_eq_true, if_false, iff_false, mem_singleton, exists_eq_left]
    rw [String.append_assoc]
    exact not_marked_space _
  | true =>
    simp only [if_true, iff_true]
    rcases oneState with state | state
    · refine ⟨_, mem_append_left _ ?_, marked_minus (a.formatName ++ ":")⟩
      show _ ∈ if a.state.isSome = true then ["-" ++ a.formatName ++ ":"] else []
      rw [if_pos (Option.isSome_iff_ne_none.mpr state), String.append_assoc]
      exact mem_singleton.mpr rfl
    · refine ⟨_, mem_append_right _ ?_, marked_plus (b.formatName ++ ":")⟩
      show _ ∈ if b.state.isSome = true then ["+" ++ b.formatName ++ ":"] else []
      rw [if_pos (Option.isSome_iff_ne_none.mpr state), String.append_assoc]
      exact mem_singleton.mpr rfl

theorem stateLines_marked :
    (∃ line ∈ (HostDiff.new difflib false a b).stateLines false, Marked line) ↔
      a.state ≠ b.state := by
  have changed : (HostDiff.new difflib false a b).stateChanged = decide (a.state ≠ b.state) := rfl
  unfold HostDiff.stateLines
  rw [changed]
  by_cases same : a.state = b.state
  · simp [same]
  · rw [if_pos (decide_eq_true same)]
    refine iff_of_true ?_ same
    show ∃ line ∈ a.state.toList.map _ ++ b.state.toList.map _, Marked line
    cases stateA : a.state with
    | some state =>
      refine ⟨_, mem_append_left _ (mem_map.mpr ⟨state, by simp, rfl⟩), ?_⟩
      rw [String.append_assoc]
      exact marked_minus ("Host is " ++ (state ++ "."))
    | none =>
      cases stateB : b.state with
      | some state =>
        refine ⟨_, mem_append_right _ (mem_map.mpr ⟨state, by simp, rfl⟩), ?_⟩
        rw [String.append_assoc]
        exact marked_plus ("Host is " ++ (state ++ "."))
      | none => exact absurd (stateA.trans stateB.symm) same

theorem extraportsLine_ok (mark : String) {h : Host} (sortable : ¬ h.Unsortable) :
    ∃ lines, HostDiff.extraportsLine mark h = .ok lines ∧
      (h.extraports ≠ [] → ∃ s, mark ++ s ∈ lines) := by
  unfold HostDiff.extraportsLine Host.extraportsString
  rw [if_neg sortable]
  split
  · refine ⟨_, rfl, fun _ => ?_⟩
    dsimp only
    rw [String.append_assoc]
    exact ⟨_, mem_singleton.mpr rfl⟩
  · rename_i none
    exact ⟨[], rfl, fun some_ => absurd (length_pos_iff.mpr some_) none⟩

theorem extraportsLine_error {mark : String} {h : Host} (unsortable : h.Unsortable) :
    HostDiff.extraportsLine mark h = .error .typeError := by
  obtain ⟨x, mem, -⟩ := id unsortable
  unfold HostDiff.extraportsLine Host.extraportsString
  rw [if_pos (length_pos_of_mem mem), if_pos unsortable]
  rfl

theorem extraportsLines_ok
    (sortable : a.extraports ≠ b.extraports → ¬ a.Unsortable ∧ ¬ b.Unsortable) :
    ∃ lines, (HostDiff.new difflib false a b).extraportsLines false = .ok lines ∧
      ((∃ line ∈ lines, Marked line) ↔ a.extraports ≠ b.extraports) := by
  have changed := extraportsChanged_eq_false_iff difflib a b
  unfold HostDiff.extraportsLines
  by_cases same : a.extraports = b.extraports
  · rw [changed.mpr same]
    exact ⟨[], rfl, by simp [same]⟩
  · obtain ⟨sortableA, sortableB⟩ := sortable same
    obtain ⟨linesA, madeA, markedA⟩ := extraportsLine_ok "-" sortableA
    obtain ⟨linesB, madeB, markedB⟩ := extraportsLine_ok "+" sortableB
    rw [Bool.eq_true_of_not_eq_false (changed.not.mpr same)]
    refine ⟨linesA ++ linesB, ?_, iff_of_true ?_ same⟩
    · show (do
        let x ← HostDiff.extraportsLine "-" a
        let y ← HostDiff.extraportsLine "+" b
        return x ++ y) = _
      rw [madeA, madeB]
      rfl
    · by_cases noneA : a.extraports = []
      · obtain ⟨s, mem⟩ := markedB fun noneB => same (noneA.trans noneB.symm)
        exact ⟨_, mem_append_right _ mem, marked_plus s⟩
      · obtain ⟨s, mem⟩ := markedA noneA
        exact ⟨_, mem_append_left _ mem, marked_minus s⟩

theorem extraportsLines_error (differ : a.extraports ≠ b.extraports)
    (unsortable : a.Unsortable ∨ b.Unsortable) :
    ∃ e, (HostDiff.new difflib false a b).extraportsLines false = .error e := by
  unfold HostDiff.extraportsLines
  rw [Bool.eq_true_of_not_eq_false ((extraportsChanged_eq_false_iff difflib a b).not.mpr differ)]
  show ∃ e, (do
    let x ← HostDiff.extraportsLine "-" a
    let y ← HostDiff.extraportsLine "+" b
    return x ++ y) = .error e
  by_cases unsortableA : a.Unsortable
  · rw [extraportsLine_error unsortableA]
    exact ⟨_, rfl⟩
  · obtain ⟨lines, made, -⟩ := extraportsLine_ok "-" unsortableA
    rw [made, extraportsLine_error (unsortable.resolve_left unsortableA)]
    exact ⟨_, rfl⟩

/-! ### The whole text -/

/-- The hosts agree on all that is counted but the host scripts. -/
structure SameButScripts (a b : Host) : Prop where
  state : a.state = b.state
  addresses : ∀ x, x ∈ a.addresses ↔ x ∈ b.addresses
  hostnames : ∀ x, x ∈ a.hostnames ↔ x ∈ b.hostnames
  ports : ∀ spec, Folded a b spec ∨ SamePort (a.portOr spec) (b.portOr spec)
  os : a.os = b.os
  extraports : a.extraports = b.extraports

/-- A text is printed, and one of the lines of `f` has a mark. -/
def TextShown (difflib : Difflib) (f : Stream) (d : HostDiff) : Prop :=
  ∃ out, d.printText difflib false f = .ok out ∧ ∃ line, (f, line) ∈ out ∧ Marked line

/-- When the text shows a difference -/
structure TextClear (f : Stream) (a b : Host) : Prop where
  columns : ¬ ColumnsHide a b
  sortable : a.extraports ≠ b.extraports → ¬ a.Unsortable ∧ ¬ b.Unsortable
  seen : ¬ SameButScripts a b ∨ f = .stdout ∧
    ∃ diff ∈ diffLists false a.scriptResults b.scriptResults, diff.LinesDiffer

/-- The marked lines for `f` come from a part of the text that is written to `f`. -/
theorem mem_printed {f : Stream} {toF scripts : List String} :
    (∃ line, (f, line) ∈ toF.map (f, ·) ++ scripts.map (Stream.stdout, ·) ∧ Marked line) ↔
      (∃ line ∈ toF, Marked line) ∨ f = .stdout ∧ ∃ line ∈ scripts, Marked line := by
  constructor
  · rintro ⟨line, mem, marked⟩
    rcases mem_append.mp mem with mem | mem
    · obtain ⟨x, memX, same⟩ := mem_map.mp mem
      cases same
      exact .inl ⟨line, memX, marked⟩
    · obtain ⟨x, memX, same⟩ := mem_map.mp mem
      cases same
      exact .inr ⟨rfl, line, memX, marked⟩
  · rintro (⟨line, mem, marked⟩ | ⟨rfl, line, mem, marked⟩)
    · exact ⟨line, mem_append_left _ (mem_map.mpr ⟨line, mem, rfl⟩), marked⟩
    · exact ⟨line, mem_append_right _ (mem_map.mpr ⟨line, mem, rfl⟩), marked⟩

theorem exists_marked_append {xs ys : List String} :
    (∃ line ∈ xs ++ ys, Marked line) ↔ (∃ line ∈ xs, Marked line) ∨ ∃ line ∈ ys, Marked line := by
  simp only [mem_append, or_and_right, exists_or]

theorem ports_marked {table : Table}
    (none : portDiffsOf false a b = [] → table.rows.length = 1)
    (some_ : portDiffsOf false a b ≠ [] →
      table.rows.length > 1 ∧ ∃ line ∈ table.lines, Marked line) :
    (∃ line ∈ (if table.rows.length > 1 then table.lines else []), Marked line) ↔
      portDiffsOf false a b ≠ [] := by
  by_cases nil : portDiffsOf false a b = []
  · rw [if_neg (by rw [none nil]; omega)]
    simp [nil]
  · rw [if_pos (some_ nil).1]
    exact iff_of_true (some_ nil).2 nil

theorem printText_error (f : Stream)
    (hidden : ColumnsHide a b ∨ a.extraports ≠ b.extraports ∧ (a.Unsortable ∨ b.Unsortable)) :
    ∃ e, (HostDiff.new difflib false a b).printText difflib false f = .error e := by
  unfold HostDiff.printText
  cases parts : (HostDiff.new difflib false a b).extraportsLines false with
  | error e => exact ⟨e, rfl⟩
  | ok lines =>
    rcases hidden with columns | ⟨differ, unsortable⟩
    · obtain ⟨e, error⟩ := portTable_error difflib columns
      rw [error]
      exact ⟨e, rfl⟩
    · obtain ⟨e, error⟩ := extraportsLines_error difflib differ unsortable
      rw [error] at parts
      cases parts

variable {difflib}

theorem osLines_marked (law : difflib.Lawful) :
    (∃ line ∈ (HostDiff.new difflib false a b).osLines false, Marked line) ↔ a.os ≠ b.os := by
  have changed := osChanged_eq_false_iff law.allEqual a b
  unfold HostDiff.osLines
  by_cases same : a.os = b.os
  · rw [changed.mpr same]
    simp [same]
  · rw [Bool.eq_true_of_not_eq_false (changed.not.mpr same), if_pos (.inl rfl)]
    refine iff_of_true ?_ same
    obtain ⟨line, mem, s, mark⟩ : ∃ line ∈ opcodeLines ("-  ", "+  ", "   ") a.os b.os
        (difflib a.os b.os), ∃ s, line = "-  " ++ s ∨ line = "+  " ++ s :=
      opcodeLines_marked law same
    refine ⟨line, mem_append_right _ mem, ?_⟩
    rcases mark with rfl | rfl
    · exact marked_minus ("  " ++ s)
    · exact marked_plus ("  " ++ s)

theorem HostDiff.printText_eq {d : HostDiff} (f : Stream) {extraports : List String}
    {table : Table} (madeExtraports : d.extraportsLines false = .ok extraports)
    (madeTable : d.portTable difflib false = .ok table) :
    d.printText difflib false f = .ok
      ((d.nameLines ++ d.stateLines false ++ extraports ++
          (if table.rows.length > 1 then table.lines else []) ++ d.osLines false).map (f, ·) ++
        (printScriptResultDiffsText difflib false "Host script results" d.hostA.scriptResults
          d.hostB.scriptResults d.scriptResultDiffs).map (.stdout, ·)) := by
  unfold HostDiff.printText
  rw [madeExtraports, madeTable]
  rfl

theorem not_sameButScripts_iff (difflib : Difflib) :
    ¬ SameButScripts a b ↔
      (((((HostDiff.new difflib false a b).idChanged = true ∨ a.state ≠ b.state) ∨
        a.extraports ≠ b.extraports) ∨ portDiffsOf false a b ≠ []) ∨ a.os ≠ b.os) := by
  have id := idChanged_eq_false_iff difflib a b
  rw [← not_iff_not, not_not]
  simp only [not_or, not_not, Bool.not_eq_true]
  rw [id, portDiffs_eq_nil_iff]
  constructor
  · exact fun h => ⟨⟨⟨⟨⟨h.addresses, h.hostnames⟩, h.state⟩, h.extraports⟩, h.ports⟩, h.os⟩
  · rintro ⟨⟨⟨⟨⟨addresses, hostnames⟩, state⟩, extraports⟩, ports⟩, os⟩
    exact ⟨state, addresses, hostnames, ports, os, extraports⟩

theorem printText_ok (law : difflib.Lawful) (f : Stream)
    (oneState : a.state ≠ none ∨ b.state ≠ none) (columns : ¬ ColumnsHide a b)
    (sortable : a.extraports ≠ b.extraports → ¬ a.Unsortable ∧ ¬ b.Unsortable) :
    ∃ out, (HostDiff.new difflib false a b).printText difflib false f = .ok out ∧
      ((∃ line, (f, line) ∈ out ∧ Marked line) ↔
        ¬ SameButScripts a b ∨ f = .stdout ∧
          ∃ diff ∈ diffLists false a.scriptResults b.scriptResults, diff.LinesDiffer) := by
  obtain ⟨extraports, madeExtraports, markedExtraports⟩ :=
    extraportsLines_ok difflib sortable
  obtain ⟨table, madeTable, noneListed, someListed⟩ := portTable_ok difflib columns
  have names := nameLines_marked difflib oneState
  have state := stateLines_marked difflib (a := a) (b := b)
  have ports := ports_marked noneListed someListed
  have os := osLines_marked law (a := a) (b := b)
  have scripts := printScripts_marked law "Host script results" a.scriptResults b.scriptResults
    (diffLists false a.scriptResults b.scriptResults)
  refine ⟨_, HostDiff.printText_eq f madeExtraports madeTable, ?_⟩
  rw [mem_printed]
  refine or_congr ?_ (and_congr_right fun _ => scripts)
  simp only [exists_marked_append]
  rw [names, state, markedExtraports, ports, os]
  exact (not_sameButScripts_iff difflib).symm

theorem textShown_iff (law : difflib.Lawful) (f : Stream)
    (oneState : a.state ≠ none ∨ b.state ≠ none) :
    TextShown difflib f (HostDiff.new difflib false a b) ↔ TextClear f a b := by
  by_cases columns : ColumnsHide a b
  · obtain ⟨e, error⟩ := printText_error difflib f (.inl columns)
    refine iff_of_false ?_ fun clear => clear.columns columns
    rintro ⟨out, printed, -⟩
    cases error.symm.trans printed
  · by_cases sortable : a.extraports ≠ b.extraports → ¬ a.Unsortable ∧ ¬ b.Unsortable
    · obtain ⟨out, printed, marked⟩ := printText_ok law f oneState columns sortable
      constructor
      · rintro ⟨out', printed', seen⟩
        cases printed.symm.trans printed'
        exact ⟨columns, sortable, marked.mp seen⟩
      · intro clear
        exact ⟨out, printed, marked.mpr clear.seen⟩
    · refine iff_of_false ?_ fun clear => sortable clear.sortable
      obtain ⟨differ, unsortable⟩ := Classical.not_imp.mp sortable
      rw [← not_or, not_not] at unsortable
      obtain ⟨e, error⟩ := printText_error difflib f (.inr ⟨differ, unsortable⟩)
      rintro ⟨out, printed, -⟩
      cases error.symm.trans printed

end Parts

end Nmap.Ndiff
