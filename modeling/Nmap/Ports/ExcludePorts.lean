import Nmap.Ports.PortUnion

/-!
# Excluded ports (`removepts` in `scan_lists.cc`)

`--exclude-ports` is read like any other port expression, under the scan types, and what it gives
for a protocol is taken out of the port list and the ping lists of that protocol.
-/

namespace Nmap.Ports.PortSpec

open Nmap.Base Nmap.Ports List

/-! ## The lists -/

/-- An array of ports and how many of them count -/
structure PortArray where
  ports : List Nat
  count : Nat
  fits : count ≤ ports.length

def PortArray.listed (a : PortArray) : List Nat := a.ports.take a.count

/-- The arrays of a `scan_lists` -/
inductive ListName
  | tcp | udp | sctp | synPing | ackPing | udpPing | sctpPing | prot | protoPing
  deriving DecidableEq

/-- The exclude type of `SUBTRACT_PORTS` -/
def ListName.excludetype : ListName → Proto
  | .tcp | .synPing | .ackPing => .tcp
  | .udp | .udpPing => .udp
  | .sctp | .sctpPing => .sctp
  | .prot | .protoPing => .ip

/-- A `scan_lists` with the ping lists -/
abbrev ScanArrays := ListName → PortArray

/-! ## Removing ports -/

/-- The loop of `remaining_ports` after some turns: the array, and the index that is written next -/
def remainingLoop (hasBeenExcluded : Nat → Bool) (ports : List Nat) : Nat → List Nat × Nat
  | 0 => (ports, 0)
  | i + 1 =>
    let (ports, j) := remainingLoop hasBeenExcluded ports i
    match ports[i]? with
    | none => (ports, j)
    | some port =>
      if hasBeenExcluded port then (ports, j) else (ports.set j port, j + 1)

/-- What is before the read index was filtered, and what is behind it is as it was. -/
structure Compacted (hasBeenExcluded : Nat → Bool) (ports : List Nat) (i : Nat)
    (done : List Nat × Nat) : Prop where
  length : done.1.length = ports.length
  behind : done.2 ≤ i
  front : done.1.take done.2 = (ports.take i).filter fun port => !hasBeenExcluded port
  rest : done.1.drop i = ports.drop i

theorem remainingLoop_compacted (hasBeenExcluded : Nat → Bool) (ports : List Nat) {i : Nat}
    (inside : i ≤ ports.length) :
    Compacted hasBeenExcluded ports i (remainingLoop hasBeenExcluded ports i) := by
  induction i with
  | zero => exact ⟨rfl, Nat.le_refl 0, rfl, rfl⟩
  | succ i ih =>
    obtain ⟨length, behind, front, rest⟩ := ih (Nat.le_of_succ_le inside)
    rw [remainingLoop]
    generalize remainingLoop hasBeenExcluded ports i = done at length behind front rest
    obtain ⟨moved, j⟩ := done
    dsimp only at length behind front rest ⊢
    have read : moved[i]? = ports[i]? := by
      have heads := congrArg List.head? rest
      rwa [List.head?_drop, List.head?_drop] at heads
    have later : moved.drop (i + 1) = ports.drop (i + 1) := by
      have tails := congrArg List.tail rest
      rwa [tail_drop, tail_drop] at tails
    have next : ports[i]? = some ports[i] := List.getElem?_eq_getElem inside
    have taken : ports.take (i + 1) = ports.take i ++ [ports[i]] :=
      take_succ_eq_append_getElem inside
    rw [read, next]
    dsimp only
    split
    · next excluded =>
        refine ⟨length, Nat.le_succ_of_le behind, ?_, later⟩
        rw [taken, filter_append, front]
        simp [excluded]
    · next stays =>
        refine ⟨by rw [length_set]; exact length, Nat.succ_le_succ behind, ?_, ?_⟩
        · have room : j < (moved.set j ports[i]).length := by
            rw [length_set]
            omega
          rw [take_succ_eq_append_getElem room, getElem_set_self,
            take_set_of_le (Nat.le_refl j), front, taken, filter_append]
          simp [stays]
        · rw [drop_set_of_lt (by omega), later]

/-- `remaining_ports`, with the array that it leaves -/
def remainingPorts (a : PortArray) (excludePorts : List Nat) : PortArray :=
  if a.count = 0 ∨ excludePorts.length = 0 then a
  else
    let done := remainingLoop (fun port => excludePorts.contains port) a.ports a.count
    ⟨done.1, done.2, by
      have compacted := remainingLoop_compacted (fun port => excludePorts.contains port) a.ports
        a.fits
      rw [compacted.length]
      exact compacted.behind.trans a.fits⟩

theorem remainingPorts_listed (a : PortArray) (excludePorts : List Nat) :
    (remainingPorts a excludePorts).listed =
      a.listed.filter fun port => decide (port ∉ excludePorts) := by
  rw [remainingPorts]
  split
  · next nothing =>
      rcases nothing with none | none
      · simp [PortArray.listed, none]
      · simp [length_eq_zero_iff.mp none]
  · have compacted := remainingLoop_compacted (fun port => excludePorts.contains port) a.ports
      a.fits
    rw [PortArray.listed, compacted.front]
    simp [PortArray.listed]

/-- The options that `getpts` looks at -/
structure ScanOptions where
  tcpScan : Bool
  udpScan : Bool
  sctpScan : Bool
  ipprotscan : Bool
  noportscan : Bool
  excludePortlist : Option CString

/-- `range_type` at the start of `getpts` -/
def ScanOptions.rangeType (o : ScanOptions) : Finset Proto :=
  let pings := o.noportscan && o.excludePortlist.isSome
  (if o.tcpScan || pings then {.tcp} else ∅) ∪ (if o.udpScan || pings then {.udp} else ∅) ∪
    (if o.sctpScan || pings then {.sctp} else ∅) ∪ (if o.ipprotscan then {.ip} else ∅)

def removepts (T : Tables) (o : ScanOptions) (expr : Option CString) (lists : ScanArrays) :
    Except Fault ScanArrays :=
  match expr with
  | none => .ok lists
  | some expr => do
    let excludePorts ← getpts T o.rangeType expr
    return fun name => remainingPorts (lists name) (excludePorts.ports name.excludetype)

/-! ## What an expression excludes -/

/-- All protocols, of which the expression is read in the same way as of the scan types: a
restriction with the protocols of IP allows other numbers. -/
def wide (protocols : Finset Proto) : Finset Proto :=
  if .ip ∈ protocols then {.tcp, .udp, .sctp, .ip} else {.tcp, .udp, .sctp}

/-- What an item stands for: without `T:`, `U:`, `S:` or `P:` for all protocols, in brackets for
the numbers of the tables only. Protocols of IP have numbers up to 255. -/
def Entry.excludes (T : Tables) (protocols : Finset Proto) (e : Entry) (port : Nat)
    (proto : Proto) : Bool :=
  decide (e.restriction = wide protocols ∨ proto ∈ e.restriction) &&
    (!e.nested || T.known port proto) && e.item.covers T port proto &&
    decide (proto = .ip → port ≤ 255)

/-- The items of an expression, with the protocols that each is for -/
def excludeItems (protocols : Finset Proto) (text : CString) : List Entry :=
  (items (wide protocols) text.bytes).toOption.getD []

def denoted (T : Tables) (protocols : Finset Proto) (text : CString) (port : Nat)
    (proto : Proto) : Bool :=
  (excludeItems protocols text).any fun e => e.excludes T protocols port proto

/-- A protocol is not scanned and a port of it is denoted by items for all protocols only. -/
def OnlyPlain (T : Tables) (protocols : Finset Proto) (text : CString) (port : Nat)
    (proto : Proto) : Prop :=
  proto ∉ protocols ∧ ∀ e ∈ excludeItems protocols text,
    e.excludes T protocols port proto = true → e.restriction = wide protocols

/-- What `--exclude-ports` promises of a list -/
def ExcludeComplete (T : Tables) (protocols : Finset Proto) (text : CString)
    (lists after : ScanArrays) : Prop :=
  ∀ name : ListName, (after name).listed = (lists name).listed.filter fun port =>
    !denoted T protocols text port name.excludetype

/-! ## Reading under the scan types and under all protocols -/

/-- The restriction in the place of that for all protocols -/
def narrow (protocols restriction : Finset Proto) : Finset Proto :=
  if restriction = wide protocols then protocols else restriction

def Entry.narrow (protocols : Finset Proto) (e : Entry) : Entry :=
  { e with restriction := PortSpec.narrow protocols e.restriction }

def Wide (protocols restriction : Finset Proto) : Prop :=
  restriction = wide protocols ∨ ∃ proto, restriction = {proto}

theorem ip_mem_wide (protocols : Finset Proto) : .ip ∈ wide protocols ↔ .ip ∈ protocols := by
  rw [wide]
  split <;> simp [*]

theorem singleton_ne_wide (protocols : Finset Proto) (proto : Proto) :
    ({proto} : Finset Proto) ≠ wide protocols := by
  intro same
  have card := congrArg Finset.card same
  rw [Finset.card_singleton, wide] at card
  split at card
  · exact absurd card (by decide)
  · exact absurd card (by decide)

theorem ip_mem_narrow (protocols restriction : Finset Proto) :
    .ip ∈ narrow protocols restriction ↔ .ip ∈ restriction := by
  rw [narrow]
  split
  · next same => rw [same, ip_mem_wide]
  · exact Iff.rfl

theorem readTurn_congr {restriction restriction' : Finset Proto}
    (same : .ip ∈ restriction ↔ .ip ∈ restriction') (nested changeRangeType : Bool)
    (text : Bytes) :
    readTurn nested changeRangeType restriction text =
      readTurn nested changeRangeType restriction' text := by
  unfold readTurn readRange readRangeEnd readLast readNumber maxNumber
  simp only [same]

/-- The items under the scan types are those under all protocols, with the restriction of those
for all protocols narrowed. -/
theorem scanExpr_narrow (protocols : Finset Proto) {fuel : Nat} {changeRangeType nested : Bool}
    {restriction : Finset Proto} {text : Bytes} {front : List Entry}
    (isWide : Wide protocols restriction) :
    scanExpr collectItem changeRangeType fuel nested (narrow protocols restriction) text
        (front.map (Entry.narrow protocols)) =
      (scanExpr collectItem changeRangeType fuel nested restriction text front).map
        (List.map (Entry.narrow protocols)) := by
  induction fuel generalizing changeRangeType nested restriction text front with
  | zero => rfl
  | succ fuel ih =>
    have next : ∀ (restriction : Finset Proto) (rest : Bytes) (front : List Entry),
        Wide protocols restriction →
        (if rest.isEmpty then .ok (front.map (Entry.narrow protocols))
          else scanExpr collectItem changeRangeType fuel nested (narrow protocols restriction)
            rest (front.map (Entry.narrow protocols))) =
        (if rest.isEmpty then (.ok front : Except Fault (List Entry))
          else scanExpr collectItem changeRangeType fuel nested restriction rest front).map
          (List.map (Entry.narrow protocols)) := by
      intro restriction rest front isWide
      split
      · rfl
      · exact ih isWide
    rw [scanExpr, scanExpr, readTurn_congr (ip_mem_narrow protocols restriction)]
    cases read : readTurn nested changeRangeType restriction text with
    | error e => rfl
    | ok turn =>
      have fits := readTurn_fits read
      cases turn with
      | restrict restriction' rest =>
        obtain ⟨proto, rfl⟩ : ∃ proto, restriction' = {proto} := fits
        have stays : narrow protocols {proto} = {proto} :=
          if_neg (singleton_ne_wide protocols proto)
        have step := next {proto} rest front (.inr ⟨proto, rfl⟩)
        rw [stays] at step
        exact step
      | close => rfl
      | bracket inside =>
        show (scanExpr collectItem true fuel true (narrow protocols restriction) inside
            (front.map (Entry.narrow protocols)) >>= _) =
          (scanExpr collectItem true fuel true restriction inside front >>= _).map _
        rw [ih isWide]
        cases scanExpr collectItem true fuel true restriction inside front with
        | error e => rfl
        | ok front' => exact next restriction (afterBracket inside) front' isWide
      | item item rest =>
        have added : front.map (Entry.narrow protocols) ++
            [(⟨narrow protocols restriction, nested, item⟩ : Entry)] =
            (front ++ [(⟨restriction, nested, item⟩ : Entry)]).map
              (Entry.narrow protocols) := by
          rw [map_append]
          rfl
        cases rest with
        | none => exact congrArg Except.ok added
        | some rest =>
          have step := next restriction rest (front ++ [⟨restriction, nested, item⟩]) isWide
          rw [← added] at step
          exact step

theorem narrow_wide (protocols : Finset Proto) : narrow protocols (wide protocols) = protocols :=
  if_pos rfl

theorem items_narrow (protocols : Finset Proto) (text : Bytes) :
    items protocols text =
      (items (wide protocols) text).map (List.map (Entry.narrow protocols)) := by
  have narrowed : scanExpr collectItem true (text.length + 1) false
      (narrow protocols (wide protocols)) text (List.map (Entry.narrow protocols) []) = _ :=
    scanExpr_narrow protocols (.inl rfl)
  rwa [narrow_wide] at narrowed

/-! ## What is removed -/

variable {T : Tables} {protocols : Finset Proto} {text : CString} {port : Nat} {proto : Proto}

theorem Entry.narrow_denotes_iff (e : Entry) :
    (e.narrow protocols).denotes T port proto ∧ (proto = .ip → port ≤ 255) ↔
      e.excludes T protocols port proto = true ∧
        (e.restriction = wide protocols → proto ∈ protocols) := by
  obtain ⟨restriction, nested, item⟩ := e
  have known : (nested = true → T.known port proto = true) ↔
      (!nested || T.known port proto) = true := by
    cases nested <;> simp
  by_cases isWide : restriction = wide protocols
  · subst isWide
    simp [Entry.narrow, Entry.denotes, Entry.excludes, narrow_wide, known]
    tauto
  · simp [Entry.narrow, Entry.denotes, Entry.excludes, PortSpec.narrow, isWide, known]
    tauto

theorem getpts_small {lists : ScanLists} (accepted : getpts T protocols text = .ok lists)
    (mem : port ∈ lists.ports proto) (ip : proto = .ip) : port ≤ 255 := by
  obtain ⟨table, -, accepted⟩ := bind_eq_ok accepted
  generalize eq : table.scanLists = ports at accepted
  dsimp only at accepted
  split at accepted
  · cases accepted
  · rw [← Except.ok.inj accepted, ← eq] at mem
    exact (mem_scanLists.mp mem).1.2 ip

def scannedItems (protocols : Finset Proto) (text : CString) : List Entry :=
  (excludeItems protocols text).map (Entry.narrow protocols)

/-- What `getpts` gives for a protocol: what the expression denotes, less what no item reaches
under the scan types and what is overlooked. -/
theorem mem_exclude_iff {lists : ScanLists} (accepted : getpts T protocols text = .ok lists) :
    port ∈ lists.ports proto ↔ denoted T protocols text port proto = true ∧
      ¬ OnlyPlain T protocols text port proto ∧
      ¬ Overlooked T (scannedItems protocols text) port proto := by
  obtain ⟨es, parsed, mem⟩ := mem_lists_iff accepted
  have same : es = scannedItems protocols text := by
    rw [items_narrow] at parsed
    rw [scannedItems, excludeItems]
    cases all : items (wide protocols) text.bytes with
    | error e =>
      rw [all] at parsed
      cases parsed
    | ok es' =>
      rw [all] at parsed
      cases parsed
      rfl
  subst same
  constructor
  · intro listed
    obtain ⟨⟨e, there, denotes⟩, reached⟩ := (mem port proto).mp listed
    obtain ⟨e, inside, rfl⟩ := mem_map.mp there
    obtain ⟨excludes, scanned⟩ :=
      (Entry.narrow_denotes_iff e).mp ⟨denotes, getpts_small accepted listed⟩
    refine ⟨any_eq_true.mpr ⟨e, inside, excludes⟩, fun plain => ?_, reached⟩
    exact plain.1 (scanned (plain.2 e inside excludes))
  · rintro ⟨isDenoted, notPlain, reached⟩
    obtain ⟨e, there, excludes, scanned⟩ : ∃ e ∈ excludeItems protocols text,
        e.excludes T protocols port proto = true ∧
          (e.restriction = wide protocols → proto ∈ protocols) := by
      by_cases scanned : proto ∈ protocols
      · obtain ⟨e, there, excludes⟩ := any_eq_true.mp isDenoted
        exact ⟨e, there, excludes, fun _ => scanned⟩
      · by_contra none
        refine notPlain ⟨scanned, fun e there excludes => ?_⟩
        by_contra single
        exact none ⟨e, there, excludes, fun isWide => absurd isWide single⟩
    refine (mem port proto).mpr ⟨⟨_, mem_map_of_mem there, ?_⟩, reached⟩
    exact ((Entry.narrow_denotes_iff e).mpr ⟨excludes, scanned⟩).1

theorem filter_eq_filter_iff {α : Type} (l : List α) (p q : α → Bool) :
    l.filter p = l.filter q ↔ ∀ a ∈ l, p a = q a := by
  refine ⟨fun same a mem => ?_, filter_congr⟩
  rw [Bool.eq_iff_iff]
  have both := congrArg (a ∈ ·) same
  simpa [mem] using both

/-- **What `--exclude-ports` removes.** After `removepts` each port list and each ping list is what
it was without what the expression denotes for its protocol, exactly when no port of a list is
denoted by items for all protocols only while its protocol is not scanned, and none is
overlooked. -/
theorem exclude_complete_iff {o : ScanOptions} {lists after : ScanArrays}
    (accepted : removepts T o (some text) lists = .ok after) :
    ExcludeComplete T o.rangeType text lists after ↔
      ∀ name : ListName, ∀ port ∈ (lists name).listed,
        denoted T o.rangeType text port name.excludetype = true →
          ¬ OnlyPlain T o.rangeType text port name.excludetype ∧
          ¬ Overlooked T (scannedItems o.rangeType text) port name.excludetype := by
  obtain ⟨excludePorts, read, done⟩ := bind_eq_ok accepted
  cases done
  refine forall_congr' fun name => ?_
  rw [remainingPorts_listed, filter_eq_filter_iff]
  refine forall₂_congr fun port _ => ?_
  have removed : port ∈ excludePorts.ports name.excludetype ↔ _ := mem_exclude_iff read
  cases isDenoted : denoted T o.rangeType text port name.excludetype with
  | false =>
    rw [isDenoted] at removed
    simp [removed]
  | true =>
    rw [isDenoted] at removed
    simp [removed]

/-- `-sS --exclude-ports 40125` -/
def tcpOnly (text : CString) : ScanOptions := ⟨true, false, false, false, false, some text⟩

def noTables : Tables := ⟨[], []⟩

def port40125 : CString := ⟨ascii "40125", by decide⟩

/-- `-PU40125`, and 40125 as the only TCP port -/
def pingsAndPorts : ScanArrays
  | .tcp | .udpPing => ⟨[40125], 1, Nat.le_refl 1⟩
  | _ => ⟨[], 0, Nat.le_refl 0⟩

theorem getpts_port40125 : ∃ lists, getpts noTables {.tcp} port40125 = .ok lists ∧
    lists.ports .udp = [] := by
  obtain ⟨table, scanned, tcp, udp⟩ : ∃ table,
      getptsAux noTables true port40125.bytes {.tcp} = .ok table ∧ .tcp ∈ table 40125 ∧
        ∀ port, .udp ∉ table port := by
    refine ⟨_, rfl, by decide, fun port => ?_⟩
    show .udp ∉ addNumber noTables false {.tcp} (fun _ => ∅) 40125 port
    by_cases there : port = 40125
    · subst there
      simp [addNumber]
    · simp [addNumber, there]
  have there : 40125 ∈ table.scanLists.ports .tcp :=
    mem_scanLists.mpr ⟨⟨by omega, fun h => by cases h⟩, tcp⟩
  refine ⟨_, getpts_of_table scanned there, eq_nil_iff_forall_not_mem.mpr fun port mem => ?_⟩
  exact udp port (mem_scanLists.mp mem).2

/-- The expression is read under the scan types. -/
theorem exclude_complete_port40125 : ∃ after,
    removepts noTables (tcpOnly port40125) (some port40125) pingsAndPorts = .ok after ∧
      (ExcludeComplete noTables (tcpOnly port40125).rangeType port40125 pingsAndPorts after ↔
        ∀ name : ListName, ∀ port ∈ (pingsAndPorts name).listed,
          denoted noTables (tcpOnly port40125).rangeType port40125 port name.excludetype = true →
            ¬ OnlyPlain noTables (tcpOnly port40125).rangeType port40125 port name.excludetype ∧
            ¬ Overlooked noTables (scannedItems (tcpOnly port40125).rangeType port40125) port
              name.excludetype) := by
  obtain ⟨lists, read, -⟩ := getpts_port40125
  have accepted : removepts noTables (tcpOnly port40125) (some port40125) pingsAndPorts =
      .ok fun name => remainingPorts (pingsAndPorts name) (lists.ports name.excludetype) := by
    show getpts noTables {.tcp} port40125 >>= _ = _
    rw [read]
    rfl
  exact ⟨_, accepted, exclude_complete_iff accepted⟩

/-- The UDP ping port 40125 is probed although 40125 is excluded. -/
theorem exclude_misses_ping : ∃ after,
    removepts noTables (tcpOnly port40125) (some port40125) pingsAndPorts = .ok after ∧
      ¬ ExcludeComplete noTables (tcpOnly port40125).rangeType port40125 pingsAndPorts after := by
  obtain ⟨lists, read, noUdp⟩ := getpts_port40125
  refine ⟨fun name => remainingPorts (pingsAndPorts name) (lists.ports name.excludetype), ?_, ?_⟩
  · show getpts noTables {.tcp} port40125 >>= _ = _
    rw [read]
    rfl
  · intro complete
    have pings := complete .udpPing
    rw [remainingPorts_listed] at pings
    have isDenoted : denoted noTables (tcpOnly port40125).rangeType port40125 40125 .udp = true := by
      decide
    simp [pingsAndPorts, PortArray.listed, ListName.excludetype, noUdp, isDenoted] at pings

end Nmap.Ports.PortSpec
