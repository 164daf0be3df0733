import Mathlib.Data.Finset.Card
import Mathlib.Data.Finset.Lattice.Basic
import Nmap.Base.CString
import Nmap.Ports.PortList

/-!
# Port expressions (`scan_lists.cc`, `services.cc`, `protocols.cc`)

`getpts` reads a port expression into a table with one byte per port number, in which a bit
says that the number is to be scanned for a protocol, and makes the port lists of the
table. An expression is read from left to right: `T:`, `U:`, `S:` and `P:` change the
restriction in force, numbers, ranges and service masks add to the table, and what stands
in brackets is read with a restriction of its own and looked up in the tables.
-/

namespace Nmap.Ports.PortSpec

open Nmap.Base Nmap.Ports List

set_option maxRecDepth 4000

/-! ## Service masks -/

def toLower (c : UInt8) : UInt8 := if 0x41 ≤ c && c ≤ 0x5a then c + 0x20 else c

def wildtest : Bytes → Bytes → Bool
  | [], test => test.isEmpty
  | w :: wild, test =>
    if w = 0x2a then
      match wild with
      | [] => true
      | v :: _ =>
        if v = 0x2a then wildtest wild test
        else test.tails.any fun t =>
          match t with
          | [] => false
          | c :: _ => (toLower v = toLower c || v = 0x3f) && wildtest wild t
    else
      match test with
      | [] => false
      | c :: test =>
        if w ≠ 0x3f && toLower w ≠ toLower c then false else wildtest wild test

/-- A `service_node`. There is no name for the services called `unknown`. -/
structure ServiceNode where
  name : Option Bytes
  port : UInt16
  proto : Proto
  transport : proto ≠ .ip

/-- An `nprotoent` -/
structure ProtoEnt where
  name : Bytes
  proto : UInt8

/-- `service_table` and `proto_map` -/
structure Tables where
  services : List ServiceNode
  protocols : List ProtoEnt

/-- `porttbl`: the protocols to scan for each number -/
abbrev PortTable := Nat → Finset Proto

def PortTable.add (table : PortTable) (port : Nat) (proto : Proto) : PortTable :=
  Function.update table port (insert proto (table port))

/-- `"unknown"` -/
def unknownName : Bytes := [0x75, 0x6e, 0x6b, 0x6e, 0x6f, 0x77, 0x6e]

/-- Does a mask, under this restriction, select the service? -/
def ServiceNode.selected (mask : Bytes) (restriction : Finset Proto) (s : ServiceNode) : Bool :=
  wildtest mask (s.name.getD unknownName) && decide (s.proto ∈ restriction)

/-- `addportsfromservmask`, with the number of ports added -/
def addPortsFromServMask (T : Tables) (mask : Bytes) (restriction : Finset Proto)
    (table : PortTable) : PortTable × Nat :=
  T.services.foldl (fun (table, t) s =>
    if s.selected mask restriction then (table.add s.port.toNat s.proto, t + 1)
    else (table, t)) (table, 0)

/-- `addprotocolsfromservmask`: a name is taken as it is before it is taken for a mask. -/
def addProtocolsFromServMask (T : Tables) (mask : Bytes) (table : PortTable) : PortTable × Nat :=
  match T.protocols.find? (fun p => p.name = mask) with
  | some p => (table.add p.proto.toNat .ip, 1)
  | none =>
    T.protocols.foldl (fun (table, t) p =>
      if wildtest mask p.name then (table.add p.proto.toNat .ip, t + 1) else (table, t))
      (table, 0)

/-- `nmap_getservbyport` and `nmap_getprotbynum`: is the number in the tables? -/
def Tables.known (T : Tables) (port : Nat) (proto : Proto) : Bool :=
  match proto with
  | .ip => T.protocols.any fun p => p.proto.toNat = port
  | _ => T.services.any fun s => s.port.toNat = port && s.proto = proto

/-! ## Errors -/

/-- The fatal errors of `getpts` and `getpts_aux` -/
inductive Fault
  | unknownProtocol (c : UInt8)
  | nestedBrackets
  | unexpectedBracket
  | protocolBounds
  | portBounds
  | maskTooLong
  | noMatches (mask : Bytes)
  /-- `Error #485` to `Error #488`, with the example of proper form -/
  | illegal (number : Nat) (changeRangeType : Bool)
  | backwards (protocol : Bool) (rangestart rangeend : Nat)
  | noPorts
  deriving DecidableEq

def syntaxExample (changeRangeType : Bool) : String :=
  if changeRangeType then "-100,200-1024,T:3000-4000,U:60000-"
  else "-100,200-1024,3000-4000,60000-"

def printed (s : Bytes) : String := String.ofList (s.map fun c => Char.ofNat c.toNat)

def Fault.message : Fault → String
  | .unknownProtocol c =>
    "Error parsing port list: Unknown protocol specifier '" ++ printed [c] ++ "'."
  | .nestedBrackets => "Can't nest [] brackets in port/protocol specification"
  | .unexpectedBracket => "Unexpected ] character in port/protocol specification"
  | .protocolBounds => "Protocols specified must be between 0 and 255 inclusive"
  | .portBounds => "Ports specified must be between 0 and 65535 inclusive"
  | .maskTooLong =>
    "A service mask in the port/protocol specification is either malformed or too long"
  | .noMatches mask =>
    "Found no matches for the service mask '" ++ printed mask ++
      "' and your specified protocols"
  | .illegal number changeRangeType =>
    "Error #" ++ toString number ++ ": Your port specifications are illegal.  " ++
      "Example of proper form: \"" ++ syntaxExample changeRangeType ++ "\""
  | .backwards protocol rangestart rangeend =>
    "Your " ++ (if protocol then "protocol" else "port") ++ " range " ++
      toString rangestart ++ "-" ++ toString rangeend ++ " is backwards. Did you mean " ++
      toString rangeend ++ "-" ++ toString rangestart ++ "?"
  | .noPorts =>
    "No ports specified -- If you really don't want to scan any ports use ping scan..."

/-! ## One turn of the loop -/

/-- The largest number that may be specified under a restriction -/
def maxNumber (restriction : Finset Proto) : Nat := if .ip ∈ restriction then 255 else 65535

/-- A number, checked against the restriction -/
def readNumber (restriction : Finset Proto) (text : Bytes) : Except Fault (Nat × Bytes) :=
  let (n, rest) := strtol 10 text
  if n < 0 ∨ (maxNumber restriction : Int) < n then
    .error (if .ip ∈ restriction then .protocolBounds else .portBounds)
  else .ok (n.toNat, rest)

/-- Is this the end of the text, a comma or a closing bracket? -/
def atEnd (text : Bytes) : Bool :=
  match text with
  | [] => true
  | c :: _ => c = 0x2c || c = 0x5d

/-- The number after a hyphen, or the last one possible -/
def readLast (changeRangeType : Bool) (restriction : Finset Proto) (text : Bytes) :
    Except Fault (Nat × Bytes) :=
  if atEnd text then .ok (maxNumber restriction, text)
  else if text.head?.any isDigit then readNumber restriction text
  else .error (.illegal 486 changeRangeType)

/-- `rangeend` -/
def readRangeEnd (changeRangeType : Bool) (restriction : Finset Proto) (rangestart : Nat)
    (text : Bytes) : Except Fault (Nat × Bytes) :=
  match text with
  | [] => .ok (rangestart, [])
  | c :: rest =>
    if atEnd (c :: rest) then .ok (rangestart, c :: rest)
    else if c = 0x2d then do
      let (rangeend, rest) ← readLast changeRangeType restriction rest
      if rangeend < rangestart then
        .error (.backwards (.ip ∈ restriction) rangestart rangeend)
      else .ok (rangeend, rest)
    else .error (.illegal 487 changeRangeType)

/-- Where the loop goes on after a range: nowhere, at the end of the brackets -/
def afterRange (nested changeRangeType : Bool) (text : Bytes) : Except Fault (Option Bytes) :=
  match text.dropWhile isSpace with
  | [] => .ok (some [])
  | c :: rest =>
    if c = 0x5d then if nested then .ok none else .error .unexpectedBracket
    else if c = 0x2c then .ok (some rest)
    else .error (.illegal 488 changeRangeType)

/-- What an item of an expression asks for -/
inductive Item
  | range (rangestart rangeend : Nat)
  | mask (servmask : Bytes)
  deriving DecidableEq

/-- What one turn of the loop reads -/
inductive Turn
  | restrict (restriction : Finset Proto) (rest : Bytes)
  | bracket (inside : Bytes)
  | close
  /-- With nothing left to read, the brackets are closed. -/
  | item (item : Item) (rest : Option Bytes)

/-- Does the mask go on with this character? -/
def inMask (c : UInt8) : Bool := !(isSpace c || c = 0x2c || c = 0x5d)

/-- After a mask one character is skipped, unless it is a closing bracket. -/
def afterMask : Bytes → Bytes
  | [] => []
  | c :: rest => if c = 0x5d then c :: rest else rest

def readRange (nested changeRangeType : Bool) (restriction : Finset Proto) (rangestart : Nat)
    (text : Bytes) : Except Fault Turn := do
  let (rangeend, rest) ← readRangeEnd changeRangeType restriction rangestart text
  let rest ← afterRange nested changeRangeType rest
  return .item (.range rangestart rangeend) rest

/-- `T:`, `U:`, `S:` and `P:` -/
def readProtocol (c : UInt8) : Except Fault (Finset Proto) :=
  if c = 0x54 then .ok {.tcp}
  else if c = 0x55 then .ok {.udp}
  else if c = 0x53 then .ok {.sctp}
  else if c = 0x50 then .ok {.ip}
  else .error (.unknownProtocol c)

/-- One turn of the loop of `getpts_aux`, as far as it reads the text -/
def readTurn (nested changeRangeType : Bool) (restriction : Finset Proto) (text : Bytes) :
    Except Fault Turn :=
  match text.dropWhile isSpace with
  | [] => .error (.illegal 485 changeRangeType)
  | c :: rest =>
    if changeRangeType && rest.head? = some 0x3a then do
      let restriction ← readProtocol c
      return .restrict restriction rest.tail
    else if c = 0x5b then
      if nested then .error .nestedBrackets else .ok (.bracket rest)
    else if c = 0x5d then
      if nested then .ok .close else .error .unexpectedBracket
    else if c = 0x2d then
      readRange nested changeRangeType restriction (if .ip ∈ restriction then 0 else 1)
        (c :: rest)
    else if isDigit c then do
      let (rangestart, rest) ← readNumber restriction (c :: rest)
      readRange nested changeRangeType restriction rangestart (rest.dropWhile isSpace)
    else if isLower c || c = 0x2a || c = 0x3f then
      let servmask := (c :: rest).takeWhile inMask
      -- `servmask` has room for 127 characters and the loop gives up at the last of them
      if 127 ≤ servmask.length then .error .maskTooLong
      else .ok (.item (.mask servmask) (some (afterMask ((c :: rest).dropWhile inMask))))
    else .error (.illegal 485 changeRangeType)

/-! ## The table -/

/-- An item with the restriction in force at it, and whether it stands in brackets -/
structure Entry where
  restriction : Finset Proto
  nested : Bool
  item : Item
  deriving DecidableEq

/-- Add one number of a range. A number that is there for a protocol of the restriction is
taken for a duplicate. -/
def addNumber (T : Tables) (nested : Bool) (restriction : Finset Proto) (table : PortTable)
    (port : Nat) : PortTable :=
  if (table port ∩ restriction).Nonempty then table
  else if nested then
    Function.update table port
      (table port ∪ restriction.filter fun proto => T.known port proto = true)
  else Function.update table port (table port ∪ restriction)

def addEntry (T : Tables) (table : PortTable) (e : Entry) : Except Fault PortTable :=
  match e.item with
  | .range rangestart rangeend =>
    .ok ((List.range' rangestart (rangeend + 1 - rangestart)).foldl
      (addNumber T e.nested e.restriction) table)
  | .mask servmask =>
    let (table, i) := addPortsFromServMask T servmask e.restriction table
    let (table, j) :=
      if .ip ∈ e.restriction then addProtocolsFromServMask T servmask table else (table, 0)
    if i + j = 0 then .error (.noMatches servmask) else .ok table

/-- After brackets, the text goes on behind the closing one and a comma. -/
def afterBracket (inside : Bytes) : Bytes :=
  let rest := (inside.dropWhile fun c => c ≠ 0x5d).tail
  if rest.head? = some 0x2c then rest.tail else rest

/-- `getpts_aux`, with what is done for an item as a parameter. Every turn reads at least
one character, so the length of the text is enough fuel. -/
def scanExpr {σ : Type} (add : σ → Entry → Except Fault σ) (changeRangeType : Bool) :
    Nat → Bool → Finset Proto → Bytes → σ → Except Fault σ
  | 0, _, _, _, s => .ok s
  | fuel + 1, nested, restriction, text, s => do
    let next := fun restriction (rest : Bytes) s =>
      if rest.isEmpty then .ok s
      else scanExpr add changeRangeType fuel nested restriction rest s
    match ← readTurn nested changeRangeType restriction text with
    | .restrict restriction rest => next restriction rest s
    | .close => .ok s
    | .bracket inside =>
      let s ← scanExpr add true fuel true restriction inside s
      next restriction (afterBracket inside) s
    | .item item rest =>
      let s ← add s ⟨restriction, nested, item⟩
      match rest with
      | none => .ok s
      | some rest => next restriction rest s

def getptsAux (T : Tables) (changeRangeType : Bool) (text : Bytes) (restriction : Finset Proto) :
    Except Fault PortTable :=
  scanExpr (addEntry T) changeRangeType (text.length + 1) false restriction text fun _ => ∅

structure ScanLists where
  tcpPorts : List Nat
  udpPorts : List Nat
  sctpPorts : List Nat
  prots : List Nat

def ScanLists.ports (lists : ScanLists) : Proto → List Nat
  | .tcp => lists.tcpPorts
  | .udp => lists.udpPorts
  | .sctp => lists.sctpPorts
  | .ip => lists.prots

def PortTable.scanLists (table : PortTable) : ScanLists where
  tcpPorts := (List.range 65536).filter fun i => .tcp ∈ table i
  udpPorts := (List.range 65536).filter fun i => .udp ∈ table i
  sctpPorts := (List.range 65536).filter fun i => .sctp ∈ table i
  prots := (List.range 65536).filter fun i => .ip ∈ table i && i ≤ 255

/-- `getpts`, with the protocols to scan -/
def getpts (T : Tables) (protocols : Finset Proto) (text : CString) : Except Fault ScanLists := do
  let table ← getptsAux T true text.bytes protocols
  let ports := table.scanLists
  if protocols ≠ ∅ ∧ ports.tcpPorts.length + ports.udpPorts.length + ports.sctpPorts.length +
      ports.prots.length = 0 then
    .error .noPorts
  else return ports

/-- `getpts_simple`: one protocol at most, and no `T:`, `U:`, `S:` and `P:` outside brackets -/
def getptsSimple (T : Tables) (text : CString) (protocol : Option Proto) :
    Except Fault (List Nat) := do
  let table ← getptsAux T false text.bytes (protocol.elim ∅ ({·}))
  return (List.range 65536).filter fun i => protocol.any fun p => p ∈ table i

/-! ## Every turn reads something -/

theorem bind_eq_ok {ε α β : Type} {x : Except ε α} {f : α → Except ε β} {b : β}
    (run : x >>= f = .ok b) : ∃ a, x = .ok a ∧ f a = .ok b := by
  cases x with
  | error e => cases run
  | ok a => exact ⟨a, rfl, run⟩

theorem length_dropWhile_le {α : Type} (p : α → Bool) (s : List α) :
    (s.dropWhile p).length ≤ s.length :=
  (dropWhile_suffix p).length_le

variable {c : UInt8}

theorem isDigit_bare (digit : isDigit c = true) :
    isDigitOf 10 c = true ∧ isSpace c = false ∧ c ≠ 0x2d ∧ c ≠ 0x2b := by
  revert digit
  refine forall_byte (P := fun c => isDigit c = true →
    isDigitOf 10 c = true ∧ isSpace c = false ∧ c ≠ 0x2d ∧ c ≠ 0x2b) ?_ c
  decide +kernel

theorem strtol_of_digit (digit : isDigit c = true) (rest : Bytes) :
    (strtol 10 (c :: rest)).2 = rest.dropWhile (isDigitOf 10) := by
  obtain ⟨isDigit, bare⟩ := isDigit_bare digit
  have split : c :: rest =
      c :: rest.takeWhile (isDigitOf 10) ++ rest.dropWhile (isDigitOf 10) := by
    rw [cons_append, takeWhile_append_dropWhile]
  rw [split, strtol_digits _ _ (fun absurd => by cases absurd) bare]
  · intro d mem
    rcases mem_cons.mp mem with rfl | mem
    · exact isDigit
    · exact all_eq_true.mp all_takeWhile d mem
  · intro d mem
    have stop := List.head?_dropWhile_not (isDigitOf 10) rest
    rw [Option.mem_def.mp mem] at stop
    exact stop

variable {restriction : Finset Proto} {text : Bytes}

theorem readNumber_shorter {rest : Bytes} {n : Nat} (digit : isDigit c = true)
    (read : readNumber restriction (c :: text) = .ok (n, rest)) :
    rest.length ≤ text.length := by
  unfold readNumber at read
  dsimp only at read
  split at read
  · cases read
  · cases read
    rw [strtol_of_digit digit]
    exact length_dropWhile_le _ _

variable {changeRangeType : Bool}

theorem readLast_shorter {n : Nat} {rest : Bytes}
    (read : readLast changeRangeType restriction text = .ok (n, rest)) :
    rest.length ≤ text.length := by
  unfold readLast at read
  split at read
  · cases read
    exact Nat.le_refl _
  · split at read
    · next digit =>
        cases text with
        | nil => cases digit
        | cons d text => exact (readNumber_shorter digit read).trans (Nat.le_succ _)
    · cases read

/-- What is left after a range end, shorter where a hyphen is read -/
theorem readRangeEnd_shorter {rangestart rangeend : Nat} {rest : Bytes}
    (read : readRangeEnd changeRangeType restriction rangestart text = .ok (rangeend, rest)) :
    rest.length ≤ text.length ∧ (text.head? = some 0x2d → rest.length < text.length) := by
  cases text with
  | nil =>
    cases read
    exact ⟨Nat.le_refl _, fun hyphen => by cases hyphen⟩
  | cons c text =>
    unfold readRangeEnd at read
    dsimp only at read
    split at read
    · next ends =>
        cases read
        refine ⟨Nat.le_refl _, fun hyphen => ?_⟩
        cases hyphen
        exact absurd ends (by simp [atEnd])
    · split at read
      · obtain ⟨⟨n, left⟩, number, check⟩ := bind_eq_ok read
        dsimp only at check
        split at check
        · cases check
        · cases check
          have le := readLast_shorter number
          exact ⟨Nat.le_succ_of_le le, fun _ => Nat.lt_succ_of_le le⟩
      · cases read

variable {nested : Bool}

theorem afterRange_shorter {rest : Bytes}
    (read : afterRange nested changeRangeType text = .ok (some rest)) :
    rest.length ≤ text.length := by
  have le := length_dropWhile_le isSpace text
  unfold afterRange at read
  split at read
  · cases read
    exact Nat.zero_le _
  · next c left eq =>
      rw [eq, length_cons] at le
      split at read
      · split at read
        · cases read
        · cases read
      · split at read
        · cases read
          exact Nat.le_of_succ_le le
        · cases read

/-- The text a turn leaves to the next one -/
def Turn.rest : Turn → Option Bytes
  | .restrict _ rest => some rest
  | .bracket inside => some inside
  | .close => none
  | .item _ rest => rest

theorem readRange_shorter {rangestart : Nat} {rest : Bytes} {turn : Turn}
    (read : readRange nested changeRangeType restriction rangestart text = .ok turn)
    (left : turn.rest = some rest) :
    rest.length ≤ text.length ∧ (text.head? = some 0x2d → rest.length < text.length) := by
  obtain ⟨⟨rangeend, text'⟩, ends, read⟩ := bind_eq_ok read
  obtain ⟨after, goes, read⟩ := bind_eq_ok read
  cases read
  cases left
  obtain ⟨le, lt⟩ := readRangeEnd_shorter ends
  have le' := afterRange_shorter goes
  exact ⟨le'.trans le, fun hyphen => le'.trans_lt (lt hyphen)⟩

theorem afterMask_le (text : Bytes) : (afterMask text).length ≤ text.length := by
  cases text with
  | nil => exact Nat.le_refl _
  | cons c text =>
    show (if c = 0x5d then c :: text else text).length ≤ _
    split
    · exact Nat.le_refl _
    · exact Nat.le_succ _

theorem readTurn_shorter {rest : Bytes} {turn : Turn}
    (read : readTurn nested changeRangeType restriction text = .ok turn)
    (left : turn.rest = some rest) : rest.length < text.length := by
  have le := length_dropWhile_le isSpace text
  unfold readTurn at read
  split at read
  · cases read
  · next c tail eq =>
      rw [eq] at le
      refine lt_of_lt_of_le ?_ le
      rw [length_cons, Nat.lt_succ_iff]
      split at read
      · obtain ⟨restriction', -, read⟩ := bind_eq_ok read
        cases read
        cases left
        rw [length_tail]
        exact Nat.sub_le _ _
      · split at read
        · split at read
          · cases read
          · cases read
            cases left
            exact Nat.le_refl _
        · split at read
          · split at read
            · cases read
              cases left
            · cases read
          · split at read
            · next hyphen =>
                exact Nat.le_of_lt_succ ((readRange_shorter read left).2 (by rw [hyphen]; rfl))
            · split at read
              · next digit =>
                  obtain ⟨⟨n, text'⟩, number, read⟩ := bind_eq_ok read
                  exact (readRange_shorter read left).1.trans
                    ((length_dropWhile_le _ _).trans (readNumber_shorter digit number))
              · split at read
                · next mask =>
                    dsimp only at read
                    split at read
                    · cases read
                    · cases read
                      cases left
                      refine (afterMask_le _).trans ?_
                      have goes : inMask c = true := by
                        revert mask
                        refine forall_byte (P := fun c =>
                          (isLower c || c = 0x2a || c = 0x3f) = true → inMask c = true) ?_ c
                        decide +kernel
                      rw [dropWhile_cons_of_pos goes]
                      exact length_dropWhile_le _ _
                · cases read

theorem afterBracket_le (inside : Bytes) : (afterBracket inside).length ≤ inside.length := by
  have le : (inside.dropWhile fun c => c ≠ 0x5d).tail.length ≤ inside.length :=
    (length_tail ▸ Nat.sub_le _ _).trans (length_dropWhile_le _ _)
  unfold afterBracket
  dsimp only
  split
  · exact (length_tail ▸ Nat.sub_le _ _).trans le
  · exact le

/-- More fuel than there is text makes no difference. -/
theorem scanExpr_fuel {σ : Type} (add : σ → Entry → Except Fault σ) {fuel : Nat} {s : σ}
    (enough : text.length < fuel) :
    scanExpr add changeRangeType fuel nested restriction text s =
      scanExpr add changeRangeType (fuel + 1) nested restriction text s := by
  induction fuel generalizing changeRangeType nested restriction text s with
  | zero => exact absurd enough (Nat.not_lt_zero _)
  | succ fuel ih =>
    have next : ∀ (restriction : Finset Proto) (rest : Bytes) (s : σ), rest.length < fuel →
        (if rest.isEmpty then .ok s
          else scanExpr add changeRangeType fuel nested restriction rest s) =
        (if rest.isEmpty then .ok s
          else scanExpr add changeRangeType (fuel + 1) nested restriction rest s) := by
      intro restriction rest s shorter
      rw [ih shorter]
    rw [scanExpr, scanExpr]
    cases read : readTurn nested changeRangeType restriction text with
    | error e => rfl
    | ok turn =>
      have shorter : ∀ rest, turn.rest = some rest → rest.length < fuel := fun rest left =>
        Nat.lt_of_lt_of_le (readTurn_shorter read left) (Nat.le_of_lt_succ enough)
      cases turn with
      | restrict restriction rest => exact next restriction rest s (shorter rest rfl)
      | close => rfl
      | bracket inside =>
        have less := shorter inside rfl
        show (scanExpr add true fuel true restriction inside s >>= _) =
          (scanExpr add true (fuel + 1) true restriction inside s >>= _)
        rw [ih less]
        congr 1
        funext s'
        exact next restriction _ s' (Nat.lt_of_le_of_lt (afterBracket_le inside) less)
      | item item rest =>
        show (add s ⟨restriction, nested, item⟩ >>= _) =
          (add s ⟨restriction, nested, item⟩ >>= _)
        congr 1
        funext s'
        cases rest with
        | none => rfl
        | some rest => exact next restriction rest s' (shorter rest rfl)

end Nmap.Ports.PortSpec
