import Nmap.Base.Cursor

/-!
# The text of IP options (`netutil.cc`)

`parse_ip_options` turns a text into the bytes of IP options. It is a machine with five states
that reads the text through a cursor, writes to a buffer of its caller and copies each address
into a buffer of its own. With 40 bytes to write to, all of its accesses but one stay in bounds:
an address of 32 characters fills `buf`, and the terminating zero goes behind it.
-/

namespace Nmap.Packet.IpOptions

open Nmap.Base Nmap.Base.Cursor List

/-! ## Accesses -/

/-- An access out of bounds, or an assertion that fails -/
inductive Violation
  /-- a character behind the terminating zero -/
  | read (i : Nat)
  /-- the cursor in front of the text -/
  | front
  /-- a byte of `data` -/
  | data (i : Nat)
  /-- a byte of `buf` -/
  | buf (i : Nat)
  /-- `*len` before `len` is set -/
  | null
  /-- `assert(d<dataend)` -/
  | assertion
  deriving DecidableEq

/-- Why a text is refused -/
inductive Fault
  | notByte | notDigit | nothingBefore | badRepetition | tooLong
  | notIpv4 (buf : Bytes) | noArguments | notFirst | badCharacter (c : UInt8) | noSlot
  deriving DecidableEq

/-- The text in `errstr` -/
def Fault.message : Fault → Bytes
  | .notByte => ascii "invalid ipv4 address format"
  | .notDigit => ascii "not a digit after '\\'"
  | .nothingBefore => ascii "nothing before '*' char"
  | .badRepetition => ascii "bad number after '*'"
  | .tooLong => ascii "Buffer too small. Or input data too big :)"
  | .notIpv4 buf => ascii "Not a valid ipv4 address '" ++ buf ++ ascii "'"
  | .noArguments => ascii "No more arguments allowed!"
  | .notFirst => ascii "This option can't be used in that way"
  | .badCharacter c => ascii "Bad character in ip option '" ++ [c] ++ ascii "'"
  | .noSlot =>
    ascii "When using source routing you must leave at least one slot for target's ip."

/-- How a run ends without a result. It is stuck if the turns are not enough that it is given. -/
inductive Stop
  | fault (fault : Fault)
  | violation (violation : Violation)
  | stuck
  deriving DecidableEq

abbrev Access := Except Stop

def fail {α : Type} (fault : Fault) : Access α := .error (.fault fault)

def violate {α : Type} (violation : Violation) : Access α := .error (.violation violation)

/-- The state `s` of the machine -/
inductive Mode
  | none | slash | mul | rr | time
  deriving DecidableEq

/-- The variables of `parse_ip_options`. The bytes of `data` before `d` are the options. -/
structure State where
  s : Mode
  base : Nat
  data : Bytes
  d : Nat
  len : Option Nat
  sourcerouting : Bool
  firsthopoff : Nat
  lasthopoff : Nat
  /-- The places of `data` that were written to since it was cleared -/
  written : List Nat

namespace State

/-- `data[i] = byte` -/
def store (st : State) (i : Nat) (byte : UInt8) : Access State :=
  if i < st.data.length then
    .ok { st with data := st.data.set i byte, written := i :: st.written }
  else violate (.data i)

/-- `data[i]` -/
def load (st : State) (i : Nat) : Access UInt8 :=
  if i < st.data.length then .ok (st.data.getD i 0) else violate (.data i)

/-- `*d++ = byte` -/
def push (st : State) (byte : UInt8) : Access State := do
  let st ← st.store st.d byte
  .ok { st with d := st.d + 1 }

/-- `*d++ = byte`, for one byte after the other -/
def pushAll (st : State) (bytes : Bytes) : Access State := bytes.foldlM push st

/-- `*len` -/
def lenByte (st : State) : Access UInt8 :=
  match st.len with
  | .some i => st.load i
  | .none => violate .null

/-- `*len += 4` -/
def addSlot (st : State) : Access State :=
  match st.len with
  | .some i => do
    let n ← st.load i
    st.store i (n + 4)
  | .none => violate .null

/-- `if(*len<37) *len += 4` -/
def countSlot (st : State) : Access State := do
  let n ← st.lenByte
  if n < 37 then st.addSlot else .ok st

end State

/-! ## The turns of the loop -/

/-- What `inet_pton` of `AF_INET` writes for a text, or `none` if it returns less than 1 -/
abbrev InetPton := Bytes → Option (UInt8 × UInt8 × UInt8 × UInt8)

/-- What a turn of the loop leads to -/
inductive Next
  | goOn (c : Nat) (st : State)
  /-- `goto after` -/
  | after (st : State)

variable (inetPton : InetPton) (text : Bytes)

/-- `*c` -/
def charAt (c : Nat) : Access UInt8 := Cursor.charAt (fun i => .violation (.read i)) text c

/-- `c - 1` -/
def back (c : Nat) : Access Nat := if c = 0 then violate .front else .ok (c - 1)

/-- `strtol` at the cursor, with the place of `n` -/
def strtolAt (base c : Nat) : Int × Nat :=
  ((strtol base (text.drop c)).1, text.length - (strtol base (text.drop c)).2.length)

/-- `case SLASH` -/
def slashTurn (c : Nat) (ch : UInt8) (st : State) : Access Next :=
  if ch = 0x78 then .ok (.goOn c { st with base := 16 })
  else if isXDigit ch then do
    let (strtolbyte, n) := strtolAt text st.base c
    if strtolbyte < 0 ∨ 255 < strtolbyte then fail .notByte
    else do
      let st ← st.push (UInt8.ofInt strtolbyte)
      let c ← back n
      .ok (.goOn c { st with s := .none })
  else fail .notDigit

/-- The loop that repeats the last byte, and whether `data` is full then -/
def copies (lc : UInt8) : Nat → State → Access (Bool × State)
  | 0, st => .ok (false, st)
  | rounds + 1, st => do
    let st ← st.push lc
    if st.d = st.data.length then .ok (true, st) else copies lc rounds st

/-- `case MUL`. The number is turned into an `int`. -/
def mulTurn (c : Nat) (st : State) : Access Next :=
  if st.d = 0 then fail .nothingBefore
  else do
    let (number, n) := strtolAt text 10 c
    let i := number.bmod (2 ^ 32)
    if i < 2 then fail .badRepetition
    else do
      let c ← back n
      let lc ← st.load (st.d - 1)
      let (full, st) ← copies lc (i.toNat - 1) st
      if full then .ok (.after st) else .ok (.goOn c { st with s := .none })

/-- A blank or a comma between addresses -/
def isSeparator (ch : UInt8) : Bool := ch = 0x20 || ch = 0x2c

def isAddressChar (ch : UInt8) : Bool := ch = 0x2e || isDigit ch

/-- `*n++ = ch`. What has been written to `buf` are the characters before `n`. -/
def storeBuf (buf : Bytes) (ch : UInt8) : Access Bytes :=
  if buf.length < 32 then .ok (buf ++ [ch]) else violate (.buf buf.length)

/-- The loop that fills `buf` -/
def fillBuf : Nat → Nat → Bytes → Access (Nat × Bytes)
  | 0, _, _ => .error .stuck
  | steps + 1, c, buf => do
    let ch ← charAt text c
    if isAddressChar ch ∧ buf.length ≤ 31 then do
      let buf ← storeBuf buf ch
      fillBuf steps (c + 1) buf
    else .ok (c, buf)

/-- `case RR` -/
def rrTurn (c : Nat) (ch : UInt8) (st : State) : Access Next :=
  if isSeparator ch then .ok (.goOn c st)
  else do
    let (c, buf) ← fillBuf text (text.length + 1) c []
    let _ ← storeBuf buf 0
    let c ← back c
    if st.data.length ≤ st.d + 4 then fail .tooLong
    else
      match inetPton buf with
      | .none => fail (.notIpv4 buf)
      | .some (a₁, a₂, a₃, a₄) => do
        let st := if st.sourcerouting ∧ st.firsthopoff = 0 then
          { st with firsthopoff := st.d } else st
        let st ← st.pushAll [a₁, a₂, a₃, a₄]
        let st ← st.countSlot
        .ok (.goOn c st)

/-- `case 'R'`, `case 'S'` and `case 'L'` -/
def routeTurn (c : Nat) (ch : UInt8) (st : State) : Access Next :=
  if st.d ≠ 0 then fail .notFirst
  else do
    let st ← st.pushAll [1, if ch = 0x52 then 7 else if ch = 0x53 then 137 else 131]
    let st := { st with sourcerouting := st.sourcerouting || ch ≠ 0x52, len := some st.d }
    let st ← st.pushAll [if ch = 0x52 then 39 else 3, 4]
    .ok (.goOn c { st with s := .rr })

/-- `case 'T'` and `case 'U'` -/
def stampTurn (c : Nat) (ch : UInt8) (st : State) : Access Next :=
  if st.d ≠ 0 then fail .notFirst
  else do
    let st ← st.push 68
    let st := { st with len := some st.d }
    let st ← st.pushAll [if ch = 0x55 then 36 else 40, 5, if ch = 0x55 then 1 else 0]
    .ok (.goOn c { st with s := .time })

/-- The cases for a character that begins something -/
def noneTurn (c : Nat) (ch : UInt8) (st : State) : Access Next :=
  if ch = 0x5c then .ok (.goOn c { st with s := .slash, base := 10 })
  else if ch = 0x2a then .ok (.goOn c { st with s := .mul })
  else if ch = 0x52 ∨ ch = 0x53 ∨ ch = 0x4c then routeTurn c ch st
  else if ch = 0x54 ∨ ch = 0x55 then stampTurn c ch st
  else fail (.badCharacter ch)

/-- `switch(s)` -/
def turn (c : Nat) (ch : UInt8) (st : State) : Access Next :=
  match st.s with
  | .slash => slashTurn text c ch st
  | .mul => mulTurn text c st
  | .rr => rrTurn inetPton text c ch st
  | .time => fail .noArguments
  | .none => noneTurn c ch st

/-- What `parse_ip_options` returns and writes -/
structure Outcome where
  length : Nat
  data : Bytes
  firsthopoff : Nat
  lasthopoff : Nat
  /-- The places of `data` that were written to since it was cleared -/
  written : List Nat
  deriving DecidableEq

def State.outcome (st : State) (length : Nat) : Outcome :=
  ⟨length, st.data, st.firsthopoff, st.lasthopoff, st.written⟩

/-- The slot for the target behind the route -/
def targetSlot (st : State) : Access State :=
  if st.sourcerouting then do
    let n ← st.lenByte
    if n < 37 then do
      let st ← st.addSlot
      State.pushAll { st with lasthopoff := st.d } [0, 0, 0, 0]
    else fail .noSlot
  else .ok st

def finish (st : State) : Access Outcome := do
  let st ← targetSlot st
  match st.s with
  | .rr => do
    let n ← st.lenByte
    .ok (st.outcome (n.toNat + 1))
  | .time => do
    let n ← st.lenByte
    .ok (st.outcome n.toNat)
  | _ => .ok (st.outcome st.d)

def loop : Nat → Nat → State → Access Outcome
  | 0, _, _ => .error .stuck
  | turns + 1, c, st => do
    let ch ← charAt text c
    if ch = 0 then finish st
    else
      match ← turn inetPton text c ch st with
      | .after st => .ok (st.outcome st.d)
      | .goOn c st =>
        if st.d = st.data.length then finish st
        else if st.d < st.data.length then loop turns (c + 1) st
        else violate .assertion

/-- The variables before the loop, with `data` cleared -/
def start (datalen firsthopoff lasthopoff : Nat) : State where
  s := .none
  base := 10
  data := List.replicate datalen 0
  d := 0
  len := none
  sourcerouting := false
  firsthopoff := firsthopoff
  lasthopoff := lasthopoff
  written := []

/-- `parse_ip_options`. A turn that does not move the cursor leaves the state `SLASH` or writes to
`data`, which bounds the turns. -/
def parseIpOptions (datalen firsthopoff lasthopoff : Nat) : Access Outcome :=
  loop inetPton text (2 * text.length + datalen + 2) 0 (start datalen firsthopoff lasthopoff)

/-! ## What is written -/

/-- `st'` follows from `st` by writing `bytes` at `d`. -/
structure Wrote (st : State) (bytes : Bytes) (st' : State) : Prop where
  d : st'.d = st.d + bytes.length
  size : st'.data.length = st.data.length
  others : st' = { st with data := st'.data, d := st'.d, written := st'.written }
  written : ∀ i ∈ st'.written, i ∈ st.written ∨ i < st'.d
  front : ∀ i < st.d, st'.data.getD i 0 = st.data.getD i 0
  bytes : ∀ k < bytes.length, st'.data.getD (st.d + k) 0 = bytes.getD k 0

variable {inetPton text} {st : State} {c : Nat} {rest : Bytes}

variable {i : Nat}

theorem getD_set {data : Bytes} {byte : UInt8} (inside : i < data.length) (k : Nat) :
    (data.set i byte).getD k 0 = if k = i then byte else data.getD k 0 := by
  rw [getD_eq_getElem?_getD, List.getElem?_set, getD_eq_getElem?_getD]
  by_cases same : i = k
  · subst same
    simp [inside]
  · rw [if_neg same, if_neg fun h => same h.symm]

theorem push_spec (st : State) (room : st.d < st.data.length) (byte : UInt8) :
    ∃ st', st.push byte = .ok st' ∧ Wrote st [byte] st' := by
  refine ⟨{ st with data := st.data.set st.d byte, d := st.d + 1,
                    written := st.d :: st.written }, ?_, ?_⟩
  · unfold State.push State.store
    rw [if_pos room]
    rfl
  · refine ⟨rfl, length_set .., rfl, ?_, ?_, ?_⟩
    · intro i mem
      rcases mem_cons.mp mem with rfl | before
      · exact .inr (Nat.lt_succ_self _)
      · exact .inl before
    · intro i before
      show (st.data.set st.d byte).getD i 0 = _
      rw [getD_set room, if_neg (Nat.ne_of_lt before)]
    · intro k only
      obtain rfl : k = 0 := Nat.lt_one_iff.mp only
      show (st.data.set st.d byte).getD st.d 0 = _
      rw [getD_set room, if_pos rfl]
      rfl

variable {bytes : Bytes}

theorem Wrote.trans {st₁ st₂ : State} {byte : UInt8} (first : Wrote st [byte] st₁)
    (more : Wrote st₁ bytes st₂) :
    Wrote st (byte :: bytes) st₂ := by
  have d₁ := first.d
  have d₂ := more.d
  rw [length_singleton] at d₁
  refine ⟨?_, more.size.trans first.size, ?_, ?_, ?_, ?_⟩
  · rw [length_cons, d₂, d₁]
    omega
  · rw [more.others, first.others]
  · intro i mem
    rcases more.written i mem with before | behind
    · rcases first.written i before with old | new
      · exact .inl old
      · exact .inr (by omega)
    · exact .inr behind
  · intro i before
    rw [more.front i (by omega), first.front i before]
  · intro k inside
    cases k with
    | zero => rw [more.front _ (by omega), first.bytes 0 Nat.one_pos]; rfl
    | succ k =>
      have there := more.bytes k (Nat.lt_of_succ_lt_succ inside)
      rw [d₁, Nat.add_assoc, Nat.add_comm 1 k] at there
      rw [there]
      rfl

theorem pushAll_spec (st : State) (bytes : Bytes)
    (room : st.d + bytes.length ≤ st.data.length) :
    ∃ st', st.pushAll bytes = .ok st' ∧ Wrote st bytes st' := by
  induction bytes generalizing st with
  | nil =>
    exact ⟨st, rfl, rfl, rfl, rfl, fun i mem => .inl mem, fun i _ => rfl, fun k no =>
      absurd no (Nat.not_lt_zero k)⟩
  | cons byte bytes ih =>
    rw [length_cons] at room
    obtain ⟨st₁, pushed, first⟩ := push_spec st (by omega) byte
    have d₁ := first.d
    rw [length_singleton] at d₁
    have size := first.size
    obtain ⟨st₂, all, more⟩ := ih st₁ (by omega)
    refine ⟨st₂, ?_, first.trans more⟩
    show (byte :: bytes).foldlM State.push st = _
    rw [foldlM_cons, pushed]
    exact all

/-! ## What holds between the turns -/

/-- The list of addresses: there are `(d - 4) / 4` of them in `data`, and `*len` counts them if the
option is for source routing. -/
structure Routing (st : State) : Prop where
  len : st.len = some 2
  slots : ∃ k ≤ 8, st.d = 4 + 4 * k
  count : (st.data.getD 2 0).toNat = if st.sourcerouting then st.d - 1 else 39

/-- A timestamp option -/
structure Stamping (st : State) : Prop where
  len : st.len = some 1
  d : st.d = 4
  count : (st.data.getD 1 0).toNat = 36 ∨ (st.data.getD 1 0).toNat = 40
  bare : st.sourcerouting = false

/-- What is known in each state of the machine -/
def ModeFits (st : State) : Prop :=
  match st.s with
  | .rr => Routing st
  | .time => Stamping st
  | _ => st.sourcerouting = false

theorem modeFits_rr (rr : st.s = .rr) : ModeFits st ↔ Routing st := by
  unfold ModeFits
  rw [rr]

theorem modeFits_time (time : st.s = .time) : ModeFits st ↔ Stamping st := by
  unfold ModeFits
  rw [time]

theorem modeFits_bare (rr : st.s ≠ .rr) (time : st.s ≠ .time) :
    ModeFits st ↔ st.sourcerouting = false := by
  unfold ModeFits
  split
  · contradiction
  · contradiction
  · exact Iff.rfl

/-- The invariant of the loop -/
structure Fits (st : State) : Prop where
  size : st.data.length = 40
  room : st.d ≤ 40
  written : ∀ i ∈ st.written, i < st.d
  mode : ModeFits st

theorem start_fits (firsthopoff lasthopoff : Nat) :
    Fits (start 40 firsthopoff lasthopoff) where
  size := length_replicate ..
  room := Nat.zero_le _
  written := fun _ none => absurd none not_mem_nil
  mode := rfl

theorem Wrote.fits_written {st' : State} (wrote : Wrote st bytes st')
    (before : ∀ i ∈ st.written, i < st.d) : ∀ i ∈ st'.written, i < st'.d := by
  intro i mem
  have d := wrote.d
  rcases wrote.written i mem with old | new
  · have := before i old
    omega
  · exact new

/-- `*len` in the list of addresses -/
theorem lenByte_eq (set : st.len = some i) (inside : i < st.data.length) :
    st.lenByte = .ok (st.data.getD i 0) := by
  unfold State.lenByte State.load
  rw [set]
  exact if_pos inside

theorem addSlot_eq (set : st.len = some i) (inside : i < st.data.length) :
    st.addSlot = .ok { st with data := st.data.set i (st.data.getD i 0 + 4),
                               written := i :: st.written } := by
  unfold State.addSlot State.load State.store
  rw [set]
  show (if i < st.data.length then _ else _) >>= _ = _
  rw [if_pos inside]
  exact if_pos inside

/-! ## Which addresses are too long -/

def address (rest : Bytes) : Bytes := (rest.dropWhile isSeparator).takeWhile isAddressChar

/-- What is behind the next address of a list -/
def behind (rest : Bytes) : Bytes := (rest.dropWhile isSeparator).dropWhile isAddressChar

variable (inetPton) in
/-- An address of 32 characters or more comes after at most so many others, and `inet_pton` takes
each of these. -/
def LongIn : Nat → Bytes → Prop
  | 0, rest => 32 ≤ (address rest).length
  | slots + 1, rest =>
    32 ≤ (address rest).length ∨
      address rest ≠ [] ∧ (inetPton (address rest)).isSome ∧ LongIn slots (behind rest)

variable (inetPton) in
/-- The text is `R`, `S` or `L` with a list of addresses, and such an address is read. Eight
addresses fill the buffer; the next one is still copied before there is no room for it. -/
def LongAddress : Bytes → Prop
  | [] => False
  | ch :: rest => (ch = 0x52 ∨ ch = 0x53 ∨ ch = 0x4c) ∧ LongIn inetPton 8 rest

theorem LongIn.nonempty {slots : Nat} (long : LongIn inetPton slots rest) : address rest ≠ [] := by
  intro none
  cases slots with
  | zero => rw [LongIn, none] at long; exact absurd long (by simp)
  | succ slots =>
    rw [LongIn, none] at long
    rcases long with long | ⟨some, -⟩
    · exact absurd long (by simp)
    · exact some rfl

variable {ch : UInt8}

theorem longIn_separator (separator : isSeparator ch = true) (slots : Nat) :
    LongIn inetPton slots (ch :: rest) ↔ LongIn inetPton slots rest := by
  have same : (ch :: rest).dropWhile isSeparator = rest.dropWhile isSeparator :=
    dropWhile_cons_of_pos separator
  cases slots <;> simp only [LongIn, address, behind, same]

variable (inetPton) in
/-- Does the rest of the text lead to an address that is too long? -/
def Pending (st : State) (rest : Bytes) : Prop :=
  match st.s with
  | .rr => LongIn inetPton ((36 - st.d) / 4) rest
  | .none => st.d = 0 ∧ LongAddress inetPton rest
  | _ => False

theorem pending_rr (rr : st.s = .rr) :
    Pending inetPton st rest ↔ LongIn inetPton ((36 - st.d) / 4) rest := by
  unfold Pending
  rw [rr]

theorem pending_none (none : st.s = .none) :
    Pending inetPton st rest ↔ st.d = 0 ∧ LongAddress inetPton rest := by
  unfold Pending
  rw [none]

theorem not_pending (rr : st.s ≠ .rr) (none : st.s ≠ .none) : ¬ Pending inetPton st rest := by
  unfold Pending
  split
  · contradiction
  · contradiction
  · exact not_false

theorem Pending.more (pending : Pending inetPton st rest) : rest ≠ [] := by
  rintro rfl
  cases s : st.s
  case rr => exact LongIn.nonempty ((pending_rr s).mp pending) rfl
  case none => exact ((pending_none s).mp pending).2
  all_goals exact not_pending (by simp [s]) (by simp [s]) pending

/-- Once `data` is full no address is read. -/
theorem Pending.d_lt (pending : Pending inetPton st rest) (fits : Fits st) : st.d < 40 := by
  cases s : st.s
  case rr =>
    obtain ⟨k, few, d⟩ := ((modeFits_rr s).mp fits.mode).slots
    omega
  case none =>
    rw [((pending_none s).mp pending).1]
    exact Nat.zero_lt_succ _
  all_goals exact absurd pending (not_pending (by simp [s]) (by simp [s]))

/-! ## A turn -/

def measure (st : State) (rest : Bytes) : Nat :=
  2 * rest.length + (40 - st.d) + if st.s = .slash then 1 else 0

variable (inetPton text) in
/-- What may come of a turn in front of `rest` -/
def Leads (st : State) (rest : Bytes) : Access Next → Prop
  | .ok (.goOn c st') => Fits st' ∧ ∃ rest', At text (c + 1) rest' ∧
      measure st' rest' < measure st rest ∧
      (Pending inetPton st' rest' ↔ Pending inetPton st rest)
  | .ok (.after st') => Fits st' ∧ st'.d = 40 ∧ ¬ Pending inetPton st rest
  | .error (.fault _) => ¬ Pending inetPton st rest
  | .error (.violation _) => Pending inetPton st rest
  | .error .stuck => False

theorem charAt_eq (here : At text c rest) : charAt text c = .ok (rest.headD 0) :=
  here.charAt_eq _

theorem back_eq (inside : 0 < c) : back c = .ok (c - 1) := if_neg (by omega)

/-- `strtol` moves the cursor within the text, and on if it returns anything but 0. -/
theorem strtolAt_spec (here : At text c rest) (base : Nat) :
    ∃ n rest', strtolAt text base c = ((strtol base rest).1, n) ∧ At text n rest' ∧
      rest'.length ≤ rest.length ∧ ((strtol base rest).1 ≠ 0 → rest'.length < rest.length) := by
  obtain ⟨suffix, moved⟩ := strtol_suffix base rest
  refine ⟨_, _, ?_, here.of_suffix suffix, suffix.length_le, moved⟩
  unfold strtolAt
  rw [here.drop]

theorem slashTurn_leads (here : At text c (ch :: rest)) (fits : Fits st) (slash : st.s = .slash)
    (behind : 0 < c) (room : st.d < 40) :
    Leads inetPton text st (ch :: rest) (slashTurn text c ch st) := by
  have bare : st.sourcerouting = false :=
    (modeFits_bare (by simp [slash]) (by simp [slash])).mp fits.mode
  have idle (rest : Bytes) : ¬ Pending inetPton st rest :=
    not_pending (by simp [slash]) (by simp [slash])
  unfold slashTurn
  split_ifs with x digit
  · refine ⟨⟨fits.size, fits.room, fits.written, ?_⟩, rest, here.succ, ?_, ?_⟩
    · exact (modeFits_bare (by simp [slash]) (by simp [slash])).mpr bare
    · show 2 * rest.length + (40 - st.d) + (if st.s = .slash then 1 else 0) <
        2 * (rest.length + 1) + (40 - st.d) + if st.s = .slash then 1 else 0
      omega
    · exact iff_of_false (not_pending (by simp [slash]) (by simp [slash])) (idle _)
  · obtain ⟨n, rest', read, there, least, -⟩ := strtolAt_spec here st.base
    rw [read]
    show Leads inetPton text st (ch :: rest) (if _ then _ else _)
    split_ifs
    · exact idle _
    · obtain ⟨st', pushed, wrote⟩ := push_spec st (by rw [fits.size]; exact room)
        (UInt8.ofInt (strtol st.base (ch :: rest)).1)
      have d := wrote.d
      rw [length_singleton] at d
      have inside : 0 < n := by
        have to_c := here.length
        have to_n := there.length
        omega
      rw [pushed, ok_bind, back_eq inside, ok_bind]
      refine ⟨⟨wrote.size.trans fits.size, ?_, wrote.fits_written fits.written, ?_⟩, rest', ?_,
        ?_, ?_⟩
      · show st'.d ≤ 40
        omega
      · show st'.sourcerouting = false
        rw [wrote.others]
        exact bare
      · rwa [Nat.sub_add_cancel inside]
      · show 2 * rest'.length + (40 - st'.d) + 0 <
          2 * (ch :: rest).length + (40 - st.d) + if st.s = .slash then 1 else 0
        rw [if_pos slash]
        omega
      · refine iff_of_false ?_ (idle _)
        intro pending
        have first : st'.d = 0 := pending.1
        omega
  · exact idle _

/-- The last byte is repeated until `data` is full. -/
theorem copies_spec (lc : UInt8) (rounds : Nat) (size : st.data.length = 40) (room : st.d < 40)
    (written : ∀ i ∈ st.written, i < st.d) :
    ∃ full st', copies lc rounds st = .ok (full, st') ∧ st'.data.length = 40 ∧
      st.d ≤ st'.d ∧ (if full then st'.d = 40 else st'.d < 40) ∧
      (∀ i ∈ st'.written, i < st'.d) ∧ st'.s = st.s ∧ st'.sourcerouting = st.sourcerouting := by
  induction rounds generalizing st with
  | zero => exact ⟨false, st, rfl, size, Nat.le_refl _, room, written, rfl, rfl⟩
  | succ rounds ih =>
    obtain ⟨st₁, pushed, wrote⟩ := push_spec st (by rw [size]; exact room) lc
    have d := wrote.d
    rw [length_singleton] at d
    have size₁ := wrote.size.trans size
    have s₁ : st₁.s = st.s := by rw [wrote.others]
    have sourcerouting₁ : st₁.sourcerouting = st.sourcerouting := by rw [wrote.others]
    rw [copies, pushed, ok_bind, size₁]
    by_cases full : st₁.d = 40
    · rw [if_pos full]
      exact ⟨true, st₁, rfl, size₁, by omega, full, wrote.fits_written written, s₁,
        sourcerouting₁⟩
    · rw [if_neg full]
      obtain ⟨full, st', copied, size', further, ends, written', s', sourcerouting'⟩ :=
        ih size₁ (by omega) (wrote.fits_written written)
      exact ⟨full, st', copied, size', by omega, ends, written', s'.trans s₁,
        sourcerouting'.trans sourcerouting₁⟩

theorem mulTurn_leads (here : At text c (ch :: rest)) (fits : Fits st) (mul : st.s = .mul)
    (room : st.d < 40) :
    Leads inetPton text st (ch :: rest) (mulTurn text c st) := by
  have bare : st.sourcerouting = false :=
    (modeFits_bare (by simp [mul]) (by simp [mul])).mp fits.mode
  have idle : ¬ Pending inetPton st (ch :: rest) := not_pending (by simp [mul]) (by simp [mul])
  unfold mulTurn
  split_ifs with first
  · exact idle
  · obtain ⟨n, rest', read, there, -, moved⟩ := strtolAt_spec here 10
    rw [read]
    show Leads inetPton text st (ch :: rest) (if _ then _ else _)
    split_ifs with few
    · exact idle
    · have shorter : rest'.length < (ch :: rest).length := by
        refine moved fun zero => few ?_
        rw [zero]
        exact (by decide : (0 : Int) < 2)
      have inside : 0 < n := by
        have to_c := here.length
        have to_n := there.length
        omega
      have last : st.load (st.d - 1) = .ok (st.data.getD (st.d - 1) 0) :=
        if_pos (by rw [fits.size]; omega)
      obtain ⟨full, st', copied, size, further, ends, written, s, sourcerouting⟩ :=
        copies_spec (st.data.getD (st.d - 1) 0)
          (((strtol 10 (ch :: rest)).1.bmod (2 ^ 32)).toNat - 1) fits.size room fits.written
      rw [back_eq inside, ok_bind, last, ok_bind, copied, ok_bind]
      cases full with
      | true =>
        refine ⟨⟨size, Nat.le_of_eq ends, written, ?_⟩, ends, idle⟩
        exact (modeFits_bare (by simp [s, mul]) (by simp [s, mul])).mpr
          (sourcerouting.trans bare)
      | false =>
        refine ⟨⟨size, Nat.le_of_lt ends, written, sourcerouting.trans bare⟩, rest', ?_, ?_, ?_⟩
        · rwa [Nat.sub_add_cancel inside]
        · show 2 * rest'.length + (40 - st'.d) + 0 <
            2 * (ch :: rest).length + (40 - st.d) + if st.s = .slash then 1 else 0
          omega
        · refine iff_of_false ?_ idle
          intro pending
          have empty : st'.d = 0 := pending.1
          omega

/-- The address is copied, up to 32 characters of it. -/
theorem fillBuf_spec {steps : Nat} (buf : Bytes) (here : At text c rest)
    (enough : rest.length < steps) (room : buf.length ≤ 32) :
    ∃ j, fillBuf text steps c buf =
        .ok (j, buf ++ (rest.takeWhile isAddressChar).take (32 - buf.length)) ∧
      At text j (rest.drop ((rest.takeWhile isAddressChar).take (32 - buf.length)).length) := by
  induction steps generalizing c rest buf with
  | zero => exact absurd enough (Nat.not_lt_zero _)
  | succ steps ih =>
    rw [fillBuf, charAt_eq here, ok_bind]
    cases rest with
    | nil =>
      refine ⟨c, ?_, by simpa using here⟩
      show (if isAddressChar 0 = true ∧ buf.length ≤ 31 then _ else _) = _
      rw [if_neg (by simp [isAddressChar, isDigit]), takeWhile_nil, take_nil,
        append_nil]
    | cons ch rest =>
      show ∃ j, (if isAddressChar ch = true ∧ buf.length ≤ 31 then
        storeBuf buf ch >>= fillBuf text steps (c + 1) else .ok (c, buf)) = .ok (j, _) ∧ _
      by_cases more : isAddressChar ch = true ∧ buf.length ≤ 31
      · obtain ⟨char, short⟩ := more
        have stored : storeBuf buf ch = .ok (buf ++ [ch]) := if_pos (Nat.lt_succ_of_le short)
        have fits : (buf ++ [ch]).length ≤ 32 := by
          rw [length_append, length_singleton]
          exact Nat.succ_le_succ short
        obtain ⟨j, filled, there⟩ := ih (buf ++ [ch]) here.succ
          (Nat.lt_of_succ_lt_succ enough) fits
        rw [length_append, length_singleton] at filled there
        have taken : ((ch :: rest).takeWhile isAddressChar).take (32 - buf.length) =
            ch :: (rest.takeWhile isAddressChar).take (32 - (buf.length + 1)) := by
          rw [takeWhile_cons_of_pos char,
            show 32 - buf.length = 32 - (buf.length + 1) + 1 by omega, take_succ_cons]
        refine ⟨j, ?_, ?_⟩
        · rw [if_pos ⟨char, short⟩, stored, ok_bind, filled, taken, append_assoc]
          rfl
        · rw [taken]
          exact there
      · have nothing : ((ch :: rest).takeWhile isAddressChar).take (32 - buf.length) = [] := by
          by_cases char : isAddressChar ch = true
          · have full : 32 - buf.length = 0 := by
              have : ¬ buf.length ≤ 31 := fun short => more ⟨char, short⟩
              omega
            rw [full, take_zero]
          · rw [takeWhile_cons_of_neg char, take_nil]
        refine ⟨c, ?_, ?_⟩
        · rw [if_neg more, nothing, append_nil]
        · rw [nothing]
          exact here

theorem LongIn.of_long (long : 32 ≤ (address rest).length) (slots : Nat) :
    LongIn inetPton slots rest := by
  cases slots with
  | zero => exact long
  | succ slots => exact .inl long

/-- The state behind an address that was accepted -/
theorem routing_next {hop : Nat} {st₁ : State} (size : st.data.length = 40) (routing : Routing st)
    (room : st.d < 36) (four : bytes.length = 4)
    (wrote : Wrote { st with firsthopoff := hop } bytes st₁) (written : ∀ i ∈ st.written, i < st.d)
    (rr : st.s = .rr) :
    ∃ st', st₁.countSlot = .ok st' ∧ Fits st' ∧ st'.s = .rr ∧ st'.d = st.d + 4 := by
  obtain ⟨k, few, d⟩ := routing.slots
  have d₁ : st₁.d = st.d + 4 := by rw [wrote.d, four]
  have size₁ : st₁.data.length = 40 := wrote.size.trans size
  have len₁ : st₁.len = some 2 := by rw [wrote.others]; exact routing.len
  have rr₁ : st₁.s = .rr := by rw [wrote.others]; exact rr
  have sourcerouting₁ : st₁.sourcerouting = st.sourcerouting := by rw [wrote.others]
  have same : st₁.data.getD 2 0 = st.data.getD 2 0 := by
    refine wrote.front 2 ?_
    show 2 < st.d
    omega
  have written₁ := wrote.fits_written written
  have count := routing.count
  rw [State.countSlot, lenByte_eq len₁ (by omega), ok_bind, same]
  cases sourcerouting : st.sourcerouting with
  | false =>
    rw [sourcerouting, if_neg Bool.false_ne_true] at count
    refine ⟨st₁, if_neg ?_, ⟨size₁, by omega, written₁, (modeFits_rr rr₁).mpr
      ⟨len₁, ⟨k + 1, by omega, by omega⟩, ?_⟩⟩, rr₁, d₁⟩
    · rw [UInt8.lt_iff_toNat_lt, count]
      simp
    · rw [same, sourcerouting₁, sourcerouting]
      exact count
  | true =>
    rw [sourcerouting, if_pos rfl] at count
    have free : st.data.getD 2 0 < 37 := by
      rw [UInt8.lt_iff_toNat_lt, count]
      show st.d - 1 < 37
      omega
    rw [if_pos free, addSlot_eq len₁ (by omega)]
    refine ⟨_, rfl, ⟨(length_set ..).trans size₁, ?_, ?_,
      (modeFits_rr (by exact rr₁)).mpr ⟨len₁, ⟨k + 1, by omega, ?_⟩, ?_⟩⟩, rr₁, d₁⟩
    · show st₁.d ≤ 40
      omega
    · intro i mem
      show i < st₁.d
      rcases mem_cons.mp mem with rfl | before
      · omega
      · exact written₁ i before
    · show st₁.d = _
      omega
    · show ((st₁.data.set 2 (st₁.data.getD 2 0 + 4)).getD 2 0).toNat =
        if st₁.sourcerouting then st₁.d - 1 else 39
      rw [getD_set (by omega), if_pos rfl, sourcerouting₁, sourcerouting, if_pos rfl,
        UInt8.toNat_add, same, count]
      show (st.d - 1 + 4) % 256 = _
      omega

theorem rrTurn_leads (here : At text c (ch :: rest)) (fits : Fits st) (rr : st.s = .rr)
    (front : 0 < c) :
    Leads inetPton text st (ch :: rest) (rrTurn inetPton text c ch st) := by
  have routing := (modeFits_rr rr).mp fits.mode
  obtain ⟨k, few, d⟩ := routing.slots
  unfold rrTurn
  by_cases separator : isSeparator ch = true
  · rw [if_pos separator]
    refine ⟨fits, rest, here.succ, ?_, ?_⟩
    · unfold measure
      rw [length_cons]
      omega
    · rw [pending_rr rr, pending_rr rr]
      exact (longIn_separator separator _).symm
  · have bare : (ch :: rest).dropWhile isSeparator = ch :: rest :=
      dropWhile_cons_of_neg separator
    have is_address : address (ch :: rest) = (ch :: rest).takeWhile isAddressChar := by
      rw [address, bare]
    have is_behind : behind (ch :: rest) = (ch :: rest).dropWhile isAddressChar := by
      rw [behind, bare]
    have least := here.length
    obtain ⟨j, filled, there⟩ := fillBuf_spec [] here
      (Nat.lt_succ_of_le (by omega : (ch :: rest).length ≤ text.length)) (Nat.zero_le _)
    rw [nil_append, length_nil, Nat.sub_zero, ← is_address] at filled
    rw [length_nil, Nat.sub_zero, ← is_address] at there
    rw [if_neg separator, filled, ok_bind]
    by_cases long : 32 ≤ (address (ch :: rest)).length
    · have full : ((address (ch :: rest)).take 32).length = 32 := by
        rw [length_take]
        omega
      have beyond : storeBuf ((address (ch :: rest)).take 32) 0 = violate (.buf 32) := by
        unfold storeBuf
        rw [full, if_neg (Nat.lt_irrefl _)]
      show Leads inetPton text st (ch :: rest) (storeBuf ((address (ch :: rest)).take 32) 0 >>= _)
      rw [beyond]
      exact (pending_rr rr).mpr (.of_long long _)
    · have whole : (address (ch :: rest)).take 32 = address (ch :: rest) :=
        take_of_length_le (by omega)
      have stored : storeBuf (address (ch :: rest)) 0 = .ok (address (ch :: rest) ++ [0]) :=
        if_pos (by omega)
      rw [whole] at there ⊢
      have rest_eq : (ch :: rest).drop (address (ch :: rest)).length = behind (ch :: rest) := by
        rw [is_address, is_behind]
        calc (ch :: rest).drop ((ch :: rest).takeWhile isAddressChar).length
          _ = ((ch :: rest).takeWhile isAddressChar ++ (ch :: rest).dropWhile isAddressChar).drop
                ((ch :: rest).takeWhile isAddressChar).length := by
              rw [takeWhile_append_dropWhile]
          _ = (ch :: rest).dropWhile isAddressChar := drop_left
      rw [rest_eq] at there
      have shorter : (behind (ch :: rest)).length ≤ (ch :: rest).length := by
        rw [is_behind]
        exact (dropWhile_suffix _).length_le
      have inside : 0 < j := by
        have to_j := there.length
        omega
      show Leads inetPton text st (ch :: rest) (storeBuf (address (ch :: rest)) 0 >>= _)
      rw [stored, ok_bind, back_eq inside, ok_bind, fits.size]
      by_cases room : 40 ≤ st.d + 4
      · rw [if_pos room]
        show ¬ Pending inetPton st (ch :: rest)
        rw [pending_rr rr, show (36 - st.d) / 4 = 0 by omega]
        exact long
      · rw [if_neg room]
        have slots : (36 - st.d) / 4 = (36 - (st.d + 4)) / 4 + 1 := by omega
        cases read : inetPton (address (ch :: rest)) with
        | none =>
          show ¬ Pending inetPton st (ch :: rest)
          rw [pending_rr rr, slots, LongIn, read]
          rintro (many | ⟨-, no, -⟩)
          · exact long many
          · cases no
        | some bytes =>
          obtain ⟨a₁, a₂, a₃, a₄⟩ := bytes
          obtain ⟨hop, noted⟩ : ∃ hop, (if st.sourcerouting = true ∧ st.firsthopoff = 0 then
              { st with firsthopoff := st.d } else st) = { st with firsthopoff := hop } := by
            split
            · exact ⟨_, rfl⟩
            · exact ⟨_, rfl⟩
          have space : ({ st with firsthopoff := hop } : State).d + [a₁, a₂, a₃, a₄].length ≤
              ({ st with firsthopoff := hop } : State).data.length := by
            show st.d + 4 ≤ st.data.length
            have size := fits.size
            omega
          obtain ⟨st₁, pushed, wrote⟩ := pushAll_spec _ _ space
          obtain ⟨st', counted, fits', rr', d'⟩ := routing_next fits.size routing (by omega) rfl
            wrote fits.written rr
          show Leads inetPton text st (ch :: rest) (State.pushAll (if _ then _ else _) _ >>= _)
          rw [noted, pushed, ok_bind, counted]
          refine ⟨fits', _, by rwa [Nat.sub_add_cancel inside], ?_, ?_⟩
          · unfold measure
            rw [d', rr, rr']
            omega
          · rw [pending_rr rr, pending_rr rr', d', slots, LongIn, read]
            constructor
            · intro later
              refine .inr ⟨fun empty => ?_, rfl, later⟩
              have same : behind (ch :: rest) = ch :: rest := by
                rw [← rest_eq, empty]
                rfl
              rw [same] at later
              exact later.nonempty empty
            · rintro (many | ⟨-, -, later⟩)
              · exact absurd many long
              · exact later

theorem measure_none (none : st.s = .none) (ch : UInt8) :
    measure st (ch :: rest) = 2 * rest.length + 2 + (40 - st.d) := by
  unfold measure
  rw [none, length_cons]
  rfl

theorem routeTurn_leads (here : At text c (ch :: rest)) (fits : Fits st) (none : st.s = .none)
    (route : ch = 0x52 ∨ ch = 0x53 ∨ ch = 0x4c) :
    Leads inetPton text st (ch :: rest) (routeTurn c ch st) := by
  have bare : st.sourcerouting = false :=
    (modeFits_bare (by simp [none]) (by simp [none])).mp fits.mode
  have pending : Pending inetPton st (ch :: rest) ↔ st.d = 0 ∧ LongAddress inetPton (ch :: rest) :=
    pending_none none
  unfold routeTurn
  by_cases used : st.d ≠ 0
  · rw [if_pos used]
    show ¬ Pending inetPton st (ch :: rest)
    rw [pending]
    exact fun start => used start.1
  · have first : st.d = 0 := Classical.not_not.mp used
    have size := fits.size
    obtain ⟨st₁, pushed₁, wrote₁⟩ := pushAll_spec st
      [1, if ch = 0x52 then 7 else if ch = 0x53 then 137 else 131]
      (by rw [size, first]; simp)
    have d₁ : st₁.d = 2 := by rw [wrote₁.d, first]; rfl
    have size₁ : st₁.data.length = 40 := wrote₁.size.trans size
    obtain ⟨st₂, pushed₂, wrote₂⟩ := pushAll_spec
      { st₁ with sourcerouting := st₁.sourcerouting || ch ≠ 0x52, len := some st₁.d }
      [if ch = 0x52 then 39 else 3, 4]
      (by show st₁.d + 2 ≤ st₁.data.length; omega)
    have d₂ : st₂.d = 4 := by
      rw [wrote₂.d]
      show st₁.d + 2 = 4
      omega
    rw [if_neg used, pushed₁, ok_bind]
    show Leads inetPton text st (ch :: rest) (State.pushAll _ _ >>= _)
    rw [pushed₂, ok_bind]
    refine ⟨⟨wrote₂.size.trans size₁, by show st₂.d ≤ 40; omega, ?_, ?_⟩, rest, here.succ, ?_, ?_⟩
    · exact wrote₂.fits_written (wrote₁.fits_written fits.written)
    · refine (modeFits_rr rfl).mpr ⟨?_, ⟨0, Nat.zero_le _, d₂⟩, ?_⟩
      · show st₂.len = some 2
        rw [wrote₂.others, d₁]
      · have length := wrote₂.bytes 0 Nat.two_pos
        have routed : st₂.sourcerouting = decide (ch ≠ 0x52) := by
          rw [wrote₂.others]
          show (st₁.sourcerouting || _) = _
          rw [wrote₁.others, bare, Bool.false_or]
        show (st₂.data.getD 2 0).toNat = if st₂.sourcerouting then st₂.d - 1 else 39
        rw [Nat.add_zero, show State.d _ = 2 from d₁] at length
        rw [length, routed, d₂]
        by_cases record : ch = 0x52
        · simp [record]
        · simp [record]
    · rw [measure_none none]
      show 2 * rest.length + (40 - st₂.d) + 0 < _
      omega
    · rw [pending, pending_rr rfl]
      show LongIn inetPton ((36 - st₂.d) / 4) rest ↔ st.d = 0 ∧ _ ∧ LongIn inetPton 8 rest
      rw [d₂]
      exact ⟨fun long => ⟨first, route, long⟩, fun start => start.2.2⟩

theorem stampTurn_leads (here : At text c (ch :: rest)) (fits : Fits st) (none : st.s = .none)
    (route : ¬ (ch = 0x52 ∨ ch = 0x53 ∨ ch = 0x4c)) :
    Leads inetPton text st (ch :: rest) (stampTurn c ch st) := by
  have bare : st.sourcerouting = false :=
    (modeFits_bare (by simp [none]) (by simp [none])).mp fits.mode
  have idle : ¬ Pending inetPton st (ch :: rest) := by
    rw [pending_none none]
    exact fun start => route start.2.1
  unfold stampTurn
  by_cases used : st.d ≠ 0
  · rw [if_pos used]
    exact idle
  · have first : st.d = 0 := Classical.not_not.mp used
    have size := fits.size
    obtain ⟨st₁, pushed₁, wrote₁⟩ := push_spec st (by omega) 68
    have d₁ : st₁.d = 1 := by rw [wrote₁.d, first]; rfl
    have size₁ : st₁.data.length = 40 := wrote₁.size.trans size
    obtain ⟨st₂, pushed₂, wrote₂⟩ := pushAll_spec { st₁ with len := some st₁.d }
      [if ch = 0x55 then 36 else 40, 5, if ch = 0x55 then 1 else 0]
      (by show st₁.d + 3 ≤ st₁.data.length; omega)
    have d₂ : st₂.d = 4 := by
      rw [wrote₂.d]
      show st₁.d + 3 = 4
      omega
    rw [if_neg used, pushed₁, ok_bind]
    show Leads inetPton text st (ch :: rest) (State.pushAll _ _ >>= _)
    rw [pushed₂, ok_bind]
    refine ⟨⟨wrote₂.size.trans size₁, by show st₂.d ≤ 40; omega, ?_, ?_⟩, rest, here.succ, ?_, ?_⟩
    · exact wrote₂.fits_written (wrote₁.fits_written fits.written)
    · refine (modeFits_time rfl).mpr ⟨?_, d₂, ?_, ?_⟩
      · show st₂.len = some 1
        rw [wrote₂.others, d₁]
      · have length := wrote₂.bytes 0 (Nat.zero_lt_succ 2)
        show (st₂.data.getD 1 0).toNat = 36 ∨ (st₂.data.getD 1 0).toNat = 40
        rw [Nat.add_zero, show State.d _ = 1 from d₁] at length
        rw [length]
        by_cases both : ch = 0x55
        · simp [both]
        · simp [both]
      · show st₂.sourcerouting = false
        rw [wrote₂.others]
        show st₁.sourcerouting = false
        rw [wrote₁.others]
        exact bare
    · rw [measure_none none]
      show 2 * rest.length + (40 - st₂.d) + 0 < _
      omega
    · exact iff_of_false (not_pending (by simp) (by simp)) idle

theorem noneTurn_leads (here : At text c (ch :: rest)) (fits : Fits st) (none : st.s = .none) :
    Leads inetPton text st (ch :: rest) (noneTurn c ch st) := by
  have bare : st.sourcerouting = false :=
    (modeFits_bare (by simp [none]) (by simp [none])).mp fits.mode
  have pending : Pending inetPton st (ch :: rest) ↔ st.d = 0 ∧ LongAddress inetPton (ch :: rest) :=
    pending_none none
  unfold noneTurn
  split_ifs with slash mul route stamp
  · refine ⟨⟨fits.size, fits.room, fits.written, bare⟩, rest, here.succ, ?_, ?_⟩
    · rw [measure_none none]
      show 2 * rest.length + (40 - st.d) + 1 < _
      omega
    · rw [pending, slash]
      exact iff_of_false not_false (by simp [LongAddress])
  · refine ⟨⟨fits.size, fits.room, fits.written, bare⟩, rest, here.succ, ?_, ?_⟩
    · rw [measure_none none]
      show 2 * rest.length + (40 - st.d) + 0 < _
      omega
    · rw [pending, mul]
      exact iff_of_false not_false (by simp [LongAddress])
  · exact routeTurn_leads here fits none route
  · exact stampTurn_leads here fits none route
  · show ¬ Pending inetPton st (ch :: rest)
    rw [pending]
    exact fun start => route start.2.1

theorem turn_leads (here : At text c (ch :: rest)) (fits : Fits st) (front : st.s ≠ .none → 0 < c)
    (room : st.d < 40) :
    Leads inetPton text st (ch :: rest) (turn inetPton text c ch st) := by
  unfold turn
  cases s : st.s
  case none => exact noneTurn_leads here fits s
  case slash => exact slashTurn_leads here fits s (front (by simp [s])) room
  case mul => exact mulTurn_leads here fits s room
  case rr => exact rrTurn_leads here fits s (front (by simp [s]))
  case time => exact not_pending (by simp [s]) (by simp [s])

/-! ## Whole texts -/

/-- The run stays within `data`, `buf` and the text and ends. If the text is not refused, the
length is at most 40 and every byte that was written lies before it. -/
def Safe : Access Outcome → Prop
  | .ok outcome => outcome.length ≤ 40 ∧ ∀ i ∈ outcome.written, i < outcome.length
  | .error (.fault _) => True
  | .error (.violation _) => False
  | .error .stuck => False

/-- The slot for the target fits, and `*len` then counts all of `data` before `d`. -/
theorem finish_routing (fits : Fits st) (rr : st.s = .rr) : Safe (finish st) := by
  have routing := (modeFits_rr rr).mp fits.mode
  obtain ⟨k, few, d⟩ := routing.slots
  have count := routing.count
  have size := fits.size
  unfold finish targetSlot
  cases sourcerouting : st.sourcerouting with
  | false =>
    rw [sourcerouting, if_neg Bool.false_ne_true] at count
    show Safe (match st.s with | .rr => _ | .time => _ | _ => _)
    rw [rr]
    show Safe (st.lenByte >>= _)
    rw [lenByte_eq routing.len (by omega), ok_bind, count]
    refine ⟨Nat.le_refl _, fun i mem => ?_⟩
    have before := fits.written i mem
    show i < 40
    omega
  | true =>
    rw [sourcerouting, if_pos rfl] at count
    have free : st.data.getD 2 0 < 37 := by
      rw [UInt8.lt_iff_toNat_lt, count]
      show st.d - 1 < 37
      omega
    have counted : (st.data.getD 2 0 + 4).toNat = st.d + 3 := by
      rw [UInt8.toNat_add, count]
      show (st.d - 1 + 4) % 256 = _
      omega
    obtain ⟨st', pushed, wrote⟩ := pushAll_spec
      { st with data := st.data.set 2 (st.data.getD 2 0 + 4), written := 2 :: st.written,
                lasthopoff := st.d }
      [0, 0, 0, 0] (by show st.d + 4 ≤ (st.data.set 2 _).length; rw [length_set]; omega)
    have d' : st'.d = st.d + 4 := wrote.d
    have size' : st'.data.length = 40 := by
      rw [wrote.size]
      exact (length_set ..).trans size
    have len' : st'.len = some 2 := by rw [wrote.others]; exact routing.len
    have rr' : st'.s = .rr := by rw [wrote.others]; exact rr
    have byte : st'.data.getD 2 0 = st.data.getD 2 0 + 4 := by
      rw [wrote.front 2 (by show 2 < st.d; omega)]
      show (st.data.set 2 _).getD 2 0 = _
      rw [getD_set (by omega), if_pos rfl]
    rw [if_pos rfl, lenByte_eq routing.len (by omega), ok_bind, if_pos free,
      addSlot_eq routing.len (by omega), ok_bind]
    show Safe (State.pushAll _ _ >>= _)
    rw [pushed, ok_bind, rr']
    show Safe (st'.lenByte >>= _)
    rw [lenByte_eq len' (by omega), ok_bind, byte, counted]
    refine ⟨?_, fun i mem => ?_⟩
    · show st.d + 3 + 1 ≤ 40
      omega
    · have before := wrote.fits_written (by
        intro i mem
        show i < st.d
        rcases mem_cons.mp mem with rfl | before
        · omega
        · exact fits.written i before) i mem
      show i < st.d + 3 + 1
      omega

theorem finish_safe (fits : Fits st) : Safe (finish st) := by
  have bare (mode : st.s ≠ .rr) : st.sourcerouting = false := by
    by_cases time : st.s = .time
    · exact ((modeFits_time time).mp fits.mode).bare
    · exact (modeFits_bare mode time).mp fits.mode
  have plain (rr : st.s ≠ .rr) : targetSlot st = .ok st := by
    unfold targetSlot
    rw [bare rr]
    rfl
  have all (rr : st.s ≠ .rr) (time : st.s ≠ .time) : finish st = .ok (st.outcome st.d) := by
    unfold finish
    rw [plain rr, ok_bind]
    split
    · contradiction
    · contradiction
    · rfl
  cases s : st.s
  case rr => exact finish_routing fits s
  case time =>
    have stamping := (modeFits_time s).mp fits.mode
    have size := fits.size
    have d := stamping.d
    unfold finish
    rw [plain (by simp [s]), ok_bind, s]
    show Safe (st.lenByte >>= _)
    rw [lenByte_eq stamping.len (by omega), ok_bind]
    refine ⟨?_, fun i mem => ?_⟩
    · show (st.data.getD 1 0).toNat ≤ 40
      rcases stamping.count with count | count <;> omega
    · have before := fits.written i mem
      show i < (st.data.getD 1 0).toNat
      rcases stamping.count with count | count <;> omega
  all_goals
    rw [all (by simp [s]) (by simp [s])]
    exact ⟨fits.room, fits.written⟩

/-- By induction on the turns that are left -/
theorem loop_safe_iff (nonzero : 0 ∉ text) {turns : Nat} (here : At text c rest)
    (fits : Fits st) (front : st.s ≠ .none → 0 < c) (room : st.d < 40)
    (enough : measure st rest < turns) :
    Safe (loop inetPton text turns c st) ↔ ¬ Pending inetPton st rest := by
  induction turns generalizing c rest st with
  | zero => exact absurd enough (Nat.not_lt_zero _)
  | succ turns ih =>
    rw [loop, charAt_eq here, ok_bind]
    cases rest with
    | nil => exact iff_of_true (finish_safe fits) fun pending => pending.more rfl
    | cons ch rest =>
      have more : ch ≠ 0 := by
        rintro rfl
        refine nonzero (mem_of_mem_drop (i := c) ?_)
        rw [here.drop]
        exact mem_cons_self
      have leads : Leads inetPton text st (ch :: rest) (turn inetPton text c ch st) :=
        turn_leads here fits front room
      show Safe (if ch = 0 then _ else turn inetPton text c ch st >>= _) ↔ _
      rw [if_neg more]
      generalize turn inetPton text c ch st = result at leads
      match result, leads with
      | .error (.fault _), idle => exact iff_of_true trivial idle
      | .error (.violation _), pending => exact iff_of_false not_false (not_not_intro pending)
      | .ok (.goOn c' st'), ⟨fits', rest', there, fewer, same⟩ =>
        rw [ok_bind]
        show Safe (if st'.d = st'.data.length then finish st' else _) ↔ _
        rw [fits'.size, ← same]
        by_cases full : st'.d = 40
        · rw [if_pos full]
          refine iff_of_true (finish_safe fits') fun pending => ?_
          have less := pending.d_lt fits'
          omega
        · have room' : st'.d < 40 := Nat.lt_of_le_of_ne fits'.room full
          rw [if_neg full, if_pos room']
          exact ih there fits' (fun _ => Nat.succ_pos _) room' (by omega)
      | .ok (.after st'), ⟨fits', full, idle⟩ =>
        exact iff_of_true ⟨fits'.room, fits'.written⟩ idle

/-- Every access stays in bounds exactly if the text does not lead to an address of 32 characters
or more. -/
theorem parseIpOptions_safe_iff (inetPton : InetPton) (txt : CString)
    (firsthopoff lasthopoff : Nat) :
    Safe (parseIpOptions inetPton txt.bytes 40 firsthopoff lasthopoff) ↔
      ¬ LongAddress inetPton txt.bytes := by
  have run : Safe (parseIpOptions inetPton txt.bytes 40 firsthopoff lasthopoff) ↔ _ :=
    loop_safe_iff txt.nonzero (At.start txt.bytes) (start_fits firsthopoff lasthopoff)
      (fun other => absurd rfl other) (Nat.zero_lt_succ 39)
      (by show 2 * txt.bytes.length + (40 - 0) + 0 < _; omega)
  have first : Pending inetPton (start 40 firsthopoff lasthopoff) txt.bytes ↔
      LongAddress inetPton txt.bytes := by
    rw [pending_none rfl]
    exact and_iff_right rfl
  rw [run, first]

/-- `R` and 32 digits -/
def recordRoute : CString := ⟨0x52 :: List.replicate 32 0x31, by simp⟩

/-- The zero behind the digits does not fit. -/
theorem recordRoute_overflow : parseIpOptions (fun _ => none) recordRoute.bytes 40 0 0 =
      .error (.violation (.buf 32)) ∧
    ¬ Safe (parseIpOptions (fun _ => none) recordRoute.bytes 40 0 0) := by
  have run : parseIpOptions (fun _ => none) recordRoute.bytes 40 0 0 =
      .error (.violation (.buf 32)) := by
    rfl
  rw [run]
  exact ⟨rfl, not_false⟩

end Nmap.Packet.IpOptions
