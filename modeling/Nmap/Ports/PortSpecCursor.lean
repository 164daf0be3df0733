import Mathlib.Data.List.TakeWhile
import Nmap.Base.Cursor
import Nmap.Ports.PortUnion

/-!
# What `getpts_aux` touches (`scan_lists.cc`)

`getpts_aux` once more, with its cursor into the text, its buffer for a service mask and its
accesses to the port table. It does what the model on lists does, but for one thing: at the end of
the text the test for `T:` and the like looks at the character behind the terminating zero.
-/

namespace Nmap.Ports.PortSpec

open Nmap.Base Nmap.Base.Cursor Nmap.Ports List

/-! ## Accesses -/

/-- An access out of bounds -/
inductive Violation
  /-- a character behind the terminating zero -/
  | read (i : Nat)
  /-- a write to `servmask` -/
  | servmask (i : Nat)
  /-- an element of `porttbl` -/
  | porttbl (i : Nat)
  deriving DecidableEq

/-- How a run ends without a result. It is stuck if the steps are not enough that it is given. -/
inductive Stop
  | fatal (fault : Fault)
  | violation (violation : Violation)
  | stuck
  deriving DecidableEq

abbrev Access := Except Stop

/-- What may end in a fatal error, but in nothing else -/
def within {α : Type} : Except Fault α → Access α
  | .ok a => .ok a
  | .error fault => .error (.fatal fault)

def fatal {α : Type} (fault : Fault) : Access α := .error (.fatal fault)

variable (text : Bytes)

/-- `*(current_range + ...)` -/
def charAt (i : Nat) : Access UInt8 := Cursor.charAt (fun i => .violation (.read i)) text i

/-- A loop that moves `current_range` on. There are no more steps than characters. -/
def skipWhile (p : UInt8 → Bool) (i : Nat) : Access Nat :=
  Cursor.skipWhile (fun i => .violation (.read i)) .stuck text p (text.length + 1) i

/-- `servmask[i++] = c`. What has been written are the characters before `i`. -/
def store (servmask : Bytes) (c : UInt8) : Access Bytes :=
  if servmask.length < 128 then .ok (servmask ++ [c])
  else .error (.violation (.servmask servmask.length))

/-- The loop that fills `servmask` -/
def fillMask : Nat → Nat → Bytes → Access (Nat × Bytes)
  | 0, _, _ => .error .stuck
  | steps + 1, i, servmask => do
    let c ← charAt text i
    if c ≠ 0 ∧ !isSpace c ∧ c ≠ 0x2c ∧ c ≠ 0x5d then do
      let servmask ← store servmask c
      if 127 ≤ servmask.length then fatal .maskTooLong
      else fillMask steps (i + 1) servmask
    else .ok (i, servmask)

/-- `strtol` at a digit, and the check of what it returns -/
def numberAt (restriction : Finset Proto) (i : Nat) : Access (Nat × Nat) := do
  let endptr ← skipWhile text (isDigitOf 10) i
  let n := (strtol 10 ((text.drop i).take (endptr - i))).1
  if n < 0 ∨ (maxNumber restriction : Int) < n then
    fatal (if .ip ∈ restriction then .protocolBounds else .portBounds)
  else .ok (n.toNat, endptr)

/-- The number after a hyphen, or the last one possible -/
def lastAt (changeRangeType : Bool) (restriction : Finset Proto) (i : Nat) :
    Access (Nat × Nat) := do
  let c ← charAt text i
  if c = 0 ∨ c = 0x2c ∨ c = 0x5d then .ok (maxNumber restriction, i)
  else if isDigit c then numberAt text restriction i
  else fatal (.illegal 486 changeRangeType)

/-- "Now I have a rangestart, time to go after rangeend" -/
def rangeEndAt (changeRangeType : Bool) (restriction : Finset Proto) (rangestart i : Nat) :
    Access (Nat × Nat) := do
  let c ← charAt text i
  if c = 0 ∨ c = 0x2c ∨ c = 0x5d then .ok (rangestart, i)
  else if c = 0x2d then do
    let (rangeend, i) ← lastAt text changeRangeType restriction (i + 1)
    if rangeend < rangestart then fatal (.backwards (.ip ∈ restriction) rangestart rangeend)
    else .ok (rangeend, i)
  else fatal (.illegal 487 changeRangeType)

def addPort (T : Tables) (nested : Bool) (restriction : Finset Proto) (porttbl : PortTable)
    (rangestart : Nat) : Access PortTable :=
  if rangestart < 65536 then .ok (addNumber T nested restriction porttbl rangestart)
  else .error (.violation (.porttbl rangestart))

/-- "Now I have a rangestart and a rangeend, so I can add these ports" -/
def addRange (T : Tables) (nested : Bool) (restriction : Finset Proto) (porttbl : PortTable)
    (rangestart rangeend : Nat) : Access PortTable :=
  (List.range' rangestart (rangeend + 1 - rangestart)).foldlM (addPort T nested restriction)
    porttbl

/-- What a turn of the loop leads to -/
inductive Next
  | return_ (porttbl : PortTable)
  | goOn (restriction : Finset Proto) (i : Nat) (porttbl : PortTable)

/-- A turn from `rangestart` on -/
def rangeTurn (T : Tables) (nested changeRangeType : Bool) (restriction : Finset Proto)
    (rangestart i : Nat) (porttbl : PortTable) : Access Next := do
  let (rangeend, i) ← rangeEndAt text changeRangeType restriction rangestart i
  let porttbl ← addRange T nested restriction porttbl rangestart rangeend
  let i ← skipWhile text isSpace i
  let c ← charAt text i
  if c = 0x5d then
    if nested then .ok (.return_ porttbl) else fatal .unexpectedBracket
  else if c ≠ 0 ∧ c ≠ 0x2c then fatal (.illegal 488 changeRangeType)
  else .ok (.goOn restriction (if c = 0x2c then i + 1 else i) porttbl)

def maskTurn (T : Tables) (nested : Bool) (restriction : Finset Proto) (i : Nat)
    (porttbl : PortTable) : Access Next := do
  let (i, servmask) ← fillMask text (text.length + 1) i []
  let c ← charAt text i
  let _ ← store servmask 0
  let porttbl ← within (addEntry T porttbl ⟨restriction, nested, .mask servmask⟩)
  .ok (.goOn restriction (if c ≠ 0 ∧ c ≠ 0x5d then i + 1 else i) porttbl)

/-- A turn that reads brackets, with the recursive call -/
def bracketTurn (call : Finset Proto → Nat → PortTable → Access PortTable)
    (restriction : Finset Proto) (i : Nat) (porttbl : PortTable) : Access Next := do
  let porttbl ← call restriction (i + 1) porttbl
  let i ← skipWhile text (fun c => c ≠ 0x5d && c ≠ 0) (i + 1)
  let c ← charAt text i
  let i := if c = 0x5d then i + 1 else i
  let c ← charAt text i
  .ok (.goOn restriction (if c = 0x2c then i + 1 else i) porttbl)

/-- `change_range_type && *(current_range+1) == ':'` -/
def colonAt (changeRangeType : Bool) (i : Nat) : Access Bool :=
  if changeRangeType then do
    let c ← charAt text (i + 1)
    .ok (c = 0x3a)
  else .ok false

def turnAt (T : Tables) (call : Finset Proto → Nat → PortTable → Access PortTable)
    (nested changeRangeType : Bool) (restriction : Finset Proto) (i : Nat)
    (porttbl : PortTable) : Access Next := do
  let i ← skipWhile text isSpace i
  let colon ← colonAt text changeRangeType i
  let c ← charAt text i
  if colon then do
    let restriction ← within (readProtocol c)
    .ok (.goOn restriction (i + 2) porttbl)
  else if c = 0x5b then
    if nested then fatal .nestedBrackets else bracketTurn text call restriction i porttbl
  else if c = 0x5d then
    if nested then .ok (.return_ porttbl) else fatal .unexpectedBracket
  else if c = 0x2d then
    rangeTurn text T nested changeRangeType restriction (if .ip ∈ restriction then 0 else 1) i
      porttbl
  else if isDigit c then do
    let (rangestart, i) ← numberAt text restriction i
    let i ← skipWhile text isSpace i
    rangeTurn text T nested changeRangeType restriction rangestart i porttbl
  else if isLower c ∨ c = 0x2a ∨ c = 0x3f then maskTurn text T nested restriction i porttbl
  else fatal (.illegal 485 changeRangeType)

/-- `getpts_aux`, with so many turns and nested calls at most. The call in brackets has the
default for `change_range_type`. -/
def getptsAuxAt (T : Tables) :
    Nat → Bool → Bool → Finset Proto → Nat → PortTable → Access PortTable
  | 0, _, _, _, _, _ => .error .stuck
  | turns + 1, changeRangeType, nested, restriction, i, porttbl => do
    let call := getptsAuxAt T turns true true
    match ← turnAt text T call nested changeRangeType restriction i porttbl with
    | .return_ porttbl => .ok porttbl
    | .goOn restriction i porttbl =>
      let c ← charAt text i
      if c ≠ 0 then getptsAuxAt T turns changeRangeType nested restriction i porttbl
      else .ok porttbl

/-! ## Reading through the cursor -/

theorem fatal_bind {α β : Type} (fault : Fault) (f : α → Access β) :
    (fatal fault >>= f) = fatal fault := rfl

variable {text : Bytes} {i : Nat} {rest : Bytes}

theorem charAt_eq (here : At text i rest) : charAt text i = .ok (rest.headD 0) :=
  here.charAt_eq _

theorem skipWhile_eq {p : UInt8 → Bool} (terminated : p 0 = false) (here : At text i rest) :
    ∃ j, skipWhile text p i = .ok j ∧ At text j (rest.dropWhile p) ∧
      (text.drop i).take (j - i) = rest.takeWhile p := by
  refine skipWhile_spec _ _ terminated here ?_
  have length := here.length
  omega

theorem nonzero_of_at (nonzero : 0 ∉ text) (here : At text i rest) : 0 ∉ rest := by
  rw [← here.drop]
  exact fun mem => nonzero (mem_of_mem_drop mem)

/-- The cursor reads what the list does. -/
def Agrees {α : Type} (text : Bytes) (low : Access (α × Nat)) :
    Except Fault (α × Bytes) → Prop
  | .ok (a, rest) => ∃ j, low = .ok (a, j) ∧ At text j rest
  | .error fault => low = fatal fault

theorem atEnd_iff (nonzero : 0 ∉ rest) :
    (rest.headD 0 = 0 ∨ rest.headD 0 = 0x2c ∨ rest.headD 0 = 0x5d) ↔ atEnd rest = true := by
  cases rest with
  | nil => simp [atEnd]
  | cons c rest =>
    have c_nonzero : c ≠ 0 := fun zero => nonzero (by simp [zero])
    simp [atEnd, c_nonzero]

theorem numberAt_agrees (restriction : Finset Proto) {c : UInt8} (digit : isDigit c = true)
    (here : At text i (c :: rest)) :
    Agrees text (numberAt text restriction i) (readNumber restriction (c :: rest)) := by
  obtain ⟨isDigit, bare⟩ := isDigit_bare digit
  obtain ⟨j, skipped, there, taken⟩ := skipWhile_eq (p := isDigitOf 10) rfl here
  rw [takeWhile_cons_of_pos isDigit] at taken
  rw [dropWhile_cons_of_pos isDigit] at there
  have all : ∀ d ∈ c :: rest.takeWhile (isDigitOf 10), isDigitOf 10 d = true := by
    intro d mem
    rcases mem_cons.mp mem with rfl | mem
    · exact isDigit
    · exact mem_takeWhile_imp mem
  have stops : ∀ d ∈ (rest.dropWhile (isDigitOf 10)).head?, isDigitOf 10 d = false := by
    intro d mem
    have stop := List.head?_dropWhile_not (isDigitOf 10) rest
    rw [Option.mem_def.mp mem] at stop
    exact stop
  have whole := strtol_digits all stops (fun absurd => by cases absurd) bare
  rw [cons_append, takeWhile_append_dropWhile] at whole
  have digits := strtol_digits all (fun d (mem : d ∈ ([] : Bytes).head?) => by cases mem)
    (fun absurd => by cases absurd) bare
  rw [append_nil] at digits
  rw [numberAt, skipped, ok_bind, taken, digits, readNumber, whole]
  dsimp only
  split
  · rfl
  · exact ⟨j, rfl, there⟩

theorem lastAt_agrees (nonzero : 0 ∉ text) (changeRangeType : Bool)
    (restriction : Finset Proto) (here : At text i rest) :
    Agrees text (lastAt text changeRangeType restriction i)
      (readLast changeRangeType restriction rest) := by
  rw [lastAt, charAt_eq here, ok_bind, readLast]
  simp only [atEnd_iff (nonzero_of_at nonzero here)]
  split
  · exact ⟨i, rfl, here⟩
  · cases rest with
    | nil => exact rfl
    | cons d rest =>
      rw [headD_cons, List.head?_cons, Option.any_some]
      split
      · exact numberAt_agrees restriction ‹_› here
      · exact rfl

theorem rangeEndAt_agrees (nonzero : 0 ∉ text) (changeRangeType : Bool)
    (restriction : Finset Proto) (rangestart : Nat) (here : At text i rest) :
    Agrees text (rangeEndAt text changeRangeType restriction rangestart i)
      (readRangeEnd changeRangeType restriction rangestart rest) := by
  rw [rangeEndAt, charAt_eq here, ok_bind]
  simp only [atEnd_iff (nonzero_of_at nonzero here)]
  cases rest with
  | nil => exact ⟨i, rfl, here⟩
  | cons c rest =>
    rw [readRangeEnd]
    by_cases ends : atEnd (c :: rest) = true
    · rw [if_pos ends, if_pos ends]
      exact ⟨i, rfl, here⟩
    rw [if_neg ends, if_neg ends, headD_cons]
    by_cases hyphen : c = 0x2d
    · rw [if_pos hyphen, if_pos hyphen]
      have last := lastAt_agrees nonzero changeRangeType restriction here.succ
      cases read : readLast changeRangeType restriction rest with
      | error fault =>
        rw [read] at last
        rw [show lastAt _ _ _ _ = fatal fault from last, fatal_bind]
        exact rfl
      | ok result =>
        obtain ⟨rangeend, rest'⟩ := result
        rw [read] at last
        obtain ⟨j, low, there⟩ := last
        rw [low, ok_bind]
        show Agrees text _ (if rangeend < rangestart then _ else _)
        dsimp only
        split
        · exact rfl
        · exact ⟨j, rfl, there⟩
    · rw [if_neg hyphen, if_neg hyphen]
      exact rfl

theorem addRange_eq (T : Tables) (nested : Bool) (restriction : Finset Proto)
    (porttbl : PortTable) (rangestart : Nat) {rangeend : Nat}
    (bounded : rangeend ≤ maxNumber restriction) :
    addRange T nested restriction porttbl rangestart rangeend =
      within (addEntry T porttbl ⟨restriction, nested, .range rangestart rangeend⟩) := by
  have le := bounded.trans (maxNumber_le restriction)
  have loop : ∀ (ports : List Nat) (porttbl : PortTable), (∀ port ∈ ports, port ≤ 65535) →
      ports.foldlM (addPort T nested restriction) porttbl =
        .ok (ports.foldl (addNumber T nested restriction) porttbl) := by
    intro ports
    induction ports with
    | nil => exact fun _ _ => rfl
    | cons port ports ih =>
      intro porttbl inside
      have first := inside port mem_cons_self
      rw [foldlM_cons, addPort, if_pos (by omega), ok_bind]
      exact ih _ fun port mem => inside port (mem_cons_of_mem _ mem)
  refine loop _ porttbl fun port mem => ?_
  rw [mem_range'_1] at mem
  omega

/-- What a turn leads to where the list reads the same -/
def TurnAgrees (text : Bytes) (T : Tables)
    (call : Finset Proto → Nat → PortTable → Access PortTable) (nested : Bool)
    (restriction : Finset Proto) (porttbl : PortTable) (low : Access Next) :
    Except Fault Turn → Prop
  | .error fault => low = fatal fault
  | .ok (.restrict restriction' rest) =>
    ∃ j, At text j rest ∧ low = .ok (.goOn restriction' j porttbl)
  | .ok .close => low = .ok (.return_ porttbl)
  | .ok (.bracket inside) => ∃ j k, At text j inside ∧ At text k (afterBracket inside) ∧
      low = call restriction j porttbl >>= fun porttbl => .ok (.goOn restriction k porttbl)
  | .ok (.item item none) =>
    low = within (addEntry T porttbl ⟨restriction, nested, item⟩) >>= fun porttbl =>
      .ok (.return_ porttbl)
  | .ok (.item item (some rest)) => ∃ j, At text j rest ∧
      low = within (addEntry T porttbl ⟨restriction, nested, item⟩) >>= fun porttbl =>
        .ok (.goOn restriction j porttbl)

variable {T : Tables} {call : Finset Proto → Nat → PortTable → Access PortTable}
  {nested changeRangeType : Bool} {restriction : Finset Proto} {porttbl : PortTable}

theorem rangeTurn_agrees (nonzero : 0 ∉ text) {rangestart : Nat}
    (start : rangestart ≤ maxNumber restriction) (here : At text i rest) :
    TurnAgrees text T call nested restriction porttbl
      (rangeTurn text T nested changeRangeType restriction rangestart i porttbl)
      (readRange nested changeRangeType restriction rangestart rest) := by
  have ends := rangeEndAt_agrees nonzero changeRangeType restriction rangestart here
  rw [rangeTurn, readRange]
  cases read : readRangeEnd changeRangeType restriction rangestart rest with
  | error fault =>
    rw [read] at ends
    rw [show rangeEndAt _ _ _ _ _ = fatal fault from ends, fatal_bind]
    exact rfl
  | ok result =>
    obtain ⟨rangeend, rest'⟩ := result
    rw [read] at ends
    obtain ⟨j, low, there⟩ := ends
    obtain ⟨k, skipped, behind, -⟩ := skipWhile_eq (p := isSpace) rfl there
    rw [low, ok_bind]
    dsimp only
    rw [addRange_eq T nested restriction porttbl rangestart (readRangeEnd_bounded start read)]
    -- adding a range is never an error
    obtain ⟨added, adds⟩ : ∃ added, addEntry T porttbl
        ⟨restriction, nested, .range rangestart rangeend⟩ = .ok added := ⟨_, rfl⟩
    rw [adds, show within (.ok added) = .ok added from rfl, ok_bind, skipped, ok_bind,
      charAt_eq behind, ok_bind]
    show TurnAgrees _ _ _ _ _ _ _ (afterRange nested changeRangeType rest' >>= fun rest =>
      pure (.item (.range rangestart rangeend) rest))
    rw [afterRange]
    have behind_nonzero := nonzero_of_at nonzero behind
    cases list : rest'.dropWhile isSpace with
    | nil =>
      rw [list] at behind
      refine ⟨k, behind, ?_⟩
      rw [adds]
      rfl
    | cons c rest'' =>
      rw [list] at behind behind_nonzero
      have c_nonzero : c ≠ 0 := fun zero => behind_nonzero (by simp [zero])
      rw [headD_cons]
      dsimp only
      by_cases close : c = 0x5d
      · rw [if_pos close, if_pos close]
        cases nested
        · exact rfl
        · show _ = within (addEntry _ _ _) >>= _
          rw [adds]
          rfl
      rw [if_neg close, if_neg close]
      by_cases comma : c = 0x2c
      · rw [if_neg (fun other => other.2 comma), if_pos comma, if_pos comma]
        refine ⟨k + 1, behind.succ, ?_⟩
        rw [adds]
        rfl
      · rw [if_pos ⟨c_nonzero, comma⟩, if_neg comma]
        exact rfl

/-- The loop over a service mask gives up before the buffer is full. -/
theorem fillMask_spec (nonzero : 0 ∉ text) {servmask : Bytes} (here : At text i rest)
    {steps : Nat} (enough : rest.length < steps) (room : servmask.length < 127) :
    if 127 ≤ (servmask ++ rest.takeWhile inMask).length then
      fillMask text steps i servmask = fatal .maskTooLong
    else ∃ j, fillMask text steps i servmask = .ok (j, servmask ++ rest.takeWhile inMask) ∧
      At text j (rest.dropWhile inMask) := by
  induction steps generalizing i rest servmask with
  | zero => exact absurd enough (Nat.not_lt_zero _)
  | succ steps ih =>
    rw [fillMask, charAt_eq here, ok_bind]
    cases rest with
    | nil =>
      rw [takeWhile_nil, append_nil, if_neg (by omega)]
      exact ⟨i, rfl, here⟩
    | cons c rest =>
      have c_nonzero : c ≠ 0 := fun zero => nonzero_of_at nonzero here (by simp [zero])
      have goesOn : (c ≠ 0 ∧ !isSpace c ∧ c ≠ 0x2c ∧ c ≠ 0x5d) ↔ inMask c = true := by
        simp [inMask, c_nonzero, and_assoc]
      rw [headD_cons]
      by_cases inside : inMask c = true
      · have stored : store servmask c = .ok (servmask ++ [c]) := if_pos (by omega)
        rw [if_pos (goesOn.mpr inside), stored, ok_bind,
          takeWhile_cons_of_pos inside, dropWhile_cons_of_pos inside,
          append_cons]
        by_cases full : 127 ≤ (servmask ++ [c]).length
        · rw [if_pos full, if_pos (by rw [length_append]; omega)]
        · rw [if_neg full]
          exact ih here.succ (Nat.lt_of_succ_lt_succ enough) (by omega)
      · rw [if_neg fun yes => inside (goesOn.mp yes), takeWhile_cons_of_neg inside,
          dropWhile_cons_of_neg inside, append_nil, if_neg (by omega)]
        exact ⟨i, rfl, here⟩

theorem maskTurn_agrees (nonzero : 0 ∉ text) (here : At text i rest) :
    TurnAgrees text T call nested restriction porttbl
      (maskTurn text T nested restriction i porttbl)
      (if 127 ≤ (rest.takeWhile inMask).length then .error .maskTooLong
      else .ok (.item (.mask (rest.takeWhile inMask))
        (some (afterMask (rest.dropWhile inMask))))) := by
  have enough : rest.length < text.length + 1 := by
    have length := here.length
    omega
  have filled := fillMask_spec nonzero here enough (show ([] : Bytes).length < 127 by decide)
  rw [nil_append] at filled
  rw [maskTurn]
  by_cases long : 127 ≤ (rest.takeWhile inMask).length
  · rw [if_pos long] at filled
    rw [if_pos long, filled, fatal_bind]
    exact rfl
  · rw [if_neg long] at filled
    obtain ⟨j, low, there⟩ := filled
    have stored : ∃ string, store (rest.takeWhile inMask) 0 = .ok string :=
      ⟨_, if_pos (by omega)⟩
    obtain ⟨string, stored⟩ := stored
    rw [if_neg long, low, ok_bind]
    dsimp only
    rw [charAt_eq there, ok_bind, stored, ok_bind]
    have behind := nonzero_of_at nonzero there
    cases list : rest.dropWhile inMask with
    | nil =>
      rw [list] at there
      exact ⟨j, there, rfl⟩
    | cons c rest' =>
      rw [list] at there behind
      have c_nonzero : c ≠ 0 := fun zero => behind (by simp [zero])
      rw [headD_cons, afterMask]
      by_cases close : c = 0x5d
      · rw [if_pos close, if_neg fun skips => skips.2 close]
        exact ⟨j, there, rfl⟩
      · rw [if_neg close, if_pos ⟨c_nonzero, close⟩]
        exact ⟨j + 1, there.succ, rfl⟩

theorem bracketTurn_agrees (nonzero : 0 ∉ text) {c : UInt8} (here : At text i (c :: rest)) :
    TurnAgrees text T call nested restriction porttbl
      (bracketTurn text call restriction i porttbl) (.ok (.bracket rest)) := by
  have behind_nonzero := nonzero_of_at nonzero here.succ
  obtain ⟨j, skipped, there, -⟩ :=
    skipWhile_eq (p := fun c => c ≠ 0x5d && c ≠ 0) (by decide) here.succ
  have same : rest.dropWhile (fun c => c ≠ 0x5d && c ≠ 0) =
      rest.dropWhile fun c => c ≠ 0x5d := by
    clear here skipped there
    induction rest with
    | nil => rfl
    | cons d rest ih =>
      have d_nonzero : d ≠ 0 := fun zero => behind_nonzero (by simp [zero])
      have rest_nonzero : 0 ∉ rest := fun mem => behind_nonzero (mem_cons_of_mem _ mem)
      rw [dropWhile_cons, dropWhile_cons, ih rest_nonzero]
      simp [d_nonzero]
  rw [same] at there
  -- behind the closing bracket, if there is one
  obtain ⟨k, closed, behind⟩ : ∃ k, (if (rest.dropWhile fun c => c ≠ 0x5d).headD 0 = 0x5d then j + 1
      else j) = k ∧ At text k (rest.dropWhile fun c => c ≠ 0x5d).tail := by
    cases list : rest.dropWhile fun c => c ≠ 0x5d with
    | nil =>
      rw [list] at there
      exact ⟨j, rfl, there⟩
    | cons d rest' =>
      rw [list] at there
      have stop := List.head?_dropWhile_not (fun c : UInt8 => c ≠ 0x5d) rest
      rw [list, List.head?_cons] at stop
      have close : d = 0x5d := by simpa using stop
      exact ⟨j + 1, if_pos close, there.succ⟩
  obtain ⟨l, passed, after⟩ : ∃ l,
      (if (rest.dropWhile fun c => c ≠ 0x5d).tail.headD 0 = 0x2c then k + 1 else k) = l ∧
        At text l (afterBracket rest) := by
    rw [afterBracket]
    cases list : (rest.dropWhile fun c => c ≠ 0x5d).tail with
    | nil =>
      rw [list] at behind
      exact ⟨k, rfl, behind⟩
    | cons d rest' =>
      rw [list] at behind
      simp only [headD_cons, List.head?_cons, Option.some.injEq, tail_cons]
      by_cases comma : d = 0x2c
      · rw [if_pos comma]
        exact ⟨k + 1, if_pos comma, behind.succ⟩
      · rw [if_neg comma]
        exact ⟨k, if_neg comma, behind⟩
  refine ⟨i + 1, l, here.succ, after, ?_⟩
  rw [bracketTurn]
  congr 1
  funext porttbl
  rw [skipped, ok_bind, charAt_eq there, ok_bind]
  dsimp only
  rw [closed, charAt_eq behind, ok_bind, passed]

/-- A turn that does not begin with nothing but blanks left -/
theorem turnAt_agrees (nonzero : 0 ∉ text) (here : At text i rest)
    (more : changeRangeType = true → rest.dropWhile isSpace ≠ []) :
    TurnAgrees text T call nested restriction porttbl
      (turnAt text T call nested changeRangeType restriction i porttbl)
      (readTurn nested changeRangeType restriction rest) := by
  obtain ⟨j, skipped, there, -⟩ := skipWhile_eq (p := isSpace) rfl here
  rw [turnAt, skipped, ok_bind, readTurn]
  cases list : rest.dropWhile isSpace with
  | nil =>
    rw [list] at there
    have off : changeRangeType = false := by
      cases changeRangeType
      · rfl
      · exact absurd list (more rfl)
    subst off
    rw [show colonAt text false j = .ok false from rfl, ok_bind, charAt_eq there, ok_bind]
    exact rfl
  | cons c tail =>
    rw [list] at there
    have colon : colonAt text changeRangeType j =
        .ok (changeRangeType && tail.head? = some 0x3a) := by
      cases changeRangeType
      · rfl
      · rw [colonAt, if_pos rfl, charAt_eq there.succ, ok_bind]
        cases tail with
        | nil => rfl
        | cons d tail => simp
    rw [colon, ok_bind, charAt_eq there, ok_bind, headD_cons]
    dsimp only
    by_cases colon : (changeRangeType && decide (tail.head? = some 0x3a)) = true
    · rw [if_pos colon, if_pos colon]
      cases readProtocol c with
      | error fault => exact rfl
      | ok restriction' =>
        cases tail with
        | nil => simp at colon
        | cons d tail => exact ⟨j + 2, there.succ.succ, rfl⟩
    rw [if_neg colon, if_neg colon]
    by_cases open_ : c = 0x5b
    · rw [if_pos open_, if_pos open_]
      cases nested
      · exact bracketTurn_agrees nonzero there
      · exact rfl
    rw [if_neg open_, if_neg open_]
    by_cases close : c = 0x5d
    · rw [if_pos close, if_pos close]
      cases nested
      · exact rfl
      · exact rfl
    rw [if_neg close, if_neg close]
    by_cases hyphen : c = 0x2d
    · rw [if_pos hyphen, if_pos hyphen]
      refine rangeTurn_agrees nonzero ?_ there
      unfold maxNumber
      split <;> decide
    rw [if_neg hyphen, if_neg hyphen]
    by_cases digit : isDigit c = true
    · rw [if_pos digit, if_pos digit]
      have number := numberAt_agrees restriction digit there
      cases read : readNumber restriction (c :: tail) with
      | error fault =>
        rw [read] at number
        rw [show numberAt _ _ _ = fatal fault from number, fatal_bind]
        exact rfl
      | ok result =>
        obtain ⟨rangestart, rest'⟩ := result
        rw [read] at number
        obtain ⟨k, low, behind⟩ := number
        obtain ⟨l, skipped', after, -⟩ := skipWhile_eq (p := isSpace) rfl behind
        rw [low, ok_bind]
        dsimp only
        rw [skipped', ok_bind]
        exact rangeTurn_agrees nonzero (readNumber_bounded read) after
    rw [if_neg digit, if_neg digit]
    by_cases mask : isLower c ∨ c = 0x2a ∨ c = 0x3f
    · have mask' : (isLower c || c = 0x2a || c = 0x3f) = true := by
        simpa [or_assoc] using mask
      rw [if_pos mask, if_pos mask']
      exact maskTurn_agrees nonzero there
    · have mask' : ¬ (isLower c || c = 0x2a || c = 0x3f) = true := by
        simpa [or_assoc] using mask
      rw [if_neg mask, if_neg mask']
      exact rfl

/-! ## Whole runs -/

/-- A turn begins where nothing but blanks is left, while `T:` and the like may be given. -/
inductive BlankTurn (T : Tables) : Bool → Bool → Finset Proto → Bytes → PortTable → Prop
  | here {nested : Bool} {restriction : Finset Proto} {text : Bytes} {porttbl : PortTable}
      (blank : text.dropWhile isSpace = []) : BlankTurn T true nested restriction text porttbl
  | restrict {changeRangeType nested : Bool} {restriction restriction' : Finset Proto}
      {text rest : Bytes} {porttbl : PortTable}
      (read : readTurn nested changeRangeType restriction text =
        .ok (.restrict restriction' rest))
      (more : rest ≠ []) (later : BlankTurn T changeRangeType nested restriction' rest porttbl) :
      BlankTurn T changeRangeType nested restriction text porttbl
  | inside {changeRangeType nested : Bool} {restriction : Finset Proto} {text inside : Bytes}
      {porttbl : PortTable}
      (read : readTurn nested changeRangeType restriction text = .ok (.bracket inside))
      (later : BlankTurn T true true restriction inside porttbl) :
      BlankTurn T changeRangeType nested restriction text porttbl
  | behind {changeRangeType nested : Bool} {restriction : Finset Proto} {text inside : Bytes}
      {porttbl porttbl' : PortTable}
      (read : readTurn nested changeRangeType restriction text = .ok (.bracket inside))
      (call : scanExpr (addEntry T) true (inside.length + 1) true restriction inside porttbl =
        .ok porttbl')
      (more : afterBracket inside ≠ [])
      (later : BlankTurn T changeRangeType nested restriction (afterBracket inside) porttbl') :
      BlankTurn T changeRangeType nested restriction text porttbl
  | item {changeRangeType nested : Bool} {restriction : Finset Proto} {text rest : Bytes}
      {item : Item} {porttbl porttbl' : PortTable}
      (read : readTurn nested changeRangeType restriction text = .ok (.item item (some rest)))
      (added : addEntry T porttbl ⟨restriction, nested, item⟩ = .ok porttbl')
      (more : rest ≠ []) (later : BlankTurn T changeRangeType nested restriction rest porttbl') :
      BlankTurn T changeRangeType nested restriction text porttbl

/-- Where a turn begins with more than blanks, what it reads decides. -/
theorem blankTurn_iff (more : changeRangeType = true → rest.dropWhile isSpace ≠ []) :
    BlankTurn T changeRangeType nested restriction rest porttbl ↔
      match readTurn nested changeRangeType restriction rest with
      | .error _ => False
      | .ok (.restrict restriction' rest') =>
        rest' ≠ [] ∧ BlankTurn T changeRangeType nested restriction' rest' porttbl
      | .ok .close => False
      | .ok (.bracket inside) => BlankTurn T true true restriction inside porttbl ∨
          ∃ porttbl', scanExpr (addEntry T) true (inside.length + 1) true restriction inside
              porttbl = .ok porttbl' ∧ afterBracket inside ≠ [] ∧
            BlankTurn T changeRangeType nested restriction (afterBracket inside) porttbl'
      | .ok (.item _ none) => False
      | .ok (.item item (some rest')) =>
        ∃ porttbl', addEntry T porttbl ⟨restriction, nested, item⟩ = .ok porttbl' ∧
          rest' ≠ [] ∧ BlankTurn T changeRangeType nested restriction rest' porttbl' := by
  constructor
  · intro blankTurn
    cases blankTurn with
    | here blank => exact absurd blank (more rfl)
    | restrict read more later =>
      rw [read]
      exact ⟨more, later⟩
    | inside read later =>
      rw [read]
      exact .inl later
    | behind read call more later =>
      rw [read]
      exact .inr ⟨_, call, more, later⟩
    | item read added more later =>
      rw [read]
      exact ⟨_, added, more, later⟩
  · intro cases_
    split at cases_
    · cases cases_
    · exact .restrict ‹_› cases_.1 cases_.2
    · cases cases_
    · rcases cases_ with later | ⟨_, call, more, later⟩
      · exact .inside ‹_› later
      · exact .behind ‹_› call more later
    · cases cases_
    · obtain ⟨_, added, more, later⟩ := cases_
      exact .item ‹_› added more later

theorem scanExpr_enough {σ : Type} (add : σ → Entry → Except Fault σ) {fuel : Nat} {s : σ}
    (enough : rest.length < fuel) :
    scanExpr add changeRangeType fuel nested restriction rest s =
      scanExpr add changeRangeType (rest.length + 1) nested restriction rest s := by
  induction fuel with
  | zero => exact absurd enough (Nat.not_lt_zero _)
  | succ fuel ih =>
    rcases Nat.eq_or_lt_of_le (Nat.le_of_lt_succ enough) with last | less
    · rw [last]
    · rw [← scanExpr_fuel add less, ih less]

/-- The run reads behind the terminating zero at a blank turn, and does otherwise what the model
on lists does. -/
def Matches (text : Bytes) (blank : Prop) (low : Access PortTable)
    (high : Except Fault PortTable) : Prop :=
  blank ∧ low = .error (.violation (.read (text.length + 1))) ∨ ¬ blank ∧ low = within high

theorem goOn_matches (nonzero : 0 ∉ text) (here : At text i rest) {low : Access PortTable}
    {high : Except Fault PortTable} {blank : Prop} (next : Matches text blank low high) :
    Matches text (rest ≠ [] ∧ blank)
      (charAt text i >>= fun c => if c ≠ 0 then low else .ok porttbl)
      (if rest.isEmpty then .ok porttbl else high) := by
  rw [charAt_eq here, ok_bind]
  have rest_nonzero := nonzero_of_at nonzero here
  cases rest with
  | nil => exact .inr ⟨fun more => more.1 rfl, rfl⟩
  | cons c rest =>
    have c_nonzero : c ≠ 0 := fun zero => rest_nonzero (by simp [zero])
    rw [headD_cons, if_pos c_nonzero]
    rcases next with ⟨yes, same⟩ | ⟨no, same⟩
    · exact .inl ⟨⟨cons_ne_nil _ _, yes⟩, same⟩
    · exact .inr ⟨fun both => no both.2, same⟩

theorem Matches.bind {first : Prop} {low : Access PortTable} {high : Except Fault PortTable}
    (step : Matches text first low high) {later : PortTable → Prop}
    {lowNext : PortTable → Access PortTable} {highNext : PortTable → Except Fault PortTable}
    (next : ∀ porttbl, Matches text (later porttbl) (lowNext porttbl) (highNext porttbl)) :
    Matches text (first ∨ ∃ porttbl, high = .ok porttbl ∧ later porttbl) (low >>= lowNext)
      (high >>= highNext) := by
  rcases step with ⟨blank, rfl⟩ | ⟨notBlank, rfl⟩
  · exact .inl ⟨.inl blank, rfl⟩
  · cases high with
    | error fault =>
      refine .inr ⟨?_, rfl⟩
      rintro (blank | ⟨_, done, -⟩)
      · exact notBlank blank
      · cases done
    | ok porttbl =>
      rcases next porttbl with ⟨blank, same⟩ | ⟨notLater, same⟩
      · exact .inl ⟨.inr ⟨porttbl, rfl, blank⟩, same⟩
      · refine .inr ⟨?_, same⟩
        rintro (blank | ⟨_, done, blank⟩)
        · exact notBlank blank
        · cases done
          exact notLater blank

/-- A run over a rest of the text, from the cursor in front of it -/
theorem getptsAuxAt_matches (T : Tables) (nonzero : 0 ∉ text) {turns : Nat}
    (enough : rest.length < turns) (here : At text i rest) :
    Matches text (BlankTurn T changeRangeType nested restriction rest porttbl)
      (getptsAuxAt text T turns changeRangeType nested restriction i porttbl)
      (scanExpr (addEntry T) changeRangeType turns nested restriction rest porttbl) := by
  induction turns generalizing changeRangeType nested restriction i rest porttbl with
  | zero => exact absurd enough (Nat.not_lt_zero _)
  | succ turns ih =>
    let call := getptsAuxAt text T turns true true
    rw [getptsAuxAt, scanExpr]
    by_cases more : changeRangeType = true → rest.dropWhile isSpace ≠ []
    · have turn : TurnAgrees text T call nested restriction porttbl
          (turnAt text T call nested changeRangeType restriction i porttbl)
          (readTurn nested changeRangeType restriction rest) := turnAt_agrees nonzero here more
      have shorter : ∀ turn rest', readTurn nested changeRangeType restriction rest = .ok turn →
          turn.rest = some rest' → rest'.length < turns := fun turn rest' read left =>
        Nat.lt_of_lt_of_le (readTurn_shorter read left) (Nat.le_of_lt_succ enough)
      rw [blankTurn_iff more]
      cases read : readTurn nested changeRangeType restriction rest with
      | error fault =>
        rw [read] at turn
        rw [show turnAt _ _ _ _ _ _ _ _ = fatal fault from turn]
        exact .inr ⟨id, rfl⟩
      | ok result =>
        rw [read] at turn
        cases result with
        | restrict restriction' rest' =>
          obtain ⟨j, there, low⟩ := turn
          rw [low]
          exact goOn_matches nonzero there (ih (shorter _ _ read rfl) there)
        | close =>
          rw [show turnAt _ _ _ _ _ _ _ _ = .ok (.return_ porttbl) from turn]
          exact .inr ⟨id, rfl⟩
        | bracket inside =>
          obtain ⟨j, k, there, behind, low⟩ := turn
          have less := shorter _ _ read rfl
          have inner : Matches text (BlankTurn T true true restriction inside porttbl)
              (call restriction j porttbl)
              (scanExpr (addEntry T) true (inside.length + 1) true restriction inside
                porttbl) := by
            rw [← scanExpr_enough (addEntry T) less]
            exact ih less there
          have after := Nat.lt_of_le_of_lt (afterBracket_le inside) less
          show Matches text _ _ (scanExpr (addEntry T) true turns true restriction inside
            porttbl >>= _)
          rw [low, scanExpr_enough (addEntry T) less, bind_assoc]
          exact inner.bind fun porttbl => goOn_matches nonzero behind (ih after behind)
        | item item left =>
          have added : Matches text False
              (within (addEntry T porttbl ⟨restriction, nested, item⟩))
              (addEntry T porttbl ⟨restriction, nested, item⟩) := .inr ⟨id, rfl⟩
          cases left with
          | none =>
            rw [show turnAt _ _ _ _ _ _ _ _ = _ from turn, bind_assoc]
            have ended : ∀ porttbl, Matches text False (.ok porttbl) (.ok porttbl) :=
              fun porttbl => .inr ⟨id, rfl⟩
            have run := added.bind ended
            have never : (False ∨ ∃ porttbl', addEntry T porttbl
                ⟨restriction, nested, item⟩ = .ok porttbl' ∧ False) ↔ False := by
              simp
            rw [never] at run
            exact run
          | some rest' =>
            obtain ⟨j, there, low⟩ := turn
            rw [low, bind_assoc]
            have after : ∀ porttbl', Matches text
                (rest' ≠ [] ∧
                  BlankTurn T changeRangeType nested restriction rest' porttbl')
                (charAt text j >>= fun c => if c ≠ 0 then
                  getptsAuxAt text T turns changeRangeType nested restriction j porttbl'
                  else .ok porttbl')
                (if rest'.isEmpty then .ok porttbl' else scanExpr (addEntry T)
                  changeRangeType turns nested restriction rest' porttbl') :=
              fun porttbl' => goOn_matches nonzero there (ih (shorter _ _ read rfl) there)
            have run := added.bind after
            rw [false_or] at run
            exact run
    · -- the test for `T:` and the like reads behind the terminating zero
      obtain ⟨rfl, blank⟩ := Classical.not_imp.mp more
      have blank : rest.dropWhile isSpace = [] := Classical.not_not.mp blank
      obtain ⟨j, skipped, there, -⟩ := skipWhile_eq (p := isSpace) rfl here
      rw [blank] at there
      have beyond : charAt text (j + 1) = .error (.violation (.read (text.length + 1))) := by
        rw [there.eq_length]
        exact charAt_beyond _ (Nat.lt_succ_self _)
      refine .inl ⟨.here blank, ?_⟩
      rw [turnAt, skipped, ok_bind, colonAt, if_pos rfl, beyond]
      rfl

/-- Every run ends, with a table or a fatal error, and stays within the text, the buffer and the
table, exactly if no turn begins where only blanks are left. -/
theorem getptsAux_safe_iff (T : Tables) (text : CString) (changeRangeType nested : Bool)
    (restriction : Finset Proto) (porttbl : PortTable) :
    (∃ result, getptsAuxAt text.bytes T (text.bytes.length + 1) changeRangeType nested restriction
        0 porttbl = within result) ↔
      ¬ BlankTurn T changeRangeType nested restriction text.bytes porttbl := by
  have run : Matches text.bytes (BlankTurn T changeRangeType nested restriction text.bytes porttbl)
      _ _ := getptsAuxAt_matches T text.nonzero (Nat.lt_succ_self _) (At.start text.bytes)
  rcases run with ⟨blank, reads⟩ | ⟨notBlank, same⟩
  · refine iff_of_false ?_ (not_not_intro blank)
    rintro ⟨result, safe⟩
    rw [reads] at safe
    cases result <;> cases safe
  · exact iff_of_true ⟨_, same⟩ notBlank

def blankAfterComma : CString := ⟨[0x38, 0x30, 0x2c, 0x20], by decide⟩

/-- The character behind the terminating zero is read. -/
theorem blankAfterComma_overread : ¬ ∃ result,
    getptsAuxAt blankAfterComma.bytes ⟨[], []⟩ (blankAfterComma.bytes.length + 1) true false
      {.tcp} 0 (fun _ => ∅) = within result := by
  have read : readTurn false true {.tcp} blankAfterComma.bytes =
      .ok (.item (.range 80 80) (some [0x20])) := by
    rfl
  have blank : BlankTurn ⟨[], []⟩ true false {.tcp} blankAfterComma.bytes fun _ => ∅ :=
    .item read rfl (cons_ne_nil _ _) (.here rfl)
  have run : Matches blankAfterComma.bytes
      (BlankTurn ⟨[], []⟩ true false {.tcp} blankAfterComma.bytes fun _ => ∅) _ _ :=
    getptsAuxAt_matches ⟨[], []⟩ blankAfterComma.nonzero (Nat.lt_succ_self _)
      (At.start blankAfterComma.bytes)
  rcases run with ⟨-, reads⟩ | ⟨notBlank, -⟩
  · rintro ⟨result, safe⟩
    rw [reads] at safe
    cases result <;> cases safe
  · exact absurd blank notBlank

end Nmap.Ports.PortSpec
