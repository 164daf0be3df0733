import Mathlib.Data.Nat.Digits.Lemmas
import Nmap.Base.CLiteral
import Nmap.Base.Cuts

/-!
# Service fingerprints (`service_scan.cc`)

When nothing matches a service, its responses are put together to a fingerprint. Each of them is
escaped, and a new line begins wherever one is full.
-/

namespace Nmap.Service.Fingerprint

open Nmap.Base List

set_option maxRecDepth 4000

/-! ## The code -/

/-- A C string that is part of one line -/
structure Word extends CString where
  line : 0x0a ∉ bytes

/-- The name of a probe. It is part of a line of the probes file. -/
structure ProbeName extends Word where
  short : bytes.length < 64

/-- What the first line of a fingerprint says -/
structure Heading where
  portno : UInt16
  proto : UInt8
  ssl : Bool
  version_intensity : Int
  ltime : Option (Int × Int)
  timep : UInt32
  platform : Word

/-- The fingerprint so far: what has been written to the buffer, and the size of the buffer. Both
stay far below the largest `int`, as nothing is added to what is large. -/
structure ServiceFp where
  servicefp : Bytes
  servicefpalloc : Nat
  inside : servicefp.length ≤ servicefpalloc

inductive Abort
  | outOfSpace
  | assertion
  deriving DecidableEq

def ServiceFp.servicefplen (fp : ServiceFp) : Nat := fp.servicefp.length

def ServiceFp.spaceleft (fp : ServiceFp) : Nat := fp.servicefpalloc - fp.servicefplen

def ServiceFp.start : ServiceFp := ⟨[], 0, Nat.le_refl _⟩

def newLine : Bytes := ascii "\nSF:"

def addServiceChar (wrapat : Nat) (fp : ServiceFp) (c : UInt8) : Except Abort ServiceFp :=
  if full : fp.spaceleft < 6 then .error .outOfSpace
  else
    .ok {
      servicefp :=
        fp.servicefp ++ (if fp.servicefplen % (wrapat + 1) = wrapat then newLine else []) ++ [c]
      servicefpalloc := fp.servicefpalloc
      inside := by
        have wrapped : (if fp.servicefplen % (wrapat + 1) = wrapat then newLine else []).length ≤
            4 := by
          split
          · exact Nat.le_refl 4
          · exact Nat.zero_le 4
        simp only [ServiceFp.spaceleft, ServiceFp.servicefplen] at full
        rw [length_append, length_append, length_singleton]
        omega }

def addServiceString (wrapat : Nat) (s : Bytes) (fp : ServiceFp) : Except Abort ServiceFp :=
  s.foldlM (addServiceChar wrapat) fp

/-- What is written for a character of a response, with the one that follows it -/
def escape (c : UInt8) (next : Option UInt8) : Bytes :=
  if isAlnum c then [c]
  else if c = 0 then if next.any isDigit then ascii "\\x00" else ascii "\\0"
  else if c ∈ ascii "\\?\"[]().*+$^|" then [0x5c, c]
  else if isPunct c then [c]
  else if c = 0x0d then ascii "\\r"
  else if c = 0x0a then ascii "\\n"
  else if c = 0x09 then ascii "\\t"
  else 0x5c :: 0x78 :: lowerHex c

def addResponse (wrapat : Nat) : Bytes → ServiceFp → Except Abort ServiceFp
  | [], fp => .ok fp
  | c :: resp, fp =>
    if fp.spaceleft ≤ 8 then .error .assertion
    else do
      let fp ← addServiceString wrapat (escape c resp.head?) fp
      addResponse wrapat resp fp

/-- A digit of `%X` -/
def hexDigit (n : Nat) : UInt8 := UInt8.ofNat (if n < 10 then 0x30 + n else 0x37 + n)

/-- `%X` -/
def hexNumber (n : Nat) : Bytes :=
  if n = 0 then ascii "0" else (Nat.digits 16 n).reverse.map hexDigit

def proto2ascii_uppercase (proto : UInt8) : Bytes :=
  if proto = 6 then ascii "TCP"
  else if proto = 17 then ascii "UDP"
  else if proto = 132 then ascii "SCTP"
  else if proto = 0 then ascii "IP"
  else if proto = 1 then ascii "ICMP"
  else if proto = 41 then ascii "IPv6"
  else if proto = 58 then ascii "ICMPv6"
  else if proto = 47 then ascii "GRE"
  else if proto = 50 then ascii "IPSec/ESP"
  else if proto = 51 then ascii "IPSec/AH"
  else ascii "UNKNOWN"

/-- `NMAP_VERSION` -/
def version : Bytes := ascii "7.991SVN"

/-- `Snprintf` to the buffer of 128 bytes -/
def snprintf (s : Bytes) : Bytes := s.take 127

/-- `"SF-Port%hu-%s:V=%s%s%%I=%d%%D=%d/%d%%Time=%X%%P=%s"` -/
def Heading.text (heading : Heading) : Bytes :=
  let (tm_mon, tm_mday) := match heading.ltime with
    | some (tm_mon, tm_mday) => (tm_mon + 1, tm_mday)
    | none => (0, 0)
  ascii "SF-Port" ++ decimal heading.portno.toNat ++ ascii "-" ++
    proto2ascii_uppercase heading.proto ++ ascii ":V=" ++ version ++
    (if heading.ssl then ascii "%T=SSL" else []) ++ ascii "%I=" ++
    signedDecimal heading.version_intensity ++ ascii "%D=" ++ signedDecimal tm_mon ++ ascii "/" ++
    signedDecimal tm_mday ++ ascii "%Time=" ++ hexNumber heading.timep.toNat ++ ascii "%P=" ++
    heading.platform.bytes

/-- `"%%r(%s,%X,\""` -/
def responseHead (probeName : Bytes) (resplen : Nat) : Bytes :=
  ascii "%r(" ++ probeName ++ ascii "," ++ hexNumber resplen ++ ascii ",\""

def respmax (debugging : Bool) : Nat := if debugging then 1300 else 900

def ServiceFp.isLarge (fp : ServiceFp) (debugging : Bool) : Bool :=
  (if debugging then 10000 else 2200) < fp.servicefplen

def ServiceFp.grow (fp : ServiceFp) (spaceneeded : Nat) : ServiceFp :=
  if fp.spaceleft ≤ spaceneeded then
    ⟨fp.servicefp, max spaceneeded 512 + fp.servicefpalloc, Nat.le_add_left_of_le fp.inside⟩
  else fp

/-- Wrap after 74 characters of a line. -/
def servicewrap : Nat := 74

def addToServiceFingerprint (debugging : Bool) (heading : Heading) (probeName resp : Bytes)
    (fp : ServiceFp) : Except Abort ServiceFp :=
  let respused := min resp.length (respmax debugging)
  let spaceneeded := respused * 5 + probeName.length + 128
  if resp.length = 0 then .error .assertion
  else if fp.isLarge debugging then .ok fp
  else do
    let fp := fp.grow spaceneeded
    let fp ← if fp.servicefplen = 0 then addServiceString servicewrap (snprintf heading.text) fp
      else .ok fp
    let fp ← addServiceString servicewrap (snprintf (responseHead probeName resp.length)) fp
    let fp ← addResponse servicewrap (resp.take respused) fp
    let fp ← addServiceString servicewrap (ascii "\")") fp
    if fp.spaceleft ≤ 1 then .error .assertion else .ok fp

def getServiceFingerprint (fp : ServiceFp) : Option Bytes :=
  if fp.servicefplen = 0 then none else some (fp.servicefp ++ ascii ";")

/-! ## Sequences of calls -/

/-- A call of `addToServiceFingerprint`. Its response is not empty, and has a length that is an
`int`. -/
structure Call where
  debugging : Bool
  heading : Heading
  probeName : ProbeName
  resp : Bytes
  nonempty : resp ≠ []
  int : resp.length < 2 ^ 31

/-- The response as far as it is put in -/
def Call.used (call : Call) : Bytes := call.resp.take (respmax call.debugging)

def Call.add (call : Call) (fp : ServiceFp) : Except Abort ServiceFp :=
  addToServiceFingerprint call.debugging call.heading call.probeName.bytes call.resp fp

/-- Makes the calls, and tells which of them were accepted. -/
def addCalls : List Call → ServiceFp → Except Abort (ServiceFp × List Call)
  | [], fp => .ok (fp, [])
  | call :: calls, fp => do
    let next ← call.add fp
    let (last, accepted) ← addCalls calls next
    .ok (last, if fp.isLarge call.debugging then accepted else call :: accepted)

/-! ## Reading a fingerprint -/

/-- Reads the responses to the probes with these names. -/
def readResponses : List Bytes → Bytes → Option (List Bytes)
  | [], text => if text = ascii ";" then some [] else none
  | name :: names, text => do
    let text ← text.dropPrefix? (ascii "%r(" ++ name ++ ascii ",")
    let text ← (text.dropWhile isXDigit).dropPrefix? (ascii ",\"")
    let (resp, text) ← readLiteral (text.length + 1) text
    let text ← text.dropPrefix? (ascii ")")
    let resps ← readResponses names text
    some (resp :: resps)

/-- With every new line deleted, the fingerprint is the first line and then all the responses that
were accepted, as far as they were put in. -/
def Recovers (accepted : List Call) : Option Bytes → Prop
  | none => accepted = []
  | some text => ∃ first pieces responses, accepted.head? = some first ∧
      Cuts newLine text pieces ∧ pieces.flatten = snprintf first.heading.text ++ responses ∧
      readResponses (accepted.map (·.probeName.bytes)) responses = some (accepted.map Call.used)

/-! ## There is always room -/

/-- There is room for so many characters, and for what is kept free behind them. In a line of 75
characters 71 are not from the beginning of a new line. -/
def Room (fp : ServiceFp) (k : Nat) : Prop :=
  71 * fp.servicefplen + 4 * (fp.servicefplen % 75) + 75 * k + 639 ≤ 71 * fp.servicefpalloc

/-- The characters have been added, with new lines where they are due. -/
structure Adds (fp : ServiceFp) (s : Bytes) (fp' : ServiceFp) : Prop where
  alloc : fp'.servicefpalloc = fp.servicefpalloc
  added : ∃ more, fp'.servicefp = fp.servicefp ++ more ∧ Inserted newLine s more

variable {fp fp' fp'' : ServiceFp} {s t : Bytes} {c : UInt8} {k : Nat}

theorem Adds.refl (fp : ServiceFp) : Adds fp [] fp := ⟨rfl, [], by rw [append_nil], .nil⟩

theorem Adds.trans (first : Adds fp s fp') (second : Adds fp' t fp'') : Adds fp (s ++ t) fp'' := by
  obtain ⟨more, written, inserted⟩ := first.added
  obtain ⟨more', written', inserted'⟩ := second.added
  refine ⟨second.alloc.trans first.alloc, more ++ more', ?_, inserted.append inserted'⟩
  rw [written', written, append_assoc]

theorem Room.mono {k' : Nat} (room : Room fp k) (fewer : k' ≤ k) : Room fp k' := by
  unfold Room at room ⊢
  omega

theorem Room.spaceleft (room : Room fp k) : 9 ≤ fp.spaceleft := by
  unfold Room ServiceFp.servicefplen at room
  unfold ServiceFp.spaceleft ServiceFp.servicefplen
  omega

theorem addServiceChar_eq (room : Room fp (k + 1)) (c : UInt8) :
    ∃ fp', addServiceChar servicewrap fp c = .ok fp' ∧ Room fp' k ∧ Adds fp [c] fp' := by
  have left := room.spaceleft
  unfold addServiceChar
  rw [dif_neg (by omega)]
  refine ⟨_, rfl, ?_, rfl, ?_⟩
  · unfold Room ServiceFp.servicefplen at room ⊢
    dsimp only
    rw [length_append, length_append, length_singleton]
    by_cases wraps : fp.servicefp.length % (servicewrap + 1) = servicewrap
    · rw [if_pos wraps]
      unfold servicewrap at wraps
      show 71 * (fp.servicefp.length + 4 + 1) + 4 * ((fp.servicefp.length + 4 + 1) % 75) +
        75 * k + 639 ≤ 71 * fp.servicefpalloc
      omega
    · rw [if_neg wraps, length_nil]
      unfold servicewrap at wraps
      omega
  · refine ⟨_, append_assoc _ _ _, ?_⟩
    split
    · exact .word (.refl [c])
    · exact .refl [c]

theorem addServiceString_eq (room : Room fp (s.length + k)) :
    ∃ fp', addServiceString servicewrap s fp = .ok fp' ∧ Room fp' k ∧ Adds fp s fp' := by
  induction s generalizing fp with
  | nil => exact ⟨fp, rfl, room.mono (Nat.le_add_left k _), .refl fp⟩
  | cons c s ih =>
    rw [length_cons, Nat.add_right_comm] at room
    obtain ⟨fp₁, written, room₁, adds₁⟩ := addServiceChar_eq room c
    obtain ⟨fp₂, written₂, room₂, adds₂⟩ := ih room₁
    refine ⟨fp₂, ?_, room₂, adds₁.trans adds₂⟩
    unfold addServiceString at written₂ ⊢
    rw [foldlM_cons, written]
    exact written₂

def escapeAll : Bytes → Bytes
  | [] => []
  | c :: resp => escape c resp.head? ++ escapeAll resp

theorem escape_length (c : UInt8) (next : Option UInt8) : (escape c next).length ≤ 4 := by
  unfold escape
  split_ifs
  all_goals simp [ascii, lowerHex]

theorem addResponse_eq (room : Room fp (4 * s.length + k)) :
    ∃ fp', addResponse servicewrap s fp = .ok fp' ∧ Room fp' k ∧ Adds fp (escapeAll s) fp' := by
  induction s generalizing fp with
  | nil => exact ⟨fp, rfl, room.mono (Nat.le_add_left k _), .refl fp⟩
  | cons c s ih =>
    have left := room.spaceleft
    have short := escape_length c s.head?
    have enough : Room fp ((escape c s.head?).length + (4 * s.length + k)) := by
      refine room.mono ?_
      rw [length_cons]
      omega
    obtain ⟨fp₁, written, room₁, adds₁⟩ := addServiceString_eq enough
    obtain ⟨fp₂, written₂, room₂, adds₂⟩ := ih room₁
    refine ⟨fp₂, ?_, room₂, adds₁.trans adds₂⟩
    rw [addResponse, if_neg (by omega), written]
    exact written₂

theorem hexNumber_length {n : Nat} (int : n < 2 ^ 31) : (hexNumber n).length ≤ 8 := by
  unfold hexNumber
  split
  · simp [ascii]
  · rw [length_map, length_reverse]
    exact (Nat.digits_length_le_iff (by omega) n).mpr (by omega)

theorem responseHead_length (probeName : ProbeName) {resplen : Nat} (int : resplen < 2 ^ 31) :
    (responseHead probeName.bytes resplen).length ≤ probeName.bytes.length + 14 := by
  have digits := hexNumber_length int
  simp only [responseHead, length_append, ascii, length_map, String.length_toList]
  show 3 + probeName.bytes.length + 1 + (hexNumber resplen).length + 2 ≤ _
  omega

theorem snprintf_length (s : Bytes) : (snprintf s).length ≤ 127 := length_take_le _ _

theorem snprintf_responseHead (probeName : ProbeName) {resplen : Nat} (int : resplen < 2 ^ 31) :
    snprintf (responseHead probeName.bytes resplen) = responseHead probeName.bytes resplen := by
  have length := responseHead_length probeName int
  have short := probeName.short
  exact take_of_length_le (by omega)

theorem grow_servicefp (fp : ServiceFp) (n : Nat) : (fp.grow n).servicefp = fp.servicefp := by
  unfold ServiceFp.grow
  split
  · rfl
  · rfl

theorem grow_spaceleft (fp : ServiceFp) (n : Nat) : n ≤ (fp.grow n).spaceleft := by
  have inside := fp.inside
  unfold ServiceFp.grow
  split
  · show n ≤ max n 512 + fp.servicefpalloc - fp.servicefp.length
    omega
  · omega

/-- What a call adds behind the first line -/
def Call.record (call : Call) : Bytes :=
  responseHead call.probeName.bytes call.resp.length ++ escapeAll call.used ++ ascii "\")"

/-- With room for all of it, what a call writes behind the first line is written. -/
theorem addRecord_eq (call : Call)
    (room : Room fp (call.probeName.bytes.length + 16 + 4 * call.used.length)) :
    ∃ fp', (do
        let fp ← addServiceString servicewrap
          (snprintf (responseHead call.probeName.bytes call.resp.length)) fp
        let fp ← addResponse servicewrap call.used fp
        let fp ← addServiceString servicewrap (ascii "\")") fp
        if fp.spaceleft ≤ 1 then .error .assertion else .ok fp) = Except.ok fp' ∧
      Adds fp call.record fp' := by
  have length := responseHead_length call.probeName call.int
  rw [snprintf_responseHead call.probeName call.int]
  obtain ⟨fp₁, written₁, room₁, adds₁⟩ := addServiceString_eq
    (s := responseHead call.probeName.bytes call.resp.length) (k := 4 * call.used.length + 2)
    (room.mono (by omega))
  obtain ⟨fp₂, written₂, room₂, adds₂⟩ := addResponse_eq room₁
  obtain ⟨fp₃, written₃, room₃, adds₃⟩ :=
    addServiceString_eq (s := ascii "\")") (k := 0) room₂
  have left := room₃.spaceleft
  refine ⟨fp₃, ?_, (adds₁.trans adds₂).trans adds₃⟩
  rw [written₁]
  show (addResponse servicewrap call.used fp₁ >>= _) = _
  rw [written₂]
  show (addServiceString servicewrap (ascii "\")") fp₂ >>= _) = _
  rw [written₃]
  exact if_neg (by omega)

theorem Call.used_eq (call : Call) :
    call.resp.take (min call.resp.length (respmax call.debugging)) = call.used := by
  rw [Nat.min_comm, ← take_eq_take_min]
  rfl

theorem Call.used_length (call : Call) :
    call.used.length = min call.resp.length (respmax call.debugging) := by
  rw [Call.used, length_take, Nat.min_comm]

theorem start_small (debugging : Bool) : ServiceFp.start.isLarge debugging = false := by
  unfold ServiceFp.isLarge
  cases debugging
  · rfl
  · rfl

/-- The first call writes the first line too. -/
theorem add_start (call : Call) :
    ∃ fp, call.add .start = .ok fp ∧
      Inserted newLine (snprintf call.heading.text ++ call.record) fp.servicefp := by
  have nonempty : call.resp.length ≠ 0 := mt length_eq_zero_iff.mp call.nonempty
  have used := call.used_length
  have short := call.probeName.short
  have line := snprintf_length call.heading.text
  have room : Room (ServiceFp.start.grow (min call.resp.length (respmax call.debugging) * 5 +
      call.probeName.bytes.length + 128)) ((snprintf call.heading.text).length +
        (call.probeName.bytes.length + 16 + 4 * call.used.length)) := by
    have none : ServiceFp.start.spaceleft = 0 := rfl
    rw [ServiceFp.grow, if_pos (none ▸ Nat.zero_le _), ← used]
    show 71 * 0 + 4 * (0 % 75) + 75 * ((snprintf call.heading.text).length +
      (call.probeName.bytes.length + 16 + 4 * call.used.length)) + 639 ≤
        71 * (max (call.used.length * 5 + call.probeName.bytes.length + 128) 512 + 0)
    omega
  obtain ⟨fp₁, written₁, room₁, adds₁⟩ := addServiceString_eq room
  obtain ⟨fp₂, written₂, adds₂⟩ := addRecord_eq call room₁
  obtain ⟨more, written, inserted⟩ := (adds₁.trans adds₂).added
  refine ⟨fp₂, ?_, ?_⟩
  · have empty : ServiceFp.start.servicefp.length = 0 := rfl
    unfold Call.add addToServiceFingerprint
    dsimp only
    rw [if_neg nonempty, start_small, if_neg Bool.false_ne_true, ServiceFp.servicefplen,
      grow_servicefp, if_pos empty, written₁, call.used_eq]
    exact written₂
  · rw [written, grow_servicefp]
    exact inserted

/-- The later calls only write their responses. -/
theorem add_later (call : Call) (some : fp.servicefp ≠ [])
    (small : fp.isLarge call.debugging = false) :
    ∃ fp', call.add fp = .ok fp' ∧ ∃ more, fp'.servicefp = fp.servicefp ++ more ∧
      Inserted newLine call.record more := by
  have nonempty : call.resp.length ≠ 0 := mt length_eq_zero_iff.mp call.nonempty
  have used := call.used_length
  have short := call.probeName.short
  have left := grow_spaceleft fp (min call.resp.length (respmax call.debugging) * 5 +
    call.probeName.bytes.length + 128)
  have room : Room (fp.grow (min call.resp.length (respmax call.debugging) * 5 +
      call.probeName.bytes.length + 128))
        (call.probeName.bytes.length + 16 + 4 * call.used.length) := by
    unfold Room
    unfold ServiceFp.spaceleft at left
    rw [← used] at left ⊢
    omega
  obtain ⟨fp₁, written₁, adds₁⟩ := addRecord_eq call room
  obtain ⟨more, written, inserted⟩ := adds₁.added
  rw [grow_servicefp] at written
  refine ⟨fp₁, ?_, more, written, inserted⟩
  unfold Call.add addToServiceFingerprint
  dsimp only
  rw [if_neg nonempty, small, if_neg Bool.false_ne_true, ServiceFp.servicefplen, grow_servicefp,
    if_neg (mt length_eq_zero_iff.mp some), call.used_eq]
  exact written₁

theorem add_large (call : Call) (large : fp.isLarge call.debugging = true) :
    call.add fp = .ok fp := by
  have nonempty : call.resp.length ≠ 0 := mt length_eq_zero_iff.mp call.nonempty
  unfold Call.add addToServiceFingerprint
  dsimp only
  rw [if_neg nonempty, if_pos large]

theorem addCalls_later (calls : List Call) (some : fp.servicefp ≠ []) :
    ∃ fp' accepted more, addCalls calls fp = .ok (fp', accepted) ∧
      fp'.servicefp = fp.servicefp ++ more ∧
      Inserted newLine (accepted.flatMap Call.record) more := by
  induction calls generalizing fp with
  | nil => exact ⟨fp, [], [], rfl, by rw [append_nil], .nil⟩
  | cons call calls ih =>
    by_cases large : fp.isLarge call.debugging = true
    · obtain ⟨fp', accepted, more, run, written, inserted⟩ := ih some
      refine ⟨fp', accepted, more, ?_, written, inserted⟩
      rw [addCalls, add_large call large]
      show (addCalls calls fp >>= _) = _
      rw [run, large]
      rfl
    · have small : fp.isLarge call.debugging = false := by simpa using large
      obtain ⟨fp₁, added, more₁, written₁, inserted₁⟩ := add_later call some small
      have some₁ : fp₁.servicefp ≠ [] := by simp [written₁, some]
      obtain ⟨fp', accepted, more, run, written, inserted⟩ := ih some₁
      refine ⟨fp', call :: accepted, more₁ ++ more, ?_, ?_, inserted₁.append inserted⟩
      · rw [addCalls, added]
        show (addCalls calls fp₁ >>= _) = _
        rw [run, small]
        rfl
      · rw [written, written₁, append_assoc]

/-! ## What is written can be read -/

theorem escape_next (c : UInt8) (next : Option UInt8) :
    escape c next = escape c none ∨ escape c next = escape c (some 0x30) := by
  unfold escape
  cases digit : next.any isDigit
  · exact .inl rfl
  · exact .inr rfl

theorem escape_head (c : UInt8) (next : Option UInt8) :
    ∃ d t, escape c next = d :: t ∧ d ≠ 0x22 ∧ d ≠ 0x0a ∧ 0x0a ∉ t ∧
      (isDigit c = false → isDigitOf 8 d = false) := by
  have heads : ∀ c next, (next = none ∨ next = some 0x30) → escape c next ≠ [] ∧
      (escape c next).headD 0 ≠ 0x22 ∧ 0x0a ∉ escape c next ∧
      (isDigit c = false → isDigitOf 8 ((escape c next).headD 0) = false) := by
    intro c next which
    rcases which with rfl | rfl
    · revert c
      exact forall_byte (by decide +kernel)
    · revert c
      exact forall_byte (by decide +kernel)
  have here : escape c next ≠ [] ∧ (escape c next).headD 0 ≠ 0x22 ∧ 0x0a ∉ escape c next ∧
      (isDigit c = false → isDigitOf 8 ((escape c next).headD 0) = false) := by
    rcases escape_next c next with same | same
    · rw [same]
      exact heads c none (.inl rfl)
    · rw [same]
      exact heads c (some 0x30) (.inr rfl)
  obtain ⟨nonempty, quote, line, digit⟩ := here
  obtain ⟨d, t, same⟩ := exists_cons_of_ne_nil nonempty
  rw [same] at quote line digit
  exact ⟨d, t, same, quote, Ne.symm (ne_of_not_mem_cons line),
    not_mem_of_not_mem_cons line, digit⟩

/-- A character is read back, if a zero that is written as `\0` has no digit behind it. -/
theorem readLiteralChar_escape_eq (c : UInt8) (next : Option UInt8) {rest : Bytes}
    (ends : next.any isDigit = false → rest.head?.any (isDigitOf 8) = false) :
    readLiteralChar (escape c next ++ rest) = some (c, rest) := by
  unfold escape
  by_cases alnum : isAlnum c = true
  · rw [if_pos alnum]
    refine readLiteralChar_plain fun backslash => ?_
    rw [backslash] at alnum
    exact absurd alnum (by decide)
  · rw [if_neg alnum]
    by_cases zero : c = 0
    · subst zero
      rw [if_pos rfl]
      cases digit : next.any isDigit with
      | true => exact readEscape_hex 0
      | false => exact readEscape_zero (ends digit)
    · rw [if_neg zero]
      by_cases special : c ∈ ascii "\\?\"[]().*+$^|"
      · rw [if_pos special]
        exact readEscape_other (by simpa using alnum)
      · rw [if_neg special]
        by_cases punct : isPunct c = true
        · rw [if_pos punct]
          refine readLiteralChar_plain ?_
          intro backslash
          exact special (by rw [backslash]; decide)
        · rw [if_neg punct]
          split_ifs with r n t
          · subst r
            rfl
          · subst n
            rfl
          · subst t
            rfl
          · exact readEscape_hex c

theorem readLiteral_escapeAll {rest : Bytes} {turns : Nat} (enough : s.length < turns) :
    readLiteral turns (escapeAll s ++ 0x22 :: rest) = some (s, rest) := by
  induction s generalizing turns with
  | nil =>
    obtain ⟨turns, rfl⟩ := Nat.exists_eq_add_of_le' enough
    exact readLiteral_quote
  | cons c s ih =>
    obtain ⟨turns, rfl⟩ := Nat.exists_eq_add_of_le' (Nat.lt_of_le_of_lt (Nat.zero_le _) enough)
    -- what follows a zero does not begin with a digit unless the next character is one
    have ends : s.head?.any isDigit = false →
        (escapeAll s ++ 0x22 :: rest).head?.any (isDigitOf 8) = false := by
      intro other
      cases s with
      | nil => rfl
      | cons d s =>
        obtain ⟨e, t, same, -, -, -, digit⟩ := escape_head d s.head?
        rw [escapeAll, same]
        exact digit (by simpa using other)
    obtain ⟨d, t, same, quote, -⟩ := escape_head c s.head?
    rw [escapeAll, append_assoc, readLiteral_cons ?_ (readLiteralChar_escape_eq c _ ends),
      ih (Nat.lt_of_succ_lt_succ enough)]
    · rfl
    · rw [same]
      intro opens
      injection opens with opens
      exact quote opens

theorem escapeAll_length (s : Bytes) : s.length ≤ (escapeAll s).length := by
  induction s with
  | nil => exact Nat.le_refl 0
  | cons c s ih =>
    obtain ⟨d, t, same, -⟩ := escape_head c s.head?
    rw [escapeAll, same, length_append, length_cons, length_cons]
    omega

theorem hexNumber_digits {n : Nat} : ∀ c ∈ hexNumber n, isXDigit c = true := by
  intro c mem
  unfold hexNumber at mem
  split at mem
  · rw [mem_singleton.mp mem]
    rfl
  · obtain ⟨d, inside, rfl⟩ := mem_map.mp mem
    have small : d < 16 := Nat.digits_lt_base (by omega) (mem_reverse.mp inside)
    have digits : ∀ d < 16, isXDigit (hexDigit d) = true := by decide
    exact digits d small

/-- The responses are read one after the other. -/
theorem readResponses_records (calls : List Call) :
    readResponses (calls.map (·.probeName.bytes)) (calls.flatMap Call.record ++ ascii ";") =
      some (calls.map Call.used) := by
  induction calls with
  | nil => exact if_pos rfl
  | cons call calls ih =>
    have rest : ((hexNumber call.resp.length) ++ (ascii ",\"" ++ (escapeAll call.used ++
        0x22 :: (ascii ")" ++ (calls.flatMap Call.record ++ ascii ";"))))).dropWhile isXDigit =
          ascii ",\"" ++ (escapeAll call.used ++
            0x22 :: (ascii ")" ++ (calls.flatMap Call.record ++ ascii ";"))) := by
      rw [dropWhile_append_of_pos hexNumber_digits]
      rfl
    have whole : call.record ++ (calls.flatMap Call.record ++ ascii ";") =
        ascii "%r(" ++ call.probeName.bytes ++ ascii "," ++ (hexNumber call.resp.length ++
          (ascii ",\"" ++ (escapeAll call.used ++
            0x22 :: (ascii ")" ++ (calls.flatMap Call.record ++ ascii ";"))))) := by
      simp [Call.record, responseHead, ascii]
    have enough := escapeAll_length call.used
    rw [flatMap_cons, append_assoc, whole, map_cons, map_cons,
      readResponses, List.dropPrefix?_append_of_beq _ BEq.rfl, Option.bind_eq_bind,
      Option.bind_some, rest, List.dropPrefix?_append_of_beq _ BEq.rfl]
    show (readLiteral _ _ >>= _) = _
    rw [readLiteral_escapeAll (by rw [length_append]; omega)]
    show (List.dropPrefix? _ _ >>= _) = _
    rw [List.dropPrefix?_append_of_beq _ BEq.rfl]
    show (readResponses _ _ >>= _) = _
    rw [ih]
    rfl

/-- A zero is written in full if a digit follows. -/
example : escapeAll [0, 0x31, 0, 0x22] = ascii "\\x001\\0\\\"" := by decide

/-! ## Only a new line has a line feed -/

theorem isXDigit_line {c : UInt8} (digit : isXDigit c = true) : c ≠ 0x0a := by
  rintro rfl
  cases digit

theorem hexNumber_line (n : Nat) : 0x0a ∉ hexNumber n :=
  fun mem => isXDigit_line (hexNumber_digits _ mem) rfl

theorem decimal_line (n : Nat) : 0x0a ∉ decimal n := by
  intro mem
  cases decimal_digits _ mem

theorem signedDecimal_line (n : Int) : 0x0a ∉ signedDecimal n := by
  unfold signedDecimal
  split
  · simp [decimal_line]
  · exact decimal_line _

theorem escapeAll_line (s : Bytes) : 0x0a ∉ escapeAll s := by
  induction s with
  | nil => exact not_mem_nil
  | cons c s ih =>
    obtain ⟨d, t, same, -, first, others, -⟩ := escape_head c s.head?
    rw [escapeAll, same]
    simp [Ne.symm first, others, ih]

theorem Heading.line (heading : Heading) : 0x0a ∉ heading.text := by
  have proto : ∀ proto, 0x0a ∉ proto2ascii_uppercase proto := forall_byte (by decide +kernel)
  have platform := heading.platform.line
  have ssl : 0x0a ∉ (if heading.ssl then ascii "%T=SSL" else []) := by
    split
    · decide
    · exact not_mem_nil
  unfold Heading.text
  simp only [mem_append, not_or, decimal_line, signedDecimal_line, hexNumber_line, proto, ssl,
    platform, not_false_eq_true, and_true]
  decide

theorem Call.line (call : Call) : 0x0a ∉ call.record := by
  have name := call.probeName.line
  unfold Call.record responseHead
  simp only [mem_append, not_or, name, hexNumber_line, escapeAll_line, not_false_eq_true,
    and_true]
  decide

/-! ## Fingerprints -/

/-- However often responses are added, there is enough space for them, and the ones that were
accepted are read back from the fingerprint. -/
theorem serviceFingerprint_recovers (calls : List Call) :
    ∃ fp accepted, addCalls calls .start = .ok (fp, accepted) ∧
      Recovers accepted (getServiceFingerprint fp) := by
  cases calls with
  | nil => exact ⟨.start, [], rfl, rfl⟩
  | cons call calls =>
    obtain ⟨fp₁, added, inserted₁⟩ := add_start call
    have some₁ : fp₁.servicefp ≠ [] := inserted₁.ne_nil (by simp [Call.record, ascii])
    obtain ⟨fp, accepted, more, run, written, inserted⟩ := addCalls_later calls some₁
    have some : fp.servicefp ≠ [] := by simp [written, some₁]
    have text : getServiceFingerprint fp = .some (fp.servicefp ++ ascii ";") :=
      if_neg (mt length_eq_zero_iff.mp some)
    have whole := (inserted₁.append inserted).append (.refl (ascii ";"))
    have line : 0x0a ∉ snprintf call.heading.text ++ call.record ++
        accepted.flatMap Call.record ++ ascii ";" := by
      have records : 0x0a ∉ accepted.flatMap Call.record := by
        intro mem
        obtain ⟨call, -, inside⟩ := mem_flatMap.mp mem
        exact call.line inside
      have first : 0x0a ∉ snprintf call.heading.text :=
        fun mem => call.heading.line (mem_of_mem_take mem)
      simp [first, call.line, records, ascii]
    obtain ⟨pieces, cuts, same⟩ := whole.cuts line
    refine ⟨fp, call :: accepted, ?_, ?_⟩
    · rw [addCalls, added]
      show (addCalls calls fp₁ >>= _) = _
      rw [run, start_small]
      rfl
    · rw [text, written]
      refine ⟨call, pieces, (call :: accepted).flatMap Call.record ++ ascii ";", rfl, cuts, ?_,
        readResponses_records (call :: accepted)⟩
      rw [same, flatMap_cons, append_assoc, append_assoc, append_assoc]

end Nmap.Service.Fingerprint
