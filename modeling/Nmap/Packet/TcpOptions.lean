import Nmap.Packet.Validate

/-!
# Iterating over TCP options (`TCPHeader.cc`, `gettcpopt_ts` of `tcpip.cc`)

`TCPOptions::foreachOpt` and `validateTCPhdr` walk the same bytes. The validator stops at the
first EOL and takes an unknown option of length 1; the iteration goes on after an EOL and
rejects every length below 2.
-/

namespace Nmap.Packet

open Nmap.Base List

/-- What a callback is given: the kind, the length and where the option starts -/
structure TcpOpt where
  op : UInt8
  oplen : UInt8
  data : Bytes
  deriving DecidableEq

/-- `tcpopt_callback`: whether to go on, and what became of the context -/
abbrev TcpOptCallback (σ : Type) : Type := σ → TcpOpt → Bool × σ

/-- `TCPOptions::fromTCPPacket`: the bytes of the options -/
def fromTCPPacket (tcppkt : Bytes) : Option Bytes :=
  if tcppkt.length < 20 then none
  else
    let dataOffset := (byteAt tcppkt 12).toNat / 16
    if dataOffset < 5 then none
    else some ((tcppkt.drop 20).take (min (4 * dataOffset) tcppkt.length - 20))

/-- `TCPOptions::foreachOpt`, with what it returns and the context at the end. `skip` more
bytes belong to an option that is through. -/
def foreachOpt {σ : Type} (cb : TcpOptCallback σ) : Nat → Bytes → σ → Bool × σ
  | _, [], ctx => (true, ctx)
  | skip + 1, _ :: s, ctx => foreachOpt cb skip s ctx
  | 0, op :: s, ctx =>
    -- `TCPOPT_EOL` takes the branch of `TCPOPT_NOP`.
    if op = 0 || op = 1 then
      match cb ctx ⟨op, 1, op :: s⟩ with
      | (false, ctx') => (true, ctx')
      | (true, ctx') => foreachOpt cb 0 s ctx'
    else
      match s with
      | [] => (false, ctx)
      | oplen :: s' =>
        if oplen.toNat < 2 then (false, ctx)
        else if oplen.toNat > s'.length + 2 then (false, ctx)
        else
          match cb ctx ⟨op, oplen, op :: oplen :: s'⟩ with
          | (false, ctx') => (true, ctx')
          | (true, ctx') => foreachOpt cb (oplen.toNat - 1) (oplen :: s') ctx'

/-! ## The timestamp option -/

/-- `getTS_args`: what the two pointers point to, unless they are null, and whether the option
was found -/
structure GetTSArgs where
  timestamp : Option UInt32
  echots : Option UInt32
  found : Bool
  deriving DecidableEq

def ntohlAt (p : Bytes) (i : Nat) : UInt32 :=
  ((byteAt p i).toUInt32 <<< 24) + ((byteAt p (i + 1)).toUInt32 <<< 16) +
    ((byteAt p (i + 2)).toUInt32 <<< 8) + (byteAt p (i + 3)).toUInt32

def tcpoptTsCb : TcpOptCallback GetTSArgs := fun args opt =>
  if opt.op = 8 && opt.oplen = 10 then
    (false,
      { timestamp := args.timestamp.map fun _ => ntohlAt opt.data 2
        echots := args.echots.map fun _ => ntohlAt opt.data 6
        found := true })
  else (true, args)

/-- `gettcpopt_ts`, for pointers that may be null -/
def gettcpoptTs (tcppkt : Bytes) (timestamp echots : Option UInt32) : GetTSArgs :=
  let args : GetTSArgs :=
    { timestamp := timestamp.map fun _ => 0, echots := echots.map fun _ => 0, found := false }
  match fromTCPPacket tcppkt with
  | none => args
  | some opts => (foreachOpt tcpoptTsCb 0 opts args).2

/-! ## The options up to the first EOL -/

/-- The options up to the first EOL, each with its true length, and what comes after it -/
inductive OptionsTo : Bytes → List TcpOpt → Bytes → Prop
  | done : OptionsTo [] [] []
  | eol (s : Bytes) : OptionsTo (0 :: s) [⟨0, 1, 0 :: s⟩] s
  | nop {s after : Bytes} {opts : List TcpOpt} : OptionsTo s opts after →
      OptionsTo (1 :: s) (⟨1, 1, 1 :: s⟩ :: opts) after
  | tlv {op oplen : UInt8} {s after : Bytes} {opts : List TcpOpt} : op ≠ 0 → op ≠ 1 →
      0 < oplen.toNat → oplen.toNat ≤ s.length + 2 →
      OptionsTo ((oplen :: s).drop (oplen.toNat - 1)) opts after →
      OptionsTo (op :: oplen :: s) (⟨op, oplen, op :: oplen :: s⟩ :: opts) after

/-- The length byte of an option is at least 2. NOP and EOL have none. -/
def TcpOpt.Long (opt : TcpOpt) : Prop := opt.op = 0 ∨ opt.op = 1 ∨ 2 ≤ opt.oplen.toNat

/-! ## What the validator accepts -/

theorem validOptions_skip : ∀ (s : Bytes) (skip : Nat),
    validOptions skip s = validOptions 0 (s.drop skip)
  | [], skip => by
    rw [drop_nil]
    cases skip <;> rfl
  | _ :: _, 0 => rfl
  | _ :: s, skip + 1 => by
    rw [validOptions, validOptions_skip s skip]
    rfl

variable {s : Bytes}

/-- `OPTLEN_IS` -/
theorem optlenIs_true {expected : Nat} {hdrlen : UInt8}
    (valid : (if expected = 0 || s.length + 2 < expected || hdrlen.toNat ≠ expected then false
      else validOptions (expected - 1) (hdrlen :: s)) = true) :
    hdrlen.toNat = expected ∧ 0 < hdrlen.toNat ∧ hdrlen.toNat ≤ s.length + 2 ∧
      validOptions 0 ((hdrlen :: s).drop (hdrlen.toNat - 1)) = true := by
  split at valid
  · cases valid
  · next good =>
      simp only [Bool.or_eq_true, decide_eq_true_eq, not_or, not_not] at good
      obtain ⟨⟨positive, room⟩, eq⟩ := good
      rw [validOptions_skip] at valid
      refine ⟨eq, by omega, by omega, ?_⟩
      rwa [eq]

variable {op oplen : UInt8}

/-- An option that is neither EOL nor NOP is accepted with its length byte, and a timestamp
only with length 10. -/
theorem validOptions_tlv (notEol : op ≠ 0) (notNop : op ≠ 1)
    (valid : validOptions 0 (op :: oplen :: s) = true) :
    0 < oplen.toNat ∧ oplen.toNat ≤ s.length + 2 ∧ (op = 8 → oplen = 10) ∧
      validOptions 0 ((oplen :: s).drop (oplen.toNat - 1)) = true := by
  rw [validOptions] at valid
  dsimp only at valid
  rw [if_neg notEol, if_neg notNop] at valid
  by_cases timestamp : op = 8
  · subst timestamp
    rw [if_neg (by decide), if_neg (by decide), if_neg (by decide), if_neg (by decide),
      if_pos rfl] at valid
    obtain ⟨ten, positive, room, rest⟩ := optlenIs_true valid
    exact ⟨positive, room, fun _ => UInt8.toNat.inj ten, rest⟩
  · rw [if_neg timestamp] at valid
    have accepted : ∃ expected, (if expected = 0 || s.length + 2 < expected ||
        oplen.toNat ≠ expected then false
        else validOptions (expected - 1) (oplen :: s)) = true := by
      split at valid
      · exact ⟨4, valid⟩
      split at valid
      · exact ⟨3, valid⟩
      split at valid
      · exact ⟨2, valid⟩
      split at valid
      · split at valid
        · cases valid
        · exact ⟨oplen.toNat, valid⟩
      split at valid
      · exact ⟨3, valid⟩
      · exact ⟨oplen.toNat, valid⟩
    obtain ⟨expected, valid⟩ := accepted
    obtain ⟨-, positive, room, rest⟩ := optlenIs_true valid
    exact ⟨positive, room, fun eq => absurd eq timestamp, rest⟩

/-- Options that pass the validator can be read up to the first EOL. -/
theorem validOptions_to : ∀ (n : Nat) (s : Bytes), s.length ≤ n → validOptions 0 s = true →
    ∃ opts after, OptionsTo s opts after ∧ ∀ opt ∈ opts, opt.op = 8 → opt.oplen = 10
  | _, [], _, _ => ⟨[], [], .done, fun _ mem => absurd mem not_mem_nil⟩
  | n + 1, op :: s, short, valid => by
    by_cases eol : op = 0
    · subst eol
      refine ⟨_, s, .eol s, fun opt mem timestamp => ?_⟩
      rw [mem_singleton.mp mem] at timestamp
      exact absurd timestamp (show (0 : UInt8) ≠ 8 by decide)
    by_cases nop : op = 1
    · subst nop
      have rest : validOptions 0 s = true := by
        cases s with
        | nil => rfl
        | cons b s =>
          rw [validOptions] at valid
          simpa using valid
      obtain ⟨opts, after, read, times⟩ :=
        validOptions_to n s (Nat.le_of_succ_le_succ short) rest
      refine ⟨_, after, .nop read, fun opt mem timestamp => ?_⟩
      rcases mem_cons.mp mem with rfl | mem
      · exact absurd timestamp (show (1 : UInt8) ≠ 8 by decide)
      · exact times opt mem timestamp
    cases s with
    | nil =>
      rw [validOptions] at valid
      simp [eol, nop] at valid
    | cons oplen s =>
      obtain ⟨positive, room, ten, rest⟩ := validOptions_tlv eol nop valid
      have shorter : ((oplen :: s).drop (oplen.toNat - 1)).length ≤ n := by
        rw [length_drop]
        exact Nat.le_trans (Nat.sub_le _ _) (Nat.le_of_succ_le_succ short)
      obtain ⟨opts, after, read, times⟩ := validOptions_to n _ shorter rest
      refine ⟨_, after, .tlv eol nop positive room read, fun opt mem timestamp => ?_⟩
      rcases mem_cons.mp mem with rfl | mem
      · exact ten timestamp
      · exact times opt mem timestamp

theorem validateTCPhdr_options {tcp : Bytes} (valid : validateTCPhdr tcp = true) :
    ∃ s opts after, fromTCPPacket tcp = some s ∧ OptionsTo s opts after ∧
      ∀ opt ∈ opts, opt.op = 8 → opt.oplen = 10 := by
  unfold validateTCPhdr at valid
  dsimp only at valid
  split_ifs at valid with short fits
  have offset : tcpHeaderLen tcp 0 = 4 * ((byteAt tcp 12).toNat / 16) := by
    unfold tcpHeaderLen
    rw [Nat.zero_add, Nat.mul_comm]
  simp only [Bool.or_eq_true, decide_eq_true_eq, not_or, Nat.not_lt] at fits
  obtain ⟨opts, after, read, times⟩ := validOptions_to _ _ (Nat.le_refl _) valid
  refine ⟨_, opts, after, ?_, read, times⟩
  unfold fromTCPPacket
  dsimp only
  rw [if_neg short, if_neg (by omega), ← offset, Nat.min_eq_left fits.1, drop_take]

/-! ## What the iteration does -/

theorem foreachOpt_skip {σ : Type} (cb : TcpOptCallback σ) : ∀ (s : Bytes) (skip : Nat) (ctx : σ),
    foreachOpt cb skip s ctx = foreachOpt cb 0 (s.drop skip) ctx
  | [], skip, ctx => by
    rw [drop_nil]
    cases skip <;> rfl
  | _ :: _, 0, _ => rfl
  | _ :: s, skip + 1, ctx => by
    rw [foreachOpt, foreachOpt_skip cb s skip ctx]
    rfl

/-- A callback that never stops the iteration -/
def NeverStops {σ : Type} (cb : TcpOptCallback σ) : Prop := ∀ ctx opt, (cb ctx opt).1 = true

/-- The context after a callback for each of these options -/
def calledFor {σ : Type} (cb : TcpOptCallback σ) (opts : List TcpOpt) (ctx : σ) : σ :=
  opts.foldl (fun ctx opt => (cb ctx opt).2) ctx

/-- The callback that notes what it is given -/
def recordCb : TcpOptCallback (List TcpOpt) := fun seen opt => (true, seen ++ [opt])

theorem recordCb_neverStops : NeverStops recordCb := fun _ _ => rfl

theorem calledFor_record (opts seen : List TcpOpt) :
    calledFor recordCb opts seen = seen ++ opts := by
  induction opts generalizing seen with
  | nil => exact (append_nil seen).symm
  | cons opt opts ih =>
    have rest := ih (seen ++ [opt])
    rw [append_assoc] at rest
    exact rest

theorem foreachOpt_single {σ : Type} (cb : TcpOptCallback σ) (s : Bytes) (ctx : σ)
    (single : op = 0 ∨ op = 1) :
    foreachOpt cb 0 (op :: s) ctx =
      if (cb ctx ⟨op, 1, op :: s⟩).1 then foreachOpt cb 0 s (cb ctx ⟨op, 1, op :: s⟩).2
      else (true, (cb ctx ⟨op, 1, op :: s⟩).2) := by
  have plain : (op = 0 || op = 1) = true := by simpa using single
  conv_lhs => rw [foreachOpt.eq_def]
  dsimp only
  rw [if_pos plain]
  rcases cb ctx ⟨op, 1, op :: s⟩ with ⟨⟨⟩ | ⟨⟩, ctx'⟩ <;> rfl

theorem foreachOpt_tlv {σ : Type} (cb : TcpOptCallback σ) (ctx : σ) (notEol : op ≠ 0)
    (notNop : op ≠ 1) (two : 2 ≤ oplen.toNat) (room : oplen.toNat ≤ s.length + 2) :
    foreachOpt cb 0 (op :: oplen :: s) ctx =
      if (cb ctx ⟨op, oplen, op :: oplen :: s⟩).1 then
        foreachOpt cb 0 ((oplen :: s).drop (oplen.toNat - 1))
          (cb ctx ⟨op, oplen, op :: oplen :: s⟩).2
      else (true, (cb ctx ⟨op, oplen, op :: oplen :: s⟩).2) := by
  have plain : ¬ (op = 0 || op = 1) = true := by simpa using ⟨notEol, notNop⟩
  rw [foreachOpt, if_neg plain, if_neg (by omega), if_neg (by omega)]
  rcases cb ctx ⟨op, oplen, op :: oplen :: s⟩ with ⟨⟨⟩ | ⟨⟩, ctx'⟩
  · rfl
  · exact foreachOpt_skip cb _ _ _

theorem foreachOpt_tlv_short {σ : Type} (cb : TcpOptCallback σ) (ctx : σ) (notEol : op ≠ 0)
    (notNop : op ≠ 1) (short : oplen.toNat < 2) :
    foreachOpt cb 0 (op :: oplen :: s) ctx = (false, ctx) := by
  have plain : ¬ (op = 0 || op = 1) = true := by simpa using ⟨notEol, notNop⟩
  rw [foreachOpt, if_neg plain]
  exact if_pos short

variable {after : Bytes} {opts : List TcpOpt}

/-- A callback that never stops is called for every option up to the first EOL, as long as no
length is below 2, and then for what comes after it. -/
theorem foreachOpt_to {σ : Type} {cb : TcpOptCallback σ} (never : NeverStops cb)
    (read : OptionsTo s opts after) (long : ∀ opt ∈ opts, opt.Long) (ctx : σ) :
    foreachOpt cb 0 s ctx = foreachOpt cb 0 after (calledFor cb opts ctx) := by
  induction read generalizing ctx with
  | done => rfl
  | eol s => rw [foreachOpt_single cb s ctx (.inl rfl), if_pos (never _ _)]; rfl
  | nop rest ih =>
    rw [foreachOpt_single cb _ ctx (.inr rfl), if_pos (never _ _)]
    exact ih (fun opt mem => long opt (mem_cons_of_mem _ mem)) _
  | tlv notEol notNop positive room rest ih =>
    have two := long _ mem_cons_self
    have two := (two.resolve_left notEol).resolve_left notNop
    rw [foreachOpt_tlv cb ctx notEol notNop two room, if_pos (never _ _)]
    exact ih (fun opt mem => long opt (mem_cons_of_mem _ mem)) _

theorem foreachOpt_not_long {σ : Type} {cb : TcpOptCallback σ} (never : NeverStops cb)
    (read : OptionsTo s opts after) (notLong : ¬ ∀ opt ∈ opts, opt.Long) (ctx : σ) :
    (foreachOpt cb 0 s ctx).1 = false := by
  induction read generalizing ctx with
  | done => exact absurd (fun _ mem => absurd mem not_mem_nil) notLong
  | eol s =>
    refine absurd (fun opt mem => ?_) notLong
    rw [mem_singleton.mp mem]
    exact .inl rfl
  | nop rest ih =>
    rw [foreachOpt_single cb _ ctx (.inr rfl), if_pos (never _ _)]
    refine ih (fun long => notLong fun opt mem => ?_) _
    rcases mem_cons.mp mem with rfl | mem
    · exact .inr (.inl rfl)
    · exact long opt mem
  | @tlv op oplen s after opts notEol notNop positive room rest ih =>
    by_cases two : 2 ≤ oplen.toNat
    · rw [foreachOpt_tlv cb ctx notEol notNop two room, if_pos (never _ _)]
      refine ih (fun long => notLong fun opt mem => ?_) _
      rcases mem_cons.mp mem with rfl | mem
      · exact .inr (.inr two)
      · exact long opt mem
    · rw [foreachOpt_tlv_short cb ctx notEol notNop (by omega)]

theorem foreachOpt_record_grows : ∀ (s : Bytes) (skip : Nat) (seen : List TcpOpt),
    ∃ more, (foreachOpt recordCb skip s seen).2 = seen ++ more
  | [], skip, seen => ⟨[], by cases skip <;> exact (append_nil seen).symm⟩
  | _ :: s, skip + 1, seen => foreachOpt_record_grows s skip seen
  | op :: s, 0, seen => by
    by_cases single : op = 0 ∨ op = 1
    · rw [foreachOpt_single recordCb s seen single]
      obtain ⟨more, eq⟩ := foreachOpt_record_grows s 0 (seen ++ [⟨op, 1, op :: s⟩])
      exact ⟨⟨op, 1, op :: s⟩ :: more, by simpa [recordCb] using eq⟩
    obtain ⟨notEol, notNop⟩ := not_or.mp single
    have plain : ¬ (op = 0 || op = 1) = true := by simpa using ⟨notEol, notNop⟩
    cases s with
    | nil =>
      rw [foreachOpt, if_neg plain]
      exact ⟨[], (append_nil seen).symm⟩
    | cons oplen s =>
      rw [foreachOpt, if_neg plain]
      split_ifs
      · exact ⟨[], (append_nil seen).symm⟩
      · exact ⟨[], (append_nil seen).symm⟩
      · obtain ⟨more, eq⟩ := foreachOpt_record_grows (oplen :: s) (oplen.toNat - 1)
          (seen ++ [⟨op, oplen, op :: oplen :: s⟩])
        exact ⟨⟨op, oplen, op :: oplen :: s⟩ :: more, by simpa [recordCb] using eq⟩

/-- What follows the first EOL does not go unnoticed. -/
theorem foreachOpt_record_past (op : UInt8) (s : Bytes) (seen : List TcpOpt) :
    foreachOpt recordCb 0 (op :: s) seen ≠ (true, seen) := by
  intro same
  by_cases single : op = 0 ∨ op = 1
  · rw [foreachOpt_single recordCb s seen single, if_pos (recordCb_neverStops _ _)] at same
    obtain ⟨more, eq⟩ := foreachOpt_record_grows s 0 (seen ++ [⟨op, 1, op :: s⟩])
    have longer := (congrArg Prod.snd same).symm.trans eq
    have lengths := congrArg List.length longer
    simp only [length_append, length_singleton] at lengths
    omega
  · obtain ⟨notEol, notNop⟩ := not_or.mp single
    have plain : ¬ (op = 0 || op = 1) = true := by simpa using ⟨notEol, notNop⟩
    cases s with
    | nil =>
      rw [foreachOpt, if_neg plain] at same
      cases same
    | cons oplen s =>
      by_cases two : 2 ≤ oplen.toNat
      · by_cases room : oplen.toNat ≤ s.length + 2
        · rw [foreachOpt_tlv recordCb seen notEol notNop two room,
            if_pos (recordCb_neverStops _ _)] at same
          obtain ⟨more, eq⟩ := foreachOpt_record_grows ((oplen :: s).drop (oplen.toNat - 1)) 0
            (seen ++ [⟨op, oplen, op :: oplen :: s⟩])
          have longer := (congrArg Prod.snd same).symm.trans eq
          have lengths := congrArg List.length longer
          simp only [length_append, length_singleton] at lengths
          omega
        · rw [foreachOpt, if_neg plain, if_neg (by omega), if_pos (by omega)] at same
          cases same
      · rw [foreachOpt_tlv_short recordCb seen notEol notNop (by omega)] at same
        cases same

/-! ## Finding the timestamp -/

/-- The options `tcpopt_ts_cb` takes for a timestamp -/
def TcpOpt.isTimestamp (opt : TcpOpt) : Bool := opt.op = 8 && opt.oplen = 10

/-- The arguments after the timestamp was found, or as they were if there is none -/
def GetTSArgs.filledFrom (args : GetTSArgs) : Option TcpOpt → GetTSArgs
  | none => args
  | some opt => (tcpoptTsCb args opt).2

theorem tcpoptTsCb_timestamp (args : GetTSArgs) {opt : TcpOpt} (is : opt.isTimestamp = true) :
    (tcpoptTsCb args opt).1 = false := by
  unfold tcpoptTsCb
  rw [if_pos (by exact is)]

theorem tcpoptTsCb_other (args : GetTSArgs) {opt : TcpOpt} (other : opt.isTimestamp = false) :
    tcpoptTsCb args opt = (true, args) := by
  unfold tcpoptTsCb
  rw [if_neg]
  intro is
  rw [TcpOpt.isTimestamp, is] at other
  cases other

theorem foreachOpt_timestamp (read : OptionsTo s opts after) (long : ∀ opt ∈ opts, opt.Long)
    (last : after = []) (args : GetTSArgs) :
    (foreachOpt tcpoptTsCb 0 s args).2 = args.filledFrom (opts.find? TcpOpt.isTimestamp) := by
  induction read with
  | done => rfl
  | eol s =>
    subst last
    rw [foreachOpt_single _ _ _ (.inl rfl), tcpoptTsCb_other args rfl]
    rfl
  | nop rest ih =>
    rw [foreachOpt_single _ _ _ (.inr rfl), tcpoptTsCb_other args rfl, if_pos rfl,
      List.find?_cons_of_neg Bool.false_ne_true]
    exact ih (fun opt mem => long opt (mem_cons_of_mem _ mem)) last
  | @tlv op oplen s after opts notEol notNop positive room rest ih =>
    have two := long _ mem_cons_self
    have two := (two.resolve_left notEol).resolve_left notNop
    rw [foreachOpt_tlv _ _ notEol notNop two room]
    by_cases is : (TcpOpt.mk op oplen (op :: oplen :: s)).isTimestamp = true
    · rw [tcpoptTsCb_timestamp args is, List.find?_cons_of_pos is]
      rfl
    · rw [tcpoptTsCb_other args (by simpa using is), if_pos rfl, List.find?_cons_of_neg is]
      exact ih (fun opt mem => long opt (mem_cons_of_mem _ mem)) last

theorem filledFrom_found (args : GetTSArgs) (clear : args.found = false) (opts : List TcpOpt) :
    (args.filledFrom (opts.find? TcpOpt.isTimestamp)).found = true ↔
      ∃ opt ∈ opts, opt.isTimestamp = true := by
  rw [← List.find?_isSome]
  cases found : opts.find? TcpOpt.isTimestamp with
  | none => simp [GetTSArgs.filledFrom, clear]
  | some opt =>
    have is : opt.isTimestamp = true := List.find?_some found
    unfold TcpOpt.isTimestamp at is
    simp only [GetTSArgs.filledFrom, tcpoptTsCb, if_pos is, Option.isSome_some]

/-! ## When they agree -/

/-- The iteration gives a callback that never stops exactly these options, and the timestamp
is found if and only if it is one of them. -/
def IteratesOver (tcp s : Bytes) (opts : List TcpOpt) : Prop :=
  (∀ (σ : Type) (cb : TcpOptCallback σ) (ctx : σ), NeverStops cb →
    foreachOpt cb 0 s ctx = (true, calledFor cb opts ctx)) ∧
  ∀ timestamp echots, (gettcpoptTs tcp timestamp echots).found = true ↔ ∃ opt ∈ opts, opt.op = 8

/-- **When the iteration agrees with the validation.** The options of an accepted header can be
read up to the first EOL, and the iteration goes over exactly these, exactly when each has a
length of at least 2 (NOP and EOL apart) and the first EOL is the last byte. -/
theorem foreachOpt_agrees_iff {tcp : Bytes} (valid : validateTCPhdr tcp = true) :
    ∃ s opts after, fromTCPPacket tcp = some s ∧ OptionsTo s opts after ∧
      (IteratesOver tcp s opts ↔ (∀ opt ∈ opts, opt.Long) ∧ after = []) := by
  obtain ⟨s, opts, after, from_tcp, read, times⟩ := validateTCPhdr_options valid
  refine ⟨s, opts, after, from_tcp, read, ?_, ?_⟩
  · rintro ⟨every, -⟩
    have recorded := every _ recordCb [] recordCb_neverStops
    rw [calledFor_record, nil_append] at recorded
    have long : ∀ opt ∈ opts, opt.Long := by
      by_contra notLong
      have fails := foreachOpt_not_long recordCb_neverStops read notLong []
      rw [recorded] at fails
      cases fails
    refine ⟨long, ?_⟩
    rw [foreachOpt_to recordCb_neverStops read long, calledFor_record, nil_append] at recorded
    cases after with
    | nil => rfl
    | cons op after => exact absurd recorded (foreachOpt_record_past op after opts)
  · rintro ⟨long, last⟩
    constructor
    · intro σ cb ctx never
      rw [foreachOpt_to never read long, last]
      rfl
    · intro timestamp echots
      unfold gettcpoptTs
      rw [from_tcp]
      dsimp only
      rw [foreachOpt_timestamp read long last, filledFrom_found _ rfl]
      constructor
      · rintro ⟨opt, mem, is⟩
        unfold TcpOpt.isTimestamp at is
        rw [Bool.and_eq_true] at is
        exact ⟨opt, mem, of_decide_eq_true is.1⟩
      · rintro ⟨opt, mem, eight⟩
        refine ⟨opt, mem, ?_⟩
        unfold TcpOpt.isTimestamp
        simp [eight, times opt mem eight]

/-- A header whose 12 bytes of options are a NOP, this byte and a timestamp -/
def timestampAfter (op : UInt8) : Bytes :=
  [0, 80, 0, 80, 0, 0, 0, 0, 0, 0, 0, 0, 0x80, 0x10, 0, 0, 0, 0, 0, 0,
    1, op, 8, 10, 0, 0, 0, 1, 0, 0, 0, 2]

theorem foreachOpt_agrees_nop : ∃ s opts after,
    fromTCPPacket (timestampAfter 1) = some s ∧ OptionsTo s opts after ∧
      (IteratesOver (timestampAfter 1) s opts ↔ (∀ opt ∈ opts, opt.Long) ∧ after = []) :=
  foreachOpt_agrees_iff (by decide)

/-- After an EOL the timestamp is found all the same. -/
theorem timestamp_after_eol : validateTCPhdr (timestampAfter 0) = true ∧
    ∃ s opts after, fromTCPPacket (timestampAfter 0) = some s ∧ OptionsTo s opts after ∧
      (∀ opt ∈ opts, opt.op ≠ 8) ∧
      gettcpoptTs (timestampAfter 0) (some 0) (some 0) = ⟨some 1, some 2, true⟩ ∧
      ¬ IteratesOver (timestampAfter 0) s opts := by
  have none_before : ∀ opt ∈ [TcpOpt.mk 1 1 ((timestampAfter 0).drop 20),
      TcpOpt.mk 0 1 ((timestampAfter 0).drop 21)], opt.op ≠ 8 := by decide
  have found : gettcpoptTs (timestampAfter 0) (some 0) (some 0) = ⟨some 1, some 2, true⟩ := by
    decide
  refine ⟨by decide, _, _, _, rfl, .nop (.eol _), none_before, found, ?_⟩
  rintro ⟨-, finds⟩
  obtain ⟨opt, mem, eight⟩ := (finds (some 0) (some 0)).mp (by rw [found])
  exact none_before opt mem eight

end Nmap.Packet
