import Nmap.Timing.TimeoutInfo

/-!
# Congestion control (`timing.cc`)

How many probes may be on their way at once is decided as by TCP: a window that grows with every
reply, fast below a threshold and slowly above it, and is cut down by every drop. The window is
taken as a rational number. The threshold and the counts of replies are `int`s.
-/

namespace Nmap.Timing

open Nmap.Base
open Nmap.ScanEngine (Timeval)

/-! ## The settings -/

/-- The options that the settings are made of -/
structure TimingOptions where
  minParallelism : Int
  maxParallelism : Int
  timingLevel : Int
  /-- zero is for not set, and the options are refused when one of them is less than one -/
  min_nonneg : 0 ≤ minParallelism
  max_nonneg : 0 ≤ maxParallelism

structure ScanPerformanceVars where
  lowCwnd : Int
  hostInitialCwnd : Int
  groupInitialCwnd : Int
  maxCwnd : Int
  slowIncr : Int
  caIncr : Int
  ccScaleMax : Int
  initialSsthresh : Int
  groupDropCwndDivisor : ℚ
  groupDropSsthreshDivisor : ℚ
  hostDropSsthreshDivisor : ℚ

namespace TimingOptions

variable (o : TimingOptions)

def lowCwnd : Int := if o.minParallelism ≠ 0 then o.minParallelism else 1

def maxCwnd : Int := max o.lowCwnd (if o.maxParallelism ≠ 0 then o.maxParallelism else 300)

def ssthreshDivisor : ℚ :=
  if o.timingLevel ≤ 3 then 3 / 2 else if o.timingLevel ≤ 4 then 4 / 3 else 5 / 4

end TimingOptions

def ScanPerformanceVars.init (o : TimingOptions) : Except CFault ScanPerformanceVars := do
  let groupInitialCwnd ← box o.lowCwnd o.maxCwnd 10
  return {
    lowCwnd := o.lowCwnd
    maxCwnd := o.maxCwnd
    groupInitialCwnd := groupInitialCwnd
    hostInitialCwnd := groupInitialCwnd
    slowIncr := 1
    caIncr := if o.timingLevel < 4 then 1 else 2
    ccScaleMax := 50
    initialSsthresh := 75
    groupDropCwndDivisor := 2
    groupDropSsthreshDivisor := o.ssthreshDivisor
    hostDropSsthreshDivisor := o.ssthreshDivisor }

/-! ## The window -/

structure UltraTimingVals where
  cwnd : ℚ
  ssthresh : Int
  numRepliesExpected : Int
  numRepliesReceived : Int
  lastDrop : Timeval

/-- Whether the window is that of one host or that of all of them -/
inductive TimingType
  | host
  | group

def initUltraTimingVals (perf : ScanPerformanceVars) (now : Timeval) (utt : TimingType) :
    UltraTimingVals where
  cwnd := match utt with
    | .host => perf.hostInitialCwnd
    | .group => perf.groupInitialCwnd
  ssthresh := perf.initialSsthresh
  numRepliesExpected := 0
  numRepliesReceived := 0
  lastDrop := now

namespace UltraTimingVals

variable (perf : ScanPerformanceVars) (t : UltraTimingVals)

def ccScale : Except CFault ℚ :=
  if 0 < t.numRepliesReceived then
    .ok (min (t.numRepliesExpected / t.numRepliesReceived : ℚ) perf.ccScaleMax)
  else .error .assertion

/-- The window after a reply, before it is limited by the settings -/
def grow (scale : ℚ) : Except CFault ℚ :=
  if t.cwnd < t.ssthresh then do
    let k ← t.ccScale perf
    let cwnd := t.cwnd + perf.slowIncr * k * scale
    return if (t.ssthresh : ℚ) < cwnd then (t.ssthresh : ℚ) else cwnd
  else if t.cwnd = 0 then .error .division
  else do
    let k ← t.ccScale perf
    return t.cwnd + perf.caIncr / t.cwnd * k * scale

def receive : Except CFault UltraTimingVals := do
  let numRepliesReceived ← checkInt (t.numRepliesReceived + 1)
  return { t with numRepliesReceived := numRepliesReceived }

def ack (scale : ℚ) : Except CFault UltraTimingVals := do
  let t ← t.receive
  let cwnd ← t.grow perf scale
  return { t with cwnd := if (perf.maxCwnd : ℚ) < cwnd then (perf.maxCwnd : ℚ) else cwnd }

/-- `(int) MAX(in_flight / divisor, 2)` -/
def dropSsthresh (inFlight : UInt32) (divisor : ℚ) : Except CFault Int :=
  checkInt ⌊max (inFlight.toNat / divisor) 2⌋

def drop (inFlight : UInt32) (now : Timeval) : Except CFault UltraTimingVals := do
  let ssthresh ← dropSsthresh inFlight perf.hostDropSsthreshDivisor
  return { t with cwnd := perf.lowCwnd, ssthresh := ssthresh, lastDrop := now }

def dropGroup (inFlight : UInt32) (now : Timeval) : Except CFault UltraTimingVals := do
  let ssthresh ← dropSsthresh inFlight perf.groupDropSsthreshDivisor
  return { t with
    cwnd := max perf.lowCwnd (t.cwnd / perf.groupDropCwndDivisor)
    ssthresh := ssthresh
    lastDrop := now }

end UltraTimingVals

/-- What happens to a window. The rest of the engine sets how many replies it waits for. -/
inductive TimingEvent
  | expect (replies : Nat)
  | ack (scale : ℚ) (nonneg : 0 ≤ scale)
  | drop (inFlight : UInt32) (now : Timeval)
  | dropGroup (inFlight : UInt32) (now : Timeval)

def UltraTimingVals.step (perf : ScanPerformanceVars) (t : UltraTimingVals) :
    TimingEvent → Except CFault UltraTimingVals
  | .expect replies => .ok { t with numRepliesExpected := replies }
  | .ack scale _ => t.ack perf scale
  | .drop inFlight now => t.drop perf inFlight now
  | .dropGroup inFlight now => t.dropGroup perf inFlight now

/-- The bounds that hold after every event -/
structure Bounded (perf : ScanPerformanceVars) (t : UltraTimingVals) : Prop where
  low : (perf.lowCwnd : ℚ) ≤ t.cwnd
  high : t.cwnd ≤ perf.maxCwnd
  ssthresh : 2 ≤ t.ssthresh

/-- What an event has to do to a window -/
def Does (perf : ScanPerformanceVars) (t : UltraTimingVals) (e : TimingEvent)
    (t' : UltraTimingVals) : Prop :=
  Bounded perf t' ∧ ∀ scale nonneg, e = .ack scale nonneg → t.cwnd ≤ t'.cwnd

/-- No computation fails in the course of these events, from a new window on, and each leaves the
window in its bounds. -/
def StaysBounded (o : TimingOptions) (now : Timeval) (utt : TimingType)
    (events : List TimingEvent) : Prop :=
  ∃ perf, ScanPerformanceVars.init o = .ok perf ∧
    Lasts (UltraTimingVals.step perf) (Does perf) (initUltraTimingVals perf now utt) events

/-- A drop with so few probes on their way that the new threshold fits an `int` -/
def TimingEvent.Fits (divisor : ℚ) : TimingEvent → Prop
  | .drop inFlight _ | .dropGroup inFlight _ => inFlight.toNat / divisor < 2 ^ 31
  | _ => True

def acks : List TimingEvent → Nat
  | [] => 0
  | .ack _ _ :: rest => acks rest + 1
  | _ :: rest => acks rest

/-! ## Settings -/

/-- What `init` makes of all options -/
structure Proper (divisor : ℚ) (perf : ScanPerformanceVars) : Prop where
  one_le_low : 1 ≤ perf.lowCwnd
  low_le_max : perf.lowCwnd ≤ perf.maxCwnd
  host : perf.lowCwnd ≤ perf.hostInitialCwnd ∧ perf.hostInitialCwnd ≤ perf.maxCwnd
  group : perf.lowCwnd ≤ perf.groupInitialCwnd ∧ perf.groupInitialCwnd ≤ perf.maxCwnd
  slowIncr : 0 ≤ perf.slowIncr
  caIncr : 0 ≤ perf.caIncr
  ccScaleMax : 0 ≤ perf.ccScaleMax
  initialSsthresh : 2 ≤ perf.initialSsthresh
  one_le_divisor : 1 ≤ perf.groupDropCwndDivisor
  hostDivisor : perf.hostDropSsthreshDivisor = divisor
  groupDivisor : perf.groupDropSsthreshDivisor = divisor

variable {o : TimingOptions} {perf : ScanPerformanceVars} {t t' : UltraTimingVals}
  {divisor : ℚ}

theorem init_ok (o : TimingOptions) :
    ∃ perf, ScanPerformanceVars.init o = .ok perf ∧ Proper o.ssthreshDivisor perf := by
  have := o.min_nonneg
  have low : 1 ≤ o.lowCwnd := by
    unfold TimingOptions.lowCwnd
    split <;> omega
  have ordered : o.lowCwnd ≤ o.maxCwnd := le_max_left _ _
  obtain ⟨initial, boxed, above, below⟩ := box_ok 10 ordered
  refine ⟨_, by rw [ScanPerformanceVars.init, boxed]; rfl, ?_⟩
  exact {
    one_le_low := low
    low_le_max := ordered
    host := ⟨above, below⟩
    group := ⟨above, below⟩
    slowIncr := zero_le_one
    caIncr := by dsimp only; split <;> decide
    ccScaleMax := by dsimp only; decide
    initialSsthresh := by dsimp only; decide
    one_le_divisor := one_le_two
    hostDivisor := rfl
    groupDivisor := rfl }

/-! ## Replies -/

namespace UltraTimingVals

/-- What the events keep -/
structure Kept (perf : ScanPerformanceVars) (t : UltraTimingVals) : Prop where
  bounded : Bounded perf t
  expected : 0 ≤ t.numRepliesExpected
  received : 0 ≤ t.numRepliesReceived

theorem ccScale_ok (proper : Proper divisor perf) (expected : 0 ≤ t.numRepliesExpected)
    (received : 0 < t.numRepliesReceived) : ∃ k, t.ccScale perf = .ok k ∧ 0 ≤ k := by
  refine ⟨_, if_pos received, le_min ?_ (Int.cast_nonneg proper.ccScaleMax)⟩
  exact div_nonneg (Int.cast_nonneg expected) (Int.cast_nonneg received.le)

variable {scale : ℚ}

theorem grow_ok (proper : Proper divisor perf) (bounded : Bounded perf t)
    (expected : 0 ≤ t.numRepliesExpected) (received : 0 < t.numRepliesReceived)
    (nonneg : 0 ≤ scale) : ∃ cwnd, t.grow perf scale = .ok cwnd ∧ t.cwnd ≤ cwnd := by
  obtain ⟨k, scaled, pos⟩ := ccScale_ok proper expected received
  unfold grow
  split
  · rename_i slow
    have incr : 0 ≤ (perf.slowIncr : ℚ) * k * scale :=
      mul_nonneg (mul_nonneg (Int.cast_nonneg proper.slowIncr) pos) nonneg
    rw [scaled]
    refine ⟨_, rfl, ?_⟩
    split
    · exact slow.le
    · exact le_add_of_nonneg_right incr
  · have one : (1 : ℚ) ≤ t.cwnd := (Int.cast_le.mpr proper.one_le_low).trans bounded.low
    have cwnd : 0 < t.cwnd := zero_lt_one.trans_le one
    have incr : 0 ≤ (perf.caIncr : ℚ) / t.cwnd * k * scale :=
      mul_nonneg (mul_nonneg (div_nonneg (Int.cast_nonneg proper.caIncr) cwnd.le) pos) nonneg
    rw [if_neg cwnd.ne', scaled]
    exact ⟨_, rfl, le_add_of_nonneg_right incr⟩

theorem limit_bounds (bounded : Bounded perf t) {cwnd : ℚ} (above : t.cwnd ≤ cwnd) :
    (t.cwnd ≤ if (perf.maxCwnd : ℚ) < cwnd then (perf.maxCwnd : ℚ) else cwnd) ∧
      (if (perf.maxCwnd : ℚ) < cwnd then (perf.maxCwnd : ℚ) else cwnd) ≤ perf.maxCwnd := by
  split
  · exact ⟨bounded.high, le_rfl⟩
  · rename_i below
    exact ⟨above, not_lt.mp below⟩

theorem receive_ok (few : t.numRepliesReceived < 2147483647) (received : 0 ≤ t.numRepliesReceived) :
    t.receive = .ok { t with numRepliesReceived := t.numRepliesReceived + 1 } := by
  rw [receive, CInt.check (by unfold IntFits; omega)]
  rfl

theorem ack_ok (proper : Proper divisor perf) (kept : Kept perf t)
    (few : t.numRepliesReceived < 2147483647) (nonneg : 0 ≤ scale) :
    ∃ t', t.ack perf scale = .ok t' ∧ Bounded perf t' ∧ t.cwnd ≤ t'.cwnd ∧
      t'.numRepliesExpected = t.numRepliesExpected ∧
      t'.numRepliesReceived = t.numRepliesReceived + 1 := by
  have received := kept.received
  obtain ⟨cwnd, grown, above⟩ := grow_ok
    (t := { t with numRepliesReceived := t.numRepliesReceived + 1 }) proper
    ⟨kept.bounded.low, kept.bounded.high, kept.bounded.ssthresh⟩ kept.expected
    (by dsimp only; omega) nonneg
  obtain ⟨larger, below⟩ := limit_bounds kept.bounded above
  refine ⟨{ t with
    cwnd := if (perf.maxCwnd : ℚ) < cwnd then (perf.maxCwnd : ℚ) else cwnd
    numRepliesReceived := t.numRepliesReceived + 1 }, ?_,
    ⟨kept.bounded.low.trans larger, below, kept.bounded.ssthresh⟩, larger, rfl, rfl⟩
  simp only [ack, receive_ok few received, bind, Except.bind, grown]
  rfl

theorem ack_counts (done : t.ack perf scale = .ok t') :
    t.numRepliesReceived < 2147483647 := by
  by_contra many
  have full : t.receive = .error .overflow := by
    rw [receive, CInt.check_not (by unfold IntFits; omega)]
    rfl
  rw [ack, full] at done
  exact nomatch done

/-! ## Drops -/

variable {inFlight : UInt32}

theorem dropSsthresh_ok (few : inFlight.toNat / divisor < 2 ^ 31) :
    ∃ n, dropSsthresh inFlight divisor = .ok n ∧ 2 ≤ n := by
  have two : (2 : Int) ≤ ⌊max (inFlight.toNat / divisor) 2⌋ :=
    Int.le_floor.mpr (le_max_right _ _)
  have small : ⌊max (inFlight.toNat / divisor) 2⌋ < 2 ^ 31 := by
    rw [Int.floor_lt]
    exact max_lt (by exact_mod_cast few) (by norm_num)
  exact ⟨_, CInt.check (by unfold IntFits; omega), two⟩

theorem dropSsthresh_few {n : Int} (done : dropSsthresh inFlight divisor = .ok n) :
    inFlight.toNat / divisor < 2 ^ 31 := by
  by_contra many
  have wide : (2 ^ 31 : Int) ≤ ⌊max (inFlight.toNat / divisor) 2⌋ := by
    rw [Int.le_floor]
    exact le_max_of_le_left (by exact_mod_cast not_lt.mp many)
  rw [dropSsthresh, CInt.check_not (by unfold IntFits; omega)] at done
  exact nomatch done

theorem drop_ok (proper : Proper divisor perf) (now : Timeval)
    (few : inFlight.toNat / divisor < 2 ^ 31) :
    ∃ t', t.drop perf inFlight now = .ok t' ∧ Bounded perf t' ∧
      t'.numRepliesExpected = t.numRepliesExpected ∧
      t'.numRepliesReceived = t.numRepliesReceived := by
  obtain ⟨ssthresh, reset, two⟩ := dropSsthresh_ok few
  refine ⟨{ t with cwnd := perf.lowCwnd, ssthresh := ssthresh, lastDrop := now }, ?_,
    ⟨le_rfl, Int.cast_le.mpr proper.low_le_max, two⟩, rfl, rfl⟩
  rw [drop, proper.hostDivisor, reset]
  rfl

theorem dropGroup_ok (proper : Proper divisor perf) (bounded : Bounded perf t) (now : Timeval)
    (few : inFlight.toNat / divisor < 2 ^ 31) :
    ∃ t', t.dropGroup perf inFlight now = .ok t' ∧ Bounded perf t' ∧
      t'.numRepliesExpected = t.numRepliesExpected ∧
      t'.numRepliesReceived = t.numRepliesReceived := by
  obtain ⟨ssthresh, reset, two⟩ := dropSsthresh_ok few
  have nonneg : 0 ≤ t.cwnd :=
    (Int.cast_nonneg (zero_le_one.trans proper.one_le_low)).trans bounded.low
  have cut : t.cwnd / perf.groupDropCwndDivisor ≤ perf.maxCwnd :=
    (div_le_self nonneg proper.one_le_divisor).trans bounded.high
  refine ⟨{ t with
    cwnd := max perf.lowCwnd (t.cwnd / perf.groupDropCwndDivisor)
    ssthresh := ssthresh
    lastDrop := now }, ?_,
    ⟨le_max_left _ _, max_le (Int.cast_le.mpr proper.low_le_max) cut, two⟩, rfl, rfl⟩
  rw [dropGroup, proper.groupDivisor, reset]
  rfl

theorem drop_few {now : Timeval} (done : t.drop perf inFlight now = .ok t') :
    inFlight.toNat / perf.hostDropSsthreshDivisor < 2 ^ 31 := by
  cases reset : dropSsthresh inFlight perf.hostDropSsthreshDivisor with
  | error e => rw [drop, reset] at done; exact nomatch done
  | ok n => exact dropSsthresh_few reset

theorem dropGroup_few {now : Timeval} (done : t.dropGroup perf inFlight now = .ok t') :
    inFlight.toNat / perf.groupDropSsthreshDivisor < 2 ^ 31 := by
  cases reset : dropSsthresh inFlight perf.groupDropSsthreshDivisor with
  | error e => rw [dropGroup, reset] at done; exact nomatch done
  | ok n => exact dropSsthresh_few reset

end UltraTimingVals

/-! ## Runs -/

/-- The condition on the window before an event and on the event -/
def Admitted (divisor : ℚ) (t : UltraTimingVals) (e : TimingEvent) : Prop :=
  e.Fits divisor ∧ t.numRepliesReceived + acks [e] ≤ 2147483647

open UltraTimingVals (Kept)

/-- The step lemma: an admitted event goes through and does what it should. -/
theorem step_ok (proper : Proper divisor perf) (kept : Kept perf t) {e : TimingEvent}
    (admitted : Admitted divisor t e) :
    ∃ t', t.step perf e = .ok t' ∧ Does perf t e t' ∧ Kept perf t' ∧
      t'.numRepliesReceived = t.numRepliesReceived + acks [e] := by
  obtain ⟨fits, few⟩ := admitted
  have received := kept.received
  cases e with
  | expect replies =>
    exact ⟨_, rfl, ⟨⟨kept.bounded.low, kept.bounded.high, kept.bounded.ssthresh⟩, nofun⟩,
      ⟨⟨kept.bounded.low, kept.bounded.high, kept.bounded.ssthresh⟩, Int.natCast_nonneg _,
        received⟩, (Int.add_zero _).symm⟩
  | ack scale nonneg =>
    simp only [acks] at few
    obtain ⟨t', done, bounded, larger, expected, counted⟩ :=
      UltraTimingVals.ack_ok proper kept (by omega) nonneg
    exact ⟨t', done, ⟨bounded, fun _ _ _ => larger⟩,
      ⟨bounded, expected ▸ kept.expected, by omega⟩, counted⟩
  | drop inFlight now =>
    obtain ⟨t', done, bounded, expected, counted⟩ :=
      UltraTimingVals.drop_ok (t := t) proper now fits
    exact ⟨t', done, ⟨bounded, nofun⟩, ⟨bounded, expected ▸ kept.expected, by omega⟩,
      by simpa [acks] using counted⟩
  | dropGroup inFlight now =>
    obtain ⟨t', done, bounded, expected, counted⟩ :=
      UltraTimingVals.dropGroup_ok proper kept.bounded now fits
    exact ⟨t', done, ⟨bounded, nofun⟩, ⟨bounded, expected ▸ kept.expected, by omega⟩,
      by simpa [acks] using counted⟩

theorem step_admitted (proper : Proper divisor perf) (fits : t.numRepliesReceived ≤ 2147483647)
    {e : TimingEvent} (done : t.step perf e = .ok t') : Admitted divisor t e := by
  cases e with
  | expect replies => exact ⟨trivial, by simpa [acks] using fits⟩
  | ack scale nonneg =>
    have := UltraTimingVals.ack_counts done
    exact ⟨trivial, by simp only [acks]; omega⟩
  | drop inFlight now =>
    exact ⟨proper.hostDivisor ▸ UltraTimingVals.drop_few done, by simpa [acks] using fits⟩
  | dropGroup inFlight now =>
    exact ⟨proper.groupDivisor ▸ UltraTimingVals.dropGroup_few done, by simpa [acks] using fits⟩

theorem acks_cons (e : TimingEvent) (rest : List TimingEvent) :
    acks (e :: rest) = acks [e] + acks rest := by
  cases e <;> simp only [acks] <;> omega

theorem lasts_iff_admitted (proper : Proper divisor perf) (events : List TimingEvent) :
    ∀ {t : UltraTimingVals}, Kept perf t → t.numRepliesReceived ≤ 2147483647 →
      (Lasts (UltraTimingVals.step perf) (Does perf) t events ↔
        t.numRepliesReceived + acks events ≤ 2147483647 ∧ ∀ e ∈ events, e.Fits divisor) := by
  induction events with
  | nil =>
    intro t _ fits
    exact ⟨fun _ => ⟨by simpa [acks] using fits, nofun⟩, fun _ => trivial⟩
  | cons e rest ih =>
    intro t kept fits
    have more := acks_cons e rest
    constructor
    · rintro ⟨t', done, -, lasts⟩
      have admitted := step_admitted proper fits done
      obtain ⟨t'', done', -, kept', counted⟩ := step_ok proper kept admitted
      obtain rfl : t' = t'' := Except.ok.inj (done.symm.trans done')
      obtain ⟨few, small⟩ := (ih kept' (counted ▸ admitted.2)).mp lasts
      exact ⟨by omega, List.forall_mem_cons.mpr ⟨admitted.1, small⟩⟩
    · rintro ⟨few, small⟩
      obtain ⟨first, later⟩ := List.forall_mem_cons.mp small
      obtain ⟨t', done, does, kept', counted⟩ := step_ok proper kept ⟨first, by omega⟩
      exact ⟨t', done, does, (ih kept' (by omega)).mpr ⟨by omega, later⟩⟩

theorem kept_init (proper : Proper divisor perf) (now : Timeval) (utt : TimingType) :
    Kept perf (initUltraTimingVals perf now utt) where
  bounded := by
    cases utt with
    | host => exact ⟨Int.cast_le.mpr proper.host.1, Int.cast_le.mpr proper.host.2,
        proper.initialSsthresh⟩
    | group => exact ⟨Int.cast_le.mpr proper.group.1, Int.cast_le.mpr proper.group.2,
        proper.initialSsthresh⟩
  expected := le_rfl
  received := le_rfl

/-- The window stays in its bounds, and no computation fails, exactly in the runs with fewer than
2³¹ replies whose drops come while the new threshold fits an `int`. -/
theorem staysBounded_iff (o : TimingOptions) (now : Timeval) (utt : TimingType)
    (events : List TimingEvent) :
    StaysBounded o now utt events ↔
      acks events < 2 ^ 31 ∧ ∀ e ∈ events, e.Fits o.ssthreshDivisor := by
  obtain ⟨perf, made, proper⟩ := init_ok o
  have zero : (initUltraTimingVals perf now utt).numRepliesReceived = 0 := rfl
  have runs := lasts_iff_admitted proper events (kept_init proper now utt) (by omega)
  rw [zero] at runs
  constructor
  · rintro ⟨perf', made', lasts⟩
    obtain rfl : perf = perf' := Except.ok.inj (made.symm.trans made')
    obtain ⟨few, small⟩ := runs.mp lasts
    exact ⟨by omega, small⟩
  · rintro ⟨few, small⟩
    exact ⟨perf, made, runs.mpr ⟨by omega, small⟩⟩

def normalTiming : TimingOptions where
  minParallelism := 0
  maxParallelism := 0
  timingLevel := 3
  min_nonneg := le_rfl
  max_nonneg := le_rfl

def epoch : Timeval where
  sec := 0
  usec := 0
  small := Timeval.zero_small

/-- A drop while as many probes are on their way as can be counted has no threshold. -/
theorem not_staysBounded_drop :
    ¬ StaysBounded normalTiming epoch .host [.drop 4294967295 epoch] := by
  rintro ⟨perf, made, t, done, -⟩
  obtain ⟨perf', made', proper⟩ := init_ok normalTiming
  obtain rfl : perf = perf' := Except.ok.inj (made.symm.trans made')
  have few := UltraTimingVals.drop_few done
  have all : (4294967295 : UInt32).toNat = 4294967295 := rfl
  rw [proper.hostDivisor, all] at few
  norm_num [TimingOptions.ssthreshDivisor, normalTiming] at few

end Nmap.Timing
