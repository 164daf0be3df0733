import Mathlib.Algebra.Order.Floor.Ring
import Mathlib.Tactic.Positivity
import Nmap.Base.CInt
import Nmap.Base.Lasts
import Nmap.ScanEngine.MaxRate

/-!
# Progress estimates (`timing.cc`)

How long a task will still take is estimated from the rate at which it goes on. An estimate stands
for five seconds, or until its time is over, and then the rate is averaged with the one before.
A rate of zero stands for a task that has not begun or has stalled. Rates and times are taken as
rational numbers.
-/

namespace Nmap.Timing

open Nmap.Base
open Nmap.ScanEngine (Timeval)

/-! ## The meter -/

/-- `TIMEVAL_FSEC_SUBTRACT` -/
def fsecSubtract (a b : Timeval) : ℚ := (a.sec : ℚ) - b.sec + ((a.usec : ℚ) - b.usec) / 1000000

/-- An estimate of more than ten days is none. -/
def maxEtaSeconds : Nat := 864000

structure ScanProgressMeter where
  begin : Timeval
  prevTime : Timeval
  prevDone : Nat
  prevRate : ℚ
  lastTimeLeft : Nat

def ScanProgressMeter.start (begin : Timeval) : ScanProgressMeter where
  begin := begin
  prevTime := begin
  prevDone := 0
  prevRate := 0
  lastTimeLeft := 0

/-- How far the task is, and when -/
structure ProgressCall where
  numDone : Nat
  numTotal : Nat
  now : Timeval

namespace ScanProgressMeter

variable (m : ScanProgressMeter) (c : ProgressCall)

/-- The rate before, and at the start and after a stall the rate since the start -/
def rateBefore : Except CFault ℚ :=
  if m.prevRate = 0 then
    let timeSinceStart := fsecSubtract c.now m.begin
    if 0 < timeSinceStart then .ok (c.numDone / timeSinceStart) else .error .assertion
  else .ok m.prevRate

/-- The time left at a rate. A rate at which it is too long counts as none. -/
def timeLeft (rate : ℚ) : Nat × ScanProgressMeter :=
  let remaining : ℚ := ((c.numTotal - c.numDone : Nat) : ℚ) / rate
  let left := if maxEtaSeconds < remaining then maxEtaSeconds else ⌊remaining⌋.toNat
  (left, { m with
    prevTime := c.now
    prevDone := c.numDone
    prevRate := if maxEtaSeconds < remaining then 0 else rate
    lastTimeLeft := left })

def recalculate (completed : Nat) (timeSincePrev : ℚ) : Except CFault (Nat × ScanProgressMeter) :=
  if timeSincePrev = 0 then .error .division
  else do
    let prevRate ← m.rateBefore c
    let rate := 1 / 4 * (completed / timeSincePrev) + 3 / 4 * prevRate
    if 0 < rate then .ok (m.timeLeft c rate) else .error .assertion

/-- Progress that goes back is begun again. -/
def goBack : ScanProgressMeter :=
  if c.numDone < m.prevDone then { m with prevDone := c.numDone } else m

/-- `estimate_time_left`: the seconds, and the meter afterwards -/
def estimateTimeLeft : Except CFault (Nat × ScanProgressMeter) :=
  if c.numTotal ≤ c.numDone then .ok (0, m)
  else
    let m := m.goBack c
    let completed := c.numDone - m.prevDone
    if completed = 0 ∧ m.prevRate = 0 then .ok (maxEtaSeconds, m)
    else
      let timeSincePrev := fsecSubtract c.now m.prevTime
      if timeSincePrev < 5 ∧ timeSincePrev < m.lastTimeLeft then
        .ok (⌊m.lastTimeLeft - timeSincePrev⌋.toNat, m)
      else m.recalculate c completed timeSincePrev

end ScanProgressMeter

/-- None of these calls, of a meter that was started at `begin`, divides by zero or fails an
assertion, and each answers at most `MAX_ETA_SECONDS`. -/
def NeverCrashes (begin : Timeval) (calls : List ProgressCall) : Prop :=
  Lasts (fun (s : Nat × ScanProgressMeter) c => s.2.estimateTimeLeft c)
    (fun _ _ s => s.1 ≤ maxEtaSeconds) (0, .start begin) calls

/-- A call at the very time of the last new estimate, which was less than a second, when the task
is not complete and has gone on since or had not stalled -/
def ScanProgressMeter.Instant (m : ScanProgressMeter) (c : ProgressCall) : Prop :=
  c.now = m.prevTime ∧ m.lastTimeLeft = 0 ∧ c.numDone < c.numTotal ∧
    (m.prevDone < c.numDone ∨ m.prevRate ≠ 0)

/-! ## Times -/

section

variable {a b : Timeval}

theorem fsecSubtract_eq (a b : Timeval) :
    fsecSubtract a b = ((a.micros : ℚ) - b.micros) / 1000000 := by
  unfold fsecSubtract Timeval.micros
  push_cast
  ring

theorem fsecSubtract_pos (later : b.micros < a.micros) : 0 < fsecSubtract a b := by
  rw [fsecSubtract_eq]
  exact div_pos (sub_pos.mpr (Nat.cast_lt.mpr later)) (by norm_num)

theorem fsecSubtract_self (a : Timeval) : fsecSubtract a a = 0 := by
  rw [fsecSubtract_eq, sub_self, zero_div]

theorem timeval_ext (same : a.micros = b.micros) : a = b := by
  obtain ⟨sec, usec, small⟩ := a
  obtain ⟨sec', usec', small'⟩ := b
  simp only [Timeval.micros] at same
  obtain ⟨rfl, rfl⟩ : sec = sec' ∧ usec = usec' := by omega
  rfl

end

/-! ## One call -/

namespace ScanProgressMeter

variable {m : ScanProgressMeter} {c : ProgressCall} {clock : Timeval}

/-- What the calls keep, until the time of the last one -/
structure Kept (m : ScanProgressMeter) (clock : Timeval) : Prop where
  begin_le : m.begin.micros ≤ m.prevTime.micros
  prev_le : m.prevTime.micros ≤ clock.micros
  rate_nonneg : 0 ≤ m.prevRate
  left_le : m.lastTimeLeft ≤ maxEtaSeconds

theorem kept_start (begin : Timeval) : Kept (.start begin) begin where
  begin_le := le_rfl
  prev_le := le_rfl
  rate_nonneg := le_rfl
  left_le := Nat.zero_le _

theorem Kept.later {clock' : Timeval} (kept : Kept m clock) (later : clock.micros ≤ clock'.micros) :
    Kept m clock' where
  begin_le := kept.begin_le
  prev_le := kept.prev_le.trans later
  rate_nonneg := kept.rate_nonneg
  left_le := kept.left_le

@[simp] theorem goBack_begin : (m.goBack c).begin = m.begin := by unfold goBack; split <;> rfl

@[simp] theorem goBack_prevTime : (m.goBack c).prevTime = m.prevTime := by
  unfold goBack; split <;> rfl

@[simp] theorem goBack_prevRate : (m.goBack c).prevRate = m.prevRate := by
  unfold goBack; split <;> rfl

@[simp] theorem goBack_lastTimeLeft : (m.goBack c).lastTimeLeft = m.lastTimeLeft := by
  unfold goBack; split <;> rfl

theorem goBack_completed : c.numDone - (m.goBack c).prevDone = c.numDone - m.prevDone := by
  unfold goBack
  split
  · dsimp only
    omega
  · rfl

theorem Kept.goBack (kept : Kept m clock) (c : ProgressCall) : Kept (m.goBack c) clock where
  begin_le := by simpa using kept.begin_le
  prev_le := by simpa using kept.prev_le
  rate_nonneg := by simpa using kept.rate_nonneg
  left_le := by simpa using kept.left_le

theorem timeLeft_le (m : ScanProgressMeter) (c : ProgressCall) (rate : ℚ) :
    (m.timeLeft c rate).1 ≤ maxEtaSeconds := by
  unfold timeLeft
  dsimp only
  split
  · exact le_rfl
  · rename_i short
    rw [Int.toNat_le, Int.floor_le_iff]
    exact (not_lt.mp short).trans_lt (by norm_num)

theorem Kept.timeLeft (kept : Kept m clock) (later : m.prevTime.micros ≤ c.now.micros) {rate : ℚ}
    (pos : 0 < rate) : Kept (m.timeLeft c rate).2 c.now where
  begin_le := kept.begin_le.trans later
  prev_le := le_rfl
  rate_nonneg := by
    unfold ScanProgressMeter.timeLeft
    dsimp only
    split
    · exact le_rfl
    · exact pos.le
  left_le := timeLeft_le m c rate

theorem Kept.recalculate_ok (kept : Kept m clock) (later : m.prevTime.micros < c.now.micros)
    {completed : Nat} (goes : 0 < completed ∨ m.prevRate ≠ 0) (done : completed ≤ c.numDone) :
    ∃ s, m.recalculate c completed (fsecSubtract c.now m.prevTime) = .ok s ∧
      s.1 ≤ maxEtaSeconds ∧ Kept s.2 c.now := by
  have since := fsecSubtract_pos later
  have start := fsecSubtract_pos (kept.begin_le.trans_lt later)
  have nonneg : (0 : ℚ) ≤ completed / fsecSubtract c.now m.prevTime :=
    div_nonneg (Nat.cast_nonneg _) since.le
  obtain ⟨before, known, pos⟩ : ∃ before, m.rateBefore c = .ok before ∧ 0 < before := by
    unfold rateBefore
    split
    · rename_i stalled
      have some : 0 < completed := goes.resolve_right (not_not_intro stalled)
      exact ⟨_, if_pos start, div_pos (Nat.cast_pos.mpr (some.trans_le done)) start⟩
    · rename_i going
      exact ⟨_, rfl, lt_of_le_of_ne kept.rate_nonneg (Ne.symm going)⟩
  have rate : 0 < 1 / 4 * (completed / fsecSubtract c.now m.prevTime) + 3 / 4 * before := by
    positivity
  refine ⟨m.timeLeft c _, ?_, timeLeft_le m c _, kept.timeLeft later.le rate⟩
  rw [recalculate, if_neg since.ne', known]
  exact if_pos rate

theorem rest_le {left : Nat} {since : ℚ} (nonneg : 0 ≤ since) (short : left ≤ maxEtaSeconds) :
    ⌊(left : ℚ) - since⌋.toNat ≤ maxEtaSeconds := by
  refine le_trans ?_ short
  rw [Int.toNat_le, Int.floor_le_iff]
  exact (sub_le_self _ nonneg).trans_lt (lt_add_one _)

theorem goes_iff : ¬ (c.numDone - (m.goBack c).prevDone = 0 ∧ (m.goBack c).prevRate = 0) ↔
    m.prevDone < c.numDone ∨ m.prevRate ≠ 0 := by
  rw [goBack_completed, goBack_prevRate, not_and_or, Nat.sub_eq_zero_iff_le, not_le]

/-- The step lemma: a call that is not made at the instant of the last estimate answers. -/
theorem Kept.estimate_ok (kept : Kept m clock) (later : clock.micros ≤ c.now.micros)
    (fine : ¬ m.Instant c) :
    ∃ s, m.estimateTimeLeft c = .ok s ∧ s.1 ≤ maxEtaSeconds ∧ Kept s.2 c.now := by
  have still := kept.later later
  have back := still.goBack c
  unfold estimateTimeLeft
  split
  · exact ⟨(0, m), rfl, Nat.zero_le _, still⟩
  · rename_i more
    dsimp only
    split
    · exact ⟨(maxEtaSeconds, m.goBack c), rfl, le_rfl, back⟩
    · rename_i going
      split
      · refine ⟨(_, m.goBack c), rfl, rest_le ?_ back.left_le, back⟩
        rw [fsecSubtract_eq]
        exact div_nonneg (sub_nonneg.mpr (Nat.cast_le.mpr back.prev_le)) (by norm_num)
      · rename_i ended
        have after : (m.goBack c).prevTime.micros < c.now.micros := by
          refine lt_of_le_of_ne back.prev_le fun same => ?_
          have now : c.now = (m.goBack c).prevTime := timeval_ext same.symm
          rw [now, fsecSubtract_self] at ended
          refine fine ⟨now.trans goBack_prevTime, ?_, not_le.mp more, goes_iff.mp going⟩
          have none : ¬ (0 : ℚ) < (m.goBack c).lastTimeLeft := fun some => ended ⟨by norm_num, some⟩
          rw [goBack_lastTimeLeft, Nat.cast_pos] at none
          omega
        refine back.recalculate_ok after ?_ (Nat.sub_le _ _)
        rw [goBack_completed, goBack_prevRate]
        exact (goes_iff.mp going).imp_left Nat.sub_pos_of_lt

theorem estimate_instant (same : m.Instant c) : m.estimateTimeLeft c = .error .division := by
  obtain ⟨now, none, more, goes⟩ := same
  have zero : fsecSubtract c.now (m.goBack c).prevTime = 0 := by
    rw [goBack_prevTime, now, fsecSubtract_self]
  have ended : ¬ ((0 : ℚ) < 5 ∧ (0 : ℚ) < ((m.goBack c).lastTimeLeft : Nat)) := by
    rw [goBack_lastTimeLeft, none]
    norm_num
  rw [estimateTimeLeft, if_neg (not_le.mpr more)]
  dsimp only
  rw [if_neg (goes_iff.mpr goes), zero, if_neg ended]
  exact if_pos rfl

end ScanProgressMeter

/-! ## Runs -/

/-- The times of the calls do not decrease. -/
def Chronological (begin : Timeval) (calls : List ProgressCall) : Prop :=
  (begin :: calls.map ProgressCall.now).IsChain fun a b => a.micros ≤ b.micros

theorem lasts_iff_not_instant (calls : List ProgressCall) :
    ∀ {s : Nat × ScanProgressMeter} {clock : Timeval}, s.2.Kept clock →
      Chronological clock calls →
      (Lasts (fun (s : Nat × ScanProgressMeter) c => s.2.estimateTimeLeft c)
          (fun _ _ s => s.1 ≤ maxEtaSeconds) s calls ↔
        AllMeet (fun (s : Nat × ScanProgressMeter) c => s.2.estimateTimeLeft c)
          (fun s c => ¬ s.2.Instant c) s calls) := by
  induction calls with
  | nil => exact fun _ _ => Iff.rfl
  | cons c rest ih =>
    intro s clock kept ordered
    obtain ⟨later, ordered⟩ := List.isChain_cons_cons.mp ordered
    constructor
    · rintro ⟨t, done, -, lasts⟩
      have fine : ¬ s.2.Instant c := fun same =>
        nomatch (ScanProgressMeter.estimate_instant same).symm.trans done
      obtain ⟨t', done', -, kept'⟩ := kept.estimate_ok later fine
      refine ⟨fine, fun t'' done'' => ?_⟩
      obtain rfl : t = t'' := Except.ok.inj (done.symm.trans done'')
      obtain rfl : t = t' := Except.ok.inj (done.symm.trans done')
      exact (ih kept' ordered).mp lasts
    · rintro ⟨fine, rest⟩
      obtain ⟨t, done, short, kept'⟩ := kept.estimate_ok later fine
      exact ⟨t, done, short, (ih kept' ordered).mpr (rest t done)⟩

/-- The meter never crashes exactly in the runs of calls in which none is made at the instant of
the last estimate while there is something to estimate. -/
theorem neverCrashes_iff (begin : Timeval) (calls : List ProgressCall)
    (ordered : Chronological begin calls) :
    NeverCrashes begin calls ↔
      AllMeet (fun (s : Nat × ScanProgressMeter) c => s.2.estimateTimeLeft c)
        (fun s c => ¬ s.2.Instant c) (0, .start begin) calls :=
  lasts_iff_not_instant calls (ScanProgressMeter.kept_start begin) ordered

def seconds (n : Nat) : Timeval where
  sec := n
  usec := 0
  small := Timeval.zero_small

/-- A task that is seen half way and at its end -/
theorem neverCrashes_halfway :
    NeverCrashes (seconds 0) [⟨50, 100, seconds 31⟩, ⟨100, 100, seconds 62⟩] := by
  refine (neverCrashes_iff _ _ ?_).mpr ⟨?_, fun s _ => ⟨?_, fun _ _ => trivial⟩⟩
  · unfold Chronological
    simp [seconds, Timeval.micros]
  · rintro ⟨now, -⟩
    exact absurd (congrArg Timeval.sec now) (by decide)
  · rintro ⟨-, -, more, -⟩
    exact absurd more (by decide)

/-- A task that has gone on at the very time it began -/
theorem not_neverCrashes_begin : ¬ NeverCrashes (seconds 0) [⟨1, 2, seconds 0⟩] := by
  rintro ⟨s, done, -⟩
  have same : (ScanProgressMeter.start (seconds 0)).Instant ⟨1, 2, seconds 0⟩ :=
    ⟨rfl, rfl, by decide, .inl (by decide)⟩
  exact nomatch (ScanProgressMeter.estimate_instant same).symm.trans done

end Nmap.Timing
