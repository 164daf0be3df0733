import Nmap.Base.CInt
import Nmap.Base.Lasts
import Nmap.ScanEngine.MaxRate

/-!
# Round trip times (`timing.cc`)

The time a probe may take is estimated from the times that earlier ones took: a smoothed round trip
time, and how far the times are from it. The first sample starts the estimates and is hardly
looked at. Later ones are left out when they are absurd.
-/

namespace Nmap.Timing

open Nmap.Base
open Nmap.ScanEngine (Timeval)

/-! ## The options -/

/-- The timeouts of the options, in milliseconds -/
structure RttOptions where
  initialRttTimeout : Int
  minRttTimeout : Int
  maxRttTimeout : Int
  scanDelay : Nat
  ordered : minRttTimeout ≤ maxRttTimeout

namespace RttOptions

variable (o : RttOptions) (rtt : Int)

def setMaxRttTimeout : Option RttOptions :=
  if rtt ≤ 0 then none
  else some { o with
    maxRttTimeout := rtt
    minRttTimeout := if rtt < o.minRttTimeout then rtt else o.minRttTimeout
    initialRttTimeout := if rtt < o.initialRttTimeout then rtt else o.initialRttTimeout
    ordered := by split <;> omega }

def setMinRttTimeout : Option RttOptions :=
  if rtt < 0 then none
  else some { o with
    minRttTimeout := rtt
    maxRttTimeout := if o.maxRttTimeout < rtt then rtt else o.maxRttTimeout
    initialRttTimeout := if o.initialRttTimeout < rtt then rtt else o.initialRttTimeout
    ordered := by split <;> omega }

def setInitialRttTimeout : Option RttOptions :=
  if rtt ≤ 0 then none
  else some { o with
    initialRttTimeout := rtt
    maxRttTimeout := if o.maxRttTimeout < rtt then rtt else o.maxRttTimeout
    minRttTimeout := if rtt < o.minRttTimeout then rtt else o.minRttTimeout
    ordered := by have := o.ordered; split <;> split <;> omega }

/-- The timeouts fit an `int` in microseconds. -/
def Scalable : Prop :=
  IntFits (o.initialRttTimeout * 1000) ∧ IntFits (o.minRttTimeout * 1000) ∧
    IntFits (o.maxRttTimeout * 1000)

end RttOptions

/-! ## The estimates -/

structure TimeoutInfo where
  srtt : Int
  rttvar : Int
  timeout : Int

/-- When a probe was sent and when its answer came -/
structure Sample where
  sent : Timeval
  received : Timeval

/-- `box`, with its assertion -/
def box (bmin bmax bnum : Int) : Except CFault Int :=
  if bmin ≤ bmax then
    .ok (if bmax ≤ bnum then bmax else if bnum ≤ bmin then bmin else bnum)
  else .error .assertion

def initializeTimeoutInfo (o : RttOptions) : Except CFault TimeoutInfo := do
  let timeout ← checkInt (o.initialRttTimeout * 1000)
  return { srtt := -1, rttvar := -1, timeout := timeout }

/-- The answer may seem to come a little before the probe was sent. -/
def tolerate (delta : Int) : Int := if delta < 0 ∧ -50000 < delta then 10000 else delta

def Sample.delta (s : Sample) : Int := tolerate (s.received.subtract s.sent)

/-- `srtt + (rttvar << 2)` -/
def estimate (srtt rttvar : Int) : Except CFault Int := do
  let spread ← checkInt (rttvar * 4)
  checkInt (srtt + spread)

/-- The first sample starts the estimates. -/
def firstEstimates (delta : Int) : Except CFault TimeoutInfo := do
  let srtt := toInt delta
  let rttvar ← box 5000 2000000 srtt
  let timeout ← estimate srtt rttvar
  return { srtt := srtt, rttvar := rttvar, timeout := timeout }

def bogus (rttdelta : Int) (info : TimeoutInfo) : Except CFault Bool := do
  if 1500000 < rttdelta then
    let times ← checkInt (3 * info.srtt)
    let spread ← checkInt (2 * info.rttvar)
    let limit ← checkInt (times + spread)
    return decide (limit < rttdelta)
  else
    return false

/-- The averages move on, an eighth and a fourth of the way. -/
def nextEstimates (rttdelta : Int) (info : TimeoutInfo) : Except CFault TimeoutInfo := do
  let srtt := toInt (info.srtt + (rttdelta >>> (3 : Nat)))
  let rttvar := toInt (info.rttvar + ((|rttdelta| - info.rttvar) >>> (2 : Nat)))
  let timeout ← estimate srtt rttvar
  return { srtt := srtt, rttvar := rttvar, timeout := timeout }

/-- What is done to all estimates that are not left as they were -/
def limitEstimates (o : RttOptions) (info : TimeoutInfo) : Except CFault TimeoutInfo := do
  let rttvar := if 2300000 < info.rttvar then 2000000 else info.rttvar
  let bmin ← checkInt (o.minRttTimeout * 1000)
  let bmax ← checkInt (o.maxRttTimeout * 1000)
  let timeout ← box bmin bmax info.timeout
  -- the comparison with the delay is one of unsigned numbers
  let timeout := if o.scanDelay = 0 then timeout
    else toInt (max (timeout % 2 ^ 32) (o.scanDelay * 1000 % 2 ^ 32 : Nat))
  return { srtt := info.srtt, rttvar := rttvar, timeout := timeout }

def adjustTimeouts2 (o : RttOptions) (info : TimeoutInfo) (s : Sample) :
    Except CFault TimeoutInfo := do
  let delta := s.delta
  if info.srtt = -1 ∧ info.rttvar = -1 then
    let first ← firstEstimates delta
    limitEstimates o first
  else if 8000000 ≤ delta ∨ delta < 0 then
    return info
  else
    let rttdelta := delta - info.srtt
    if ← bogus rttdelta info then
      return info
    else
      let next ← nextEstimates rttdelta info
      limitEstimates o next

/-- What the estimates have to be after a sample -/
structure Sane (o : RttOptions) (info : TimeoutInfo) : Prop where
  srtt : 0 ≤ info.srtt
  rttvar : 0 ≤ info.rttvar
  rttvar_le : info.rttvar ≤ 2300000
  timeout_ge : o.minRttTimeout * 1000 ≤ info.timeout
  timeout_le : info.timeout ≤ o.maxRttTimeout * 1000

/-- No computation overflows, from new estimates on, and they are sane after every sample. -/
def StaysSane (o : RttOptions) (samples : List Sample) : Prop :=
  ∃ fresh, initializeTimeoutInfo o = .ok fresh ∧
    Lasts (adjustTimeouts2 o) (fun _ _ info => Sane o info) fresh samples

/-- The longest first time after which no sample can make the estimates overflow -/
def longestFirst : Int := 1142124612

/-! ## What a sample does -/

variable {o : RttOptions} {info next : TimeoutInfo} {s : Sample} {delta : Int}

theorem box_ok {bmin bmax : Int} (bnum : Int) (ordered : bmin ≤ bmax) :
    ∃ n, box bmin bmax bnum = .ok n ∧ bmin ≤ n ∧ n ≤ bmax := by
  refine ⟨_, if_pos ordered, ?_, ?_⟩ <;> split <;> [skip; split; skip; split] <;> omega

/-- How far the limit lets the second average go -/
def limitSpread (rttvar : Int) : Int := if 2300000 < rttvar then 2000000 else rttvar

theorem limitEstimates_ok (info : TimeoutInfo) (instant : o.scanDelay = 0) (scalable : o.Scalable) :
    ∃ n, limitEstimates o info = .ok n ∧ n.srtt = info.srtt ∧ n.rttvar = limitSpread info.rttvar ∧
      o.minRttTimeout * 1000 ≤ n.timeout ∧ n.timeout ≤ o.maxRttTimeout * 1000 := by
  have ordered := Int.mul_le_mul_of_nonneg_right o.ordered (by omega : (0 : Int) ≤ 1000)
  obtain ⟨timeout, limited, low, high⟩ := box_ok info.timeout ordered
  refine ⟨{ srtt := info.srtt, rttvar := limitSpread info.rttvar, timeout := timeout }, ?_,
    rfl, rfl, low, high⟩
  simp only [limitEstimates, CInt.check scalable.2.1, CInt.check scalable.2.2, bind, Except.bind,
    limited, instant, if_true]
  rfl

theorem limitEstimates_scales (done : limitEstimates o info = .ok next) :
    IntFits (o.minRttTimeout * 1000) ∧ IntFits (o.maxRttTimeout * 1000) := by
  rw [limitEstimates, CInt.check_bind_eq_ok, CInt.check_bind_eq_ok] at done
  exact ⟨done.1, done.2.1⟩

theorem limitEstimates_keeps (done : limitEstimates o info = .ok next) :
    next.srtt = info.srtt ∧ next.rttvar = limitSpread info.rttvar := by
  rw [limitEstimates, CInt.check_bind_eq_ok, CInt.check_bind_eq_ok] at done
  obtain ⟨-, -, limited⟩ := done
  cases boxed : box (o.minRttTimeout * 1000) (o.maxRttTimeout * 1000) info.timeout with
  | error e => rw [boxed] at limited; exact nomatch limited
  | ok timeout =>
    rw [boxed] at limited
    obtain rfl := Except.ok.inj limited
    exact ⟨rfl, rfl⟩

theorem estimate_ok {srtt rttvar : Int} (small : 0 ≤ rttvar)
    (fits : 0 ≤ srtt ∧ srtt + rttvar * 4 ≤ 2147483647) :
    estimate srtt rttvar = .ok (srtt + rttvar * 4) := by
  rw [estimate, CInt.check (by unfold IntFits; omega)]
  exact CInt.check (by unfold IntFits; omega)

theorem estimate_fits {srtt rttvar timeout : Int} (done : estimate srtt rttvar = .ok timeout) :
    srtt + rttvar * 4 ≤ 2147483647 := by
  rw [estimate, CInt.check_bind_eq_ok] at done
  by_contra wide
  rw [CInt.check_not (by unfold IntFits; omega)] at done
  exact nomatch done.2

/-! ## The first sample -/

theorem box_first (srtt : Int) :
    ∃ n, box 5000 2000000 srtt = .ok n ∧ 5000 ≤ n ∧ n ≤ 2000000 ∧
      (2000000 ≤ srtt → n = 2000000) := by
  refine ⟨_, if_pos (by decide), ?_⟩
  split <;> [skip; split] <;> omega

theorem firstEstimates_ok (nonneg : 0 ≤ toInt delta)
    (short : toInt delta ≤ 2139483647) :
    ∃ n, firstEstimates delta = .ok n ∧ n.srtt = toInt delta ∧ 5000 ≤ n.rttvar ∧
      n.rttvar ≤ 2000000 ∧ (2000000 ≤ toInt delta → n.rttvar = 2000000) := by
  obtain ⟨rttvar, boxed, low, high, far⟩ := box_first (toInt delta)
  refine ⟨{ srtt := toInt delta, rttvar := rttvar, timeout := toInt delta + rttvar * 4 }, ?_,
    rfl, low, high, far⟩
  simp only [firstEstimates, boxed, bind, Except.bind, estimate_ok (by omega : 0 ≤ rttvar)
    ⟨nonneg, by omega⟩]
  rfl

theorem firstEstimates_starts (done : firstEstimates delta = .ok next) :
    next.srtt = toInt delta ∧ (2000000 ≤ toInt delta → next.rttvar = 2000000) := by
  obtain ⟨rttvar, boxed, -, -, far⟩ := box_first (toInt delta)
  simp only [firstEstimates, boxed, bind, Except.bind] at done
  cases est : estimate (toInt delta) rttvar with
  | error e => rw [est] at done; exact nomatch done
  | ok timeout =>
    rw [est] at done
    have same := (Except.ok.inj done).symm
    exact ⟨congrArg TimeoutInfo.srtt same,
      fun long => (congrArg TimeoutInfo.rttvar same).trans (far long)⟩

/-! ## Later samples -/

/-- What the samples keep: a second average above two seconds goes with a first one that has come
down. -/
structure Steady (o : RttOptions) (info : TimeoutInfo) : Prop where
  sane : Sane o info
  srtt_le : info.srtt ≤ longestFirst
  spread : info.rttvar ≤ 2000000 ∨ info.srtt ≤ 100000000

theorem Steady.bogus_ok (steady : Steady o info) (delta : Int) (short : delta < 8000000) :
    ∃ b, bogus (delta - info.srtt) info = .ok b := by
  have := steady.sane.srtt
  have := steady.sane.rttvar
  have := steady.sane.rttvar_le
  unfold bogus
  split
  · rw [CInt.check (by unfold IntFits; omega)]
    simp only [bind, Except.bind]
    rw [CInt.check (by unfold IntFits; omega)]
    dsimp only
    rw [CInt.check (by unfold IntFits; omega)]
    exact ⟨_, rfl⟩
  · exact ⟨_, rfl⟩

def nextSrtt (delta : Int) (info : TimeoutInfo) : Int := info.srtt + (delta - info.srtt) / 8

/-- The second average after a sample, before it is limited -/
def nextRttvar (delta : Int) (info : TimeoutInfo) : Int :=
  info.rttvar + (|delta - info.srtt| - info.rttvar) / 4

theorem Steady.next_bounds (steady : Steady o info) (delta : Int) (nonneg : 0 ≤ delta)
    (short : delta < 8000000) :
    0 ≤ nextSrtt delta info ∧ nextSrtt delta info ≤ longestFirst ∧ 0 ≤ nextRttvar delta info ∧
      nextSrtt delta info + nextRttvar delta info * 4 ≤ 2147483647 ∧
      (nextRttvar delta info ≤ 2000000 ∨ 2300000 < nextRttvar delta info ∨
        nextSrtt delta info ≤ 100000000) := by
  have := steady.sane.srtt
  have := steady.sane.rttvar
  have := steady.sane.rttvar_le
  have := steady.srtt_le
  have := steady.spread
  unfold nextSrtt nextRttvar
  unfold longestFirst at *
  rcases abs_cases (delta - info.srtt) with ⟨same, sign⟩ | ⟨same, sign⟩ <;> rw [same] <;> omega

theorem nextEstimates_eq (srtt : IntFits (nextSrtt delta info))
    (rttvar : IntFits (nextRttvar delta info)) :
    nextEstimates (delta - info.srtt) info = (do
      let timeout ← estimate (nextSrtt delta info) (nextRttvar delta info)
      return {
        srtt := nextSrtt delta info, rttvar := nextRttvar delta info, timeout := timeout }) := by
  rw [nextEstimates, Int.shiftRight_eq_div_pow, Int.shiftRight_eq_div_pow]
  exact congrArg₂ (fun srtt rttvar => estimate srtt rttvar >>= fun timeout =>
      Except.ok ({ srtt := srtt, rttvar := rttvar, timeout := timeout } : TimeoutInfo))
    (CInt.toInt_of_fits srtt) (CInt.toInt_of_fits rttvar)

theorem Steady.nextEstimates_ok (steady : Steady o info) (delta : Int) (nonneg : 0 ≤ delta)
    (short : delta < 8000000) :
    ∃ n, nextEstimates (delta - info.srtt) info = .ok n ∧ n.srtt = nextSrtt delta info ∧
      n.rttvar = nextRttvar delta info := by
  obtain ⟨nonneg, low, small, fits, -⟩ := steady.next_bounds delta nonneg short
  have wide : longestFirst = 1142124612 := rfl
  rw [nextEstimates_eq (by unfold IntFits; omega) (by unfold IntFits; omega),
    estimate_ok small ⟨nonneg, fits⟩]
  exact ⟨_, rfl, rfl, rfl⟩

theorem steady_limited (instant : o.scanDelay = 0) (scalable : o.Scalable) (srtt : 0 ≤ info.srtt)
    (srtt_le : info.srtt ≤ longestFirst) (rttvar : 0 ≤ info.rttvar)
    (spread : info.rttvar ≤ 2000000 ∨ 2300000 < info.rttvar ∨ info.srtt ≤ 100000000) :
    ∃ n, limitEstimates o info = .ok n ∧ Steady o n := by
  obtain ⟨n, done, same, limited, low, high⟩ := limitEstimates_ok info instant scalable
  have : n.rttvar = if 2300000 < info.rttvar then 2000000 else info.rttvar := limited
  refine ⟨n, done, ⟨same ▸ srtt, ?_, ?_, low, high⟩, same ▸ srtt_le, ?_⟩ <;>
    rw [this] <;> split <;> omega

theorem Steady.adjust (instant : o.scanDelay = 0) (scalable : o.Scalable) (steady : Steady o info)
    (s : Sample) : ∃ n, adjustTimeouts2 o info s = .ok n ∧ Steady o n := by
  have := steady.sane.srtt
  unfold adjustTimeouts2
  rw [if_neg (by omega)]
  split
  · exact ⟨info, rfl, steady⟩
  · obtain ⟨out, checked⟩ := steady.bogus_ok s.delta (by omega)
    simp only [checked, bind, Except.bind]
    cases out with
    | true => exact ⟨info, rfl, steady⟩
    | false =>
      obtain ⟨n, moved, srtt, rttvar⟩ :=
        steady.nextEstimates_ok s.delta (by omega) (by omega)
      obtain ⟨nonneg, low, small, -, spread⟩ :=
        steady.next_bounds s.delta (by omega) (by omega)
      rw [← srtt] at nonneg low spread
      rw [← rttvar] at small spread
      simp only [moved]
      exact steady_limited instant scalable nonneg low small spread

/-! ## Runs -/

theorem Steady.lasts (instant : o.scanDelay = 0) (scalable : o.Scalable) (steady : Steady o info)
    (samples : List Sample) :
    Lasts (adjustTimeouts2 o) (fun _ _ info => Sane o info) info samples := by
  refine Lasts.of_inv (Steady o) (fun info s steady => ?_) steady
  obtain ⟨n, done, keeps⟩ := steady.adjust instant scalable s
  exact ⟨n, done, keeps.sane, keeps⟩

/-- The estimates before the first sample -/
def fresh (o : RttOptions) : TimeoutInfo :=
  { srtt := -1, rttvar := -1, timeout := o.initialRttTimeout * 1000 }

theorem initialize_eq_ok {n : TimeoutInfo} :
    initializeTimeoutInfo o = .ok n ↔ IntFits (o.initialRttTimeout * 1000) ∧ n = fresh o := by
  rw [initializeTimeoutInfo, CInt.check_bind_eq_ok]
  exact and_congr_right fun _ => ⟨fun done => (Except.ok.inj done).symm, fun same => same ▸ rfl⟩

theorem adjust_fresh (s : Sample) :
    adjustTimeouts2 o (fresh o) s = firstEstimates s.delta >>= limitEstimates o := by
  rw [adjustTimeouts2, if_pos ⟨rfl, rfl⟩]

theorem steady_first (instant : o.scanDelay = 0) (scalable : o.Scalable)
    (nonneg : 0 ≤ toInt s.delta) (short : toInt s.delta ≤ longestFirst) :
    ∃ n, adjustTimeouts2 o (fresh o) s = .ok n ∧ Steady o n := by
  have wide : longestFirst = 1142124612 := rfl
  obtain ⟨first, done, srtt, low, high, -⟩ := firstEstimates_ok nonneg (by omega)
  rw [adjust_fresh, done]
  exact steady_limited instant scalable (srtt ▸ nonneg) (srtt ▸ short) (by omega) (.inl high)

def Sample.lasting (micros : Nat) (small : micros < 1000000) : Sample where
  sent := { sec := 0, usec := 0, small := Timeval.zero_small }
  received := { sec := 0, usec := micros, small := small }

theorem Sample.delta_lasting (micros : Nat) (small : micros < 1000000) :
    (Sample.lasting micros small).delta = micros := by
  have : (Sample.lasting micros small).received.subtract (Sample.lasting micros small).sent
      = micros := by
    simp only [lasting, Nmap.ScanEngine.Timeval.subtract]
    omega
  rw [delta, this, tolerate, if_neg (by omega)]

theorem longer_overflows {srtt : Int} (long : longestFirst < srtt) :
    ∃ d : Nat, d < 8 ∧
      2147483647 < srtt + (d - srtt) / 8 + (2000000 + (srtt - d - 2000000) / 4) * 4 := by
  unfold longestFirst at long
  by_contra none
  simp only [not_exists, not_and, not_lt] at none
  have := none 0 (by decide)
  have := none 1 (by decide)
  have := none 2 (by decide)
  have := none 3 (by decide)
  have := none 4 (by decide)
  have := none 5 (by decide)
  have := none 6 (by decide)
  have := none 7 (by decide)
  omega

theorem adjust_fresh_long (done : adjustTimeouts2 o (fresh o) s = .ok info)
    (long : 2000000 ≤ toInt s.delta) : info.srtt = toInt s.delta ∧ info.rttvar = 2000000 := by
  rw [adjust_fresh] at done
  cases starts : firstEstimates s.delta with
  | error e => rw [starts] at done; exact nomatch done
  | ok first =>
    rw [starts] at done
    obtain ⟨srtt, rttvar⟩ := firstEstimates_starts starts
    obtain ⟨same, limited⟩ := limitEstimates_keeps done
    rw [rttvar long] at limited
    exact ⟨same.trans srtt, limited⟩

theorem adjust_estimates (old : 0 ≤ info.srtt) (nonneg : 0 ≤ s.delta) (below : s.delta ≤ info.srtt)
    (short : s.delta < 8000000) (srtt : IntFits (nextSrtt s.delta info))
    (rttvar : IntFits (nextRttvar s.delta info))
    (done : adjustTimeouts2 o info s = .ok next) :
    nextSrtt s.delta info + nextRttvar s.delta info * 4 ≤ 2147483647 := by
  have passed : bogus (s.delta - info.srtt) info = .ok false := if_neg (by omega)
  rw [adjustTimeouts2, if_neg (by omega), if_neg (by omega)] at done
  simp only [passed, bind, Except.bind, nextEstimates_eq srtt rttvar] at done
  cases est : estimate (nextSrtt s.delta info) (nextRttvar s.delta info) with
  | error e => rw [est] at done; exact nomatch done
  | ok timeout => exact estimate_fits est

theorem StaysSane.first_nonneg {later : List Sample} (sane : StaysSane o (s :: later)) :
    o.Scalable ∧ 0 ≤ toInt s.delta := by
  obtain ⟨n, starts, one, done, ok, -⟩ := sane
  obtain ⟨initial, rfl⟩ := initialize_eq_ok.mp starts
  rw [adjust_fresh] at done
  cases started : firstEstimates s.delta with
  | error e => rw [started] at done; exact nomatch done
  | ok info =>
    rw [started] at done
    refine ⟨⟨initial, limitEstimates_scales done⟩, ?_⟩
    rw [← (firstEstimates_starts started).1, ← (limitEstimates_keeps done).1]
    exact ok.srtt

theorem first_le_of_staysSane (sane : ∀ later, StaysSane o (s :: later)) :
    toInt s.delta ≤ longestFirst := by
  by_contra long
  have wide : longestFirst = 1142124612 := rfl
  have fits : IntFits (toInt s.delta) := CInt.toInt_fits
  obtain ⟨d, small, beyond⟩ := longer_overflows (not_le.mp long)
  obtain ⟨n, starts, one, first, -, two, second, -, -⟩ :=
    sane [Sample.lasting d (by omega)]
  obtain ⟨-, rfl⟩ := initialize_eq_ok.mp starts
  obtain ⟨srtt, rttvar⟩ := adjust_fresh_long first (by omega)
  have delta := Sample.delta_lasting d (by omega)
  have away : |(d : Int) - one.srtt| = one.srtt - d := by
    rw [abs_of_nonpos (by omega)]
    omega
  have below := adjust_estimates (by omega) (by omega) (by omega) (by omega)
    (by rw [delta]; unfold nextSrtt IntFits; unfold IntFits at fits; omega)
    (by rw [delta]; unfold nextRttvar IntFits; unfold IntFits at fits; omega) second
  rw [delta] at below
  unfold nextSrtt nextRttvar at below
  rw [away, srtt, rttvar] at below
  omega

/-- The estimates stay sane whatever samples come exactly when the timeouts fit an `int` in
microseconds and the first sample, stored in an `int`, is neither negative nor too long. -/
theorem staysSane_iff (instant : o.scanDelay = 0) (first : Sample) :
    (∀ later, StaysSane o (first :: later)) ↔
      o.Scalable ∧ 0 ≤ toInt first.delta ∧ toInt first.delta ≤ longestFirst := by
  constructor
  · intro sane
    obtain ⟨scalable, nonneg⟩ := (sane []).first_nonneg
    exact ⟨scalable, nonneg, first_le_of_staysSane sane⟩
  · rintro ⟨scalable, nonneg, short⟩ later
    obtain ⟨n, done, steady⟩ := steady_first instant scalable nonneg short
    exact ⟨fresh o, initialize_eq_ok.mpr ⟨scalable.1, rfl⟩, n, done, steady.sane,
      steady.lasts instant scalable later⟩

def defaultRtt : RttOptions where
  initialRttTimeout := 1000
  minRttTimeout := 100
  maxRttTimeout := 10000
  scanDelay := 0
  ordered := by decide

/-- A first answer after three tenths of a second, and one after nine tenths -/
theorem staysSane_default : StaysSane defaultRtt
    [Sample.lasting 300000 (by decide), Sample.lasting 900000 (by decide)] := by
  refine (staysSane_iff rfl _).mpr ?_ _
  rw [Sample.delta_lasting]
  exact ⟨by unfold RttOptions.Scalable; decide, by decide, by decide⟩

/-- An answer that seems to come six hundredths of a second before its probe was sent -/
def backwards : Sample where
  sent := { sec := 0, usec := 60000, small := by decide }
  received := { sec := 0, usec := 0, small := Timeval.zero_small }

/-- Such a first answer makes the smoothed time negative. -/
theorem not_staysSane_backwards : ¬ StaysSane defaultRtt [backwards] :=
  fun sane => absurd sane.first_nonneg.2 (by decide)

end Nmap.Timing
