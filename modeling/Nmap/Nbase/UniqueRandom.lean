import Mathlib.Data.UInt
import Nmap.Base.CInt
import Nmap.Base.FullPeriod

/-!
# Random numbers without duplicates (`nbase_rnd.c`)

`get_random_unique_u32` and `get_random_unique_u16` step a linear congruential generator and mix
what it gives. Until the generator comes back to its first state, each number occurs once
(`getRandomUnique_eachOnce`).
-/

namespace Nmap.Nbase

open Nmap.Base Nmap.Base.FullPeriod Function

/-! ## The functions -/

/-- The round keys -/
structure Tweaks (α : Type) where
  tweak1 : α
  tweak2 : α
  tweak3 : α

/-- What is drawn with `get_random_bytes` -/
structure Words (α : Type) extends Tweaks α where
  state : α

/-- The static variables of a function -/
structure Statics (α : Type) extends Words α where
  stateInit : Bool

/-- "Initialize if we need to", with what would be drawn in this call -/
def initialized {α : Type} (drawn : Words α) (static : Statics α) : Statics α :=
  if static.stateInit then static else { drawn with stateInit := true }

def affine32 (a c x : UInt32) : UInt32 := ((x * a &&& 0xFFFFFFFF) + c) &&& 0xFFFFFFFF

def rotate32 (r x : UInt32) : UInt32 := (x <<< r) ||| (x >>> (32 - r))

/-- The mixing in `get_random_unique_u32` -/
def output32 (static : Tweaks UInt32) (state : UInt32) : UInt32 :=
  let output := state
  let output := rotate32 7 output
  let output := output ^^^ static.tweak1
  -- "End round 1, start round 2"
  let output := affine32 1103515245 12345 output
  let output := rotate32 15 output
  let output := output ^^^ static.tweak2
  -- "End round 2, start round 3"
  let output := affine32 214013 2531011 output
  let output := rotate32 5 output
  output ^^^ static.tweak3

def getRandomUniqueU32 (drawn : Words UInt32) (static : Statics UInt32) :
    Statics UInt32 × UInt32 :=
  let static := initialized drawn static
  let state := affine32 1664525 1013904223 static.state
  ({ static with state }, output32 static.toTweaks state)

/-- The result of an operation on `int`s that is not negative -/
def intResult (n : ℕ) : Except CFault ℕ := (checkInt n).map Int.toNat

/-- `((x * a) & 0xFFFF) + c) & 0xFFFF`, where `x` is promoted to `int` -/
def affine16 (a c : ℕ) (x : UInt16) : Except CFault UInt16 := do
  let product ← intResult (x.toNat * a)
  let sum ← intResult ((product &&& 0xFFFF) + c)
  .ok (UInt16.ofNat (sum &&& 0xFFFF))

/-- `(x << r) | (x >> (16 - r))`, where `x` is promoted to `int` -/
def rotate16 (r : ℕ) (x : UInt16) : Except CFault UInt16 := do
  let high ← intResult (x.toNat <<< r)
  .ok (UInt16.ofNat (high ||| x.toNat >>> (16 - r)))

/-- `x ^ key`, where both are promoted to `int` -/
def xor16 (x key : UInt16) : UInt16 := UInt16.ofNat (x.toNat ^^^ key.toNat)

/-- The mixing in `get_random_unique_u16` -/
def output16 (static : Tweaks UInt16) (state : UInt16) : Except CFault UInt16 := do
  let output := state
  let output ← rotate16 7 output
  let output := xor16 output static.tweak1
  -- "End round 1, start round 2"
  let output ← affine16 4321 12345 output
  let output ← rotate16 11 output
  let output := xor16 output static.tweak2
  -- "End round 2, start round 3"
  let output ← affine16 31337 1997 output
  let output ← rotate16 5 output
  .ok (xor16 output static.tweak3)

def getRandomUniqueU16 (drawn : Words UInt16) (static : Statics UInt16) :
    Except CFault (Statics UInt16 × UInt16) := do
  let static := initialized drawn static
  let state ← affine16 25173 13849 static.state
  let output ← output16 static.toTweaks state
  .ok ({ static with state }, output)

/-! ## Calls -/

section Calls

variable {α : Type} [Zero α]

/-- A function with static variables -/
abbrev StaticFunction (α : Type) : Type := Words α → Statics α → Except CFault (Statics α × α)

/-- The static variables before call `n`, where call `i` would draw `drawn i` -/
def before (call : StaticFunction α) (drawn : ℕ → Words α) : ℕ → Except CFault (Statics α)
  | 0 => .ok { tweak1 := 0, tweak2 := 0, tweak3 := 0, state := 0, stateInit := false }
  | n + 1 => do
    let static ← before call drawn n
    let (static, _) ← call (drawn n) static
    .ok static

/-- What call `n` returns -/
def result (call : StaticFunction α) (drawn : ℕ → Words α) (n : ℕ) : Except CFault α := do
  let static ← before call drawn n
  let (_, output) ← call (drawn n) static
  .ok output

/-- No call goes wrong, the first `N` results are different, and each value is one of them. -/
def EachOnce (N : ℕ) (call : StaticFunction α) (drawn : ℕ → Words α) : Prop :=
  ∃ values : ℕ → α, (∀ n, result call drawn n = .ok (values n)) ∧
    (∀ m n, m < n → n < N → values m ≠ values n) ∧ ∀ v, ∃! n, n < N ∧ values n = v

/-- A call initializes the static variables where this is needed, and then steps the state and
returns something of it. -/
def Steps (call : StaticFunction α) (next : α → α) (output : Tweaks α → α → α) : Prop :=
  ∀ drawn static, call drawn static =
    let static := initialized drawn static
    .ok ({ static with state := next static.state }, output static.toTweaks (next static.state))

variable {call : StaticFunction α} {next : α → α} {output : Tweaks α → α → α} {drawn : ℕ → Words α}

/-- Only the first call draws. -/
theorem Steps.before (steps : Steps call next output) (drawn : ℕ → Words α) (n : ℕ) :
    ∃ static, before call drawn n = .ok static ∧ initialized (drawn n) static =
      { drawn 0 with state := next^[n] (drawn 0).state, stateInit := true } := by
  induction n with
  | zero => exact ⟨_, rfl, rfl⟩
  | succ n ih =>
    obtain ⟨static, reached, ready⟩ := ih
    refine ⟨{ drawn 0 with state := next (next^[n] (drawn 0).state), stateInit := true }, ?_, ?_⟩
    · rw [Nbase.before, reached]
      show (call (drawn n) static >>= _) = _
      rw [steps, ready]
      rfl
    · rw [iterate_succ_apply']
      rfl

theorem Steps.result (steps : Steps call next output) (n : ℕ) :
    result call drawn n = .ok (output (drawn 0).toTweaks (next^[n + 1] (drawn 0).state)) := by
  obtain ⟨static, reached, ready⟩ := steps.before drawn n
  rw [Nbase.result, reached]
  show (call (drawn n) static >>= _) = _
  rw [steps, ready, iterate_succ_apply']
  rfl

/-- With a generator of full period whose states are mixed one to one, each value is returned
once. -/
theorem Steps.eachOnce (steps : Steps call next output) {w a c : ℕ} {val : α → ℕ}
    (small : ∀ v, val v < 2 ^ w) (faithful : Injective val)
    (generator : ∀ v, val (next v) = affine w a c (val v)) (one : a % 4 = 1) (odd : c % 2 = 1)
    (mixes : ∀ static, Injective (output static)) : EachOnce (2 ^ w) call drawn := by
  have states : ∀ n v, val (next^[n] v) = (affine w a c)^[n] (val v) := by
    intro n v
    induction n with
    | zero => rfl
    | succ n ih => rw [iterate_succ_apply', iterate_succ_apply', generator, ih]
  have inj : ∀ m n, m < 2 ^ w → n < 2 ^ w →
      output (drawn 0).toTweaks (next^[m + 1] (drawn 0).state) =
        output (drawn 0).toTweaks (next^[n + 1] (drawn 0).state) → m = n := by
    intro m n hm hn same
    have same := congrArg val (mixes _ same)
    rw [states, states] at same
    exact iterate_inj one odd hm hn same
  refine ⟨_, steps.result, fun m n lt hn same => ?_, existsUnique_of_inj small faithful inj⟩
  exact absurd (inj m n (lt.trans hn) hn same) lt.ne

end Calls

/-! ## 32 bits -/

section Wide

variable {a c x y r key : UInt32}

theorem affine32_toNat : (affine32 a c x).toNat = affine 32 a.toNat c.toNat x.toNat := by
  have mask : ∀ z : UInt32, z &&& 0xFFFFFFFF = z := fun z => UInt32.and_neg_one
  rw [affine32, mask, mask, UInt32.toNat_add, UInt32.toNat_mul, affine, Nat.mod_add_mod]

theorem rotate32_toNat (pos : 0 < r.toNat) (short : r.toNat < 32) :
    (rotate32 r x).toNat = rotate 32 r.toNat x.toNat := by
  have right : (32 - r).toNat = 32 - r.toNat :=
    UInt32.toNat_sub_of_le _ _ (UInt32.le_iff_toNat_le.mpr short.le)
  have high : x.toNat >>> (32 - r.toNat) < 2 ^ 32 := by
    rw [Nat.shiftRight_eq_div_pow]
    exact (Nat.div_le_self _ _).trans_lt x.toNat_lt
  rw [rotate32, UInt32.toNat_or, UInt32.toNat_shiftLeft, UInt32.toNat_shiftRight, right,
    Nat.mod_eq_of_lt short, Nat.mod_eq_of_lt (Nat.sub_lt (by decide) pos), rotate,
    Nat.or_mod_two_pow, Nat.mod_eq_of_lt high]

theorem affine32_inj (odd : a.toNat % 2 = 1) : Injective (affine32 a c) := by
  intro x y same
  have same := congrArg UInt32.toNat same
  rw [affine32_toNat, affine32_toNat] at same
  exact UInt32.toNat_inj.mp (affine_inj odd x.toNat_lt y.toNat_lt same)

theorem rotate32_inj (pos : 0 < r.toNat) (short : r.toNat < 32) :
    Injective (rotate32 r) := by
  intro x y same
  have same := congrArg UInt32.toNat same
  rw [rotate32_toNat pos short, rotate32_toNat pos short] at same
  exact UInt32.toNat_inj.mp (rotate_inj short.le x.toNat_lt y.toNat_lt same)

theorem xor32_inj (key : UInt32) : Injective (· ^^^ key) := by
  intro x y same
  have same := congrArg UInt32.toNat same
  rw [UInt32.toNat_xor, UInt32.toNat_xor] at same
  exact UInt32.toNat_inj.mp (Nat.xor_left_injective same)

theorem output32_inj (static : Tweaks UInt32) : Injective (output32 static) := by
  have round1 := (xor32_inj static.tweak1).comp
    (rotate32_inj (r := 7) (by decide) (by decide))
  have round2 := ((xor32_inj static.tweak2).comp
    (rotate32_inj (r := 15) (by decide) (by decide))).comp
      (affine32_inj (a := 1103515245) (c := 12345) (by decide))
  have round3 := ((xor32_inj static.tweak3).comp
    (rotate32_inj (r := 5) (by decide) (by decide))).comp
      (affine32_inj (a := 214013) (c := 2531011) (by decide))
  exact round3.comp (round2.comp round1)

theorem getRandomUniqueU32_steps :
    Steps (fun drawn static => .ok (getRandomUniqueU32 drawn static))
      (affine32 1664525 1013904223) output32 := fun _ _ => rfl

end Wide

/-! ## 16 bits -/

section Narrow

variable {a c r : ℕ} {x y : UInt16}

theorem intResult_ok {n : ℕ} (fits : n < 2 ^ 31) : intResult n = .ok n := by
  rw [intResult, CInt.check (by rw [IntFits]; omega)]
  rfl

/-- What `affine16` gives, since nothing overflows -/
def narrowAffine (a c : ℕ) (x : UInt16) : UInt16 := UInt16.ofNat (affine 16 a c x.toNat)

def narrowRotate (r : ℕ) (x : UInt16) : UInt16 := UInt16.ofNat (rotate 16 r x.toNat)

theorem affine16_ok (smallA : a < 2 ^ 15) (smallC : c < 2 ^ 15) :
    affine16 a c x = .ok (narrowAffine a c x) := by
  have small := x.toNat_lt
  have product : x.toNat * a < 2 ^ 16 * 2 ^ 15 := Nat.mul_lt_mul'' small smallA
  have mask : ∀ z : ℕ, z &&& 0xFFFF = z % 2 ^ 16 := fun z => Nat.and_two_pow_sub_one_eq_mod z 16
  have sum : x.toNat * a % 2 ^ 16 + c < 2 ^ 31 := by omega
  rw [affine16, intResult_ok product]
  show (intResult (_ + c) >>= _) = _
  rw [mask, intResult_ok sum]
  show Except.ok (UInt16.ofNat _) = _
  rw [mask, Nat.mod_add_mod]
  rfl

theorem rotate16_ok (short : r < 16) : rotate16 r x = .ok (narrowRotate r x) := by
  have high : x.toNat <<< r < 2 ^ 16 * 2 ^ 15 := by
    rw [Nat.shiftLeft_eq]
    have factor : 2 ^ r ≤ 2 ^ 15 := Nat.pow_le_pow_right (by decide) (by omega)
    exact Nat.mul_lt_mul_of_lt_of_le x.toNat_lt factor (by decide)
  rw [rotate16, intResult_ok high]
  refine congrArg Except.ok (UInt16.toNat_inj.mp ?_)
  rw [narrowRotate, rotate, UInt16.toNat_ofNat', UInt16.toNat_ofNat', Nat.mod_mod]

theorem narrowAffine_toNat : (narrowAffine a c x).toNat = affine 16 a c x.toNat :=
  UInt16.toNat_ofNat_of_lt' (affine_lt _ _ _ _)

theorem narrowAffine_inj (odd : a % 2 = 1) : Injective (narrowAffine a c) := by
  intro x y same
  have same := congrArg UInt16.toNat same
  rw [narrowAffine_toNat, narrowAffine_toNat] at same
  exact UInt16.toNat_inj.mp (affine_inj odd x.toNat_lt y.toNat_lt same)

theorem narrowRotate_inj (short : r ≤ 16) : Injective (narrowRotate r) := by
  intro x y same
  have same := congrArg UInt16.toNat same
  rw [narrowRotate, narrowRotate, UInt16.toNat_ofNat_of_lt' (rotate_lt _ _ _),
    UInt16.toNat_ofNat_of_lt' (rotate_lt _ _ _)] at same
  exact UInt16.toNat_inj.mp (rotate_inj short x.toNat_lt y.toNat_lt same)

theorem xor16_inj (key : UInt16) : Injective fun x => xor16 x key := by
  intro x y same
  have small : ∀ z : UInt16, z.toNat ^^^ key.toNat < 2 ^ 16 := fun z =>
    Nat.xor_lt_two_pow z.toNat_lt key.toNat_lt
  have same : (xor16 x key).toNat = (xor16 y key).toNat := congrArg UInt16.toNat same
  rw [xor16, xor16, UInt16.toNat_ofNat_of_lt' (small x), UInt16.toNat_ofNat_of_lt' (small y)] at same
  exact UInt16.toNat_inj.mp (Nat.xor_left_injective same)

/-- What `output16` gives, since nothing overflows -/
def narrowOutput (static : Tweaks UInt16) (state : UInt16) : UInt16 :=
  let output := xor16 (narrowRotate 7 state) static.tweak1
  let output := xor16 (narrowRotate 11 (narrowAffine 4321 12345 output)) static.tweak2
  xor16 (narrowRotate 5 (narrowAffine 31337 1997 output)) static.tweak3

theorem output16_ok (static : Tweaks UInt16) (state : UInt16) :
    output16 static state = .ok (narrowOutput static state) := by
  have rotates : ∀ {r} (x : UInt16), r < 16 → rotate16 r x = pure (narrowRotate r x) :=
    fun _ short => rotate16_ok short
  have affines : ∀ {a c} (x : UInt16), a < 2 ^ 15 → c < 2 ^ 15 →
      affine16 a c x = pure (narrowAffine a c x) := fun _ smallA smallC => affine16_ok smallA smallC
  simp (disch := decide) only [output16, rotates, affines, pure_bind]
  rfl

theorem narrowOutput_inj (static : Tweaks UInt16) : Injective (narrowOutput static) := by
  have round1 := (xor16_inj static.tweak1).comp (narrowRotate_inj (r := 7) (by decide))
  have round2 := ((xor16_inj static.tweak2).comp
    (narrowRotate_inj (r := 11) (by decide))).comp
      (narrowAffine_inj (a := 4321) (c := 12345) (by decide))
  have round3 := ((xor16_inj static.tweak3).comp
    (narrowRotate_inj (r := 5) (by decide))).comp
      (narrowAffine_inj (a := 31337) (c := 1997) (by decide))
  exact round3.comp (round2.comp round1)

theorem getRandomUniqueU16_steps :
    Steps getRandomUniqueU16 (narrowAffine 25173 13849) narrowOutput := by
  intro drawn static
  have next : ∀ x, affine16 25173 13849 x = pure (narrowAffine 25173 13849 x) :=
    fun _ => affine16_ok (by decide) (by decide)
  have mixed : ∀ static x, output16 static x = pure (narrowOutput static x) := output16_ok
  simp only [getRandomUniqueU16, next, mixed, pure_bind]

end Narrow

/-- **Each number once.** Whatever is drawn, the first 2^32 results of `get_random_unique_u32` are
pairwise different, and each number of 32 bits is one of them. The same is true of the first 2^16
results of `get_random_unique_u16`, where no `int` overflows. -/
theorem getRandomUnique_eachOnce :
    (∀ drawn, EachOnce (2 ^ 32) (fun drawn static => .ok (getRandomUniqueU32 drawn static)) drawn) ∧
      ∀ drawn, EachOnce (2 ^ 16) getRandomUniqueU16 drawn := by
  constructor
  · intro drawn
    exact getRandomUniqueU32_steps.eachOnce UInt32.toNat_lt (fun _ _ => UInt32.toNat_inj.mp)
      (fun _ => affine32_toNat) (by decide) (by decide) output32_inj
  · intro drawn
    exact getRandomUniqueU16_steps.eachOnce UInt16.toNat_lt (fun _ _ => UInt16.toNat_inj.mp)
      (fun _ => narrowAffine_toNat) (by decide) (by decide) narrowOutput_inj

end Nmap.Nbase
