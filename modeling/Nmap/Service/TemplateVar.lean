import Mathlib.Data.Nat.Digits.Defs
import Nmap.Service.Substitution

/-!
# Placeholders of version templates (`service_scan.cc`)

`substvar` reads a placeholder such as `$1` or `$P(1)` and returns what goes in its place: a
captured part of the response, what is printable of it, its replacement by `$SUBST`, or the number
that its bytes stand for.
-/

namespace Nmap.Service.Template

open Nmap.Base Nmap.Base.Cursor List

/-! ## The code -/

/-- The captured parts of a match, as `pcre2_get_ovector_pointer` has them -/
abbrev MatchData (subject : Subject) := List (Option (Capture subject.bytes.length))

def isPrint (c : UInt8) : Bool := 0x20 ≤ c && c ≤ 0x7e

/-- The capture number `subnum`, if there is one and it took part in the match -/
def captureOf {subject : Subject} (data : MatchData subject) (subnum : Nat) :
    Option (Capture subject.bytes.length) :=
  if 9 < subnum ∨ subnum = 0 then none else data[subnum]?.join

/-- `subnum = command_args.int_args[0]`, where `subnum` is a `u8` -/
def subnumOf (n : Int) : Nat := (n.emod 256).toNat

/-- The loops of `$I`. There are no more than eight bytes, so `val` holds the number. -/
def valueOf (bytes : Bytes) : Nat := bytes.foldl (fun val b => val * 2 ^ 8 + b.toNat) 0

variable (subject : Subject) (data : MatchData subject) (text : Bytes)

/-- `$1` and the like -/
def groupVar (subnum : Nat) : Option Bytes := (captureOf data subnum).map subject.captured

/-- `$P(1)` -/
def printableVar (subnum : Nat) : Option Bytes :=
  (captureOf data subnum).map fun capture => (subject.captured capture).filter isPrint

/-- `$SUBST(1,"_",".")` -/
def substVar (subnum : Nat) (findstr replstr : Bytes) : Access (Option Bytes) :=
  match captureOf data subnum with
  | none => .ok none
  | some capture =>
    match substLoop subject capture.offend findstr replstr
        (capture.offend - capture.offstart + 1) capture.offstart ⟨[], []⟩ with
    | some out => .ok (some out.result)
    | none => .error .endless

/-- `$I(1,">")` -/
def numberVar (subnum : Nat) (order : Bytes) : Option Bytes :=
  if order.length ≠ 1 then none
  else
    match captureOf data subnum with
    | none => none
    | some capture =>
      if 8 < capture.offend - capture.offstart then none
      else if order.headD 0 = 0x3e then some (decimal (valueOf (subject.captured capture)))
      else if order.headD 0 = 0x3c then
        some (decimal (valueOf (subject.captured capture).reverse))
      else none

/-- The branches of `substvar` for the commands -/
def command (substcommand : Bytes) (args : List Arg) : Access (Option Bytes) :=
  if substcommand = ascii "P" then
    match args with
    | [.int n] => .ok (printableVar subject data (subnumOf n))
    | _ => .ok none
  else if substcommand = ascii "SUBST" then
    match args with
    | [.int n, .string findstr, .string replstr] =>
      substVar subject data (subnumOf n) findstr replstr
    | _ => .ok none
  else if substcommand = ascii "I" then
    match args with
    | [.int n, .string order] => .ok (numberVar subject data (subnumOf n) order)
    | _ => .ok none
  else .ok none

/-- The part of `substvar` for a command, which begins at `i`. The length of its name is an `int`,
as the text is no longer than that. -/
def commandVar (i : Nat) : Access (Option (Bytes × Nat)) := do
  let p ← skipWhile text (fun c => c ≠ 0x28 && c ≠ 0) i
  let c ← charAt text p
  if c = 0 then .ok none
  else if p - i = 0 ∨ 16 ≤ p - i then .ok none
  else
    match ← getsubstcommandargs text (p + 1) with
    | none => .ok none
    | some (args, tmplvarend) =>
      if args.length ≤ 0 then .ok none
      else do
        let result ← command subject data ((text.drop i).take (p - i)) args
        .ok (result.map fun result => (result, tmplvarend))

/-- `substvar`: what goes in the place of the variable at `i`, and `*tmplvarend` -/
def substvar (i : Nat) : Access (Option (Bytes × Nat)) := do
  let dollar ← charAt text i
  if dollar ≠ 0x24 then .ok none
  else do
    let c ← charAt text (i + 1)
    if isDigit c then
      .ok ((groupVar subject data (c.toNat - 0x30)).map fun result => (result, i + 2))
    else commandVar subject data text (i + 1)

/-! ## What a placeholder stands for -/

/-- A placeholder -/
inductive Placeholder
  | group (subnum : Nat)
  | printable (subnum : Nat)
  | replaced (subnum : Nat) (findstr replstr : Bytes)
  | number (subnum : Nat) (bigEndian : Bool)
  deriving DecidableEq

/-- A command with arguments of the right kinds -/
def interpret (name : Bytes) (args : List Arg) : Option Placeholder :=
  match args with
  | [.int n] => if name = ascii "P" then some (.printable (subnumOf n)) else none
  | [.int n, .string findstr, .string replstr] =>
    if name = ascii "SUBST" then some (.replaced (subnumOf n) findstr replstr) else none
  | [.int n, .string order] =>
    if name = ascii "I" then
      if order = ascii ">" then some (.number (subnumOf n) true)
      else if order = ascii "<" then some (.number (subnumOf n) false)
      else none
    else none
  | _ => none

/-- The name of a command and the text of its arguments -/
def commandAt (after : Bytes) : Option (Bytes × Bytes) :=
  match after.dropWhile (· ≠ 0x28) with
  | [] => none
  | _ :: argtext =>
    let name := after.takeWhile (· ≠ 0x28)
    if name = [] ∨ 16 ≤ name.length then none else some (name, argtext)

/-- The placeholder behind a `$`, and the text that follows it -/
def placeholderAt (after : Bytes) : Option (Placeholder × Bytes) :=
  if isDigit (after.headD 0) then some (.group ((after.headD 0).toNat - 0x30), after.tail)
  else
    match commandAt after with
    | none => none
    | some (name, argtext) =>
      match readArgs (argtext.length + 1) [] argtext with
      | none => none
      | some (args, rest) => (interpret name args).map fun ph => (ph, rest)

/-- The arguments of the command behind a `$` are read beyond their bounds. -/
def Misread (after : Bytes) : Prop :=
  isDigit (after.headD 0) = false ∧
    ∃ name argtext, commandAt after = some (name, argtext) ∧ Overruns [] argtext

def numberOf (bigEndian : Bool) (bytes : Bytes) : Nat :=
  Nat.ofDigits (2 ^ 8) ((if bigEndian then bytes.reverse else bytes).map UInt8.toNat)

/-- What a placeholder stands for. A replacement is what `$SUBST` comes to, if it comes to an
end. -/
inductive HasValue : Placeholder → Bytes → Prop
  | group {subnum : Nat} {capture : Capture subject.bytes.length}
      (found : captureOf data subnum = some capture) :
      HasValue (.group subnum) (subject.captured capture)
  | printable {subnum : Nat} {capture : Capture subject.bytes.length}
      (found : captureOf data subnum = some capture) :
      HasValue (.printable subnum) ((subject.captured capture).filter isPrint)
  | replaced {subnum : Nat} {findstr replstr : Bytes} {capture : Capture subject.bytes.length}
      {turns : Nat} {out : Replaced} (found : captureOf data subnum = some capture)
      (run : substLoop subject capture.offend findstr replstr turns capture.offstart ⟨[], []⟩ =
        some out) :
      HasValue (.replaced subnum findstr replstr) out.result
  | number {subnum : Nat} {bigEndian : Bool} {capture : Capture subject.bytes.length}
      (found : captureOf data subnum = some capture)
      (few : (subject.captured capture).length ≤ 8) :
      HasValue (.number subnum bigEndian)
        (decimal (numberOf bigEndian (subject.captured capture)))

/-! ## The values are those -/

variable {subject data}

theorem captured_length (capture : Capture subject.bytes.length) :
    (subject.captured capture).length = capture.offend - capture.offstart := span_length

/-- With as many turns as there are bytes left, the loop of `$SUBST` comes to its end if it ever
does. -/
theorem substLoop_enough {offend i turns more : Nat} {findstr replstr : Bytes}
    {out last : Replaced} (run : substLoop subject offend findstr replstr turns i out = some last)
    (enough : offend - i < more) :
    substLoop subject offend findstr replstr more i out = some last := by
  by_cases empty : findstr = []
  · subst empty
    by_cases inside : i < offend
    · rw [substLoop_stuck inside] at run
      cases run
    · cases turns with
      | zero => cases run
      | succ turns =>
        obtain ⟨more, rfl⟩ := Nat.exists_eq_add_of_le' (Nat.lt_of_le_of_lt (Nat.zero_le _) enough)
        rw [substLoop, if_neg inside] at run ⊢
        exact run
  · obtain ⟨new, result, other, -⟩ := substLoop_run subject replstr empty out enough
    have first := substLoop_mono run (Nat.le_max_left turns more)
    have second := substLoop_mono other (Nat.le_max_right turns more)
    rw [other, ← second, first]

variable {ph : Placeholder}

theorem HasValue.unique {v w : Bytes} (first : HasValue subject data ph v)
    (second : HasValue subject data ph w) : v = w := by
  cases first with
  | group found =>
    cases second with
    | group found' =>
      rw [found] at found'
      injection found' with same
      rw [same]
  | printable found =>
    cases second with
    | printable found' =>
      rw [found] at found'
      injection found' with same
      rw [same]
  | @replaced subnum findstr replstr capture turns out found run =>
    cases second with
    | @replaced _ _ _ capture' turns' out' found' run' =>
      rw [found] at found'
      injection found' with same
      subst same
      have one := substLoop_mono run (Nat.le_max_left turns turns')
      have two := substLoop_mono run' (Nat.le_max_right turns turns')
      rw [one] at two
      injection two with same
      rw [same]
  | number found few =>
    cases second with
    | number found' few' =>
      rw [found] at found'
      injection found' with same
      rw [same]

theorem valueOf_eq (bytes : Bytes) : valueOf bytes = numberOf true bytes := by
  unfold numberOf
  rw [if_pos rfl, map_reverse]
  suffices ∀ val, bytes.foldl (fun val b => val * 2 ^ 8 + b.toNat) val =
      val * (2 ^ 8) ^ bytes.length + Nat.ofDigits (2 ^ 8) (bytes.map UInt8.toNat).reverse by
    simpa [valueOf] using this 0
  induction bytes with
  | nil => simp
  | cons b bytes ih =>
    intro val
    rw [foldl_cons, ih, map_cons, reverse_cons, Nat.ofDigits_append]
    simp only [length_reverse, length_map, length_cons, Nat.ofDigits_singleton]
    ring

theorem valueOf_reverse (bytes : Bytes) : valueOf bytes.reverse = numberOf false bytes := by
  rw [valueOf_eq, numberOf, numberOf, if_pos rfl, reverse_reverse]
  rfl

variable (subject data) in
def NoValue (ph : Option Placeholder) : Prop :=
  ∀ p, ph = some p → ∀ v, ¬ HasValue subject data p v

variable (subject data) in
/-- A command returns the value of what it stands for. -/
def CommandReturns (ph : Option Placeholder) : Access (Option Bytes) → Prop
  | .ok (some v) => ∃ p, ph = some p ∧ HasValue subject data p v
  | .ok none => NoValue subject data ph
  | .error .endless => NoValue subject data ph
  | .error _ => False

theorem NoValue.none : NoValue subject data none := fun _ no => by cases no

theorem printable_returns (subnum : Nat) :
    CommandReturns subject data (some (.printable subnum))
      (.ok (printableVar subject data subnum)) := by
  unfold printableVar
  cases found : captureOf data subnum with
  | some capture => exact ⟨_, rfl, .printable found⟩
  | none =>
    intro p same v has
    injection same with same
    subst same
    cases has with
    | printable found' => rw [found] at found'; cases found'

theorem replaced_returns (subnum : Nat) (findstr replstr : Bytes) :
    CommandReturns subject data (some (.replaced subnum findstr replstr))
      (substVar subject data subnum findstr replstr) := by
  unfold substVar
  cases found : captureOf data subnum with
  | some capture =>
    dsimp only
    cases run : substLoop subject capture.offend findstr replstr
        (capture.offend - capture.offstart + 1) capture.offstart ⟨[], []⟩ with
    | some out => exact ⟨_, rfl, .replaced found run⟩
    | none =>
      intro p same v has
      injection same with same
      subst same
      cases has with
      | replaced found' run' =>
        rw [found] at found'
        injection found' with same
        subst same
        rw [substLoop_enough run' (Nat.lt_succ_self _)] at run
        cases run
  | none =>
    intro p same v has
    injection same with same
    subst same
    cases has with
    | replaced found' run' => rw [found] at found'; cases found'

theorem number_returns (subnum : Nat) (order : Bytes) :
    CommandReturns subject data
      (if order = ascii ">" then some (.number subnum true)
        else if order = ascii "<" then some (.number subnum false) else none)
      (.ok (numberVar subject data subnum order)) := by
  have other (bigEndian : Bool) (no : captureOf data subnum = none ∨
      ∃ capture, captureOf data subnum = some capture ∧
        8 < capture.offend - capture.offstart) :
      NoValue subject data (some (.number subnum bigEndian)) := by
    intro p same v has
    injection same with same
    subst same
    cases has with
    | number found' few =>
      rcases no with none | ⟨capture, found, many⟩
      · rw [none] at found'
        cases found'
      · rw [found] at found'
        injection found' with same
        subst same
        rw [captured_length] at few
        omega
  have null (no : captureOf data subnum = none ∨
      ∃ capture, captureOf data subnum = some capture ∧ 8 < capture.offend - capture.offstart) :
      NoValue subject data (if order = ascii ">" then some (.number subnum true)
        else if order = ascii "<" then some (.number subnum false) else none) := by
    split_ifs
    · exact other true no
    · exact other false no
    · exact .none
  unfold numberVar
  by_cases single : order.length = 1
  · obtain ⟨c, rfl⟩ := length_eq_one_iff.mp single
    have one : ¬ ([c] : Bytes).length ≠ 1 := not_not_intro rfl
    rw [if_neg one]
    cases found : captureOf data subnum with
    | none => exact null (.inl found)
    | some capture =>
      dsimp only
      by_cases many : 8 < capture.offend - capture.offstart
      · rw [if_pos many]
        exact null (.inr ⟨capture, found, many⟩)
      · have few : (subject.captured capture).length ≤ 8 := by
          rw [captured_length]
          omega
        rw [if_neg many]
        show CommandReturns subject data
          (if [c] = [0x3e] then _ else if [c] = [0x3c] then _ else _)
          (.ok (if c = 0x3e then _ else if c = 0x3c then _ else _))
        by_cases big : c = 0x3e
        · subst big
          rw [if_pos rfl, if_pos rfl, valueOf_eq]
          exact ⟨_, rfl, .number found few⟩
        · have not_big : [c] ≠ [0x3e] := by simpa using big
          rw [if_neg not_big, if_neg big]
          by_cases little : c = 0x3c
          · subst little
            rw [if_pos rfl, if_pos rfl, valueOf_reverse]
            exact ⟨_, rfl, .number found few⟩
          · have not_little : [c] ≠ [0x3c] := by simpa using little
            rw [if_neg not_little, if_neg little]
            exact .none
  · have longer (c : UInt8) : order ≠ [c] := by
      rintro rfl
      exact single rfl
    rw [if_pos single, if_neg (show order ≠ ascii ">" from longer 0x3e),
      if_neg (show order ≠ ascii "<" from longer 0x3c)]
    exact .none

/-- Arguments of any other kinds are refused. -/
theorem command_returns (name : Bytes) (args : List Arg) :
    CommandReturns subject data (interpret name args) (command subject data name args) := by
  have p_subst : ascii "P" ≠ ascii "SUBST" := by decide
  have p_i : ascii "P" ≠ ascii "I" := by decide
  have subst_i : ascii "SUBST" ≠ ascii "I" := by decide
  unfold command
  by_cases p : name = ascii "P"
  · subst p
    rw [if_pos rfl]
    split
    · exact printable_returns _
    · next other =>
        have none : interpret (ascii "P") args = none := by
          unfold interpret
          split
          · next n => exact absurd rfl (other n)
          · exact if_neg p_subst
          · exact if_neg p_i
          · rfl
        rw [none]
        exact .none
  · rw [if_neg p]
    by_cases isSubst : name = ascii "SUBST"
    · subst isSubst
      rw [if_pos rfl]
      split
      · exact replaced_returns _ _ _
      · next other =>
          have none : interpret (ascii "SUBST") args = none := by
            unfold interpret
            split
            · exact if_neg p
            · next n findstr replstr => exact absurd rfl (other n findstr replstr)
            · exact if_neg subst_i
            · rfl
          rw [none]
          exact .none
    · rw [if_neg isSubst]
      by_cases isI : name = ascii "I"
      · subst isI
        rw [if_pos rfl]
        split
        · exact number_returns _ _
        · next other =>
            have none : interpret (ascii "I") args = none := by
              unfold interpret
              split
              · exact if_neg p
              · exact if_neg isSubst
              · next n order => exact absurd rfl (other n order)
              · rfl
            rw [none]
            exact .none
      · have none : interpret name args = none := by
          unfold interpret
          split
          · exact if_neg p
          · exact if_neg isSubst
          · exact if_neg isI
          · rfl
        rw [if_neg isI, none]
        exact .none

/-! ## Reading a placeholder -/

variable {text} {i : Nat} {after : Bytes}

theorem not_misread {found : Placeholder × Bytes} (reads : placeholderAt after = some found) :
    ¬ Misread after := by
  intro ⟨letter, name, argtext, command, overruns⟩
  unfold placeholderAt at reads
  rw [letter, if_neg Bool.false_ne_true, command] at reads
  dsimp only at reads
  rw [overruns.readArgs_eq] at reads
  cases reads

/-- What follows a placeholder is no longer than what is behind the `$`. -/
theorem placeholderAt_length {rest : Bytes} (reads : placeholderAt after = some (ph, rest)) :
    rest.length ≤ after.length := by
  unfold placeholderAt at reads
  split at reads
  · injection reads with same
    injection same with _ same
    rw [← same, length_tail]
    exact Nat.sub_le _ _
  · split at reads
    · cases reads
    · next name argtext found =>
        split at reads
        · cases reads
        · next args behind read =>
            obtain ⟨ph, -, same⟩ := Option.map_eq_some_iff.mp reads
            injection same with _ same
            have few : ([] : List Arg).length ≤ 5 := Nat.zero_le 5
            have shorter := readArgs_length few read
            have least := (dropWhile_suffix (l := after) (· ≠ (0x28 : UInt8))).length_le
            unfold commandAt at found
            split at found
            · cases found
            · next c argtext' parenthesis =>
                rw [parenthesis, length_cons] at least
                dsimp only at found
                split at found
                · cases found
                · injection found with pair
                  injection pair with _ argtext_eq
                  rw [← same]
                  rw [← argtext_eq] at shorter
                  omega

def Valueless (subject : Subject) (data : MatchData subject) (after : Bytes) : Prop :=
  ∀ ph rest v, placeholderAt after = some (ph, rest) → ¬ HasValue subject data ph v

variable (subject data text) in
/-- What comes of a placeholder with this text behind the `$` -/
def VarReturns (after : Bytes) : Access (Option (Bytes × Nat)) → Prop
  | .ok (some (v, j)) => ¬ Misread after ∧ ∃ ph rest, placeholderAt after = some (ph, rest) ∧
      HasValue subject data ph v ∧ At text j rest
  | .ok none => ¬ Misread after ∧ Valueless subject data after
  | .error (.violation _) => Misread after
  | .error .endless => ¬ Misread after ∧ Valueless subject data after
  | .error .stuck => False

theorem commandVar_returns (nonzero : 0 ∉ text) (here : At text i after)
    (letter : isDigit (after.headD 0) = false) :
    VarReturns subject data text after (commandVar subject data text i) := by
  have same := dropWhile_nonzero (p := fun c => c ≠ 0x28) (here.zero_not_mem nonzero)
  obtain ⟨p, skipped, there⟩ := skipWhile_eq (p := fun c => c ≠ 0x28 && c ≠ 0) rfl here
  rw [same] at there
  have whole := takeWhile_append_dropWhile (p := fun c => decide (c ≠ 0x28)) (l := after)
  have placeholder : placeholderAt after = match commandAt after with
      | none => none
      | some (name, argtext) =>
        match readArgs (argtext.length + 1) [] argtext with
        | none => none
        | some (args, rest) => (interpret name args).map fun ph => (ph, rest) := by
    unfold placeholderAt
    rw [letter]
    rfl
  have nothing (none : commandAt after = none) :
      ¬ Misread after ∧ Valueless subject data after := by
    constructor
    · intro ⟨_, name, argtext, found, _⟩
      rw [none] at found
      cases found
    · intro ph rest v found
      rw [placeholder, none] at found
      cases found
  unfold commandVar
  rw [skipped, ok_bind, charAt_eq there, ok_bind]
  cases behind : after.dropWhile (fun c => decide (c ≠ 0x28)) with
  | nil =>
    refine nothing ?_
    unfold commandAt
    rw [behind]
  | cons c argtext =>
    rw [behind] at there whole
    obtain rfl : c = 0x28 := by
      have first := List.head?_dropWhile_not (fun c => decide (c ≠ 0x28)) after
      rw [behind] at first
      simpa using first
    generalize taken : after.takeWhile (fun c => decide (c ≠ 0x28)) = name at whole
    have length : p - i = name.length := by
      have to_i := here.length
      have to_p := there.length
      rw [← whole, length_append] at to_i
      omega
    have spelled : (text.drop i).take (p - i) = name := by
      rw [here.drop, ← whole, length, take_left]
    have found : commandAt after = if name = [] ∨ 16 ≤ name.length then none
        else some (name, argtext) := by
      unfold commandAt
      rw [behind, taken]
    show VarReturns subject data text after
      (if p - i = 0 ∨ 16 ≤ p - i then _ else getsubstcommandargs text (p + 1) >>= _)
    rw [spelled]
    by_cases bad : name = [] ∨ 16 ≤ name.length
    · rw [if_pos bad] at found
      rw [if_pos (by rwa [length, length_eq_zero_iff])]
      exact nothing found
    · rw [if_neg bad] at found
      rw [if_neg (by rwa [length, length_eq_zero_iff])]
      have returned := getsubstcommandargs_returns text nonzero there.succ
      have fuel : readArgs (text.length + 1) [] argtext =
          readArgs (argtext.length + 1) [] argtext := by
        have to_end := there.succ.length
        exact readArgs_enough (Nat.zero_le 5) (by omega) (Nat.lt_succ_self _)
      have misread : Misread after ↔ Overruns [] argtext := by
        constructor
        · intro ⟨_, name', argtext', found', overruns⟩
          rw [found] at found'
          injection found' with same
          injection same with _ same
          rwa [same]
        · exact fun overruns => ⟨letter, name, argtext, found, overruns⟩
      rw [found] at placeholder
      dsimp only at placeholder
      generalize getsubstcommandargs text (p + 1) = result at returned
      match result, returned with
      | .error (.violation _), overruns => exact misread.mpr overruns
      | .ok none, ⟨inside, read⟩ =>
        refine ⟨mt misread.mp inside, fun ph rest v at_ => ?_⟩
        rw [placeholder, ← fuel, read] at at_
        cases at_
      | .ok (some (args, j)), ⟨inside, rest, read, at_rest⟩ =>
        rw [← fuel, read] at placeholder
        have valueless (none : NoValue subject data (interpret name args)) :
            Valueless subject data after := by
          intro ph rest' v at_
          rw [placeholder] at at_
          obtain ⟨ph', same, pair⟩ := Option.map_eq_some_iff.mp at_
          injection pair with same'
          subst same'
          exact none _ same v
        rw [ok_bind]
        show VarReturns subject data text after
          (if args.length ≤ 0 then _ else command subject data name args >>= _)
        by_cases empty : args.length ≤ 0
        · rw [if_pos empty]
          refine ⟨mt misread.mp inside, valueless ?_⟩
          rw [length_eq_zero_iff.mp (Nat.le_zero.mp empty)]
          exact .none
        · have returns : CommandReturns subject data (interpret name args)
              (command subject data name args) := command_returns name args
          rw [if_neg empty]
          generalize command subject data name args = value at returns
          match value, returns with
          | .ok none, noValue => exact ⟨mt misread.mp inside, valueless noValue⟩
          | .error .endless, noValue => exact ⟨mt misread.mp inside, valueless noValue⟩
          | .ok (some v), ⟨ph, interpreted, has⟩ =>
            refine ⟨mt misread.mp inside, ph, rest, ?_, has, at_rest⟩
            rw [placeholder]
            exact Option.map_eq_some_iff.mpr ⟨ph, interpreted, rfl⟩

theorem substvar_returns (nonzero : 0 ∉ text) (here : At text i (0x24 :: after)) :
    VarReturns subject data text after (substvar subject data text i) := by
  unfold substvar
  rw [charAt_eq here, ok_bind]
  show VarReturns subject data text after
    (if (0x24 : UInt8) ≠ 0x24 then _ else charAt text (i + 1) >>= _)
  rw [if_neg (by simp), charAt_eq here.succ, ok_bind]
  by_cases digit : isDigit (after.headD 0) = true
  · rw [if_pos digit]
    have inside : ¬ Misread after := by
      intro misread
      rw [misread.1] at digit
      cases digit
    have placeholder : placeholderAt after =
        some (.group ((after.headD 0).toNat - 0x30), after.tail) := if_pos digit
    have there : At text (i + 2) after.tail := by
      cases after with
      | nil => cases digit
      | cons c after => exact here.succ.succ
    unfold groupVar
    cases found : captureOf data ((after.headD 0).toNat - 0x30) with
    | none =>
      refine ⟨inside, fun ph rest v at_ has => ?_⟩
      rw [placeholder] at at_
      injection at_ with same
      injection same with same
      subst same
      cases has with
      | group found' => rw [found] at found'; cases found'
    | some capture => exact ⟨inside, _, _, placeholder, .group found, there⟩
  · rw [if_neg digit]
    exact commandVar_returns nonzero here.succ (by simpa using digit)

theorem substvar_eq (nonzero : 0 ∉ text) (here : At text i (0x24 :: after)) {rest v : Bytes}
    (reads : placeholderAt after = some (ph, rest)) (value : HasValue subject data ph v) :
    ∃ j, substvar subject data text i = .ok (some (v, j)) ∧ At text j rest := by
  have returns : VarReturns subject data text after (substvar subject data text i) :=
    substvar_returns nonzero here
  generalize substvar subject data text i = result at returns
  match result, returns with
  | .error (.violation _), misread => exact absurd misread (not_misread reads)
  | .error .endless, ⟨_, valueless⟩ => exact absurd value (valueless ph rest v reads)
  | .ok none, ⟨_, valueless⟩ => exact absurd value (valueless ph rest v reads)
  | .ok (some (w, j)), ⟨_, ph', rest', reads', value', there⟩ =>
    rw [reads] at reads'
    injection reads' with same
    injection same with same same'
    subst same same'
    rw [value.unique value']
    exact ⟨j, rfl, there⟩

end Nmap.Service.Template
