import Mathlib.Algebra.GroupWithZero.Nat
import Mathlib.Tactic.SplitIfs

/-!
# Reading a command line (`zenmapCore/NmapOptions.py`)

`getopt_long_only_extras` reads options that may be abbreviated, joined together or written with
one dash, and keeps what it does not know. Whether an unknown option takes an argument is
unknown as well: `sync` reads on in both ways until they agree, and all that was read until then
goes along with the option.
-/

namespace Nmap.Zenmap

open List

/-- A string, by its characters -/
abbrev Str := List Char

/-! ## Options -/

inductive HasArg
  | noArgument
  | requiredArgument
  | optionalArgument
  deriving DecidableEq, Repr

/-- `option` -/
structure Opt where
  name : Str
  hasArg : HasArg
  deriving DecidableEq, Repr

/-- The short options of a specification. Colons follow those that take an argument. -/
def shortOptions : Str → List Opt
  | [] => []
  | c :: rest =>
    if c = ':' then shortOptions rest
    else
      let hasArg := match (rest.takeWhile (· = ':')).length with
        | 0 => .noArgument
        | 1 => .requiredArgument
        | _ => .optionalArgument
      ⟨[c], hasArg⟩ :: shortOptions rest

def makeOptions (shortOpts : String) (longOpts : List (String × HasArg)) : List Opt :=
  longOpts.map (fun (name, hasArg) => ⟨name.toList, hasArg⟩) ++ shortOptions shortOpts.toList

/-- "Nmap treats '_' the same as '-' in long option names." -/
def canonicalize (name : Str) : Str := name.map fun c => if c = '_' then '-' else c

/-- `lookup_option`: a name may be abbreviated as long as that is not ambiguous. -/
def lookupOption (options : List Opt) (name : Str) : Option Opt :=
  match options.filter fun o => (canonicalize name).isPrefixOf (canonicalize o.name) with
  | [] => none
  | [o] => some o
  | found => found.find? fun o => canonicalize o.name = canonicalize name

theorem lookupOption_filter {options : List Opt} {name : Str} {option : Opt}
    (found : lookupOption options name = some option) :
    option ∈ options.filter fun o => (canonicalize name).isPrefixOf (canonicalize o.name) := by
  unfold lookupOption at found
  split at found
  · contradiction
  · rename_i o only
    cases found
    rw [only]
    exact mem_singleton_self _
  · exact mem_of_find?_eq_some found

theorem lookupOption_mem {options : List Opt} {name : Str} {option : Opt}
    (found : lookupOption options name = some option) : option ∈ options :=
  (mem_filter.mp (lookupOption_filter found)).1

theorem lookupOption_begins {options : List Opt} {name : Str} {option : Opt}
    (found : lookupOption options name = some option) :
    canonicalize name <+: canonicalize option.name :=
  isPrefixOf_iff_prefix.mp (mem_filter.mp (lookupOption_filter found)).2

theorem lookupOption_eq_none {options : List Opt} {name : Str}
    (unknown : ∀ option ∈ options, ¬ canonicalize name <+: canonicalize option.name) :
    lookupOption options name = none := by
  cases found : lookupOption options name with
  | none => rfl
  | some option =>
    exact absurd (lookupOption_begins found) (unknown option (lookupOption_mem found))

/-- What `split_option` returns -/
structure Split where
  name : Str
  arg : Option Str
  remainder : Option Str
  deriving DecidableEq, Repr

/-- A name, and its argument after the first `=` -/
def splitArg (s : Str) : Split :=
  match s.dropWhile (· ≠ '=') with
  | [] => ⟨s, none, none⟩
  | _ :: arg => ⟨s.takeWhile (· ≠ '='), some arg, none⟩

/-- `split_option`, for an argument that starts with a dash -/
def splitOption (options : List Opt) : Str → Split
  | '-' :: c :: rest =>
    if c = '-' then splitArg rest
    -- "First see if it's really a long option (or a single short option)."
    else if (lookupOption options (splitArg (c :: rest)).name).isSome then splitArg (c :: rest)
    else
      match lookupOption options [c] with
      | none => ⟨c :: rest, none, none⟩
      | some option =>
        if rest = [] then ⟨[c], none, none⟩
        else if option.hasArg = .noArgument then ⟨[c], none, some ('-' :: rest)⟩
        else ⟨[c], some rest, none⟩
  | s => ⟨s.drop 1, none, none⟩

theorem splitOption_dash {options : List Opt} {c : Char} (rest : Str) (other : c ≠ '-') :
    splitOption options ('-' :: c :: rest) =
      if (lookupOption options (splitArg (c :: rest)).name).isSome then splitArg (c :: rest)
      else
        match lookupOption options [c] with
        | none => ⟨c :: rest, none, none⟩
        | some option =>
          if rest = [] then ⟨[c], none, none⟩
          else if option.hasArg = .noArgument then ⟨[c], none, some ('-' :: rest)⟩
          else ⟨[c], some rest, none⟩ := by
  rw [splitOption, if_neg other]

@[simp] theorem splitArg_remainder (s : Str) : (splitArg s).remainder = none := by
  unfold splitArg
  split <;> rfl

/-! ## The next option -/

/-- What `get_option` returns, unless it is `None` -/
inductive Result
  | positional (s : Str)
  | option (name : Str) (arg : Option Str)
  /-- an unknown option, and what was read with it -/
  | extra (l : List Str)
  deriving DecidableEq, Repr

def size (cmdArgs : List Str) : Nat := (cmdArgs.map (·.length + 1)).sum

@[simp] theorem size_nil : size [] = 0 := rfl

@[simp] theorem size_cons (s : Str) (cmdArgs : List Str) :
    size (s :: cmdArgs) = s.length + 1 + size cmdArgs := by
  simp [size]

theorem size_drop_le (cmdArgs : List Str) (n : Nat) : size (cmdArgs.drop n) ≤ size cmdArgs := by
  induction n generalizing cmdArgs with
  | zero => exact Nat.le_refl _
  | succ n ih =>
    cases cmdArgs with
    | nil => exact Nat.le_refl _
    | cons s rest =>
      rw [drop_succ_cons, size_cons]
      have := ih rest
      omega

theorem size_tail_le (cmdArgs : List Str) : size cmdArgs.tail ≤ size cmdArgs := by
  rw [← drop_one]
  exact size_drop_le cmdArgs 1

theorem splitArg_suffix {s arg : Str} (split : (splitArg s).arg = some arg) :
    arg <:+ s ∧ arg.length < s.length := by
  unfold splitArg at split
  split at split
  · contradiction
  · rename_i c rest found
    obtain rfl := Option.some.inj split
    have suffix : c :: rest <:+ s := found ▸ dropWhile_suffix _
    have shorter := suffix.length_le
    rw [length_cons] at shorter
    exact ⟨(suffix_cons c rest).trans suffix, shorter⟩

/-- An argument that comes with the option is the end of it. -/
theorem splitOption_suffix {options : List Opt} {cmdArg arg : Str}
    (split : (splitOption options cmdArg).arg = some arg) :
    arg <:+ cmdArg ∧ arg.length < cmdArg.length := by
  have longer : ∀ {c : Char} {s : Str}, arg <:+ s ∧ arg.length < s.length →
      arg <:+ c :: s ∧ arg.length < (c :: s).length := fun ⟨suffix, shorter⟩ =>
    ⟨suffix.trans (suffix_cons _ _), Nat.lt_succ_of_lt shorter⟩
  unfold splitOption at split
  split at split
  · rename_i c rest
    by_cases dash : c = '-'
    · rw [if_pos dash] at split
      exact longer (longer (splitArg_suffix split))
    rw [if_neg dash] at split
    by_cases long : (lookupOption options (splitArg (c :: rest)).name).isSome
    · rw [if_pos long] at split
      exact longer (splitArg_suffix split)
    rw [if_neg long] at split
    cases found : lookupOption options [c] with
    | none =>
      rw [found] at split
      contradiction
    | some option =>
      rw [found] at split
      dsimp only at split
      split_ifs at split
      cases split
      exact longer ⟨suffix_cons c _, Nat.lt_succ_self _⟩
  · contradiction

/-- A remainder is what followed a short option that takes no argument. -/
theorem splitOption_remainder {options : List Opt} {cmdArg remainder : Str}
    (split : (splitOption options cmdArg).remainder = some remainder) :
    ∃ c rest option, cmdArg = '-' :: c :: rest ∧ c ≠ '-' ∧ remainder = '-' :: rest ∧
      lookupOption options [c] = some option ∧ option.hasArg = .noArgument ∧
      splitOption options cmdArg = ⟨[c], none, some ('-' :: rest)⟩ := by
  unfold splitOption at split ⊢
  split at split
  · rename_i c rest
    by_cases dash : c = '-'
    · rw [if_pos dash, splitArg_remainder] at split
      contradiction
    rw [if_neg dash] at split ⊢
    by_cases long : (lookupOption options (splitArg (c :: rest)).name).isSome
    · rw [if_pos long, splitArg_remainder] at split
      contradiction
    rw [if_neg long] at split ⊢
    cases found : lookupOption options [c] with
    | none =>
      rw [found] at split
      contradiction
    | some option =>
      rw [found] at split
      dsimp only at split ⊢
      by_cases alone : rest = []
      · rw [if_pos alone] at split
        contradiction
      rw [if_neg alone] at split ⊢
      by_cases flag : option.hasArg = .noArgument
      · rw [if_pos flag] at split ⊢
        cases split
        exact ⟨c, rest, option, rfl, dash, rfl, found, flag, rfl⟩
      · rw [if_neg flag] at split
        contradiction
  · contradiction

/-- The list after `cmd_args.insert(0, remainder)` -/
theorem size_remainder {options : List Opt} {cmdArg : Str} (cmdArgs : List Str) :
    size ((splitOption options cmdArg).remainder.toList ++ cmdArgs) <
      size (cmdArg :: cmdArgs) := by
  cases split : (splitOption options cmdArg).remainder with
  | none =>
    rw [Option.toList_none, nil_append, size_cons]
    omega
  | some remainder =>
    obtain ⟨c, rest, _, rfl, _, rfl, _⟩ := splitOption_remainder split
    rw [Option.toList_some, singleton_append, size_cons, size_cons, length_cons,
      length_cons, length_cons]
    omega

/-- What is left of the arguments. There is less of them than before. -/
abbrev Rest (cmdArgs : List Str) := { rest : List Str // cmdArgs ≠ [] → size rest < size cmdArgs }

variable (options : List Opt)

mutual

/-- `get_option`, with the arguments that are left -/
def getOptionRest (cmdArgs : List Str) : Option Result × Rest cmdArgs :=
  match cmdArgs with
  | [] => (none, ⟨[], fun nonempty => absurd rfl nonempty⟩)
  | cmdArg :: cmdArgs =>
    if marker : cmdArg = ['-', '-'] then
      match cmdArgs with
      | [] => (none, ⟨[], fun _ => by simp⟩)
      -- "Grab the positional argument and replace the --."
      | name :: rest =>
        (some (.positional name), ⟨['-', '-'] :: rest, fun _ => by simp [marker]⟩)
    else if cmdArg.head? ≠ some '-' then
      (some (.positional cmdArg), ⟨cmdArgs, fun _ => by simp⟩)
    else
      let split := splitOption options cmdArg
      let rest := split.remainder.toList ++ cmdArgs
      have shorter : size rest < size (cmdArg :: cmdArgs) := size_remainder cmdArgs
      match lookupOption options split.name with
      | none =>
        match split.arg with
        | some _ => (some (.extra [cmdArg]), ⟨rest, fun _ => shorter⟩)
        | none =>
          let same := sync rest.tail rest
          let n := rest.length - same.length
          (some (.extra (cmdArg :: rest.take n)),
            ⟨rest.drop n, fun _ => Nat.lt_of_le_of_lt (size_drop_le rest n) shorter⟩)
      | some option =>
        if option.hasArg = .noArgument ∧ split.arg ≠ none then
          (some (.extra [cmdArg]), ⟨rest, fun _ => shorter⟩)
        else if option.hasArg = .requiredArgument ∧ split.arg = none then
          match rest.head? with
          | none => (some (.extra [cmdArg]), ⟨rest, fun _ => shorter⟩)
          | some arg =>
            (some (.option option.name (some arg)),
              ⟨rest.tail, fun _ => Nat.lt_of_le_of_lt (size_tail_le rest) shorter⟩)
        else (some (.option option.name split.arg), ⟨rest, fun _ => shorter⟩)
  termination_by (size cmdArgs, 0)
  decreasing_by
    apply Prod.Lex.left
    show max (size rest.tail) (size rest) < size (cmdArg :: cmdArgs)
    have tail := size_tail_le rest
    omega

/-- `sync`: read from the longer list until both are the same -/
def sync (a b : List Str) : List Str :=
  if same : a = b then a
  else if longer : b.length < a.length then
    match getOptionRest a with
    | (_, ⟨rest, shorter⟩) =>
      have shorter := shorter (ne_nil_of_length_pos (by omega))
      sync rest b
  else
    match getOptionRest b with
    | (_, ⟨rest, shorter⟩) =>
      have shorter := shorter fun empty => by
        rw [empty] at same longer
        exact longer (length_pos_iff.mpr same)
      sync a rest
  termination_by (max (size a) (size b), size a + size b + 1)
  decreasing_by
    all_goals simp only [Prod.lex_def]
    all_goals omega

end

/-- `get_option`: what was read, and the arguments as the call leaves them -/
def getOption (cmdArgs : List Str) : Option Result × List Str :=
  ((getOptionRest options cmdArgs).1, (getOptionRest options cmdArgs).2.val)

variable {options}

@[simp] theorem getOption_nil : getOption options [] = (none, []) := by
  rw [getOption, getOptionRest]

theorem size_getOption {cmdArgs : List Str} (nonempty : cmdArgs ≠ []) :
    size (getOption options cmdArgs).2 < size cmdArgs :=
  (getOptionRest options cmdArgs).2.property nonempty

@[simp] theorem getOption_marker (cmdArgs : List Str) :
    getOption options (['-', '-'] :: cmdArgs) =
      match cmdArgs with
      | [] => (none, [])
      | name :: rest => (some (.positional name), ['-', '-'] :: rest) := by
  rw [getOption, getOptionRest, dif_pos rfl]
  cases cmdArgs <;> rfl

theorem getOption_positional {cmdArg : Str} {cmdArgs : List Str} (plain : cmdArg.head? ≠ some '-') :
    getOption options (cmdArg :: cmdArgs) = (some (.positional cmdArg), cmdArgs) := by
  have other : cmdArg ≠ ['-', '-'] := fun equal => plain (by rw [equal]; rfl)
  rw [getOption, getOptionRest, dif_neg other, if_pos plain]

/-- What `get_option` makes of an argument that starts with a dash -/
theorem getOption_dash {cmdArg : Str} {cmdArgs : List Str} (other : cmdArg ≠ ['-', '-'])
    (dash : cmdArg.head? = some '-') :
    let split := splitOption options cmdArg
    let rest := split.remainder.toList ++ cmdArgs
    getOption options (cmdArg :: cmdArgs) =
      match lookupOption options split.name with
      | none =>
        match split.arg with
        | some _ => (some (.extra [cmdArg]), rest)
        | none =>
          let n := rest.length - (sync options rest.tail rest).length
          (some (.extra (cmdArg :: rest.take n)), rest.drop n)
      | some option =>
        if option.hasArg = .noArgument ∧ split.arg ≠ none then (some (.extra [cmdArg]), rest)
        else if option.hasArg = .requiredArgument ∧ split.arg = none then
          match rest.head? with
          | none => (some (.extra [cmdArg]), rest)
          | some arg => (some (.option option.name (some arg)), rest.tail)
        else (some (.option option.name split.arg), rest) := by
  intro split rest
  rw [getOption, getOptionRest, dif_neg other, if_neg (not_not.mpr dash)]
  show _ = match lookupOption options (splitOption options cmdArg).name with
    | none => _
    | some option => _
  cases found : lookupOption options (splitOption options cmdArg).name with
  | none =>
    cases arg : (splitOption options cmdArg).arg <;> simp only [split, rest, arg, found]
  | some option =>
    simp only [split, rest, found]
    split_ifs
    · rfl
    · cases ((splitOption options cmdArg).remainder.toList ++ cmdArgs).head? <;> rfl
    · rfl

/-- An option with its argument in `cmdArg`, or without one -/
theorem getOption_attached {cmdArg : Str} {option : Opt} (cmdArgs : List Str)
    (other : cmdArg ≠ ['-', '-']) (dash : cmdArg.head? = some '-')
    (whole : (splitOption options cmdArg).remainder = none)
    (found : lookupOption options (splitOption options cmdArg).name = some option)
    (wanted : option.hasArg = .noArgument → (splitOption options cmdArg).arg = none)
    (given : option.hasArg = .requiredArgument → (splitOption options cmdArg).arg ≠ none) :
    getOption options (cmdArg :: cmdArgs) =
      (some (.option option.name (splitOption options cmdArg).arg), cmdArgs) := by
  rw [getOption_dash other dash]
  dsimp only
  rw [found, whole]
  dsimp only
  rw [if_neg fun unwanted => unwanted.2 (wanted unwanted.1),
    if_neg fun missing => given missing.1 missing.2]
  rfl

theorem getOption_next {cmdArg : Str} {option : Opt} (arg : Str) (cmdArgs : List Str)
    (other : cmdArg ≠ ['-', '-']) (dash : cmdArg.head? = some '-')
    (whole : (splitOption options cmdArg).remainder = none)
    (found : lookupOption options (splitOption options cmdArg).name = some option)
    (required : option.hasArg = .requiredArgument)
    (missing : (splitOption options cmdArg).arg = none) :
    getOption options (cmdArg :: arg :: cmdArgs) =
      (some (.option option.name (some arg)), cmdArgs) := by
  rw [getOption_dash other dash]
  dsimp only
  rw [found, whole]
  dsimp only
  rw [if_neg fun unwanted => unwanted.2 missing, if_pos ⟨required, missing⟩]
  rfl

theorem splitOption_letter {c : Char} {option : Opt} (other : c ≠ '-') (equals : c ≠ '=')
    (found : lookupOption options [c] = some option) :
    splitOption options ['-', c] = ⟨[c], none, none⟩ := by
  have plain : splitArg [c] = ⟨[c], none, none⟩ := by
    simp [splitArg, List.dropWhile, equals]
  rw [splitOption_dash [] other, plain]
  dsimp only
  rw [found]
  rfl

theorem splitOption_joined {c d : Char} {option : Opt} (rest : Str) (other : c ≠ '-')
    (equals : c ≠ '=') (equals' : d ≠ '=') (found : lookupOption options [c] = some option)
    (taken : option.hasArg ≠ .noArgument)
    (unknown : ∀ option ∈ options, ¬ canonicalize [c, d] <+: canonicalize option.name) :
    splitOption options ('-' :: c :: d :: rest) = ⟨[c], some (d :: rest), none⟩ := by
  have starts : [c, d] <+: (splitArg (c :: d :: rest)).name := by
    unfold splitArg
    split
    · exact ⟨rest, rfl⟩
    · rw [takeWhile_cons_of_pos (by simpa using equals),
        takeWhile_cons_of_pos (by simpa using equals')]
      exact ⟨_, rfl⟩
  have long : lookupOption options (splitArg (c :: d :: rest)).name = none :=
    lookupOption_eq_none fun option mem begins =>
      unknown option mem ((starts.map _).trans begins)
  rw [splitOption_dash (d :: rest) other, long, found]
  dsimp only
  rw [if_neg (by decide), if_neg (cons_ne_nil d rest), if_neg taken]

/-! ## What one call can do -/

/-- `Takes options cmdArg cmdArgs result rest`: `cmdArg` is read as `result`, with `cmdArgs` behind
it, and `rest` is left. -/
inductive Takes (options : List Opt) : Str → List Str → Result → List Str → Prop
  | marker {name rest} : Takes options ['-', '-'] (name :: rest) (.positional name)
      (['-', '-'] :: rest)
  | positional {cmdArg cmdArgs} : cmdArg.head? ≠ some '-' →
      Takes options cmdArg cmdArgs (.positional cmdArg) cmdArgs
  /-- the first of several short options in one argument -/
  | flag {c s option cmdArgs} : c ≠ '-' → lookupOption options [c] = some option →
      option.hasArg = .noArgument →
      Takes options ('-' :: c :: s) cmdArgs (.option option.name none) (('-' :: s) :: cmdArgs)
  | extra {cmdArg cmdArgs} (n : Nat) : cmdArg.head? = some '-' → cmdArg ≠ ['-', '-'] →
      Takes options cmdArg cmdArgs (.extra (cmdArg :: cmdArgs.take n)) (cmdArgs.drop n)
  | attached {cmdArg cmdArgs option} : cmdArg.head? = some '-' → cmdArg ≠ ['-', '-'] →
      lookupOption options (splitOption options cmdArg).name = some option →
      (option.hasArg = .noArgument → (splitOption options cmdArg).arg = none) →
      (option.hasArg = .requiredArgument → (splitOption options cmdArg).arg ≠ none) →
      Takes options cmdArg cmdArgs (.option option.name (splitOption options cmdArg).arg) cmdArgs
  | next {cmdArg cmdArgs option} (arg : Str) : cmdArg.head? = some '-' → cmdArg ≠ ['-', '-'] →
      lookupOption options (splitOption options cmdArg).name = some option →
      option.hasArg = .requiredArgument → (splitOption options cmdArg).arg = none →
      Takes options cmdArg (arg :: cmdArgs) (.option option.name (some arg)) cmdArgs

/-- An option that is read with all of its argument: the option's own argument is in it, or the
next one was taken. -/
theorem Takes.taken {cmdArg opt : Str} {arg : Option Str} {taken rest : List Str}
    (takes : Takes options cmdArg (taken ++ rest) (.option opt arg) rest) :
    ∃ option, option.name = opt ∧
      lookupOption options (splitOption options cmdArg).name = some option ∧
      (taken = [] ∧ (splitOption options cmdArg).arg = arg ∨
        (splitOption options cmdArg).arg = none ∧ ∃ a, arg = some a ∧ taken = [a]) := by
  generalize together : taken ++ rest = cmdArgs at takes
  cases takes with
  | flag =>
    have length := congrArg List.length together
    rw [length_append, length_cons] at length
    omega
  | attached _ _ found =>
    exact ⟨_, rfl, found, .inl ⟨append_left_eq_self.mp together, rfl⟩⟩
  | next a _ _ found required missing =>
    rw [← singleton_append] at together
    exact ⟨_, rfl, found, .inr ⟨missing, a, rfl, append_cancel_right together⟩⟩

/-- Without a remainder -/
private theorem takes_whole {cmdArg : Str} {cmdArgs rest : List Str} {result : Result}
    (other : cmdArg ≠ ['-', '-']) (dash : cmdArg.head? = some '-')
    (whole : (splitOption options cmdArg).remainder = none)
    (read : getOption options (cmdArg :: cmdArgs) = (some result, rest)) :
    Takes options cmdArg cmdArgs result rest := by
  have extra : Takes options cmdArg cmdArgs (.extra [cmdArg]) cmdArgs := .extra 0 dash other
  rw [getOption_dash other dash] at read
  dsimp only at read
  rw [whole, Option.toList_none, nil_append] at read
  cases found : lookupOption options (splitOption options cmdArg).name with
  | none =>
    rw [found] at read
    cases arg : (splitOption options cmdArg).arg with
    | none =>
      rw [arg] at read
      cases read
      exact .extra _ dash other
    | some a =>
      rw [arg] at read
      cases read
      exact extra
  | some option =>
    rw [found] at read
    dsimp only at read
    split_ifs at read with unwanted missing
    · cases read
      exact extra
    · cases cmdArgs with
      | nil =>
        cases read
        exact extra
      | cons arg cmdArgs =>
        cases read
        exact .next arg dash other found missing.1 missing.2
    · cases read
      refine .attached dash other found (fun flag => ?_) (fun required arg => ?_)
      · exact not_not.mp fun arg => unwanted ⟨flag, arg⟩
      · exact missing ⟨required, arg⟩

theorem getOption_takes {cmdArg : Str} {cmdArgs rest : List Str} {result : Result}
    (read : getOption options (cmdArg :: cmdArgs) = (some result, rest)) :
    Takes options cmdArg cmdArgs result rest := by
  by_cases marker : cmdArg = ['-', '-']
  · subst marker
    rw [getOption_marker] at read
    cases cmdArgs with
    | nil => cases read
    | cons name cmdArgs =>
      cases read
      exact .marker
  by_cases dash : cmdArg.head? = some '-'
  · cases whole : (splitOption options cmdArg).remainder with
    | none => exact takes_whole marker dash whole read
    | some remainder =>
      obtain ⟨c, s, option, rfl, short, rfl, found, flag, split⟩ := splitOption_remainder whole
      rw [getOption_dash marker dash, split] at read
      dsimp only at read
      rw [found] at read
      dsimp only at read
      rw [if_neg (fun unwanted => unwanted.2 rfl), if_neg (by rw [flag]; simp)] at read
      cases read
      exact .flag short found flag
  · rw [getOption_positional dash] at read
    cases read
    exact .positional dash

end Nmap.Zenmap
