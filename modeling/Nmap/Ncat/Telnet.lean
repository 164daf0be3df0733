import Nmap.Base.Utf8
import Mathlib.Data.List.Basic

/-!
# Telnet negotiation (`ncat_core.c`)

`dotelnet` goes through what one read gave. It answers the negotiation commands and takes all
commands out of the buffer. Of a command that is cut at the end of a read nothing is kept for the
next one (`dotelnet_reads_iff`).
-/

namespace Nmap.Ncat

open Nmap.Base List

def iac : UInt8 := 255

/-! ## The function -/

/-- The answer to the command behind an IAC, `tbuf[1]`: DONT for WILL and WONT, and WONT for DO
and DONT. Other commands get none. -/
def reply (command : UInt8) : Option UInt8 :=
  if command = 251 || command = 252 then some 254
  else if command = 253 || command = 254 then some 252
  else none

/-- The loop of `dotelnet` over the buffer, with `p`, `q` and what was sent -/
def dotelnetFrom (buf : Bytes) (p q : Nat) (answers : List Bytes) : Bytes × Nat × List Bytes :=
  if _more : p < buf.length then
    if buf.getD p 0 ≠ iac then
      dotelnetFrom (buf.set q (buf.getD p 0)) (p + 1) (q + 1) answers
    else if p + 1 ≥ buf.length then (buf, q, answers)
    else
      match reply (buf.getD (p + 1) 0) with
      | some answer =>
        if p + 2 ≥ buf.length then (buf, q, answers)
        else dotelnetFrom buf (p + 3) q (answers ++ [[iac, answer, buf.getD (p + 2) 0]])
      | none =>
        -- an escaped data byte, or a command that is ignored
        if buf.getD (p + 1) 0 = iac then dotelnetFrom (buf.set q iac) (p + 2) (q + 1) answers
        else dotelnetFrom buf (p + 2) q answers
  else (buf, q, answers)
termination_by buf.length - p
decreasing_by
  · rw [length_set]
    omega
  · omega
  · rw [length_set]
    omega
  · omega

/-- `dotelnet`: what is left in the buffer up to the new `*bufsiz`, and what was sent -/
def dotelnet (buf : Bytes) : Bytes × List Bytes :=
  let (buf, bufsiz, answers) := dotelnetFrom buf 0 0 []
  (buf.take bufsiz, answers)

/-- A connection: what `ncat_recv` returns for the reads, and what was sent, one behind the
other -/
def recvAll (reads : List Bytes) : Bytes × List Bytes :=
  (reads.flatMap fun buf => (dotelnet buf).1, reads.flatMap fun buf => (dotelnet buf).2)

/-! ## What is kept and answered -/

/-- The data in a text, the answers to it, and the command that is cut at its end -/
def telnet : Bytes → Bytes × List Bytes × Bytes
  | [] => ([], [], [])
  | c :: s =>
    if c ≠ iac then
      let (data, answers, cut) := telnet s
      (c :: data, answers, cut)
    else
      match s with
      | [] => ([], [], [iac])
      | command :: s =>
        match reply command with
        | some answer =>
          match s with
          | [] => ([], [], [iac, command])
          | opt :: s =>
            let (data, answers, cut) := telnet s
            (data, [iac, answer, opt] :: answers, cut)
        | none =>
          let (data, answers, cut) := telnet s
          (if command = iac then iac :: data else data, answers, cut)

/-! ## The loop -/

/-- The loop is in front of `rest`, and `data` was kept. Bytes are stored only where they have
been read. -/
structure Scan (buf : Bytes) (p q : Nat) (rest data : Bytes) : Prop where
  drop : buf.drop p = rest
  take : buf.take q = data
  inside : p + rest.length = buf.length
  behind : q ≤ p

namespace Scan

variable {buf rest data s : Bytes} {p q : Nat} {c : UInt8}

theorem start (buf : Bytes) : Scan buf 0 0 buf [] where
  drop := rfl
  take := rfl
  inside := Nat.zero_add _
  behind := Nat.le_refl 0

theorem less (scan : Scan buf p q (c :: s) data) : p < buf.length := by
  have inside := scan.inside
  rw [length_cons] at inside
  omega

theorem byte (scan : Scan buf p q (c :: s) data) : buf.getD p 0 = c := by
  rw [getD_eq_getElem?_getD, ← List.head?_drop, scan.drop]
  rfl

theorem next (scan : Scan buf p q (c :: s) data) : Scan buf (p + 1) q s data where
  drop := by rw [← drop_drop, scan.drop]; rfl
  take := scan.take
  inside := by
    have inside := scan.inside
    rw [length_cons] at inside
    omega
  behind := Nat.le_succ_of_le scan.behind

theorem keep (scan : Scan buf p q rest data) (read : q < p) (d : UInt8) :
    Scan (buf.set q d) p (q + 1) rest (data ++ [d]) where
  drop := by rw [drop_set_of_lt read, scan.drop]
  take := by
    have room : q < buf.length := Nat.lt_of_lt_of_le read (by have := scan.inside; omega)
    rw [take_add_one, take_set_of_le (Nat.le_refl q), scan.take,
      List.getElem?_set_self room]
    rfl
  inside := by rw [length_set, scan.inside]
  behind := read

theorem none_left (scan : Scan buf p q [] data) : ¬ p < buf.length := by
  have inside := scan.inside
  rw [length_nil] at inside
  omega

end Scan

/-- **The loop keeps the data and sends the answers.** -/
theorem dotelnetFrom_eq {buf rest data : Bytes} {p q : Nat} (scan : Scan buf p q rest data)
    (answers : List Bytes) :
    ∃ buf' q', dotelnetFrom buf p q answers = (buf', q', answers ++ (telnet rest).2.1) ∧
      buf'.take q' = data ++ (telnet rest).1 := by
  fun_induction telnet rest generalizing buf data p q answers with
  | case1 =>
    rw [dotelnetFrom, dif_neg scan.none_left]
    exact ⟨buf, q, by simp, by simp [scan.take]⟩
  | case2 c s other d a r eq ih =>
    rw [eq] at ih
    obtain ⟨buf', q', run, kept⟩ := ih (scan.next.keep (Nat.lt_succ_of_le scan.behind) c) answers
    refine ⟨buf', q', ?_, ?_⟩
    · rw [dotelnetFrom, dif_pos scan.less, scan.byte, if_pos other]
      exact run
    · rw [kept]
      simp
  | case3 c command_ =>
    have stop := scan.next.none_left
    refine ⟨buf, q, ?_, by simp [scan.take]⟩
    rw [dotelnetFrom, dif_pos scan.less, scan.byte, if_neg command_, if_pos (by omega),
      append_nil]
  | case4 c command_ command answer replies =>
    have stop := scan.next.next.none_left
    have second := scan.next.less
    refine ⟨buf, q, ?_, by simp [scan.take]⟩
    rw [dotelnetFrom, dif_pos scan.less, scan.byte, if_neg command_, if_neg (by omega),
      scan.next.byte, replies, append_nil]
    exact if_pos (by omega)
  | case5 c command_ command answer replies opt s d a r eq ih =>
    rw [eq] at ih
    have second := scan.next.less
    have third := scan.next.next.less
    obtain ⟨buf', q', run, kept⟩ := ih scan.next.next.next (answers ++ [[iac, answer, opt]])
    refine ⟨buf', q', ?_, by rw [kept]⟩
    rw [dotelnetFrom, dif_pos scan.less, scan.byte, if_neg command_, if_neg (by omega),
      scan.next.byte, replies]
    dsimp only
    rw [if_neg (by omega), scan.next.next.byte, run, append_assoc]
    rfl
  | case6 c command_ command s silent d a r eq ih =>
    rw [eq] at ih
    have second := scan.next.less
    rw [dotelnetFrom, dif_pos scan.less, scan.byte, if_neg command_, if_neg (by omega),
      scan.next.byte, silent]
    dsimp only
    by_cases escaped : command = iac
    · obtain ⟨buf', q', run, kept⟩ :=
        ih (scan.next.next.keep (Nat.lt_succ_of_lt (Nat.lt_succ_of_le scan.behind)) iac) answers
      refine ⟨buf', q', by rw [if_pos escaped, run], ?_⟩
      rw [kept, if_pos escaped]
      simp
    · obtain ⟨buf', q', run, kept⟩ := ih scan.next.next answers
      exact ⟨buf', q', by rw [if_neg escaped, run], by rw [kept, if_neg escaped]⟩

/-- **One read**: the data is left in the buffer, and the commands are answered. -/
theorem dotelnet_eq (buf : Bytes) : dotelnet buf = ((telnet buf).1, (telnet buf).2.1) := by
  obtain ⟨buf', q', run, kept⟩ := dotelnetFrom_eq (.start buf) []
  rw [dotelnet, run]
  exact Prod.ext kept rfl

/-! ## Reads that end between commands -/

def Whole (s : Bytes) : Prop := (telnet s).2.2 = []

instance (s : Bytes) : Decidable (Whole s) := inferInstanceAs (Decidable (_ = _))

variable {s : Bytes}

theorem telnet_append (whole : Whole s) (t : Bytes) :
    telnet (s ++ t) =
      ((telnet s).1 ++ (telnet t).1, (telnet s).2.1 ++ (telnet t).2.1, (telnet t).2.2) := by
  unfold Whole at whole
  fun_induction telnet s with
  | case1 => rfl
  | case2 c s other d a r eq ih =>
    rw [eq] at ih
    rw [cons_append, telnet.eq_def]
    dsimp only
    rw [if_pos other, ih whole]
    rfl
  | case3 => cases whole
  | case4 => cases whole
  | case5 c command_ command answer replies opt s d a r eq ih =>
    rw [eq] at ih
    simp only [cons_append]
    rw [telnet.eq_def]
    dsimp only
    rw [if_neg command_, replies]
    dsimp only
    rw [ih whole]
  | case6 c command_ command s silent d a r eq ih =>
    rw [eq] at ih
    simp only [cons_append]
    rw [telnet.eq_def]
    dsimp only
    rw [if_neg command_, silent]
    dsimp only
    rw [ih whole]
    split
    · rfl
    · rfl

/-- Every read with something behind it ends between commands. -/
def EndBetween : List Bytes → Prop
  | [] => True
  | buf :: reads => (reads.flatten = [] ∨ Whole buf) ∧ EndBetween reads

/-- **Reads that end between commands are as good as one read.** -/
theorem recvAll_of_endBetween {reads : List Bytes} (between : EndBetween reads) :
    recvAll reads = dotelnet reads.flatten := by
  induction reads with
  | nil => simp [recvAll, dotelnet_eq, telnet]
  | cons buf reads ih =>
    obtain ⟨here, later⟩ := between
    have rest := ih later
    rw [recvAll, dotelnet_eq, Prod.mk.injEq] at rest
    rw [recvAll, flatMap_cons, flatMap_cons, rest.1, rest.2, flatten_cons,
      dotelnet_eq, dotelnet_eq]
    rcases here with last | whole
    · rw [last, append_nil, telnet, append_nil, append_nil]
    · rw [telnet_append whole]

/-! ## Streams without commands -/

def NoCommand (s : Bytes) : Prop := ∀ a b, s = a ++ iac :: b → b = []

def withoutIac (s : Bytes) : Bytes := s.filter (· ≠ iac)

theorem withoutIac_iac (s : Bytes) : withoutIac (iac :: s) = withoutIac s :=
  filter_cons_of_neg (by simp)

theorem withoutIac_cons {c : UInt8} (other : c ≠ iac) (s : Bytes) :
    withoutIac (c :: s) = c :: withoutIac s :=
  filter_cons_of_pos (decide_eq_true other)

theorem noCommand_cons {c : UInt8} (other : c ≠ iac) :
    NoCommand (c :: s) ↔ NoCommand s := by
  constructor
  · intro all a b eq
    exact all (c :: a) b (by rw [eq]; rfl)
  · intro all a b eq
    cases a with
    | nil => exact absurd (List.cons.inj eq).1 other
    | cons d a => exact all a b (List.cons.inj eq).2

theorem not_noCommand {d : UInt8} : ¬ NoCommand (iac :: d :: s) := by
  intro all
  exact cons_ne_nil _ _ (all [] (d :: s) rfl)

theorem NoCommand.append {t : Bytes} (all : NoCommand (s ++ t)) : NoCommand s ∧ NoCommand t := by
  constructor
  · intro a b eq
    have both := all a (b ++ t) (by rw [eq]; simp)
    exact (append_eq_nil_iff.mp both).1
  · intro a b eq
    exact all (s ++ a) b (by rw [eq]; simp)

theorem sublist_telnet (s : Bytes) : (telnet s).1.Sublist s := by
  fun_induction telnet s with
  | case1 => exact .slnil
  | case2 c s other d a r eq ih =>
    rw [eq] at ih
    exact ih.cons_cons c
  | case3 => exact nil_sublist _
  | case4 => exact nil_sublist _
  | case5 c command_ command answer replies opt s d a r eq ih =>
    rw [eq] at ih
    exact ((ih.cons opt).cons command).cons c
  | case6 c command_ command s silent d a r eq ih =>
    rw [eq] at ih
    dsimp only
    split
    · next escaped =>
        rw [escaped]
        exact (ih.cons_cons iac).cons c
    · exact (ih.cons command).cons c

/-- **Only a stream without commands loses just its IACs.** -/
theorem telnet_withoutIac_iff (s : Bytes) :
    ((telnet s).1 = withoutIac s ∧ (telnet s).2.1 = []) ↔ NoCommand s := by
  fun_induction telnet s with
  | case1 => exact iff_of_true ⟨rfl, rfl⟩ fun a b eq => by simp at eq
  | case2 c s other d a r eq ih =>
    rw [eq] at ih
    rw [withoutIac_cons other, noCommand_cons other, ← ih]
    exact and_congr_left fun _ => cons_inj_right c
  | case3 c command_ =>
    rw [Decidable.not_not.mp command_]
    refine iff_of_true ⟨rfl, rfl⟩ ?_
    intro a b eq
    cases a with
    | nil => exact (List.cons.inj eq).2.symm
    | cons d a => exact absurd (List.cons.inj eq).2 (by simp)
  | case4 c command_ command answer replies =>
    rw [Decidable.not_not.mp command_]
    refine iff_of_false ?_ not_noCommand
    intro ⟨none_, _⟩
    have other : command ≠ iac := by
      intro is
      rw [is] at replies
      cases replies
    rw [withoutIac_iac, withoutIac_cons other] at none_
    cases none_
  | case5 c command_ command answer replies opt s d a r eq ih =>
    rw [Decidable.not_not.mp command_]
    refine iff_of_false ?_ not_noCommand
    intro ⟨_, none_⟩
    cases none_
  | case6 c command_ command s silent d a r eq ih =>
    rw [Decidable.not_not.mp command_]
    refine iff_of_false ?_ not_noCommand
    intro ⟨same, _⟩
    dsimp only at same
    split at same
    · next escaped =>
        -- the escaped byte is an IAC
        have mem : iac ∈ withoutIac (iac :: command :: s) := by
          rw [← same]
          exact mem_cons_self
        simp [withoutIac] at mem
    · next other =>
        -- the byte of the command is missing
        have sub : d.Sublist s := by
          have sub := sublist_telnet s
          rwa [eq] at sub
        have filtered : withoutIac d = d := by
          rw [same]
          simp [withoutIac]
        have short : (withoutIac d).length ≤ (withoutIac s).length := (sub.filter _).length_le
        rw [filtered, same, withoutIac_iac, withoutIac_cons other, length_cons] at short
        exact Nat.not_succ_le_self _ short

theorem recvAll_singles (s : Bytes) : recvAll (s.map fun c => [c]) = (withoutIac s, []) := by
  induction s with
  | nil => rfl
  | cons c s ih =>
    rw [recvAll, Prod.mk.injEq] at ih
    rw [recvAll, map_cons, flatMap_cons, flatMap_cons, ih.1, ih.2, dotelnet_eq,
      telnet.eq_def]
    by_cases is : c = iac
    · rw [is, withoutIac_iac]
      rfl
    · dsimp only
      rw [if_pos is, withoutIac_cons is]
      rfl

theorem recvAll_noCommand {reads : List Bytes} (none_ : NoCommand reads.flatten) :
    recvAll reads = (withoutIac reads.flatten, []) := by
  induction reads with
  | nil => rfl
  | cons buf reads ih =>
    obtain ⟨here, later⟩ := NoCommand.append none_
    have rest := ih later
    have first := (telnet_withoutIac_iff buf).mpr here
    rw [recvAll, Prod.mk.injEq] at rest
    rw [recvAll, flatMap_cons, flatMap_cons, rest.1, rest.2, dotelnet_eq, first.1,
      first.2, flatten_cons, withoutIac, withoutIac, withoutIac, filter_append]
    rfl

/-- **All ways to split a stream into reads are the same if and only if it has no command. In a
stream with commands those ways are, in which every read with something behind it ends between two
of them.** -/
theorem dotelnet_reads_iff (s : Bytes) :
    ((∀ reads : List Bytes, reads.flatten = s → recvAll reads = dotelnet s) ↔ NoCommand s) ∧
      ∀ reads : List Bytes, reads.flatten = s → EndBetween reads → recvAll reads = dotelnet s := by
  refine ⟨⟨?_, ?_⟩, ?_⟩
  · intro all
    have singles := all (s.map fun c => [c]) (by rw [← flatMap_def, flatMap_singleton'])
    rw [recvAll_singles, dotelnet_eq, Prod.mk.injEq] at singles
    exact (telnet_withoutIac_iff s).mp ⟨singles.1.symm, singles.2.symm⟩
  · intro none_ reads eq
    subst eq
    obtain ⟨data, answers⟩ := (telnet_withoutIac_iff reads.flatten).mpr none_
    rw [recvAll_noCommand none_, dotelnet_eq, data, answers]
  · intro reads eq between
    subst eq
    exact recvAll_of_endBetween between

/-- WILL ECHO with the option in the next read: it is not refused, and the option becomes data. -/
theorem dotelnet_cut : recvAll [[iac, 251], [1]] = ([1], []) ∧
    dotelnet [iac, 251, 1] = ([], [[iac, 254, 1]]) := by
  rw [recvAll, flatMap_cons, flatMap_cons, flatMap_cons, flatMap_cons,
    dotelnet_eq, dotelnet_eq, dotelnet_eq]
  exact ⟨rfl, rfl⟩

end Nmap.Ncat
