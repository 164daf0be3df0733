import Nmap.Dns.ReverseName
import Nmap.Dns.RoundTrip
import Mathlib.Logic.Function.Basic

/-!
# Where queries are written (`massdns.cc`)

The functions that write a query, with every byte that they store. `putDomainName` compares the
length of the name with the room at its beginning; the two bytes that are added to the name are
one more than this leaves room for (`request_stores_iff`).
-/

namespace Nmap.Dns

open Nmap.Base List Function

/-! ## The functions -/

/-- What a function stored, each byte with its place in the buffer, and what it returned -/
structure Written where
  stores : List (Nat × UInt8)
  ret : Nat

/-- `putUnsignedShort` -/
def storeUnsignedShort (num : UInt16) (offset maxlen : Nat) : Written :=
  if maxlen > offset + 1 then ⟨[(offset, (num >>> 8).toUInt8), (offset + 1, num.toUInt8)], 2⟩
  else ⟨[], 0⟩

/-- The loop of `putDomainName`, with `ret`, `label_start`, `label_len` and what was stored. It may
return 0. -/
def storeLabels (offset : Nat) : Bytes → Nat → Nat → UInt8 → List (Nat × UInt8) →
    List (Nat × UInt8) × Option (Nat × Nat × UInt8)
  | [], ret, labelStart, labelLen, stores => (stores, some (ret, labelStart, labelLen))
  | c :: name, ret, labelStart, labelLen, stores =>
    if ret ≥ nameMaxLength then (stores, none)
    else if c = dot then
      storeLabels offset name (ret + 1) ret 0
        (stores ++ [(offset + labelStart, labelLen), (offset + ret, 0)])
    else if labelLen.toNat ≥ labelMaxLength then (stores, none)
    else
      storeLabels offset name (ret + 1) labelStart (labelLen + 1) (stores ++ [(offset + ret, c)])

/-- `putDomainName` -/
def storeDomainName (name : Bytes) (offset maxlen : Nat) : Written :=
  if offset ≥ maxlen || name.length ≥ maxlen - offset then ⟨[], 0⟩
  else
    match storeLabels offset name 1 0 0 [(offset, 0)] with
    | (stores, none) => ⟨stores, 0⟩
    | (stores, some (ret, labelStart, labelLen)) =>
      if labelLen > 0 then
        ⟨stores ++ [(offset + labelStart, labelLen), (offset + ret, 0)], ret + 1⟩
      else ⟨stores, ret⟩

/-- `DNS_CHECK_ACCUMLATE`: what comes next knows how much there is so far, and if a part returns
0, so does the whole. -/
def Written.accumulate (sum part : Written) (next : Written → Written) : Written :=
  if part.ret < 1 then ⟨sum.stores ++ part.stores, 0⟩
  else next ⟨sum.stores ++ part.stores, sum.ret + part.ret⟩

/-- `buildSimpleRequest` -/
def storeSimpleRequest (id : UInt16) (name : Bytes) (rt : UInt16) (maxlen : Nat) : Written :=
  Written.accumulate ⟨[], 0⟩ (storeUnsignedShort id 0 maxlen) fun ret =>
  ret.accumulate (storeUnsignedShort queryFlags 2 maxlen) fun ret =>
  ret.accumulate (storeUnsignedShort 1 4 maxlen) fun ret =>
  ret.accumulate (storeUnsignedShort 0 6 maxlen) fun ret =>
  ret.accumulate (storeUnsignedShort 0 8 maxlen) fun ret =>
  ret.accumulate (storeUnsignedShort 0 10 maxlen) fun ret =>
  ret.accumulate (storeDomainName name dataOffset maxlen) fun ret =>
  ret.accumulate (storeUnsignedShort rt ret.ret maxlen) fun ret =>
  ret.accumulate (storeUnsignedShort classIn ret.ret maxlen) fun ret => ret

/-- `buildReverseRequest` -/
def storeReverseRequest (id : UInt16) (ip : Address) (maxlen : Nat) : Written :=
  storeSimpleRequest id (ipToPtr ip) recordPtr maxlen

/-! ## What they should do -/

/-- Nothing is stored behind the buffer. -/
def Contained (maxlen : Nat) (w : Written) : Prop := ∀ s ∈ w.stores, s.1 < maxlen

/-- The name ends in a label, and not in a dot. -/
def EndsInLabel (name : Bytes) : Prop := name ≠ [] ∧ name.getLast? ≠ some dot

instance (name : Bytes) : Decidable (EndsInLabel name) :=
  inferInstanceAs (Decidable (_ ∧ _))

/-- How many bytes an encoded name has: its characters, a length in front, and the empty label
behind a label -/
def encodedLength (name : Bytes) : Nat :=
  if EndsInLabel name then name.length + 2 else name.length + 1

/-- The name is stored in the buffer, and 0 is returned if there is no room for it. -/
def StoresName (name : Bytes) (offset maxlen : Nat) (w : Written) : Prop :=
  Contained maxlen w ∧ (maxlen < offset + encodedLength name → w.ret = 0)

/-- The length limits that the loop checks -/
def Writable (name : Bytes) : Prop :=
  name.length < nameMaxLength ∧ ∀ l ∈ name.splitOn dot, l.length ≤ labelMaxLength

/-- There is room for all of the name but the empty label behind it. -/
def OneShort (name : Bytes) (offset maxlen : Nat) : Prop :=
  EndsInLabel name ∧ Writable name ∧ offset + name.length + 1 = maxlen

/-! ## The bytes that are written -/

def stored (mem : Nat → UInt8) (stores : List (Nat × UInt8)) : Nat → UInt8 :=
  stores.foldl (fun mem s => update mem s.1 s.2) mem

/-- The memory has these bytes at the offset. -/
def Holds (mem : Nat → UInt8) (offset : Nat) (out : Bytes) : Prop :=
  ∀ i b, out[i]? = some b → mem (offset + i) = b

theorem stored_append (mem : Nat → UInt8) (s t : List (Nat × UInt8)) :
    stored mem (s ++ t) = stored (stored mem s) t := foldl_append

theorem stored_single (mem : Nat → UInt8) (i : Nat) (b : UInt8) :
    stored mem [(i, b)] = update mem i b := rfl

variable {offset : Nat} {out : Bytes}

theorem Holds.push {mem : Nat → UInt8} (holds : Holds mem offset out) (c : UInt8) : Holds
    (update mem (offset + out.length) c) offset (out ++ [c]) := by
  intro i b here
  by_cases last : i = out.length
  · rw [last] at here ⊢
    rw [List.getElem?_concat_length] at here
    rw [update_self]
    exact Option.some.inj here
  · rw [update_of_ne (by omega)]
    refine holds i b ?_
    have front : i < out.length := by
      have bound := (List.getElem?_eq_some_iff.mp here).1
      rw [length_append, length_singleton] at bound
      omega
    rwa [List.getElem?_append_left front] at here

theorem Holds.set {mem : Nat → UInt8} (holds : Holds mem offset out) (k : Nat) (c : UInt8) :
    Holds (update mem (offset + k) c) offset (out.set k c) := by
  intro i b here
  by_cases same : k = i
  · rw [same] at here ⊢
    rw [update_self]
    have bound := (List.getElem?_eq_some_iff.mp here).1
    rw [length_set] at bound
    rw [List.getElem?_set_self bound] at here
    exact Option.some.inj here
  · rw [update_of_ne (by omega)]
    rw [List.getElem?_set_ne same] at here
    exact holds i b here

/-- The loop stores what `putLabels` puts together. -/
theorem storeLabels_putLabels {mem : Nat → UInt8} {offset : Nat} : ∀ (name out : Bytes)
    (labelStart : Nat) (labelLen : UInt8) (stores : List (Nat × UInt8)),
    Holds (stored mem stores) offset out →
    (storeLabels offset name out.length labelStart labelLen stores).2 =
        (putLabels name out labelStart labelLen).map (fun (out, s, l) => (out.length, s, l)) ∧
      ∀ out' s l, putLabels name out labelStart labelLen = some (out', s, l) →
        Holds (stored mem (storeLabels offset name out.length labelStart labelLen stores).1)
          offset out'
  | [], out, labelStart, labelLen, stores, holds => by
    refine ⟨rfl, fun out' s l put => ?_⟩
    cases put
    exact holds
  | c :: name, out, labelStart, labelLen, stores, holds => by
    rw [storeLabels, putLabels]
    by_cases long : out.length ≥ nameMaxLength
    · rw [if_pos long, if_pos long]
      exact ⟨rfl, fun _ _ _ put => by cases put⟩
    rw [if_neg long, if_neg long]
    by_cases isDot : c = dot
    · rw [if_pos isDot, if_pos isDot]
      have next : Holds (stored mem (stores ++
          [(offset + labelStart, labelLen), (offset + out.length, 0)])) offset
            (out.set labelStart labelLen ++ [0]) := by
        have both := (holds.set labelStart labelLen).push 0
        rw [length_set] at both
        rw [stored_append]
        exact both
      have loop := storeLabels_putLabels name _ out.length 0 _ next
      rw [length_append, length_set, length_singleton] at loop
      exact loop
    · rw [if_neg isDot, if_neg isDot]
      by_cases full : labelLen.toNat ≥ labelMaxLength
      · rw [if_pos full, if_pos full]
        exact ⟨rfl, fun _ _ _ put => by cases put⟩
      · rw [if_neg full, if_neg full]
        have next : Holds (stored mem (stores ++ [(offset + out.length, c)])) offset
            (out ++ [c]) := by
          rw [stored_append]
          exact holds.push c
        have loop := storeLabels_putLabels name _ labelStart (labelLen + 1) _ next
        rw [length_append, length_singleton] at loop
        exact loop

theorem holds_first (mem : Nat → UInt8) (offset : Nat) :
    Holds (stored mem [(offset, 0)]) offset [0] := by
  intro i b here
  rcases i with _ | i
  · rw [stored_single, Nat.add_zero, update_self]
    exact Option.some.inj here
  · cases here

/-- `putDomainName` returns how many bytes it wrote, and they are in the memory. -/
theorem storeDomainName_putDomainName (mem : Nat → UInt8) (name : Bytes) (offset maxlen : Nat) :
    match putDomainName name offset maxlen with
    | none => (storeDomainName name offset maxlen).ret = 0
    | some out => (storeDomainName name offset maxlen).ret = out.length ∧
        Holds (stored mem (storeDomainName name offset maxlen).stores) offset out := by
  unfold putDomainName storeDomainName
  by_cases full : (offset ≥ maxlen || name.length ≥ maxlen - offset) = true
  · rw [if_pos full, if_pos full]
  rw [if_neg full, if_neg full]
  obtain ⟨same, holds⟩ := storeLabels_putLabels name [0] 0 0 _ (holds_first mem offset)
  rw [show ([0] : Bytes).length = 1 from rfl] at same holds
  generalize storeLabels offset name 1 0 0 [(offset, 0)] = loop at same holds ⊢
  obtain ⟨stores, result⟩ := loop
  cases put : putLabels name [0] 0 0 with
  | none =>
    rw [put] at same
    cases (show result = none from same)
    rfl
  | some v =>
    obtain ⟨out, labelStart, labelLen⟩ := v
    rw [put] at same
    cases (show result = some (out.length, labelStart, labelLen) from same)
    have held : Holds (stored mem stores) offset out := holds out labelStart labelLen put
    by_cases open_label : labelLen > 0
    · simp only [Option.map_some, if_pos open_label]
      refine ⟨by simp, ?_⟩
      have both := (held.set labelStart labelLen).push 0
      rw [length_set] at both
      rw [stored_append]
      exact both
    · simp only [Option.map_some, if_neg open_label]
      exact ⟨trivial, held⟩

/-! ## Where they are -/

/-- A store is one that was there before, or it is not behind the characters of the name. -/
theorem storeLabels_bound {offset : Nat} : ∀ (name : Bytes) (ret labelStart : Nat)
    (labelLen : UInt8) (stores : List (Nat × UInt8)), labelStart < ret →
    ∀ s ∈ (storeLabels offset name ret labelStart labelLen stores).1,
      s ∈ stores ∨ s.1 < offset + ret + name.length
  | [], ret, labelStart, labelLen, stores, _, s, mem => .inl mem
  | c :: name, ret, labelStart, labelLen, stores, before, s, mem => by
    rw [length_cons]
    rw [storeLabels] at mem
    split at mem
    · exact .inl mem
    split at mem
    · rcases storeLabels_bound name (ret + 1) ret 0 _ (Nat.lt_succ_self _) s mem with here | low
      · rcases mem_append.mp here with old | new
        · exact .inl old
        · right
          rcases mem_cons.mp new with rfl | new
          · show offset + labelStart < _
            omega
          · rw [mem_singleton.mp new]
            show offset + ret < _
            omega
      · right
        omega
    split at mem
    · exact .inl mem
    · rcases storeLabels_bound name (ret + 1) labelStart _ _ (Nat.lt_succ_of_lt before) s mem
        with here | low
      · rcases mem_append.mp here with old | new
        · exact .inl old
        · right
          rw [mem_singleton.mp new]
          show offset + ret < _
          omega
      · right
        omega

theorem label_prefix {cur : Bytes} (free : dot ∉ cur) (name : Bytes) :
    ∃ l ∈ (cur ++ name).splitOn dot, cur.length ≤ l.length := by
  by_cases more : dot ∈ name
  · obtain ⟨u, v, rfl, free'⟩ := eq_append_cons_of_mem more
    have none : dot ∉ cur ++ u := by
      intro mem
      rcases mem_append.mp mem with mem | mem
      · exact free mem
      · exact free' mem
    refine ⟨cur ++ u, ?_, by simp⟩
    rw [← append_assoc, splitOn_append_cons_self_of_not_mem none]
    exact mem_cons_self
  · have none : dot ∉ cur ++ name := by
      intro mem
      rcases mem_append.mp mem with mem | mem
      · exact free mem
      · exact more mem
    refine ⟨cur ++ name, ?_, by simp⟩
    rw [splitOn_eq_singleton none]
    exact mem_singleton_self _

/-- The loop gets through a name that is short enough. -/
theorem putLabels_writable : ∀ (name pre cur : Bytes), dot ∉ cur →
    pre.length + cur.length + name.length < nameMaxLength →
    (∀ l ∈ (cur ++ name).splitOn dot, l.length ≤ labelMaxLength) →
    ∃ r, putLabels name (pre ++ 0 :: cur) pre.length (UInt8.ofNat cur.length) = some r
  | [], pre, cur, _, _, _ => ⟨_, rfl⟩
  | c :: name, pre, cur, free, short, labels => by
    have length : (pre ++ 0 :: cur).length = pre.length + cur.length + 1 := by simp; omega
    rw [length_cons] at short
    rw [putLabels, if_neg (by omega)]
    by_cases isDot : c = dot
    · rw [if_pos isDot, set_placeholder, length]
      rw [isDot, splitOn_append_cons_self_of_not_mem free] at labels
      have here : (pre ++ UInt8.ofNat cur.length :: cur).length =
          pre.length + cur.length + 1 := by
        simp
        omega
      have rest := putLabels_writable name (pre ++ UInt8.ofNat cur.length :: cur) []
        not_mem_nil (by simp only [here, length_nil]; omega)
        (fun l mem => labels l (mem_cons_of_mem _ mem))
      rw [here] at rest
      exact rest
    · rw [if_neg isDot]
      have free' : dot ∉ cur ++ [c] := by
        intro mem
        rcases mem_append.mp mem with mem | mem
        · exact free mem
        · exact isDot (mem_singleton.mp mem).symm
      have whole : cur ++ c :: name = (cur ++ [c]) ++ name := by simp
      rw [whole] at labels
      obtain ⟨l, mem, long⟩ := label_prefix free' name
      have room := labels l mem
      rw [length_append, length_singleton] at long
      have small : cur.length ≤ labelMaxLength := by omega
      rw [toNat_length small, if_neg (by omega)]
      have count : UInt8.ofNat cur.length + 1 = UInt8.ofNat (cur ++ [c]).length := by
        rw [length_append, length_singleton, UInt8.ofNat_add]
        rfl
      rw [count, append_assoc, cons_append]
      refine putLabels_writable name pre (cur ++ [c]) free' ?_ labels
      rw [length_append, length_singleton]
      omega

/-- The loop stops at a name that is too long. -/
theorem putLabels_short : ∀ {name out : Bytes} {labelStart : Nat} {labelLen : UInt8}
    {r : Bytes × Nat × UInt8}, putLabels name out labelStart labelLen = some r →
    r.1.length = out.length + name.length ∧
      (name ≠ [] → out.length + name.length ≤ nameMaxLength)
  | [], out, labelStart, labelLen, r, put => by
    cases put
    exact ⟨rfl, fun some_char => absurd rfl some_char⟩
  | c :: name, out, labelStart, labelLen, r, put => by
    rw [putLabels] at put
    rw [length_cons]
    split at put
    · cases put
    next room =>
    have step : ∀ {out' : Bytes} {s : Nat} {l : UInt8}, out'.length = out.length + 1 →
        putLabels name out' s l = some r →
        r.1.length = out.length + (name.length + 1) ∧
          (c :: name ≠ [] → out.length + (name.length + 1) ≤ nameMaxLength) := by
      intro out' s l one put
      obtain ⟨all, bound⟩ := putLabels_short put
      refine ⟨by omega, fun _ => ?_⟩
      rcases name with _ | ⟨d, name⟩
      · simp only [length_nil]
        omega
      · have le := bound (cons_ne_nil _ _)
        omega
    split at put
    · exact step (by simp) put
    split at put
    · cases put
    · exact step (by simp) put

theorem putLabels_iff (name : Bytes) : (∃ r, putLabels name [0] 0 0 = some r) ↔ Writable name := by
  constructor
  · rintro ⟨⟨out, labelStart, labelLen⟩, put⟩
    obtain ⟨ls, last, eq, labels, label_last, -⟩ :=
      putLabels_spec name [] [] ⟨Nat.zero_le _, not_mem_nil⟩ put
    rw [nil_append] at eq
    refine ⟨?_, ?_⟩
    · by_cases empty : name = []
      · rw [empty]
        decide
      · have bound := (putLabels_short put).2 empty
        rw [length_singleton] at bound
        omega
    · intro l mem
      rw [eq, splitOn_dotted (fun l mem => (labels l mem).2) label_last.2] at mem
      rcases mem_append.mp mem with mem | mem
      · exact (labels l mem).1
      · rw [mem_singleton.mp mem]
        exact label_last.1
  · intro writable
    have short : ([] : Bytes).length + ([] : Bytes).length + name.length < nameMaxLength := by
      rw [length_nil, Nat.zero_add]
      exact writable.1
    exact putLabels_writable name [] [] not_mem_nil short writable.2

variable {name : Bytes}

/-- A label is open behind a name that does not end in a dot. -/
theorem putLabels_open {labelStart : Nat} {labelLen : UInt8}
    (put : putLabels name [0] 0 0 = some (out, labelStart, labelLen)) :
    labelStart < out.length ∧ (labelLen > 0 ↔ EndsInLabel name) := by
  obtain ⟨ls, last, eq, labels, label_last, rfl, rfl, rfl⟩ :=
    putLabels_spec name [] [] ⟨Nat.zero_le _, not_mem_nil⟩ put
  rw [nil_append] at eq
  refine ⟨by simp, ?_⟩
  rw [gt_iff_lt, UInt8.lt_iff_toNat_lt, toNat_length label_last.1]
  unfold EndsInLabel
  rcases eq_nil_or_concat last with rfl | ⟨init, c, rfl⟩
  · refine iff_of_false (Nat.lt_irrefl 0) ?_
    rw [append_nil] at eq
    rintro ⟨some_char, no_dot⟩
    rcases eq_nil_or_concat ls with rfl | ⟨ls', l, rfl⟩
    · exact some_char eq
    · rw [eq, concat_eq_append, dotted_append_single] at no_dot
      exact no_dot List.getLast?_concat
  · rw [concat_eq_append] at eq label_last ⊢
    refine iff_of_true (by simp) ⟨?_, ?_⟩
    · rw [eq]
      simp
    · rw [eq, ← append_assoc, List.getLast?_concat]
      intro same
      have isDot : c = dot := Option.some.inj same
      exact label_last.2 (by simp [isDot])

/-- The loop over a whole name -/
theorem storeLabels_name (offset : Nat) (name : Bytes) :
    (∀ s ∈ (storeLabels offset name 1 0 0 [(offset, 0)]).1, s.1 < offset + name.length + 1) ∧
      (¬ Writable name → (storeLabels offset name 1 0 0 [(offset, 0)]).2 = none) ∧
      (Writable name → ∃ labelStart labelLen,
        (storeLabels offset name 1 0 0 [(offset, 0)]).2 =
          some (name.length + 1, labelStart, labelLen) ∧
        labelStart < name.length + 1 ∧ (labelLen > 0 ↔ EndsInLabel name)) := by
  have same := (storeLabels_putLabels name [0] 0 0 _ (holds_first (fun _ => 0) offset)).1
  rw [show ([0] : Bytes).length = 1 from rfl] at same
  refine ⟨?_, ?_, ?_⟩
  · intro s mem
    rcases storeLabels_bound name 1 0 0 _ Nat.zero_lt_one s mem with first | low
    · rw [mem_singleton.mp first]
      show offset < _
      omega
    · omega
  · intro refused
    rw [same]
    cases put : putLabels name [0] 0 0 with
    | none => rfl
    | some r => exact absurd ((putLabels_iff name).mp ⟨r, put⟩) refused
  · intro writable
    obtain ⟨⟨out, labelStart, labelLen⟩, put⟩ := (putLabels_iff name).mpr writable
    have all : out.length = 1 + name.length := (putLabels_short put).1
    obtain ⟨before, ends⟩ := putLabels_open put
    refine ⟨labelStart, labelLen, ?_, by omega, ends⟩
    rw [same, put, Nat.add_comm, ← all]
    rfl

variable {maxlen : Nat}

theorem storeDomainName_full (full : maxlen ≤ offset + name.length) :
    storeDomainName name offset maxlen = ⟨[], 0⟩ := by
  refine if_pos ?_
  rw [Bool.or_eq_true, decide_eq_true_iff, decide_eq_true_iff]
  omega

theorem storeDomainName_room (room : offset + name.length < maxlen) :
    storeDomainName name offset maxlen =
      match storeLabels offset name 1 0 0 [(offset, 0)] with
      | (stores, none) => ⟨stores, 0⟩
      | (stores, some (ret, labelStart, labelLen)) =>
        if labelLen > 0 then
          ⟨stores ++ [(offset + labelStart, labelLen), (offset + ret, 0)], ret + 1⟩
        else ⟨stores, ret⟩ := by
  refine if_neg ?_
  rw [Bool.or_eq_true, decide_eq_true_iff, decide_eq_true_iff]
  omega

theorem storeDomainName_refused (room : offset + name.length < maxlen) (refused : ¬ Writable name) :
    Contained maxlen (storeDomainName name offset maxlen) ∧
      (storeDomainName name offset maxlen).ret = 0 := by
  obtain ⟨low, none, -⟩ := storeLabels_name offset name
  have result := none refused
  rw [storeDomainName_room room]
  generalize storeLabels offset name 1 0 0 [(offset, 0)] = loop at low result ⊢
  obtain ⟨stores, found⟩ := loop
  cases (show found = Option.none from result)
  refine ⟨fun s mem => ?_, rfl⟩
  have bound := low s mem
  omega

theorem storeDomainName_closed (room : offset + name.length < maxlen) (writable : Writable name)
    (closed : ¬ EndsInLabel name) :
    Contained maxlen (storeDomainName name offset maxlen) ∧
      (storeDomainName name offset maxlen).ret = name.length + 1 := by
  obtain ⟨low, -, some⟩ := storeLabels_name offset name
  obtain ⟨labelStart, labelLen, result, -, ends⟩ := some writable
  rw [storeDomainName_room room]
  generalize storeLabels offset name 1 0 0 [(offset, 0)] = loop at low result ⊢
  obtain ⟨stores, found⟩ := loop
  cases (show found = Option.some (name.length + 1, labelStart, labelLen) from result)
  have no_label : ¬ labelLen > 0 := fun pos => closed (ends.mp pos)
  simp only [if_neg no_label]
  refine ⟨fun s mem => ?_, trivial⟩
  have bound := low s mem
  omega

theorem storeDomainName_label (room : offset + name.length < maxlen) (writable : Writable name)
    (label : EndsInLabel name) :
    (∀ s ∈ (storeDomainName name offset maxlen).stores, s.1 < offset + name.length + 2) ∧
      (offset + (name.length + 1), 0) ∈ (storeDomainName name offset maxlen).stores ∧
      (storeDomainName name offset maxlen).ret = name.length + 2 := by
  obtain ⟨low, -, some⟩ := storeLabels_name offset name
  obtain ⟨labelStart, labelLen, result, before, ends⟩ := some writable
  rw [storeDomainName_room room]
  generalize storeLabels offset name 1 0 0 [(offset, 0)] = loop at low result ⊢
  obtain ⟨stores, found⟩ := loop
  cases (show found = Option.some (name.length + 1, labelStart, labelLen) from result)
  simp only [if_pos (ends.mpr label)]
  refine ⟨fun s mem => ?_, by simp, trivial⟩
  rcases mem_append.mp mem with old | new
  · have bound := low s old
    omega
  rcases mem_cons.mp new with rfl | new
  · show offset + labelStart < _
    omega
  · rw [mem_singleton.mp new]
    show offset + (name.length + 1) < _
    omega

theorem storeDomainName_oneShort (short : OneShort name offset maxlen) :
    (maxlen, 0) ∈ (storeDomainName name offset maxlen).stores := by
  obtain ⟨label, writable, eq⟩ := short
  have room : offset + name.length < maxlen := by omega
  have last := (storeDomainName_label room writable label).2.1
  rwa [← Nat.add_assoc, eq] at last

theorem storeDomainName_stores (other : ¬ OneShort name offset maxlen) :
    StoresName name offset maxlen (storeDomainName name offset maxlen) := by
  unfold StoresName encodedLength
  by_cases full : maxlen ≤ offset + name.length
  · rw [storeDomainName_full full]
    exact ⟨fun s mem => absurd mem not_mem_nil, fun _ => rfl⟩
  have room : offset + name.length < maxlen := Nat.lt_of_not_le full
  by_cases writable : Writable name
  · by_cases label : EndsInLabel name
    · have two : offset + name.length + 2 ≤ maxlen := by
        by_contra short
        exact other ⟨label, writable, by omega⟩
      rw [if_pos label]
      refine ⟨fun s mem => ?_, fun short => absurd short (by omega)⟩
      have bound := (storeDomainName_label room writable label).1 s mem
      omega
    · rw [if_neg label]
      exact ⟨(storeDomainName_closed room writable label).1, fun short => absurd short (by omega)⟩
  · have refused := storeDomainName_refused room writable
    exact ⟨refused.1, fun _ => refused.2⟩

/-! ## Whole requests -/

theorem storeUnsignedShort_contained (num : UInt16) (offset maxlen : Nat) :
    Contained maxlen (storeUnsignedShort num offset maxlen) := by
  unfold storeUnsignedShort
  split
  · next room =>
      intro s mem
      rcases mem_cons.mp mem with rfl | mem
      · show offset < _
        omega
      · rw [mem_singleton.mp mem]
        exact room
  · exact fun s mem => absurd mem not_mem_nil

variable {part : Written}

theorem Contained.append {w : Written} (all : Contained maxlen w) (new : Contained maxlen part)
    (ret : Nat) :
    Contained maxlen ⟨w.stores ++ part.stores, ret⟩ := by
  intro s mem
  rcases mem_append.mp mem with mem | mem
  · exact all s mem
  · exact new s mem

variable {sum : Written} {next : Written → Written}

theorem accumulate_contained (all : Contained maxlen sum) (new : Contained maxlen part)
    (rest : ∀ w, Contained maxlen w → Contained maxlen (next w)) :
    Contained maxlen (sum.accumulate part next) := by
  unfold Written.accumulate
  split
  · exact all.append new 0
  · exact rest _ (all.append new _)

theorem accumulate_refused (refused : part.ret = 0 ∨ ∀ w, (next w).ret = 0) :
    (sum.accumulate part next).ret = 0 := by
  unfold Written.accumulate
  split
  · rfl
  · next positive =>
      rcases refused with none | later
      · omega
      · exact later _

theorem accumulate_stores {s : Nat × UInt8} (here : s ∈ sum.stores ∨ s ∈ part.stores)
    (keeps : ∀ w, s ∈ w.stores → s ∈ (next w).stores) :
    s ∈ (sum.accumulate part next).stores := by
  unfold Written.accumulate
  have mem : s ∈ sum.stores ++ part.stores := mem_append.mpr here
  split
  · exact mem
  · exact keeps _ mem

theorem accumulate_short {num : UInt16} (room : offset + 1 < maxlen) (sum : Written)
    (next : Written → Written) :
    sum.accumulate (storeUnsignedShort num offset maxlen) next =
      next ⟨sum.stores ++ (storeUnsignedShort num offset maxlen).stores, sum.ret + 2⟩ := by
  unfold storeUnsignedShort
  rw [if_pos room]
  rfl

theorem storeSimpleRequest_stores (id rt : UInt16) (other : ¬ OneShort name dataOffset maxlen) :
    StoresName name dataOffset maxlen (storeSimpleRequest id name rt maxlen) := by
  obtain ⟨inside, fits⟩ := storeDomainName_stores other
  have short := storeUnsignedShort_contained
  refine ⟨?_, fun full => ?_⟩
  · unfold storeSimpleRequest
    refine accumulate_contained (fun s mem => absurd mem not_mem_nil) (short _ _ _) ?_
    intro w all
    refine accumulate_contained all (short _ _ _) fun w all => ?_
    refine accumulate_contained all (short _ _ _) fun w all => ?_
    refine accumulate_contained all (short _ _ _) fun w all => ?_
    refine accumulate_contained all (short _ _ _) fun w all => ?_
    refine accumulate_contained all (short _ _ _) fun w all => ?_
    refine accumulate_contained all inside fun w all => ?_
    refine accumulate_contained all (short _ _ _) fun w all => ?_
    exact accumulate_contained all (short _ _ _) fun w all => all
  · unfold storeSimpleRequest
    refine accumulate_refused (.inr fun w => ?_)
    refine accumulate_refused (.inr fun w => ?_)
    refine accumulate_refused (.inr fun w => ?_)
    refine accumulate_refused (.inr fun w => ?_)
    refine accumulate_refused (.inr fun w => ?_)
    refine accumulate_refused (.inr fun w => ?_)
    exact accumulate_refused (.inl (fits full))

theorem storeSimpleRequest_oneShort (id rt : UInt16) (short : OneShort name dataOffset maxlen) :
    (maxlen, 0) ∈ (storeSimpleRequest id name rt maxlen).stores := by
  have room : dataOffset < maxlen := by
    have eq := short.2.2
    omega
  unfold dataOffset at room
  unfold storeSimpleRequest
  rw [accumulate_short (by omega), accumulate_short (by omega), accumulate_short (by omega),
    accumulate_short (by omega), accumulate_short (by omega), accumulate_short (by omega)]
  refine accumulate_stores (.inr (storeDomainName_oneShort short)) fun w mem => ?_
  refine accumulate_stores (.inl mem) fun w mem => ?_
  exact accumulate_stores (.inl mem) fun w mem => mem

theorem not_storesName {w : Written} (last : (maxlen, 0) ∈ w.stores) :
    ¬ StoresName name offset maxlen w := by
  intro holds
  exact Nat.lt_irrefl _ (holds.1 _ last)

/-- **When queries stay in the buffer.** Nothing is stored behind it, and what has no room is
refused, exactly when the room for the name is not one byte short. -/
theorem request_stores_iff (name : Bytes) (offset maxlen : Nat) (id rt : UInt16) (ip : Address) :
    (StoresName name offset maxlen (storeDomainName name offset maxlen) ↔
      ¬ OneShort name offset maxlen) ∧
    (StoresName name dataOffset maxlen (storeSimpleRequest id name rt maxlen) ↔
      ¬ OneShort name dataOffset maxlen) ∧
    (StoresName (ipToPtr ip) dataOffset maxlen (storeReverseRequest id ip maxlen) ↔
      ¬ OneShort (ipToPtr ip) dataOffset maxlen) := by
  refine ⟨⟨?_, storeDomainName_stores⟩, ⟨?_, storeSimpleRequest_stores id rt⟩,
    ⟨?_, storeSimpleRequest_stores id recordPtr⟩⟩
  · intro holds short
    exact not_storesName (storeDomainName_oneShort short) holds
  · intro holds short
    exact not_storesName (storeSimpleRequest_oneShort id rt short) holds
  · intro holds short
    exact not_storesName (storeSimpleRequest_oneShort id recordPtr short) holds

/-- The name `a` in a buffer of two bytes -/
theorem request_stores_behind :
    ¬ StoresName [97] 0 2 (storeDomainName [97] 0 2) ∧
      (2, 0) ∈ (storeDomainName [97] 0 2).stores ∧ (storeDomainName [97] 0 2).ret = 3 := by
  have last : (2, 0) ∈ (storeDomainName [97] 0 2).stores := by decide
  exact ⟨not_storesName last, last, rfl⟩

end Nmap.Dns
