import Nmap.Dns.RoundTrip

/-!
# Names with pointers (`massdns.cc`)

A name field is labels up to a zero byte or a pointer, and the name goes on in the field to which
the pointer leads. `parseDomainName` counts up to the end of the field that reaches furthest,
which need not be the first one: `parseDomainName_reads_iff` says when it is.
-/

namespace Nmap.Dns

open Nmap.Base List

set_option maxRecDepth 4000

/-! ## Fields and pointers -/

/-- The labels of a field with their dots, and where they stop: at a zero byte or a pointer -/
def nameField (buf : Bytes) (i : Nat) : Option (Bytes × Nat) :=
  match _here : buf[i]? with
  | none => none
  | some b =>
    if b = 0 ∨ b &&& compressedName = compressedName then some ([], i)
    else if b.toNat > labelMaxLength ∨ buf.length < i + 1 + b.toNat then none
    else
      (nameField buf (i + 1 + b.toNat)).map fun (text, stop) =>
        ((buf.drop (i + 1)).take b.toNat ++ [dot] ++ text, stop)
termination_by buf.length - i
decreasing_by
  have inside := (List.getElem?_eq_some_iff.mp _here).1
  omega

/-- Where a field that stops here ends: behind the zero byte, or behind the pointer -/
def fieldEnd (buf : Bytes) (stop : Nat) : Nat := stop + if buf[stop]? = some 0 then 1 else 2

def fieldLength (buf : Bytes) (i : Nat) : Option Nat :=
  (nameField buf i).map fun (_, stop) => fieldEnd buf stop - i

/-- Where the pointer leads: two bytes without `COMPRESSED_NAME` -/
def pointerTarget (buf : Bytes) (stop : Nat) : Option Nat :=
  match buf[stop]?, buf[stop + 1]? with
  | some high, some low =>
    if high &&& compressedName = compressedName then
      some ((high.toNat - compressedName.toNat) * 256 + low.toNat)
    else none
  | _, _ => none

/-- The way of a name through its fields, with its text and where the fields stop. Pointers go
back. -/
inductive Path (buf : Bytes) : Nat → Bytes → List Nat → Prop
  | last {i text stop} : nameField buf i = some (text, stop) → buf[stop]? = some 0 →
      Path buf i text [stop]
  | jump {i text stop target rest stops} : nameField buf i = some (text, stop) →
      pointerTarget buf stop = some target → target < stop → Path buf target rest stops →
      Path buf i (text ++ rest) (stop :: stops)

/-- What is counted when a field stops here: a field that stops at the count or behind it moves the
count to its end. -/
def reach (buf : Bytes) (count stop : Nat) : Nat :=
  if count ≤ stop then fieldEnd buf stop else count

/-- The count of a name whose fields stop here -/
def counted (buf : Bytes) (i : Nat) (stops : List Nat) : Nat := stops.foldl (reach buf) i

theorem compressed_zero : ¬ (0 : UInt8) &&& compressedName = compressedName := by decide

variable {buf : Bytes} {i : Nat} {b : UInt8}

theorem nameField_stop (here : buf[i]? = some b)
    (stop : b = 0 ∨ b &&& compressedName = compressedName) : nameField buf i = some ([], i) := by
  rw [nameField]
  split
  · next none =>
      rw [none] at here
      cases here
  · next some =>
      rw [some] at here
      cases here
      rw [if_pos stop]

theorem nameField_label (here : buf[i]? = some b) (positive : b ≠ 0)
    (plain : b &&& compressedName ≠ compressedName) (short : b.toNat ≤ labelMaxLength)
    (room : i + 1 + b.toNat ≤ buf.length) :
    nameField buf i = (nameField buf (i + 1 + b.toNat)).map fun (text, stop) =>
      ((buf.drop (i + 1)).take b.toNat ++ [dot] ++ text, stop) := by
  rw [nameField]
  split
  · next none =>
      rw [none] at here
      cases here
  · next some =>
      rw [some] at here
      cases here
      rw [if_neg (by simp [positive, plain]), if_neg (by omega)]

variable {stop : Nat} {text : Bytes}

theorem nameField_cases (field : nameField buf i = some (text, stop)) :
    (text = [] ∧ stop = i ∧
      ∃ b, buf[i]? = some b ∧ (b = 0 ∨ b &&& compressedName = compressedName)) ∨
      ∃ b rest, buf[i]? = some b ∧ b ≠ 0 ∧ b &&& compressedName ≠ compressedName ∧
        b.toNat ≤ labelMaxLength ∧ i + 1 + b.toNat ≤ buf.length ∧
        nameField buf (i + 1 + b.toNat) = some (rest, stop) ∧
        text = (buf.drop (i + 1)).take b.toNat ++ [dot] ++ rest := by
  rw [nameField] at field
  split at field
  · cases field
  · next b here =>
      split at field
      · next stops =>
          cases field
          exact .inl ⟨rfl, rfl, b, here, stops⟩
      · next going =>
          split at field
          · cases field
          · next good =>
              obtain ⟨⟨rest, stop'⟩, behind, eq⟩ := Option.map_eq_some_iff.mp field
              cases eq
              refine .inr ⟨b, rest, here, fun zero => going (.inl zero),
                fun pointer => going (.inr pointer), by omega, by omega, behind, rfl⟩

theorem nameField_induction {P : Nat → Bytes → Nat → Prop}
    (stop : ∀ i b, buf[i]? = some b → b = 0 ∨ b &&& compressedName = compressedName → P i [] i)
    (label : ∀ i b rest stop, buf[i]? = some b → b ≠ 0 →
      b &&& compressedName ≠ compressedName → b.toNat ≤ labelMaxLength →
      i + 1 + b.toNat ≤ buf.length → nameField buf (i + 1 + b.toNat) = some (rest, stop) →
      P (i + 1 + b.toNat) rest stop → P i ((buf.drop (i + 1)).take b.toNat ++ [dot] ++ rest) stop)
    {s : Nat} (field : nameField buf i = some (text, s)) :
    P i text s := by
  induction n : buf.length - i using Nat.strongRecOn generalizing i text with
  | ind n ih =>
    rcases nameField_cases field with ⟨rfl, rfl, b, here, stops⟩ |
      ⟨b, rest, here, positive, plain, short, room, behind, rfl⟩
    · exact stop _ b here stops
    · have inside := (List.getElem?_eq_some_iff.mp here).1
      exact label i b rest s here positive plain short room behind
        (ih _ (by omega) behind rfl)

/-- A field stops at or behind its beginning, at a zero byte or a pointer, and the text is as long
as the labels. -/
theorem nameField_spec (field : nameField buf i = some (text, stop)) :
    stop = i + text.length ∧
      ∃ b, buf[stop]? = some b ∧ (b = 0 ∨ b &&& compressedName = compressedName) := by
  refine nameField_induction (P := fun i text stop => stop = i + text.length ∧
    ∃ b, buf[stop]? = some b ∧ (b = 0 ∨ b &&& compressedName = compressedName)) ?_ ?_ field
  · intro i b here stops
    exact ⟨rfl, b, here, stops⟩
  · rintro i b rest stop here - - - room - ⟨rfl, last⟩
    refine ⟨?_, last⟩
    have label : ((buf.drop (i + 1)).take b.toNat).length = b.toNat := by
      rw [length_take, length_drop]
      omega
    rw [length_append, length_append, label, length_singleton]
    omega

/-! ## The loop over a field -/

variable {name : Bytes}

theorem parseLabels_label {maxOffset : Nat} (here : buf[i]? = some b) (positive : b ≠ 0)
    (plain : b &&& compressedName ≠ compressedName) (short : b.toNat ≤ labelMaxLength)
    (room : i + 1 + b.toNat ≤ buf.length) :
    parseLabels buf i maxOffset name =
      if (name ++ (buf.drop (i + 1)).take b.toNat ++ [dot]).length ≤ 254 then
        parseLabels buf (i + 1 + b.toNat) (max maxOffset (i + 1 + b.toNat))
          (name ++ (buf.drop (i + 1)).take b.toNat ++ [dot])
      else .error .rejected := by
  rw [parseLabels, here]
  dsimp only
  have count : (if i + 1 + b.toNat > maxOffset then i + 1 + b.toNat else maxOffset) =
      max maxOffset (i + 1 + b.toNat) := by
    split
    · omega
    · omega
  rw [if_neg positive, if_neg plain, if_neg (by omega), if_neg (by omega), count]
  unfold nameMaxLength
  by_cases fits : (name ++ (buf.drop (i + 1)).take b.toNat ++ [dot]).length ≤ 254
  · rw [if_pos fits, if_neg (by omega)]
  · rw [if_neg fits, if_pos (by omega)]

/-- The loop gets to the stop of a field, if the name does not become too long. -/
theorem parseLabels_field (field : nameField buf i = some (text, stop)) :
    ∀ {maxOffset : Nat} {name : Bytes}, i ≤ maxOffset → name.length ≤ 254 →
      parseLabels buf i maxOffset name =
        if (name ++ text).length ≤ 254 then
          parseLabels buf stop (max maxOffset stop) (name ++ text)
        else .error .rejected := by
  refine nameField_induction (P := fun i text stop => ∀ {maxOffset : Nat} {name : Bytes},
    i ≤ maxOffset → name.length ≤ 254 → parseLabels buf i maxOffset name =
      if (name ++ text).length ≤ 254 then
        parseLabels buf stop (max maxOffset stop) (name ++ text)
      else .error .rejected) ?_ ?_ field
  · intro i b here stops maxOffset name behind short
    rw [append_nil, if_pos short, Nat.max_eq_left behind]
  · intro i b rest stop here positive plain small room field ih maxOffset name behind short
    have further := (nameField_spec field).1
    rw [parseLabels_label here positive plain small room]
    have whole : name ++ ((buf.drop (i + 1)).take b.toNat ++ [dot] ++ rest) =
        name ++ (buf.drop (i + 1)).take b.toNat ++ [dot] ++ rest := by simp
    rw [whole]
    by_cases fits : (name ++ (buf.drop (i + 1)).take b.toNat ++ [dot]).length ≤ 254
    · have count : max (max maxOffset (i + 1 + b.toNat)) stop = max maxOffset stop := by omega
      rw [if_pos fits, ih (Nat.le_max_right _ _) fits, count]
    · have longer : ¬ (name ++ (buf.drop (i + 1)).take b.toNat ++ [dot] ++ rest).length ≤ 254 := by
        rw [length_append]
        omega
      rw [if_neg fits, if_neg longer]

theorem parseLabels_zero (zero : buf[stop]? = some 0) (maxOffset : Nat) (name : Bytes) :
    parseLabels buf stop maxOffset name = .ok (name, stop, maxOffset) := by
  rw [parseLabels, zero]
  exact if_pos rfl

theorem short_value (high low : UInt8) :
    (low.toUInt16 + (high.toUInt16 <<< 8)).toNat = high.toNat * 256 + low.toNat := by
  have small := high.toNat_lt
  have small' := low.toNat_lt
  have part : (high.toUInt16 <<< 8).toNat = high.toNat * 256 := by
    rw [UInt16.toNat_shiftLeft]
    show high.toNat <<< 8 % 65536 = _
    rw [Nat.shiftLeft_eq]
    omega
  rw [UInt16.toNat_add, part]
  show (low.toNat + high.toNat * 256) % 65536 = _
  omega

/-- A pointer is two bytes that both are in the buffer. -/
theorem parseUnsignedShort_pointer (here : buf[stop]? = some b)
    (pointer : b &&& compressedName = compressedName) :
    (pointerTarget buf stop = none ∧ parseUnsignedShort buf stop = .error .rejected) ∨
      ∃ raw, parseUnsignedShort buf stop = .ok (raw, 2) ∧ stop + 2 ≤ buf.length ∧
        pointerTarget buf stop = some (raw - (compressedName.toUInt16 <<< 8)).toNat := by
  unfold pointerTarget parseUnsignedShort
  rw [here]
  cases next : buf[stop + 1]? with
  | none =>
    left
    have short := List.getElem?_eq_none_iff.mp next
    exact ⟨rfl, if_neg (by omega)⟩
  | some low =>
    right
    have inside := (List.getElem?_eq_some_iff.mp next).1
    refine ⟨low.toUInt16 + (b.toUInt16 <<< 8), ?_, inside, ?_⟩
    · rw [if_pos inside, readAt, next, readAt, here]
      rfl
    · have high : ∀ b, b &&& compressedName = compressedName → 192 ≤ b.toNat :=
        forall_byte (by decide +kernel)
      have large := high b pointer
      have sum := short_value b low
      have bits : (compressedName.toUInt16 <<< 8).toNat = 49152 := by decide
      have smaller : compressedName.toUInt16 <<< 8 ≤ low.toUInt16 + (b.toUInt16 <<< 8) := by
        rw [UInt16.le_iff_toNat_le, bits, sum]
        omega
      simp only [if_pos pointer, Option.some.injEq]
      rw [UInt16.toNat_sub_of_le _ _ smaller, sum, bits]
      show (b.toNat - 192) * 256 + low.toNat = _
      omega

theorem parseLabels_pointer (here : buf[stop]? = some b)
    (pointer : b &&& compressedName = compressedName) (maxOffset : Nat) (name : Bytes) :
    parseLabels buf stop maxOffset name =
      match pointerTarget buf stop with
      | none => .error .rejected
      | some target =>
        if target < stop then
          parseLabels buf target (if stop ≥ maxOffset then stop + 2 else maxOffset) name
        else .error .rejected := by
  have positive : b ≠ 0 := by
    rintro rfl
    exact compressed_zero pointer
  rw [parseLabels, here]
  dsimp only
  rw [if_neg positive, if_pos pointer]
  rcases parseUnsignedShort_pointer here pointer with ⟨target, short⟩ | ⟨raw, short, -, target⟩
  · rw [short, target]
  · rw [short, target]

theorem pointerTarget_some {target : Nat} (leads : pointerTarget buf stop = some target) :
    ∃ b, buf[stop]? = some b ∧ b &&& compressedName = compressedName ∧ stop + 2 ≤ buf.length := by
  unfold pointerTarget at leads
  split at leads
  · next high low here next =>
      split at leads
      · next pointer =>
          exact ⟨high, here, pointer, (List.getElem?_eq_some_iff.mp next).1⟩
      · cases leads
  · cases leads

theorem fieldEnd_zero (zero : buf[stop]? = some 0) :
    fieldEnd buf stop = stop + 1 := by
  unfold fieldEnd
  rw [if_pos zero]

theorem fieldEnd_pointer {target : Nat} (leads : pointerTarget buf stop = some target) :
    fieldEnd buf stop = stop + 2 := by
  obtain ⟨b, here, pointer, -⟩ := pointerTarget_some leads
  have other : buf[stop]? ≠ some 0 := by
    intro zero
    rw [here] at zero
    cases zero
    exact compressed_zero pointer
  unfold fieldEnd
  rw [if_neg other]

theorem lt_fieldEnd (buf : Bytes) (stop : Nat) : stop < fieldEnd buf stop := by
  unfold fieldEnd
  split
  · omega
  · omega

/-! ## The whole loop -/

variable {stops : List Nat}

/-- The loop over a name: it gets all of the text, and counts what the fields reach. At the end
the zero byte is not yet counted. -/
theorem parseLabels_path (path : Path buf i text stops) :
    ∀ {maxOffset : Nat} {name : Bytes}, i ≤ maxOffset → (name ++ text).length ≤ 254 →
      ∃ last maxOffset', parseLabels buf i maxOffset name = .ok (name ++ text, last, maxOffset') ∧
        buf[last]? = some 0 ∧
        (if maxOffset' = last then maxOffset' + 1 else maxOffset') =
          counted buf maxOffset stops := by
  induction path with
  | @last i text stop field zero =>
    intro maxOffset name behind short
    have start : name.length ≤ 254 := by
      rw [length_append] at short
      omega
    refine ⟨stop, max maxOffset stop, ?_, zero, ?_⟩
    · rw [parseLabels_field field behind start, if_pos short, parseLabels_zero zero]
    · show _ = reach buf maxOffset stop
      unfold reach
      rw [fieldEnd_zero zero]
      split
      · rw [if_pos (by omega)]
        omega
      · rw [if_neg (by omega)]
        omega
  | @jump i text stop target rest stops field leads back path ih =>
    intro maxOffset name behind short
    rw [← append_assoc] at short
    have here : (name ++ text).length ≤ 254 := by
      rw [length_append] at short
      omega
    have start : name.length ≤ 254 := by
      rw [length_append] at here
      omega
    obtain ⟨b, at_stop, pointer, -⟩ := pointerTarget_some leads
    have count : (if stop ≥ max maxOffset stop then stop + 2 else max maxOffset stop) =
        reach buf maxOffset stop := by
      unfold reach
      rw [fieldEnd_pointer leads]
      split
      · rw [if_pos (by omega)]
      · rw [if_neg (by omega)]
        omega
    have further : target ≤ reach buf maxOffset stop := by
      rw [← count]
      split
      · omega
      · omega
    rw [parseLabels_field field behind start, if_pos here,
      parseLabels_pointer at_stop pointer, leads]
    dsimp only
    rw [if_pos back, count, ← append_assoc]
    exact ih further short

theorem Path.label (here : buf[i]? = some b) (positive : b ≠ 0)
    (plain : b &&& compressedName ≠ compressedName) (short : b.toNat ≤ labelMaxLength)
    (room : i + 1 + b.toNat ≤ buf.length) (path : Path buf (i + 1 + b.toNat) text stops) :
    Path buf i ((buf.drop (i + 1)).take b.toNat ++ [dot] ++ text) stops := by
  cases path with
  | last field zero =>
    refine .last ?_ zero
    rw [nameField_label here positive plain short room, field]
    rfl
  | jump field leads back rest =>
    rw [← append_assoc]
    refine .jump ?_ leads back rest
    rw [nameField_label here positive plain short room, field]
    rfl

/-- What the loop gets through is a name, if it stops inside the buffer. -/
theorem path_of_parseLabels (i maxOffset : Nat) (name : Bytes) :
    ∀ {name' : Bytes} {last maxOffset' : Nat},
      parseLabels buf i maxOffset name = .ok (name', last, maxOffset') → last < buf.length →
      name.length ≤ 254 → ∃ text stops, Path buf i text stops ∧ name' = name ++ text ∧
        (name ++ text).length ≤ 254 := by
  fun_induction parseLabels buf i maxOffset name with
  | case1 i maxOffset name here =>
    intro name' last maxOffset' done inside short
    cases done
    exact absurd inside (Nat.not_lt.mpr (List.getElem?_eq_none_iff.mp here))
  | case2 i maxOffset name here =>
    intro name' last maxOffset' done inside short
    cases done
    refine ⟨[], [i], .last (nameField_stop here (.inl rfl)) here, by simp, by simpa using short⟩
  | case3 =>
    intro name' last maxOffset' done
    cases done
  | case4 i maxOffset name b here positive pointer raw tmp short =>
    rename_i target back ih
    intro name' last maxOffset' done inside start
    obtain ⟨text, stops, path, eq, fits⟩ := ih done inside start
    have leads : pointerTarget buf i = some target.toNat := by
      rcases parseUnsignedShort_pointer here pointer with ⟨-, none⟩ | ⟨raw', some, -, leads⟩
      · rw [short] at none
        cases none
      · rw [short] at some
        cases some
        exact leads
    refine ⟨text, i :: stops, ?_, eq, fits⟩
    have field := nameField_stop here (.inr pointer)
    exact .jump field leads back path
  | case5 =>
    intro name' last maxOffset' done
    cases done
  | case6 =>
    intro name' last maxOffset' done
    cases done
  | case7 =>
    intro name' last maxOffset' done
    cases done
  | case8 =>
    intro name' last maxOffset' done
    cases done
  | case9 i maxOffset name b here positive plain short =>
    rename_i next room name₁ next₁ maxOffset₁ fits ih
    intro name' last maxOffset' done inside start
    have small : name₁.length ≤ 254 := Nat.le_of_not_lt fits
    obtain ⟨text, stops, path, eq, all⟩ := ih done inside small
    have whole : name₁ ++ text = name ++ ((buf.drop (i + 1)).take b.toNat ++ [dot] ++ text) := by
      simp [name₁, next]
    rw [whole] at eq all
    exact ⟨_, stops, path.label here positive plain (Nat.le_of_not_lt short)
      (Nat.le_of_not_lt room), eq, all⟩

theorem parseLabels_error (i maxOffset : Nat) (name : Bytes) {e : ParseError}
    (stuck : parseLabels buf i maxOffset name = .error e) : e = .rejected := by
  fun_induction parseLabels buf i maxOffset name with
  | case1 => cases stuck
  | case2 => cases stuck
  | case3 i maxOffset name b here positive pointer e' short =>
    cases stuck
    rcases parseUnsignedShort_pointer here pointer with ⟨-, none⟩ | ⟨raw', some, -⟩
    · rw [short] at none
      cases none
      rfl
    · rw [short] at some
      cases some
  | case4 i maxOffset name b here positive pointer raw tmp short =>
    rename_i ih
    exact ih stuck
  | case5 => cases stuck; rfl
  | case6 => cases stuck; rfl
  | case7 => cases stuck; rfl
  | case8 => cases stuck; rfl
  | case9 i maxOffset name b here positive plain short =>
    rename_i ih
    exact ih stuck

/-! ## What is counted -/

theorem le_counted (buf : Bytes) (stops : List Nat) (count : Nat) :
    count ≤ counted buf count stops := by
  induction stops generalizing count with
  | nil => exact Nat.le_refl _
  | cons stop stops ih =>
    refine Nat.le_trans ?_ (ih (reach buf count stop))
    have further := lt_fieldEnd buf stop
    unfold reach
    split
    · omega
    · exact Nat.le_refl _

theorem counted_eq_iff (buf : Bytes) (stops : List Nat) (count : Nat) :
    counted buf count stops = count ↔ ∀ s ∈ stops, s < count := by
  induction stops with
  | nil => exact iff_of_true rfl fun s mem => absurd mem not_mem_nil
  | cons stop stops ih =>
    rw [forall_mem_cons, ← ih]
    show counted buf (reach buf count stop) stops = count ↔ _
    unfold reach
    by_cases behind : count ≤ stop
    · rw [if_pos behind]
      have further := lt_fieldEnd buf stop
      have more := le_counted buf stops (fieldEnd buf stop)
      refine iff_of_false (by omega) ?_
      rintro ⟨front, -⟩
      omega
    · rw [if_neg behind]
      exact (and_iff_right (Nat.lt_of_not_le behind)).symm

theorem Path.first (path : Path buf i text stops) :
    ∃ t stop rest, nameField buf i = some (t, stop) ∧ stops = stop :: rest ∧
      counted buf i stops = counted buf (fieldEnd buf stop) rest := by
  have step : ∀ {t : Bytes} {stop : Nat} {rest : List Nat}, nameField buf i = some (t, stop) →
      counted buf i (stop :: rest) = counted buf (fieldEnd buf stop) rest := by
    intro t stop rest field
    have behind := (nameField_spec field).1
    show counted buf (reach buf i stop) rest = _
    unfold reach
    rw [if_pos (by omega)]
  cases path with
  | last field zero => exact ⟨_, _, [], field, rfl, step field⟩
  | jump field leads back rest => exact ⟨_, _, _, field, rfl, step field⟩

theorem Path.count_gt (path : Path buf i text stops) : i < counted buf i stops := by
  obtain ⟨t, stop, rest, field, -, count⟩ := path.first
  have behind := (nameField_spec field).1
  have further := lt_fieldEnd buf stop
  have more := le_counted buf rest (fieldEnd buf stop)
  omega

/-! ## The name -/

/-- The name that is given: without its last dot, and a dot if there are no labels -/
def givenName (text : Bytes) : Bytes :=
  if text = [] then [dot] else if text.getLast? = some dot then text.dropLast else text

theorem givenName_length (short : text.length ≤ 254) :
    (givenName text).length ≤ nameMaxLength := by
  unfold givenName nameMaxLength
  split
  · decide
  split
  · rw [length_dropLast]
    omega
  · omega

/-- **What `parseDomainName` returns.** A name of at most 254 bytes with its dots, and how far it
reaches. -/
theorem parseDomainName_ok_iff (some_byte : buf ≠ []) {offset n : Nat} :
    parseDomainName buf offset = .ok (name, n) ↔ ∃ text stops, Path buf offset text stops ∧
      text.length ≤ 254 ∧ name = givenName text ∧ n = counted buf offset stops - offset := by
  have positive := length_pos_iff.mpr some_byte
  have last : lastOffset buf.length = buf.length - 1 := if_neg (by omega)
  -- The rest of the function, behind a name
  have rest : ∀ {text : Bytes} {stops : List Nat}, Path buf offset text stops →
      text.length ≤ 254 → parseDomainName buf offset =
        .ok (givenName text, counted buf offset stops - offset) := by
    intro text stops path short
    have all : (([] : Bytes) ++ text).length ≤ 254 := short
    obtain ⟨stop, maxOffset, loop, zero, count⟩ :=
      parseLabels_path path (Nat.le_refl offset) all
    have inside := (List.getElem?_eq_some_iff.mp zero).1
    have bound : checkUpperBound stop (lastOffset buf.length) = .ok () := by
      rw [last]
      exact if_neg (by omega)
    have further := path.count_gt
    rw [← count] at further ⊢
    unfold parseDomainName
    rw [loop]
    dsimp only [Bind.bind, Except.bind, Pure.pure, Except.pure]
    rw [bound]
    dsimp only
    by_cases same : maxOffset = stop
    · rw [if_pos same] at further ⊢
      rw [if_pos same, readAt, same, zero]
      dsimp only
      rw [if_pos rfl, ← same, if_neg (by omega)]
      rfl
    · rw [if_neg same] at further ⊢
      rw [if_neg same, if_neg (by omega)]
      rfl
  constructor
  · intro parsed
    cases loop : parseLabels buf offset offset [] with
    | error e =>
      unfold parseDomainName at parsed
      rw [loop] at parsed
      cases parsed
    | ok r =>
      obtain ⟨name', stop, maxOffset⟩ := r
      have inside : stop < buf.length := by
        by_contra outside
        have bound : checkUpperBound stop (lastOffset buf.length) = .error .rejected := by
          rw [last]
          exact if_pos (by omega)
        unfold parseDomainName at parsed
        rw [loop] at parsed
        dsimp only [Bind.bind, Except.bind] at parsed
        rw [bound] at parsed
        cases parsed
      obtain ⟨text, stops, path, rfl, short⟩ :=
        path_of_parseLabels offset offset [] loop inside (Nat.zero_le _)
      rw [rest path short] at parsed
      cases parsed
      exact ⟨_, stops, path, short, rfl, rfl⟩
  · rintro ⟨text, stops, path, short, rfl, rfl⟩
    exact rest path short

/-- Nothing is read behind a buffer that has a byte. -/
theorem parseDomainName_inside (some_byte : buf ≠ []) (offset : Nat) :
    parseDomainName buf offset ≠ .error .overread := by
  have positive := length_pos_iff.mpr some_byte
  have last : lastOffset buf.length = buf.length - 1 := if_neg (by omega)
  intro beyond
  unfold parseDomainName at beyond
  cases loop : parseLabels buf offset offset [] with
  | error e =>
    rw [loop, parseLabels_error _ _ _ loop] at beyond
    cases beyond
  | ok r =>
    obtain ⟨name, stop, maxOffset⟩ := r
    rw [loop] at beyond
    dsimp only [Bind.bind, Except.bind, Pure.pure, Except.pure] at beyond
    by_cases outside : stop > buf.length - 1
    · have bound : checkUpperBound stop (lastOffset buf.length) = .error .rejected := by
        rw [last]
        exact if_pos outside
      rw [bound] at beyond
      cases beyond
    · have bound : checkUpperBound stop (lastOffset buf.length) = .ok () := by
        rw [last]
        exact if_neg outside
      have inside : stop < buf.length := by omega
      have tail : ∀ (c : Prop) [Decidable c] (v : Bytes × Nat),
          (if c then .error .rejected else .ok v : Reading (Bytes × Nat)) ≠
            .error .overread := by
        intro c _ v
        split
        · exact fun same => by cases same
        · exact fun same => by cases same
      rw [bound, readAt, List.getElem?_eq_getElem inside] at beyond
      by_cases same : maxOffset = stop
      · rw [if_pos same] at beyond
        exact tail _ _ beyond
      · rw [if_neg same] at beyond
        exact tail _ _ beyond

theorem parseDomainName_empty (offset : Nat) :
    parseDomainName [] offset =
      if 2 ^ 64 ≤ offset then .error .rejected else .error .overread := by
  have loop : parseLabels [] offset offset [] = .ok ([], offset, offset) := by
    rw [parseLabels]
    rfl
  unfold parseDomainName
  rw [loop]
  dsimp only [Bind.bind, Except.bind, Pure.pure, Except.pure]
  by_cases huge : 2 ^ 64 ≤ offset
  · have bound : checkUpperBound offset (lastOffset ([] : Bytes).length) = .error .rejected :=
      if_pos (show offset > 2 ^ 64 - 1 by omega)
    rw [bound, if_pos huge]
  · have bound : checkUpperBound offset (lastOffset ([] : Bytes).length) = .ok () :=
      if_neg (show ¬ offset > 2 ^ 64 - 1 by omega)
    rw [bound, if_neg huge, if_pos rfl]
    rfl

/-! ## When the length is right -/

/-- The name is read inside the buffer. If there is one, it is short enough, and the length is that
of its field. -/
def ReadsName (buf : Bytes) (offset : Nat) : Prop :=
  parseDomainName buf offset ≠ .error .overread ∧
    ∀ name n, parseDomainName buf offset = .ok (name, n) →
      name.length ≤ nameMaxLength ∧ fieldLength buf offset = some n

/-- No field to which a pointer leads stops at the end of the first field or behind it. -/
def FirstReaches (buf : Bytes) (offset : Nat) : Prop :=
  ∀ text stop stops, Path buf offset text (stop :: stops) → text.length ≤ 254 →
    ∀ s ∈ stops, s < fieldEnd buf stop

theorem Path.some_byte (path : Path buf i text stops) : buf ≠ [] := by
  obtain ⟨t, stop, rest, field, -⟩ := path.first
  obtain ⟨-, b, here, -⟩ := nameField_spec field
  rintro rfl
  cases here

theorem Path.counts_field (path : Path buf i text (stop :: stops)) :
    fieldLength buf i = some (counted buf i (stop :: stops) - i) ↔
      ∀ s ∈ stops, s < fieldEnd buf stop := by
  obtain ⟨t, stop', rest, field, same, count⟩ := path.first
  obtain ⟨rfl, rfl⟩ := List.cons.inj same
  have behind := (nameField_spec field).1
  have further := lt_fieldEnd buf stop
  have more := le_counted buf stops (fieldEnd buf stop)
  have length : fieldLength buf i = some (fieldEnd buf stop - i) := by
    unfold fieldLength
    rw [field]
    rfl
  rw [← counted_eq_iff buf, count, length, Option.some.injEq]
  constructor
  · intro same
    omega
  · intro same
    rw [same]

theorem firstReaches_iff {offset n : Nat} (some_byte : buf ≠ [])
    (parsed : parseDomainName buf offset = .ok (name, n)) :
    fieldLength buf offset = some n ↔ FirstReaches buf offset := by
  constructor
  · intro length text stop stops path short
    have again := (parseDomainName_ok_iff some_byte).mpr ⟨text, _, path, short, rfl, rfl⟩
    rw [parsed] at again
    cases again
    exact path.counts_field.mp length
  · intro first
    obtain ⟨text, stops, path, short, rfl, rfl⟩ := (parseDomainName_ok_iff some_byte).mp parsed
    obtain ⟨t, stop, rest, -, rfl, -⟩ := path.first
    exact path.counts_field.mpr (first text stop rest path short)

/-- **When names are read as they should be.** The buffer has a byte, and the first field of the
name reaches furthest. -/
theorem parseDomainName_reads_iff (buf : Bytes) (offset : Nat) :
    ReadsName buf offset ↔ (buf = [] → 2 ^ 64 ≤ offset) ∧ FirstReaches buf offset := by
  constructor
  · rintro ⟨inside, right⟩
    constructor
    · rintro rfl
      by_contra small
      rw [parseDomainName_empty, if_neg small] at inside
      exact inside rfl
    · intro text stop stops path short
      have parsed := (parseDomainName_ok_iff path.some_byte).mpr ⟨text, _, path, short, rfl, rfl⟩
      have length := (right _ _ parsed).2
      exact (firstReaches_iff path.some_byte parsed).mp length text stop stops path short
  · rintro ⟨some_byte, first⟩
    by_cases empty : buf = []
    · have huge := some_byte empty
      rw [empty]
      have rejected : parseDomainName [] offset = .error .rejected := by
        rw [parseDomainName_empty, if_pos huge]
      refine ⟨fun beyond => ?_, fun name n parsed => ?_⟩
      · rw [rejected] at beyond
        cases beyond
      · rw [rejected] at parsed
        cases parsed
    · refine ⟨parseDomainName_inside empty offset, fun name n parsed => ?_⟩
      refine ⟨?_, (firstReaches_iff empty parsed).mpr first⟩
      obtain ⟨text, stops, path, short, rfl, rfl⟩ := (parseDomainName_ok_iff empty).mp parsed
      exact givenName_length short

/-- A pointer to a label that lies around it: the field has two bytes, and three are counted. -/
theorem parseDomainName_around :
    parseDomainName [2, 192, 0, 0] 1 = .ok ([192, 0], 3) ∧ fieldLength [2, 192, 0, 0] 1 = some 2 ∧
      ¬ ReadsName [2, 192, 0, 0] 1 := by
  have pointer : nameField [2, 192, 0, 0] 1 = some ([], 1) :=
    nameField_stop (b := 192) rfl (by decide)
  have zero : nameField [2, 192, 0, 0] 3 = some ([], 3) := nameField_stop (b := 0) rfl (by decide)
  have label : nameField [2, 192, 0, 0] 0 = some ([192, 0, dot], 3) := by
    rw [nameField_label (b := 2) rfl (by decide) (by decide) (by decide) (by decide)]
    show (nameField [2, 192, 0, 0] 3).map _ = _
    rw [zero]
    rfl
  have path : Path [2, 192, 0, 0] 1 [192, 0, dot] [1, 3] :=
    .jump pointer rfl (by decide) (.last label rfl)
  have parsed : parseDomainName [2, 192, 0, 0] 1 = .ok ([192, 0], 3) :=
    (parseDomainName_ok_iff (by decide)).mpr ⟨_, _, path, by decide, by decide, by decide⟩
  have length : fieldLength [2, 192, 0, 0] 1 = some 2 := by
    unfold fieldLength
    rw [pointer]
    rfl
  refine ⟨parsed, length, fun reads => ?_⟩
  have same := (reads.2 _ _ parsed).2
  rw [length] at same
  cases same

end Nmap.Dns
