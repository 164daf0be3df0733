import Nmap.Dns.Message
import Mathlib.Data.List.Basic

/-!
# Reading back a query (`massdns.cc`)

A name is written as its labels, each behind its length, and an empty label at the end. The
reader stops at the first empty label, so a name with an empty label in it is cut there.
`query_round_trip_iff` says which names come back.
-/

namespace Nmap.Dns

open Nmap.Base List

/-! ## Labels -/

def wireLabel (l : Bytes) : Bytes := UInt8.ofNat l.length :: l

/-- Labels without the one that ends them -/
def wireLabels (ls : List Bytes) : Bytes := ls.flatMap wireLabel

def dotted (ls : List Bytes) : Bytes := ls.flatMap fun l => l ++ [dot]

def Label (l : Bytes) : Prop := l.length ≤ labelMaxLength ∧ dot ∉ l

def dropTrailingDot (name : Bytes) : Bytes :=
  if name.getLast? = some dot then name.dropLast else name

theorem length_dotted (ls : List Bytes) : (dotted ls).length = (wireLabels ls).length := by
  induction ls with
  | nil => rfl
  | cons l ls ih =>
    simp only [dotted, wireLabels, flatMap_cons, length_append, wireLabel,
      length_cons, length_nil] at *
    omega

theorem wireLabels_append (ls ls' : List Bytes) :
    wireLabels (ls ++ ls') = wireLabels ls ++ wireLabels ls' := flatMap_append

theorem wireLabels_single (l : Bytes) : wireLabels [l] = wireLabel l := by
  simp [wireLabels]

theorem dotted_append_single (ls : List Bytes) (l : Bytes) :
    dotted (ls ++ [l]) = dotted ls ++ l ++ [dot] := by
  simp [dotted]

theorem toNat_length {l : Bytes} (short : l.length ≤ labelMaxLength) :
    (UInt8.ofNat l.length).toNat = l.length := by
  refine UInt8.toNat_ofNat_of_lt' (show l.length < 256 from ?_)
  unfold labelMaxLength at short
  omega

variable {ls : List Bytes}

theorem splitOn_dotted {last : Bytes} (free : ∀ l ∈ ls, dot ∉ l) (free_last : dot ∉ last) :
    (dotted ls ++ last).splitOn dot = ls ++ [last] := by
  induction ls with
  | nil => exact splitOn_eq_singleton free_last
  | cons l ls ih =>
    have first := splitOn_append_cons_self_of_not_mem (free l mem_cons_self)
      (dotted ls ++ last)
    rw [ih fun l mem => free l (mem_cons_of_mem _ mem)] at first
    have flat : dotted (l :: ls) ++ last = l ++ dot :: (dotted ls ++ last) := by simp [dotted]
    rw [flat, first]
    rfl

/-! ## What is written -/

theorem set_placeholder (pre cur : Bytes) (b : UInt8) :
    (pre ++ 0 :: cur).set pre.length b = pre ++ b :: cur := by
  rw [set_append_right _ _ (Nat.le_refl _), Nat.sub_self]
  rfl

/-- The loop of the encoder: the labels that are through stand behind their lengths, the
current one behind a placeholder. -/
theorem putLabels_spec : ∀ (name pre cur : Bytes), Label cur →
    ∀ {out : Bytes} {labelStart : Nat} {labelLen : UInt8},
    putLabels name (pre ++ 0 :: cur) pre.length (UInt8.ofNat cur.length) =
      some (out, labelStart, labelLen) →
    ∃ ls last, cur ++ name = dotted ls ++ last ∧ (∀ l ∈ ls, Label l) ∧ Label last ∧
      out = pre ++ wireLabels ls ++ 0 :: last ∧ labelStart = (pre ++ wireLabels ls).length ∧
      labelLen = UInt8.ofNat last.length
  | [], pre, cur, label, out, labelStart, labelLen, written => by
    cases written
    refine ⟨[], cur, by simp [dotted], fun _ mem => absurd mem not_mem_nil, label, ?_, ?_,
      rfl⟩ <;> simp [wireLabels]
  | c :: name, pre, cur, label, out, labelStart, labelLen, written => by
    rw [putLabels] at written
    split at written
    · cases written
    split at written
    · next isDot =>
        -- The label is finished: its length is patched in.
        rw [set_placeholder] at written
        have here : (pre ++ 0 :: cur).length = (pre ++ wireLabel cur).length := by
          simp [wireLabel]
        rw [here] at written
        obtain ⟨ls, last, eq, labels, label_last, rfl, rfl, rfl⟩ :=
          putLabels_spec name (pre ++ wireLabel cur) [] ⟨Nat.zero_le _, not_mem_nil⟩
            written
        refine ⟨cur :: ls, last, ?_, ?_, label_last, ?_, ?_, rfl⟩
        · rw [nil_append] at eq
          simp [dotted, eq, isDot]
        · intro l mem
          rcases mem_cons.mp mem with rfl | mem
          · exact label
          · exact labels l mem
        · simp [wireLabels]
        · simp [wireLabels]
    · next notDot =>
        split at written
        · cases written
        · next room =>
            rw [toNat_length label.1] at room
            have short : (cur ++ [c]).length ≤ labelMaxLength := by
              rw [length_append, length_singleton]
              omega
            have longer : Label (cur ++ [c]) := by
              refine ⟨short, fun mem => ?_⟩
              rcases mem_append.mp mem with mem | mem
              · exact label.2 mem
              · exact notDot (mem_singleton.mp mem).symm
            have count : UInt8.ofNat cur.length + 1 = UInt8.ofNat (cur ++ [c]).length := by
              rw [length_append, length_singleton, UInt8.ofNat_add]
              rfl
            rw [count, append_assoc, cons_append] at written
            obtain ⟨ls, last, eq, rest⟩ := putLabels_spec name pre (cur ++ [c]) longer written
            exact ⟨ls, last, by simpa using eq, rest⟩

variable {name : Bytes} {offset maxlen : Nat}

/-- A name that was written is the labels of the name without its trailing dot. -/
theorem putDomainName_some {out : Bytes} (written : putDomainName name offset maxlen = some out) :
    ∃ ls, out = wireLabels ls ++ [0] ∧ (∀ l ∈ ls, Label l) ∧
      dropTrailingDot name = (dotted ls).dropLast ∧
      (dotted ls = name ∨ dotted ls = name ++ [dot]) := by
  unfold putDomainName at written
  split at written
  · cases written
  obtain ⟨⟨out', labelStart, labelLen⟩, loop, eq⟩ := Option.map_eq_some_iff.mp written
  obtain ⟨ls, last, split_name, labels, label_last, rfl, rfl, rfl⟩ :=
    putLabels_spec name [] [] ⟨Nat.zero_le _, not_mem_nil⟩ loop
  rw [nil_append] at split_name
  dsimp only at eq
  cases last with
  | nil =>
    -- The name is empty or ends with a dot.
    rw [if_neg (by decide)] at eq
    rw [append_nil] at split_name
    refine ⟨ls, by simpa using eq.symm, labels, ?_, .inl split_name.symm⟩
    unfold dropTrailingDot
    rw [split_name]
    split
    · rfl
    · next noDot =>
        rcases eq_nil_or_concat ls with rfl | ⟨ls', l, rfl⟩
        · rfl
        · rw [concat_eq_append, dotted_append_single] at noDot
          exact absurd List.getLast?_concat noDot
  | cons c last =>
    have positive : UInt8.ofNat (c :: last).length > 0 := by
      rw [gt_iff_lt, UInt8.lt_iff_toNat_lt, toNat_length label_last.1]
      exact Nat.succ_pos _
    rw [if_pos positive, nil_append, set_placeholder] at eq
    refine ⟨ls ++ [c :: last], ?_, ?_, ?_, .inr ?_⟩
    · rw [← eq, wireLabels_append, wireLabels_single]
      simp [wireLabel]
    · intro l mem
      rcases mem_append.mp mem with mem | mem
      · exact labels l mem
      · rw [mem_singleton.mp mem]
        exact label_last
    · have noDot : (dotted ls ++ c :: last).getLast? ≠ some dot := by
        intro dot_last
        rw [List.getLast?_append_of_ne_nil _ (cons_ne_nil _ _)] at dot_last
        exact label_last.2 (mem_of_getLast? dot_last)
      unfold dropTrailingDot
      rw [split_name, if_neg noDot, dotted_append_single, dropLast_concat]
    · rw [dotted_append_single, split_name]

/-! ## What is read -/

variable {buf s : Bytes} {i : Nat} {b : UInt8}

theorem readAt_drop (at_i : buf.drop i = b :: s) :
    buf[i]? = some b := by
  rw [← List.head?_drop, at_i]
  rfl

theorem lt_of_drop (at_i : buf.drop i = b :: s) :
    buf.length = i + s.length + 1 := by
  have length := congrArg List.length at_i
  rw [length_drop, length_cons] at length
  omega

theorem drop_succ_of_drop (at_i : buf.drop i = b :: s) : buf.drop (i + 1) = s := by
  rw [← drop_drop, at_i]
  rfl

theorem drop_add_of_drop {t : Bytes} (at_i : buf.drop i = s ++ t) :
    buf.drop (i + s.length) = t := by
  rw [← drop_drop, at_i]
  exact drop_left

theorem parseUnsignedShort_drop {high low : UInt8} (here : buf.drop offset = high :: low :: s) :
    parseUnsignedShort buf offset = .ok (low.toUInt16 + (high.toUInt16 <<< 8), 2) := by
  have next := drop_succ_of_drop here
  have length := lt_of_drop next
  unfold parseUnsignedShort
  rw [if_pos (by omega), readAt, readAt_drop next, readAt, readAt_drop here]
  rfl

theorem short_bytes (x : UInt16) :
    x.toUInt8.toUInt16 + ((x >>> 8).toUInt8.toUInt16 <<< 8) = x := by
  apply UInt16.toNat.inj
  have small : x.toNat < 65536 := x.toNat_lt
  simp [UInt16.toNat_add, UInt16.toNat_shiftLeft, UInt16.toNat_shiftRight, Nat.shiftLeft_eq,
    Nat.shiftRight_eq_div_pow]
  omega

/-- Short labels have no bits of `COMPRESSED_NAME`. -/
theorem not_compressed {l : Bytes} (short : l.length ≤ labelMaxLength) :
    UInt8.ofNat l.length &&& compressedName ≠ compressedName := by
  have small : ∀ n ≤ 63, UInt8.ofNat n &&& compressedName ≠ compressedName := by decide
  exact small _ short

/-- Reading labels that are not empty up to an empty one: the name with its dots, if it is not
too long. -/
theorem parseLabels_wire {buf : Bytes} : ∀ (ls : List Bytes) {offset : Nat} {name post : Bytes},
    (∀ l ∈ ls, l ≠ [] ∧ l.length ≤ labelMaxLength) → name.length ≤ 254 →
    buf.drop offset = wireLabels ls ++ 0 :: post →
    parseLabels buf offset offset name =
      if name.length + (wireLabels ls).length ≤ 254 then
        .ok (name ++ dotted ls, offset + (wireLabels ls).length, offset + (wireLabels ls).length)
      else .error .rejected
  | [], offset, name, post, _, short, here => by
    rw [parseLabels, readAt_drop here]
    simp [wireLabels, dotted, short]
  | l :: ls, offset, name, post, good, short, here => by
    obtain ⟨some_byte, fits⟩ := good l mem_cons_self
    have whole : wireLabels (l :: ls) = UInt8.ofNat l.length :: (l ++ wireLabels ls) := by
      simp [wireLabels, wireLabel]
    rw [whole, cons_append, append_assoc] at here
    have next := drop_succ_of_drop here
    have after := drop_add_of_drop next
    have count := toNat_length fits
    have positive : UInt8.ofNat l.length ≠ 0 := by
      intro zero
      rw [zero] at count
      exact some_byte (length_eq_zero_iff.mp count.symm)
    have length := congrArg List.length next
    simp only [length_drop, length_append, length_cons] at length
    have text : (buf.drop (offset + 1)).take l.length = l := by
      rw [next]
      exact take_left
    rw [parseLabels, readAt_drop here]
    dsimp only
    rw [if_neg positive, if_neg (not_compressed fits), count, if_neg (by omega), text]
    have total : (wireLabels (l :: ls)).length = l.length + 1 + (wireLabels ls).length := by
      rw [whole, length_cons, length_append]
      omega
    have longer : (name ++ l ++ [dot]).length = name.length + l.length + 1 := by
      rw [length_append, length_append, length_singleton]
    have further : offset + 1 + l.length > offset := by omega
    rw [if_neg (by omega), if_pos further, longer, total]
    unfold nameMaxLength
    by_cases long : name.length + l.length + 1 > 254
    · rw [if_pos long, if_neg (by omega)]
    · rw [if_neg long, parseLabels_wire ls (fun l mem => good l (mem_cons_of_mem _ mem))
        (by omega) after, longer]
      have whole_name : name ++ l ++ [dot] ++ dotted ls = name ++ dotted (l :: ls) := by
        simp [dotted]
      have behind : offset + 1 + l.length + (wireLabels ls).length =
          offset + (l.length + 1 + (wireLabels ls).length) := by omega
      rw [whole_name, behind]
      by_cases fit : name.length + l.length + 1 + (wireLabels ls).length ≤ 254
      · rw [if_pos fit, if_pos (by omega)]
      · rw [if_neg fit, if_neg (by omega)]

/-- The name of labels as the reader gives it -/
def nameOf (ls : List Bytes) : Bytes := if ls = [] then [dot] else (dotted ls).dropLast

/-- Reading a name whose labels are not empty up to the first empty one -/
theorem parseDomainName_wire {post : Bytes} (good : ∀ l ∈ ls, l ≠ [] ∧ l.length ≤ labelMaxLength)
    (here : buf.drop offset = wireLabels ls ++ 0 :: post) :
    parseDomainName buf offset =
      if (wireLabels ls).length ≤ 254 then .ok (nameOf ls, (wireLabels ls).length + 1)
      else .error .rejected := by
  have stop := drop_add_of_drop here
  have length := lt_of_drop stop
  have empty : ([] : Bytes).length ≤ 254 := Nat.zero_le _
  have labels := parseLabels_wire ls good empty here
  rw [length_nil, Nat.zero_add, nil_append] at labels
  unfold parseDomainName
  rw [labels]
  by_cases fit : (wireLabels ls).length ≤ 254
  · have name : (if dotted ls = [] then [dot] else
        if (dotted ls).getLast? = some dot then (dotted ls).dropLast else dotted ls) =
          nameOf ls := by
      unfold nameOf
      rcases eq_nil_or_concat ls with rfl | ⟨ls', l, rfl⟩
      · rfl
      · rw [concat_eq_append, dotted_append_single, if_neg (by simp),
          if_pos List.getLast?_concat, if_neg (by simp)]
    have last : lastOffset buf.length = buf.length - 1 := if_neg (by omega)
    have inside : checkUpperBound (offset + (wireLabels ls).length) (lastOffset buf.length) =
        .ok () := by
      rw [last]
      exact if_neg (by omega)
    rw [if_pos fit, if_pos fit]
    dsimp only [Bind.bind, Except.bind, Pure.pure, Except.pure]
    rw [inside, if_pos rfl, readAt, readAt_drop stop]
    dsimp only [Bind.bind, Except.bind, Pure.pure, Except.pure]
    rw [if_pos rfl, if_neg (by omega), name]
    congr 2
    omega
  · rw [if_neg fit, if_neg fit]
    rfl

/-! ## The message -/

def shortBytes (x : UInt16) : Bytes := [(x >>> 8).toUInt8, x.toUInt8]

theorem putUnsignedShort_some {x : UInt16} {b : Bytes}
    (written : putUnsignedShort x offset maxlen = some b) : b = shortBytes x := by
  unfold putUnsignedShort at written
  split at written
  · cases written
    rfl
  · cases written

theorem parseUnsignedShort_bytes {x : UInt16} (here : buf.drop offset = shortBytes x ++ s) :
    parseUnsignedShort buf offset = .ok (x, 2) := by
  rw [parseUnsignedShort_drop here, short_bytes]

def queryHeader (id : UInt16) : Bytes :=
  shortBytes id ++ shortBytes queryFlags ++ shortBytes 1 ++ shortBytes 0 ++ shortBytes 0 ++
    shortBytes 0

variable {id rt : UInt16}

theorem buildSimpleRequest_some {msg : Bytes}
    (built : buildSimpleRequest id name rt maxlen = some msg) :
    ∃ wire, putDomainName name dataOffset maxlen = some wire ∧
      msg = queryHeader id ++ (wire ++ (shortBytes rt ++ shortBytes classIn)) := by
  unfold buildSimpleRequest at built
  simp only [Option.bind_eq_bind, Option.bind_eq_some_iff, Option.pure_def] at built
  obtain ⟨a, ha, b, hb, c, hc, d, hd, e, he, f, hf, wire, hwire, g, hg, h, hh, eq⟩ := built
  refine ⟨wire, hwire, ?_⟩
  cases eq
  rw [putUnsignedShort_some ha, putUnsignedShort_some hb, putUnsignedShort_some hc,
    putUnsignedShort_some hd, putUnsignedShort_some he, putUnsignedShort_some hf,
    putUnsignedShort_some hg, putUnsignedShort_some hh]
  simp [queryHeader]

theorem parsePacket_query (id : UInt16) (body : Bytes) :
    parsePacket (queryHeader id ++ body) =
      (parseQuery (queryHeader id ++ body) dataOffset).map fun (q, n) =>
        ({ id, flags := queryFlags, queries := [q], answers := [] }, dataOffset + n) := by
  have short (k : Nat) (x : UInt16) (s : Bytes)
      (here : (queryHeader id ++ body).drop k = shortBytes x ++ s) :=
    parseUnsignedShort_bytes here
  unfold parsePacket
  rw [if_neg (by simp [queryHeader, shortBytes, dataOffset]),
    short 0 id _ rfl, short 2 queryFlags _ rfl, short 4 1 _ rfl, short 6 0 _ rfl,
    short 8 0 _ rfl, short 10 0 _ rfl]
  dsimp only [Bind.bind, Except.bind, Pure.pure, Except.pure]
  have one_query : parseMany (parseQuery (queryHeader id ++ body)) (UInt16.toNat 1)
      (2 + 2 + 2 + 2 + 2 + 2) = (parseQuery (queryHeader id ++ body) dataOffset).map
        fun (q, n) => ([q], dataOffset + n) := by
    show (parseMany (parseQuery (queryHeader id ++ body)) 1 dataOffset) = _
    rw [parseMany]
    cases parseQuery (queryHeader id ++ body) dataOffset <;> rfl
  rw [one_query]
  cases parseQuery (queryHeader id ++ body) dataOffset <;> rfl

theorem parseQuery_wire {t c : UInt16} {post : Bytes}
    (good : ∀ l ∈ ls, l ≠ [] ∧ l.length ≤ labelMaxLength)
    (here : buf.drop dataOffset = wireLabels ls ++ 0 :: (shortBytes t ++ (shortBytes c ++ post)))
    (room : buf.length - dataOffset > 5) :
    parseQuery buf dataOffset =
      if (wireLabels ls).length ≤ 254 then
        .ok (⟨nameOf ls, t, c⟩, (wireLabels ls).length + 5)
      else .error .rejected := by
  have type_at := drop_succ_of_drop (drop_add_of_drop here)
  have class_at := drop_add_of_drop type_at
  unfold parseQuery
  rw [if_pos room, parseDomainName_wire good here]
  by_cases fit : (wireLabels ls).length ≤ 254
  · rw [if_pos fit, if_pos fit]
    dsimp only [Bind.bind, Except.bind, Pure.pure, Except.pure]
    rw [← Nat.add_assoc, parseUnsignedShort_bytes type_at]
    dsimp only [Bind.bind, Except.bind, Pure.pure, Except.pure]
    rw [← Nat.add_assoc, ← Nat.add_assoc]
    rw [show (shortBytes t).length = 2 from rfl] at class_at
    rw [parseUnsignedShort_bytes class_at]
    rfl
  · rw [if_neg fit, if_neg fit]
    rfl

/-- Any four bytes are two numbers. -/
theorem four_bytes (four : 4 ≤ s.length) :
    ∃ t c post, s = shortBytes t ++ (shortBytes c ++ post) := by
  have number (high low : UInt8) : ∃ x, [high, low] = shortBytes x := by
    refine ⟨low.toUInt16 + (high.toUInt16 <<< 8), ?_⟩
    have small := high.toNat_lt
    have small' := low.toNat_lt
    unfold shortBytes
    congr 1
    · apply UInt8.toNat.inj
      simp [UInt16.toNat_add, UInt16.toNat_shiftLeft, UInt16.toNat_shiftRight, Nat.shiftLeft_eq,
        Nat.shiftRight_eq_div_pow]
      omega
    · congr 1
      apply UInt8.toNat.inj
      simp [UInt16.toNat_shiftLeft, Nat.shiftLeft_eq]
  rcases s with _ | ⟨a, _ | ⟨b, _ | ⟨c, _ | ⟨d, post⟩⟩⟩⟩
  · simp at four
  · simp at four
  · simp at four
  · simp at four
  · obtain ⟨t, first⟩ := number a b
    obtain ⟨u, second⟩ := number c d
    refine ⟨t, u, post, ?_⟩
    rw [← first, ← second]
    rfl

theorem first_empty (some_empty : ¬ ∀ l ∈ ls, l ≠ []) :
    ∃ good rest, ls = good ++ [] :: rest ∧ ∀ l ∈ good, l ≠ [] := by
  induction ls with
  | nil => exact absurd (fun _ mem => absurd mem not_mem_nil) some_empty
  | cons l ls ih =>
    by_cases empty : l = []
    · exact ⟨[], ls, by rw [empty]; rfl, fun _ mem => absurd mem not_mem_nil⟩
    · have later : ¬ ∀ l ∈ ls, l ≠ [] := by
        intro full
        refine some_empty fun l' mem => ?_
        rcases mem_cons.mp mem with rfl | mem
        · exact empty
        · exact full l' mem
      obtain ⟨good, rest, rfl, full⟩ := ih later
      refine ⟨l :: good, rest, rfl, fun l' mem => ?_⟩
      rcases mem_cons.mp mem with rfl | mem
      · exact empty
      · exact full l' mem

/-! ## Which names come back -/

/-- The same name, up to one trailing dot -/
def SameName (n name : Bytes) : Prop := n = name ∨ n ++ [dot] = name ∨ n = name ++ [dot]

/-- Reading the message gives the query back: all of it is read, and it is one query of class
IN with this type and name, without answers. -/
def ReadsBack (id rt : UInt16) (name msg : Bytes) : Prop :=
  ∃ p n, parsePacket msg = .ok (p, msg.length) ∧ p.id = id ∧ p.queries = [⟨n, rt, classIn⟩] ∧
    SameName n name ∧ p.answers = []

/-- Without its trailing dot the name has no empty label, so it is not empty either, and it is
not longer than a name may be. -/
def WellNamed (name : Bytes) : Prop :=
  (∀ l ∈ (dropTrailingDot name).splitOn dot, l ≠ []) ∧
    (dropTrailingDot name).length ≤ nameMaxLength - 2

instance (name : Bytes) : Decidable (WellNamed name) := by
  unfold WellNamed
  infer_instance

theorem wellNamed_iff (labels : ∀ l ∈ ls, Label l)
    (eq : dropTrailingDot name = (dotted ls).dropLast) :
    WellNamed name ↔ ls ≠ [] ∧ (∀ l ∈ ls, l ≠ []) ∧ (wireLabels ls).length ≤ 254 := by
  have length := length_dotted ls
  unfold WellNamed nameMaxLength
  rw [eq, length_dropLast, length]
  rcases eq_nil_or_concat ls with rfl | ⟨ls', l, rfl⟩
  · refine iff_of_false (fun well => well.1 [] ?_ rfl) (fun well => well.1 rfl)
    show ([] : Bytes) ∈ ([] : Bytes).splitOn dot
    rw [splitOn_nil]
    exact mem_singleton_self _
  · rw [concat_eq_append] at *
    have free : ∀ l' ∈ ls', dot ∉ l' := fun l' mem => (labels l' (mem_append_left _ mem)).2
    have free_last : dot ∉ l := (labels l (mem_append_right _ (mem_singleton_self _))).2
    rw [dotted_append_single, dropLast_concat, splitOn_dotted free free_last]
    constructor
    · rintro ⟨full, short⟩
      exact ⟨by simp, full, by omega⟩
    · rintro ⟨-, full, short⟩
      exact ⟨full, by omega⟩

theorem readsBack_query {body : Bytes} (back : ReadsBack id rt name (queryHeader id ++ body)) :
    ∃ q, parseQuery (queryHeader id ++ body) dataOffset = .ok (q, body.length) := by
  obtain ⟨p, n, read, -⟩ := back
  rw [parsePacket_query] at read
  cases query : parseQuery (queryHeader id ++ body) dataOffset with
  | error e =>
    rw [query] at read
    cases read
  | ok v =>
    rw [query] at read
    have count := congrArg Prod.snd (Except.ok.inj read)
    rw [length_append, show (queryHeader id).length = dataOffset from rfl] at count
    refine ⟨v.1, ?_⟩
    rw [← Nat.add_left_cancel count]

theorem parseQuery_full (labels : ∀ l ∈ ls, Label l) (full : ∀ l ∈ ls, l ≠ [])
    (some_label : ls ≠ []) :
    parseQuery (queryHeader id ++ (wireLabels ls ++ [0] ++ (shortBytes rt ++ shortBytes classIn)))
        dataOffset =
      if (wireLabels ls).length ≤ 254 then
        .ok (⟨nameOf ls, rt, classIn⟩, (wireLabels ls).length + 5)
      else .error .rejected := by
  have here : (queryHeader id ++ (wireLabels ls ++ [0] ++ (shortBytes rt ++
      shortBytes classIn))).drop dataOffset =
        wireLabels ls ++ 0 :: (shortBytes rt ++ (shortBytes classIn ++ [])) := by
    show wireLabels ls ++ [0] ++ (shortBytes rt ++ shortBytes classIn) = _
    simp
  refine parseQuery_wire (fun l mem => ⟨full l mem, (labels l mem).1⟩) here ?_
  · obtain ⟨l, ls, rfl⟩ := exists_cons_of_ne_nil some_label
    simp only [length_append, queryHeader, wireLabels, flatMap_cons, wireLabel,
      shortBytes, length_cons, length_nil, dataOffset]
    omega

/-- An empty label cuts the query short. -/
theorem parseQuery_cut (labels : ∀ l ∈ ls, Label l) (some_empty : ¬ ∀ l ∈ ls, l ≠ []) (q : Query) :
    parseQuery (queryHeader id ++ (wireLabels ls ++ [0] ++ (shortBytes rt ++ shortBytes classIn)))
        dataOffset ≠
      .ok (q, (wireLabels ls ++ [0] ++ (shortBytes rt ++ shortBytes classIn)).length) := by
  obtain ⟨good, rest, rfl, full⟩ := first_empty some_empty
  have tail : wireLabels (good ++ [] :: rest) ++ [0] ++ (shortBytes rt ++ shortBytes classIn) =
      wireLabels good ++
        0 :: (wireLabels rest ++ [0] ++ (shortBytes rt ++ shortBytes classIn)) := by
    simp [wireLabels, wireLabel]
  obtain ⟨t, c, post, bytes⟩ : ∃ t c post,
      wireLabels rest ++ [0] ++ (shortBytes rt ++ shortBytes classIn) =
        shortBytes t ++ (shortBytes c ++ post) := by
    refine four_bytes ?_
    simp only [length_append, shortBytes, length_cons, length_nil]
    omega
  have here : (queryHeader id ++ (wireLabels good ++ 0 :: (shortBytes t ++
      (shortBytes c ++ post)))).drop dataOffset =
        wireLabels good ++ 0 :: (shortBytes t ++ (shortBytes c ++ post)) := rfl
  have longer := congrArg List.length bytes
  simp only [length_append, shortBytes, length_cons, length_nil] at longer
  rw [tail, bytes]
  rw [parseQuery_wire (fun l mem => ⟨full l mem, (labels l (mem_append_left _ mem)).1⟩) here]
  · split
    · intro read
      have count := congrArg Prod.snd (Except.ok.inj read)
      simp only [length_append, length_cons, shortBytes, length_nil] at count
      omega
    · intro read
      cases read
  · simp only [length_append, queryHeader, shortBytes, length_cons, length_nil,
      dataOffset]
    omega

/-- **Which names come back.** A query that was built is read back exactly when its name,
without one trailing dot, has no empty label and at most 253 bytes. -/
theorem query_round_trip_iff {id rt : UInt16} {name msg : Bytes} {maxlen : Nat}
    (built : buildSimpleRequest id name rt maxlen = some msg) :
    ReadsBack id rt name msg ↔ WellNamed name := by
  obtain ⟨wire, written, rfl⟩ := buildSimpleRequest_some built
  obtain ⟨ls, rfl, labels, bare, same⟩ := putDomainName_some written
  rw [wellNamed_iff labels bare]
  constructor
  · intro back
    obtain ⟨q, query⟩ := readsBack_query back
    have some_label : ls ≠ [] := by
      rintro rfl
      have five : (queryHeader id ++ (wireLabels [] ++ [0] ++ (shortBytes rt ++
          shortBytes classIn))).length - dataOffset = 5 := rfl
      unfold parseQuery at query
      rw [five] at query
      cases query
    have full : ∀ l ∈ ls, l ≠ [] := by
      by_contra some_empty
      exact parseQuery_cut labels some_empty q query
    refine ⟨some_label, full, ?_⟩
    rw [parseQuery_full labels full some_label] at query
    by_contra long
    rw [if_neg long] at query
    cases query
  · rintro ⟨some_label, full, short⟩
    refine ⟨⟨id, queryFlags, [⟨nameOf ls, rt, classIn⟩], []⟩, nameOf ls, ?_, rfl, rfl, ?_, rfl⟩
    · rw [parsePacket_query, parseQuery_full labels full some_label, if_pos short]
      simp only [Except.map, length_append, queryHeader, shortBytes, length_cons,
        length_nil, dataOffset]
    · have given : nameOf ls = (dotted ls).dropLast := if_neg some_label
      unfold SameName
      rw [given]
      rcases same with eq | eq
      · obtain ⟨ls', l, rfl⟩ := (eq_nil_or_concat ls).resolve_left some_label
        right
        left
        rw [← eq, concat_eq_append, dotted_append_single, dropLast_concat]
      · left
        rw [eq, dropLast_concat]

/-- A query for the name `a.bc` -/
def queryAbc : Bytes :=
  [0, 7, 1, 0, 0, 1, 0, 0, 0, 0, 0, 0, 1, 97, 2, 98, 99, 0, 0, 1, 0, 1]

theorem query_round_trip_abc :
    buildSimpleRequest 7 [97, 46, 98, 99] recordA 512 = some queryAbc ∧
      ReadsBack 7 recordA [97, 46, 98, 99] queryAbc := by
  have built : buildSimpleRequest 7 [97, 46, 98, 99] recordA 512 = some queryAbc := by decide
  exact ⟨built, (query_round_trip_iff built).mpr (by decide)⟩

/-- A query for the name `a..b` -/
def queryCut : Bytes :=
  [0, 7, 1, 0, 0, 1, 0, 0, 0, 0, 0, 0, 1, 97, 0, 1, 98, 0, 0, 1, 0, 1]

/-- It is cut at the empty label. -/
theorem query_cut : buildSimpleRequest 7 [97, 46, 46, 98] recordA 512 = some queryCut ∧
    ¬ ReadsBack 7 recordA [97, 46, 46, 98] queryCut := by
  refine ⟨by decide, fun back => ?_⟩
  have same : queryCut = queryHeader 7 ++ (wireLabels [[97], [], [98]] ++ [0] ++
      (shortBytes recordA ++ shortBytes classIn)) := by decide
  have labels : ∀ l ∈ [([97] : Bytes), [], [98]], Label l := by
    unfold Label
    decide
  rw [same] at back
  obtain ⟨q, query⟩ := readsBack_query back
  exact parseQuery_cut labels (by decide) q query

end Nmap.Dns
