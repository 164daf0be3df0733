import Nmap.Dns.NameField

/-!
# Where records begin (`massdns.cc`)

The cursor goes on by what was read of a record, which should be the name field, ten bytes and
RDLENGTH. `parsePacket_frames_iff` says for which messages it is.
-/

namespace Nmap.Dns

open Nmap.Base

/-! ## The records of a message -/

/-- The number in two bytes of the message -/
def shortAt (buf : Bytes) (i : Nat) : Nat :=
  (buf.getD i 0).toNat * 256 + (buf.getD (i + 1) 0).toNat

/-- RDLENGTH of the record whose type is here -/
def rdlength (buf : Bytes) (i : Nat) : Nat := shortAt buf (i + 8)

/-- Questions that begin where the one in front ends: a name field and four bytes -/
inductive Questions (buf : Bytes) : Nat → List Query → Nat → Prop
  | nil {o} : Questions buf o [] o
  | cons {o q qs f stop} : fieldLength buf o = some f → parseDomainName buf o = .ok (q.name, f) →
      parseQuery buf o = .ok (q, f + 4) → Questions buf (o + (f + 4)) qs stop →
      Questions buf o (q :: qs) stop

/-- Answers that are the records of the message: a name field, ten bytes and RDLENGTH -/
inductive Records (buf : Bytes) : Nat → List Answer → Prop
  | nil {o} : Records buf o []
  | cons {o a as f} : fieldLength buf o = some f → parseDomainName buf o = .ok (a.name, f) →
      parseAnswer buf o = .ok (a, f + 10 + rdlength buf (o + f)) →
      Records buf (o + (f + 10 + rdlength buf (o + f))) as → Records buf o (a :: as)

/-- The answers are the records behind the questions. -/
def Framed (buf : Bytes) (p : Packet) : Prop :=
  ∃ stop, Questions buf dataOffset p.queries stop ∧ Records buf stop p.answers

/-! ## Which messages are framed -/

/-- The count of the name at this place -/
def NameCounts (buf : Bytes) (i n : Nat) : Prop :=
  ∃ text stops, Path buf i text stops ∧ counted buf i stops = i + n

/-- The data of the record whose type is here take as many bytes as RDLENGTH says: an address of its
family, or a name. -/
def DataFits (buf : Bytes) (i : Nat) : Prop :=
  (shortAt buf i = recordA.toNat → rdlength buf i = 4) ∧
    (shortAt buf i = recordAaaa.toNat → rdlength buf i = 16) ∧
    (shortAt buf i = recordCname.toNat ∨ shortAt buf i = recordPtr.toNat →
      NameCounts buf (i + 10) (rdlength buf i))

/-- The first fields of the names of this many questions reach furthest, and what is behind the
questions is good. -/
def GoodQuestions (buf : Bytes) (good : Nat → Prop) : Nat → Nat → Prop
  | 0, o => good o
  | n + 1, o => FirstReaches buf o ∧
      ∀ f, fieldLength buf o = some f → GoodQuestions buf good n (o + (f + 4))

/-- The same for the names of this many records, and their data fit. -/
def GoodRecords (buf : Bytes) : Nat → Nat → Prop
  | 0, _ => True
  | n + 1, o => FirstReaches buf o ∧ ∀ f, fieldLength buf o = some f →
      DataFits buf (o + f) ∧ GoodRecords buf n (o + (f + 10 + rdlength buf (o + f)))

/-- The questions and the records that the message says it has are good. -/
def GoodFraming (buf : Bytes) : Prop :=
  GoodQuestions buf (GoodRecords buf (shortAt buf 6)) (shortAt buf 4) dataOffset

/-! ## Numbers -/

variable {buf : Bytes} {i : Nat}

theorem shortAt_eq {high low : UInt8} (here : buf[i]? = some high) (next : buf[i + 1]? = some low) :
    shortAt buf i = high.toNat * 256 + low.toNat := by
  unfold shortAt
  rw [List.getD_eq_getElem?_getD, List.getD_eq_getElem?_getD, here, next]
  rfl

variable {n : Nat}

theorem parseUnsignedShort_ok {x : UInt16} (parsed : parseUnsignedShort buf i = .ok (x, n)) : n =
    2 ∧ x.toNat = shortAt buf i := by
  unfold parseUnsignedShort at parsed
  split at parsed
  · next room =>
      obtain ⟨low, next⟩ : ∃ b, buf[i + 1]? = some b := ⟨_, List.getElem?_eq_getElem room⟩
      obtain ⟨high, here⟩ : ∃ b, buf[i]? = some b :=
        ⟨_, List.getElem?_eq_getElem (Nat.lt_of_succ_lt room)⟩
      rw [readAt, next, readAt, here] at parsed
      cases parsed
      exact ⟨rfl, (short_value high low).trans (shortAt_eq here next).symm⟩
  · cases parsed

/-! ## Reading inside the buffer -/

/-- Nothing was read behind the buffer. -/
def Inside {α : Type} (x : Reading α) : Prop := x ≠ .error .overread

theorem inside_ok {α : Type} (a : α) : Inside (.ok a : Reading α) := fun beyond => by cases beyond

theorem inside_rejected {α : Type} : Inside (.error .rejected : Reading α) :=
  fun beyond => by cases beyond

theorem Inside.bind {α β : Type} {x : Reading α} {f : α → Reading β} (first : Inside x)
    (rest : ∀ a, Inside (f a)) : Inside (x >>= f) := by
  cases x with
  | error e => exact fun beyond => first (by cases beyond; rfl)
  | ok a => exact rest a

theorem inside_readAt (room : i < buf.length) : Inside (readAt buf i) := by
  unfold readAt
  rw [List.getElem?_eq_getElem room]
  exact inside_ok _

theorem inside_short (buf : Bytes) (i : Nat) : Inside (parseUnsignedShort buf i) := by
  unfold parseUnsignedShort
  split
  · next room =>
      refine (inside_readAt (by omega)).bind fun low => ?_
      exact (inside_readAt (by omega)).bind fun high => inside_ok _
  · exact inside_rejected

theorem inside_int (buf : Bytes) (i : Nat) : Inside (parseUnsignedInt buf i) := by
  unfold parseUnsignedInt
  split
  · next room =>
      refine (inside_readAt (by omega)).bind fun b3 => ?_
      refine (inside_readAt (by omega)).bind fun b2 => ?_
      refine (inside_readAt (by omega)).bind fun b1 => ?_
      exact (inside_readAt (by omega)).bind fun b0 => inside_ok _
  · exact inside_rejected

theorem inside_address (positive : 0 < n) (buf : Bytes) (i : Nat) :
    Inside (parseAddress n buf i) := by
  unfold parseAddress
  split
  · next room =>
      have read : readBytes buf i n = .ok ((buf.drop i).take n) := if_pos (by omega)
      rw [read]
      exact inside_ok _
  · exact inside_rejected

theorem inside_upperBound (accumulator max : Nat) : Inside (checkUpperBound accumulator max) := by
  unfold checkUpperBound
  split
  · exact inside_rejected
  · exact inside_ok _

theorem inside_record (some_byte : buf ≠ []) (i : Nat) (rt : UInt16) :
    Inside (parseRecord buf i rt) := by
  have name : Inside (parseDomainName buf i) := parseDomainName_inside some_byte i
  unfold parseRecord parseARecord
  split
  · split
    · exact (inside_address (by decide) buf i).bind fun r => inside_ok _
    split
    · exact (inside_address (by decide) buf i).bind fun r => inside_ok _
    · exact inside_rejected
  split
  · exact name.bind fun r => inside_ok _
  split
  · exact name.bind fun r => inside_ok _
  · exact inside_rejected

theorem inside_query (some_byte : buf ≠ []) (o : Nat) :
    Inside (parseQuery buf o) := by
  have name : Inside (parseDomainName buf o) := parseDomainName_inside some_byte o
  unfold parseQuery
  split
  · refine name.bind fun r => ?_
    refine (inside_short _ _).bind fun r => ?_
    exact (inside_short _ _).bind fun r => inside_ok _
  · exact inside_rejected

theorem inside_answer (some_byte : buf ≠ []) (o : Nat) :
    Inside (parseAnswer buf o) := by
  have name : Inside (parseDomainName buf o) := parseDomainName_inside some_byte o
  unfold parseAnswer
  split
  · refine name.bind fun r => ?_
    refine (inside_short _ _).bind fun r => ?_
    refine (inside_short _ _).bind fun r => ?_
    refine (inside_int _ _).bind fun r => ?_
    refine (inside_short _ _).bind fun r => ?_
    refine (inside_upperBound _ _).bind fun r => ?_
    exact (inside_record some_byte _ _).bind fun r => inside_ok _
  · exact inside_rejected

theorem inside_many {α : Type} {parse : Nat → Reading (α × Nat)} (each : ∀ o, Inside (parse o))
    (n : Nat) : ∀ o, Inside (parseMany parse n o) := by
  induction n with
  | zero => exact fun o => inside_ok _
  | succ n ih =>
    intro o
    rw [parseMany]
    refine (each o).bind fun r => ?_
    exact (ih _).bind fun r => inside_ok _

theorem inside_packet (buf : Bytes) : Inside (parsePacket buf) := by
  unfold parsePacket
  split
  · exact inside_rejected
  · next long =>
      have some_byte : buf ≠ [] := by
        rintro rfl
        exact long (by decide)
      refine (inside_short _ _).bind fun r => ?_
      refine (inside_short _ _).bind fun r => ?_
      refine (inside_short _ _).bind fun r => ?_
      refine (inside_short _ _).bind fun r => ?_
      refine (inside_short _ _).bind fun r => ?_
      refine (inside_short _ _).bind fun r => ?_
      refine (inside_many (inside_query some_byte) _ _).bind fun r => ?_
      exact (inside_many (inside_answer some_byte) _ _).bind fun r => inside_ok _

/-! ## What is read of an element -/

theorem reading_bind {α β : Type} {x : Reading α} {f : α → Reading β} {b : β}
    (done : (x >>= f) = .ok b) : ∃ a, x = .ok a ∧ f a = .ok b := by
  cases x with
  | error e => cases done
  | ok a => exact ⟨a, rfl, done⟩

variable {o : Nat}

theorem parseQuery_ok {q : Query} (parsed : parseQuery buf o = .ok (q, n)) :
    ∃ f, parseDomainName buf o = .ok (q.name, f) ∧ n = f + 4 := by
  unfold parseQuery at parsed
  split at parsed
  · obtain ⟨⟨name, f⟩, here, parsed⟩ := reading_bind parsed
    obtain ⟨⟨rt, two⟩, short, parsed⟩ := reading_bind parsed
    obtain ⟨⟨rc, two'⟩, short', parsed⟩ := reading_bind parsed
    obtain ⟨rfl, -⟩ := parseUnsignedShort_ok short
    obtain ⟨rfl, -⟩ := parseUnsignedShort_ok short'
    cases parsed
    exact ⟨f, here, rfl⟩
  · cases parsed

theorem parseUnsignedInt_ok {x : UInt32} (parsed : parseUnsignedInt buf i = .ok (x, n)) : n =
    4 := by
  unfold parseUnsignedInt at parsed
  split at parsed
  · obtain ⟨b3, -, parsed⟩ := reading_bind parsed
    obtain ⟨b2, -, parsed⟩ := reading_bind parsed
    obtain ⟨b1, -, parsed⟩ := reading_bind parsed
    obtain ⟨b0, -, parsed⟩ := reading_bind parsed
    exact (Prod.mk.inj (Except.ok.inj parsed)).2.symm
  · cases parsed

variable {a : Answer}

/-- An answer is a name, ten bytes with the type first and RDLENGTH last, and what is read of the
record. -/
theorem parseAnswer_ok (parsed : parseAnswer buf o = .ok (a, n)) :
    ∃ f m, parseDomainName buf o = .ok (a.name, f) ∧ a.recordType.toNat = shortAt buf (o + f) ∧
      a.length.toNat = rdlength buf (o + f) ∧
      parseRecord buf (o + f + 10) a.recordType = .ok (a.record, m) ∧ n = f + 10 + m := by
  unfold parseAnswer at parsed
  split at parsed
  · obtain ⟨⟨name, f⟩, here, parsed⟩ := reading_bind parsed
    obtain ⟨⟨rt, two⟩, short, parsed⟩ := reading_bind parsed
    obtain ⟨⟨rc, two'⟩, short', parsed⟩ := reading_bind parsed
    obtain ⟨⟨ttl, four⟩, int, parsed⟩ := reading_bind parsed
    obtain ⟨⟨len, two''⟩, short'', parsed⟩ := reading_bind parsed
    obtain ⟨-, -, parsed⟩ := reading_bind parsed
    obtain ⟨⟨record, m⟩, data, parsed⟩ := reading_bind parsed
    obtain ⟨rfl, type⟩ := parseUnsignedShort_ok short
    obtain ⟨rfl, -⟩ := parseUnsignedShort_ok short'
    obtain rfl := parseUnsignedInt_ok int
    obtain ⟨rfl, length⟩ := parseUnsignedShort_ok short''
    cases parsed
    exact ⟨f, m, here, type, length, data, rfl⟩
  · cases parsed

theorem parseAddress_ok {size : Nat} {addr : Bytes}
    (parsed : parseAddress size buf i = .ok (addr, n)) : n = size := by
  unfold parseAddress at parsed
  split at parsed
  · obtain ⟨bytes, -, parsed⟩ := reading_bind parsed
    cases parsed
    rfl
  · cases parsed

/-- A name has one way through its fields. -/
theorem Path.unique {text text' : Bytes} {stops stops' : List Nat} (path : Path buf i text stops)
    (path' : Path buf i text' stops') :
    text = text' ∧ stops = stops' := by
  have apart : ∀ {stop target : Nat}, buf[stop]? = some 0 →
      pointerTarget buf stop ≠ some target := by
    intro stop target zero leads
    obtain ⟨b, here, pointer, -⟩ := pointerTarget_some leads
    rw [zero] at here
    cases here
    exact compressed_zero pointer
  induction path generalizing text' stops' with
  | last field zero =>
    cases path' with
    | last field' zero' =>
      rw [field] at field'
      cases field'
      exact ⟨rfl, rfl⟩
    | jump field' leads' back' rest' =>
      rw [field] at field'
      cases field'
      exact absurd leads' (apart zero)
  | jump field leads back rest ih =>
    cases path' with
    | last field' zero' =>
      rw [field] at field'
      cases field'
      exact absurd leads (apart zero')
    | jump field' leads' back' rest' =>
      rw [field] at field'
      cases field'
      rw [leads] at leads'
      cases leads'
      obtain ⟨rfl, rfl⟩ := ih rest'
      exact ⟨rfl, rfl⟩

theorem nameCounts_iff (some_byte : buf ≠ []) {m len : Nat} {name : Bytes}
    (parsed : parseDomainName buf i = .ok (name, m)) : m = len ↔ NameCounts buf i len := by
  obtain ⟨text, stops, path, -, -, rfl⟩ := (parseDomainName_ok_iff some_byte).mp parsed
  have further := path.count_gt
  constructor
  · rintro rfl
    exact ⟨text, stops, path, by omega⟩
  · rintro ⟨text', stops', path', count⟩
    obtain ⟨rfl, rfl⟩ := path.unique path'
    omega

/-- As many bytes are read of a record as RDLENGTH says exactly if its data fit. -/
theorem dataFits_iff (some_byte : buf ≠ []) {m : Nat} {rt : UInt16} {r : Record}
    (type : rt.toNat = shortAt buf i) (parsed : parseRecord buf (i + 10) rt = .ok (r, m)) :
    m = rdlength buf i ↔ DataFits buf i := by
  unfold DataFits
  rw [← type]
  unfold parseRecord parseARecord at parsed
  by_cases isA : rt = recordA
  · rw [isA] at parsed ⊢
    rw [if_pos (by decide), if_pos rfl] at parsed
    obtain ⟨⟨addr, size⟩, read, parsed⟩ := reading_bind parsed
    obtain rfl := parseAddress_ok read
    cases parsed
    simp [recordA, recordAaaa, recordCname, recordPtr, eq_comm]
  by_cases isAaaa : rt = recordAaaa
  · rw [isAaaa] at parsed ⊢
    rw [if_pos (by decide), if_neg (by decide), if_pos rfl] at parsed
    obtain ⟨⟨addr, size⟩, read, parsed⟩ := reading_bind parsed
    obtain rfl := parseAddress_ok read
    cases parsed
    simp [recordA, recordAaaa, recordCname, recordPtr, eq_comm]
  have noA : ¬ rt.toNat = recordA.toNat := fun same => isA (UInt16.toNat.inj same)
  have noAaaa : ¬ rt.toNat = recordAaaa.toNat := fun same => isAaaa (UInt16.toNat.inj same)
  have named : (rt = recordCname ∨ rt = recordPtr) ∧
      ∃ name, parseDomainName buf (i + 10) = .ok (name, m) := by
    rw [if_neg (by simp [isA, isAaaa])] at parsed
    split at parsed
    · next isCname =>
        obtain ⟨⟨name, n⟩, read, parsed⟩ := reading_bind parsed
        cases parsed
        exact ⟨.inl isCname, name, read⟩
    split at parsed
    · next isPtr =>
        obtain ⟨⟨name, n⟩, read, parsed⟩ := reading_bind parsed
        cases parsed
        exact ⟨.inr isPtr, name, read⟩
    · cases parsed
  obtain ⟨one, name, read⟩ := named
  have types : rt.toNat = recordCname.toNat ∨ rt.toNat = recordPtr.toNat :=
    one.imp (congrArg UInt16.toNat) (congrArg UInt16.toNat)
  rw [nameCounts_iff some_byte read]
  constructor
  · intro counts
    exact ⟨fun same => absurd same noA, fun same => absurd same noAaaa, fun _ => counts⟩
  · rintro ⟨-, -, counts⟩
    exact counts types

/-! ## One behind the other -/

theorem parseMany_succ {α : Type} {parse : Nat → Reading (α × Nat)} {stop : Nat} {xs : List α}
    (parsed : parseMany parse (n + 1) o = .ok (xs, stop)) :
    ∃ x m rest, parse o = .ok (x, m) ∧ parseMany parse n (o + m) = .ok (rest, stop) ∧
      xs = x :: rest := by
  rw [parseMany] at parsed
  obtain ⟨⟨x, m⟩, first, parsed⟩ := reading_bind parsed
  obtain ⟨⟨rest, stop'⟩, behind, parsed⟩ := reading_bind parsed
  cases parsed
  exact ⟨x, m, rest, first, behind, rfl⟩

/-- A question goes on behind its name field and four bytes exactly if its first field reaches
furthest. -/
theorem query_step (some_byte : buf ≠ []) {q : Query} (parsed : parseQuery buf o = .ok (q, n)) :
    (∃ f, fieldLength buf o = some f ∧ parseDomainName buf o = .ok (q.name, f) ∧ n = f + 4) ↔
      FirstReaches buf o := by
  obtain ⟨f, name, rfl⟩ := parseQuery_ok parsed
  rw [← firstReaches_iff some_byte name]
  constructor
  · rintro ⟨f', field, name', -⟩
    rw [name] at name'
    cases name'
    exact field
  · intro field
    exact ⟨f, field, name, rfl⟩

/-- The questions of a message -/
theorem questions_iff {buf : Bytes} (some_byte : buf ≠ []) {R : Nat → Prop} {good : Nat → Prop}
    {stop : Nat} (behind : R stop ↔ good stop) : ∀ (n o : Nat) {qs : List Query},
    parseMany (parseQuery buf) n o = .ok (qs, stop) →
      ((∃ e, Questions buf o qs e ∧ R e) ↔ GoodQuestions buf good n o)
  | 0, o, qs, parsed => by
    cases parsed
    constructor
    · rintro ⟨e, questions, rest⟩
      cases questions
      exact behind.mp rest
    · intro rest
      exact ⟨_, .nil, behind.mpr rest⟩
  | n + 1, o, qs, parsed => by
    obtain ⟨q, m, qs', first, others, rfl⟩ := parseMany_succ parsed
    have step := query_step some_byte first
    constructor
    · rintro ⟨e, questions, rest⟩
      cases questions with
      | @cons _ _ _ f _ field name whole more =>
        rw [first] at whole
        cases whole
        have front := step.mp ⟨f, field, name, rfl⟩
        refine ⟨front, fun f' field' => ?_⟩
        rw [field] at field'
        cases field'
        exact (questions_iff some_byte behind n _ others).mp ⟨e, more, rest⟩
    · rintro ⟨front, more⟩
      obtain ⟨f, field, name, rfl⟩ := step.mpr front
      obtain ⟨e, questions, rest⟩ :=
        (questions_iff some_byte behind n _ others).mpr (more f field)
      exact ⟨e, .cons field name first questions, rest⟩

/-- An answer goes on behind its name field, ten bytes and RDLENGTH exactly if its first field
reaches furthest and its data fit. -/
theorem answer_step (some_byte : buf ≠ []) (parsed : parseAnswer buf o = .ok (a, n)) :
    (∃ f, fieldLength buf o = some f ∧ parseDomainName buf o = .ok (a.name, f) ∧
        n = f + 10 + rdlength buf (o + f)) ↔
      FirstReaches buf o ∧ ∀ f, fieldLength buf o = some f → DataFits buf (o + f) := by
  obtain ⟨f, m, name, type, -, data, rfl⟩ := parseAnswer_ok parsed
  have fits := dataFits_iff some_byte type data
  rw [← firstReaches_iff some_byte name]
  constructor
  · rintro ⟨f', field, name', count⟩
    rw [name] at name'
    cases name'
    refine ⟨field, fun f' field' => ?_⟩
    rw [field] at field'
    cases field'
    exact fits.mp (by omega)
  · rintro ⟨field, all⟩
    exact ⟨f, field, name, by rw [fits.mpr (all f field)]⟩

theorem records_iff {buf : Bytes} (some_byte : buf ≠ []) : ∀ (n o : Nat) {as : List Answer}
    {stop : Nat}, parseMany (parseAnswer buf) n o = .ok (as, stop) →
      (Records buf o as ↔ GoodRecords buf n o)
  | 0, o, as, stop, parsed => by
    cases parsed
    exact iff_of_true .nil trivial
  | n + 1, o, as, stop, parsed => by
    obtain ⟨a, m, as', first, others, rfl⟩ := parseMany_succ parsed
    have step := answer_step some_byte first
    constructor
    · intro records
      cases records with
      | @cons _ _ _ f field name whole more =>
        rw [first] at whole
        cases whole
        obtain ⟨front, fits⟩ := step.mp ⟨f, field, name, rfl⟩
        refine ⟨front, fun f' field' => ⟨fits f' field', ?_⟩⟩
        rw [field] at field'
        cases field'
        exact (records_iff some_byte n _ others).mp more
    · rintro ⟨front, more⟩
      obtain ⟨f, field, name, rfl⟩ := step.mpr ⟨front, fun f field => (more f field).1⟩
      exact .cons field name first ((records_iff some_byte n _ others).mpr (more f field).2)

/-- A message that was read has the questions and the answers that its header says. -/
theorem parsePacket_ok {p : Packet} (parsed : parsePacket buf = .ok (p, n)) :
    buf ≠ [] ∧ ∃ stop,
      parseMany (parseQuery buf) (shortAt buf 4) dataOffset = .ok (p.queries, stop) ∧
      parseMany (parseAnswer buf) (shortAt buf 6) stop = .ok (p.answers, n) := by
  unfold parsePacket at parsed
  split at parsed
  · cases parsed
  next long =>
  obtain ⟨⟨id, k₁⟩, short₁, parsed⟩ := reading_bind parsed
  obtain ⟨⟨flags, k₂⟩, short₂, parsed⟩ := reading_bind parsed
  obtain ⟨⟨qd, k₃⟩, short₃, parsed⟩ := reading_bind parsed
  obtain ⟨⟨an, k₄⟩, short₄, parsed⟩ := reading_bind parsed
  obtain ⟨⟨ns, k₅⟩, short₅, parsed⟩ := reading_bind parsed
  obtain ⟨⟨ar, k₆⟩, short₆, parsed⟩ := reading_bind parsed
  obtain ⟨rfl, -⟩ := parseUnsignedShort_ok short₁
  obtain ⟨rfl, -⟩ := parseUnsignedShort_ok short₂
  obtain ⟨rfl, questions⟩ := parseUnsignedShort_ok short₃
  obtain ⟨rfl, answers⟩ := parseUnsignedShort_ok short₄
  obtain ⟨rfl, -⟩ := parseUnsignedShort_ok short₅
  obtain ⟨rfl, -⟩ := parseUnsignedShort_ok short₆
  obtain ⟨⟨qs, stop⟩, first, parsed⟩ := reading_bind parsed
  obtain ⟨⟨as, last⟩, second, parsed⟩ := reading_bind parsed
  cases parsed
  rw [← questions, ← answers]
  refine ⟨?_, stop, first, second⟩
  rintro rfl
  exact long (by decide)

/-- **Which messages are framed.** Nothing is read behind the end of a message. The answers of one
that is accepted are its records exactly if the first fields of its names reach furthest and the
data of its records are as long as they say. -/
theorem parsePacket_frames_iff (buf : Bytes) :
    parsePacket buf ≠ .error .overread ∧
      ∀ p n, parsePacket buf = .ok (p, n) → (Framed buf p ↔ GoodFraming buf) := by
  refine ⟨inside_packet buf, fun p n parsed => ?_⟩
  obtain ⟨some_byte, stop, questions, answers⟩ := parsePacket_ok parsed
  exact questions_iff some_byte (records_iff some_byte _ _ answers) _ _ questions

/-- A message with one answer: an address of the root, with these bytes as its data and this
RDLENGTH -/
def rootAnswer (length : UInt8) (data : Bytes) : Bytes :=
  [0, 7, 129, 128, 0, 0, 0, 1, 0, 0, 0, 0, 0, 0, 1, 0, 1, 0, 0, 0, 60, 0, length] ++ data

theorem root_field (length : UInt8) (data : Bytes) :
    nameField (rootAnswer length data) 12 = some ([], 12) :=
  nameField_stop rfl (.inl rfl)

theorem root_name (length : UInt8) (data : Bytes) :
    parseDomainName (rootAnswer length data) 12 = .ok ([dot], 1) := by
  have path : Path (rootAnswer length data) 12 [] [12] := .last (root_field length data) rfl
  have count : counted (rootAnswer length data) 12 [12] = 13 := rfl
  exact (parseDomainName_ok_iff path.some_byte).mpr ⟨_, _, path, by decide, rfl, by rw [count]⟩

theorem root_parsed {length : UInt8} {data : Bytes}
    (answer : parseAnswer (rootAnswer length data) 12 = .ok (a, 15)) :
    parsePacket (rootAnswer length data) = .ok (⟨7, 0x8180, [], [a]⟩, 27) := by
  show (parseMany (parseAnswer (rootAnswer length data)) 1 12 >>= fun r =>
    (.ok ((⟨7, 0x8180, [], r.1⟩ : Packet), r.2) : Reading (Packet × Nat))) = _
  rw [parseMany, answer]
  rfl

/-- An answer with the address 127.0.0.1 -/
def loopback (length : UInt16) : Answer :=
  ⟨[dot], recordA, classIn, 60, length, .a recordA [127, 0, 0, 1]⟩

theorem parsePacket_frames_root :
    Framed (rootAnswer 4 [127, 0, 0, 1]) ⟨7, 0x8180, [], [loopback 4]⟩ := by
  have answer : parseAnswer (rootAnswer 4 [127, 0, 0, 1]) 12 = .ok (loopback 4, 15) := by
    unfold parseAnswer
    rw [root_name]
    rfl
  have field : fieldLength (rootAnswer 4 [127, 0, 0, 1]) 12 = some 1 := by
    unfold fieldLength
    rw [root_field]
    rfl
  have some_byte : rootAnswer 4 [127, 0, 0, 1] ≠ [] := by decide
  refine ((parsePacket_frames_iff _).2 _ _ (root_parsed answer)).mpr ?_
  have first : FirstReaches (rootAnswer 4 [127, 0, 0, 1]) 12 :=
    (firstReaches_iff some_byte (root_name _ _)).mp field
  refine ⟨first, fun f length => ⟨?_, trivial⟩⟩
  rw [show dataOffset = 12 from rfl, field] at length
  cases length
  exact ⟨fun _ => rfl, fun type => absurd type (by decide), fun type => absurd type (by decide)⟩

/-- With an address of five bytes, the cursor stops one byte short of the end of the record. -/
theorem parsePacket_short :
    parsePacket (rootAnswer 5 [127, 0, 0, 1, 0]) = .ok (⟨7, 0x8180, [], [loopback 5]⟩, 27) ∧
      ¬ Framed (rootAnswer 5 [127, 0, 0, 1, 0]) ⟨7, 0x8180, [], [loopback 5]⟩ := by
  have answer : parseAnswer (rootAnswer 5 [127, 0, 0, 1, 0]) 12 = .ok (loopback 5, 15) := by
    unfold parseAnswer
    rw [root_name]
    rfl
  have field : fieldLength (rootAnswer 5 [127, 0, 0, 1, 0]) 12 = some 1 := by
    unfold fieldLength
    rw [root_field]
    rfl
  refine ⟨root_parsed answer, ?_⟩
  rintro ⟨stop, questions, records⟩
  cases questions
  cases records with
  | cons length name whole more =>
    rw [show dataOffset = 12 from rfl, field] at length
    cases length
    rw [show dataOffset = 12 from rfl, answer] at whole
    have count := congrArg Prod.snd (Except.ok.inj whole)
    exact absurd count (by decide)

end Nmap.Dns
