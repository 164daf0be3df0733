import Nmap.Base.GuardedUnion
import Nmap.Ports.PortSpec

/-!
# What a port expression denotes

An expression is meant as the union of its items. Masks are added whatever is in the table,
but a range leaves a number out when it is there for any protocol of the restriction, and so
can miss the other ones. `ports_denoted_iff` says when the lists are the union.
-/

namespace Nmap.Ports.PortSpec

open Nmap.Base Nmap.Ports List Function

/-! ## What an item denotes -/

/-- Does the mask stand for this number? -/
def Tables.masked (T : Tables) (mask : Bytes) (port : Nat) : Proto → Bool
  | .ip =>
    match T.protocols.find? (fun p => p.name = mask) with
    | some p => p.proto.toNat = port
    | none => T.protocols.any fun p => wildtest mask p.name && p.proto.toNat = port
  | proto => T.services.any fun s =>
    wildtest mask (s.name.getD unknownName) && s.port.toNat = port && s.proto = proto

/-- What is asked for, before the restriction and the brackets -/
def Item.covers (T : Tables) (port : Nat) (proto : Proto) : Item → Bool
  | .range rangestart rangeend => rangestart ≤ port && port ≤ rangeend
  | .mask servmask => T.masked servmask port proto

/-- The numbers an item denotes under its restriction, in brackets those of the tables only -/
def Entry.denotes (T : Tables) (e : Entry) (port : Nat) (proto : Proto) : Prop :=
  proto ∈ e.restriction ∧ (e.nested = true → T.known port proto = true) ∧
    e.item.covers T port proto = true

instance (T : Tables) (e : Entry) (port : Nat) : DecidablePred (e.denotes T port) := fun proto =>
  inferInstanceAs (Decidable (proto ∈ e.restriction ∧
    (e.nested = true → T.known port proto = true) ∧ e.item.covers T port proto = true))

/-- Collect the items of an expression. -/
def collectItem (es : List Entry) (e : Entry) : Except Fault (List Entry) := .ok (es ++ [e])

def items (protocols : Finset Proto) (text : Bytes) : Except Fault (List Entry) :=
  scanExpr collectItem true (text.length + 1) false protocols text []

/-! ## The table and the items -/

/-- A restriction is the initial one or a single protocol. -/
def Restricted (protocols restriction : Finset Proto) : Prop :=
  restriction = protocols ∨ ∃ proto, restriction = {proto}

/-- Numbers are within what the restriction allows. -/
def Entry.Bounded (e : Entry) : Prop :=
  ∀ rangestart rangeend, e.item = .range rangestart rangeend →
    rangeend ≤ maxNumber e.restriction

/-- A restriction is a single protocol, and a range ends within the bounds. -/
def Turn.Fits (restriction : Finset Proto) : Turn → Prop
  | .restrict restriction' _ => ∃ proto, restriction' = {proto}
  | .item (.range _ rangeend) _ => rangeend ≤ maxNumber restriction
  | _ => True

variable {restriction : Finset Proto}

theorem readProtocol_single {c : UInt8} (read : readProtocol c = .ok restriction) :
    ∃ proto, restriction = {proto} := by
  unfold readProtocol at read
  repeat' split at read
  all_goals cases read
  all_goals exact ⟨_, rfl⟩

variable {text rest : Bytes} {n : Nat}

theorem readNumber_bounded (read : readNumber restriction text = .ok (n, rest)) :
    n ≤ maxNumber restriction := by
  unfold readNumber at read
  dsimp only at read
  split at read
  · cases read
  · cases read
    omega

variable {changeRangeType : Bool}

theorem readLast_bounded (read : readLast changeRangeType restriction text = .ok (n, rest)) :
    n ≤ maxNumber restriction := by
  unfold readLast at read
  split at read
  · cases read
    exact Nat.le_refl _
  · split at read
    · exact readNumber_bounded read
    · cases read

variable {rangestart : Nat}

theorem readRangeEnd_bounded {rangeend : Nat} (start : rangestart ≤ maxNumber restriction)
    (read : readRangeEnd changeRangeType restriction rangestart text = .ok (rangeend, rest)) :
    rangeend ≤ maxNumber restriction := by
  cases text with
  | nil =>
    cases read
    exact start
  | cons c text =>
    unfold readRangeEnd at read
    dsimp only at read
    split at read
    · cases read
      exact start
    · split at read
      · obtain ⟨⟨n, left⟩, last, check⟩ := bind_eq_ok read
        dsimp only at check
        split at check
        · cases check
        · cases check
          exact readLast_bounded last
      · cases read

variable {nested : Bool}

theorem readRange_fits {turn : Turn} (start : rangestart ≤ maxNumber restriction)
    (read : readRange nested changeRangeType restriction rangestart text = .ok turn) :
    turn.Fits restriction := by
  obtain ⟨⟨rangeend, text'⟩, ends, read⟩ := bind_eq_ok read
  obtain ⟨after, -, read⟩ := bind_eq_ok read
  cases read
  exact readRangeEnd_bounded start ends

theorem readTurn_fits {turn : Turn}
    (read : readTurn nested changeRangeType restriction text = .ok turn) :
    turn.Fits restriction := by
  unfold readTurn at read
  split at read
  · cases read
  · next c tail eq =>
      split at read
      · obtain ⟨restriction', protocol, read⟩ := bind_eq_ok read
        cases read
        exact readProtocol_single protocol
      · split at read
        · split at read
          · cases read
          · cases read
            trivial
        · split at read
          · split at read
            · cases read
              trivial
            · cases read
          · split at read
            · refine readRange_fits ?_ read
              unfold maxNumber
              split <;> decide
            · split at read
              · obtain ⟨⟨n, text'⟩, number, read⟩ := bind_eq_ok read
                exact readRange_fits (readNumber_bounded number) read
              · split at read
                · dsimp only at read
                  split at read
                  · cases read
                  · cases read
                    trivial
                · cases read

variable {σ : Type} {add : σ → Entry → Except Fault σ} {protocols : Finset Proto}

/-- A run over an expression is a run over its items. -/
theorem scanExpr_items {fuel : Nat} {s t : σ} (restricted : Restricted protocols restriction)
    (run : scanExpr add changeRangeType fuel nested restriction text s = .ok t) :
    ∃ es, (∀ front, scanExpr collectItem changeRangeType fuel nested restriction text front =
        .ok (front ++ es)) ∧ es.foldlM add s = .ok t ∧
      ∀ e ∈ es, Restricted protocols e.restriction ∧ e.Bounded := by
  induction fuel generalizing changeRangeType nested restriction text s t with
  | zero =>
    cases run
    exact ⟨[], fun front => by rw [append_nil]; rfl, rfl, fun e mem => by cases mem⟩
  | succ fuel ih =>
    -- the rest of the text, read in the next turn if there is any
    have next : ∀ {restriction : Finset Proto} {rest : Bytes} {s t : σ},
        Restricted protocols restriction →
        (if rest.isEmpty then .ok s
          else scanExpr add changeRangeType fuel nested restriction rest s) = .ok t →
        ∃ es, (∀ front, (if rest.isEmpty then .ok front
            else scanExpr collectItem changeRangeType fuel nested restriction rest front) =
            .ok (front ++ es)) ∧ es.foldlM add s = .ok t ∧
          ∀ e ∈ es, Restricted protocols e.restriction ∧ e.Bounded := by
      intro restriction rest s t restricted run
      split at run
      · next empty =>
          cases run
          refine ⟨[], fun front => ?_, rfl, fun e mem => by cases mem⟩
          rw [if_pos empty, append_nil]
      · next some =>
          obtain ⟨es, collected, rest⟩ := ih restricted run
          refine ⟨es, fun front => ?_, rest⟩
          rw [if_neg some]
          exact collected front
    rw [scanExpr] at run
    obtain ⟨turn, read, run⟩ := bind_eq_ok run
    have fits := readTurn_fits read
    cases turn with
    | restrict restriction' rest =>
      obtain ⟨es, collected, folded, fine⟩ := next (.inr fits) run
      refine ⟨es, fun front => ?_, folded, fine⟩
      rw [scanExpr, read]
      exact collected front
    | close =>
      cases run
      refine ⟨[], fun front => ?_, rfl, fun e mem => by cases mem⟩
      rw [scanExpr, read, append_nil]
      rfl
    | bracket inside =>
      obtain ⟨s', inner, run⟩ := bind_eq_ok run
      obtain ⟨es, collected, folded, fine⟩ := ih restricted inner
      obtain ⟨es', collected', folded', fine'⟩ := next restricted run
      refine ⟨es ++ es', fun front => ?_, ?_, fun e mem => ?_⟩
      · rw [scanExpr, read, ← append_assoc, ← collected']
        show (scanExpr collectItem true fuel true restriction inside front >>= _) = _
        rw [collected]
        rfl
      · rw [foldlM_append, folded]
        exact folded'
      · exact (mem_append.mp mem).elim (fine e) (fine' e)
    | item item rest =>
      obtain ⟨s', added, run⟩ := bind_eq_ok run
      have here : Entry.Bounded ⟨restriction, nested, item⟩ := by
        rintro rangestart rangeend rfl
        exact fits
      cases rest with
      | none =>
        cases run
        refine ⟨[⟨restriction, nested, item⟩], fun front => ?_, ?_, fun e mem => ?_⟩
        · rw [scanExpr, read]
          rfl
        · rw [foldlM_cons, added]
          rfl
        · rw [mem_singleton.mp mem]
          exact ⟨restricted, here⟩
      | some rest =>
        obtain ⟨es, collected, folded, fine⟩ := next restricted run
        refine ⟨⟨restriction, nested, item⟩ :: es, fun front => ?_, ?_, fun e mem => ?_⟩
        · rw [scanExpr, read, ← singleton_append, ← append_assoc, ← collected]
          rfl
        · rw [foldlM_cons, added]
          exact folded
        · rcases mem_cons.mp mem with rfl | later
          · exact ⟨restricted, here⟩
          · exact fine e later

/-! ## One number of the table -/

def Entry.at (T : Tables) (port : Nat) (e : Entry) : Guarded Proto where
  guarded := match e.item with
    | .range _ _ => true
    | .mask _ => false
  scope := e.restriction
  items := e.restriction.filter (e.denotes T port)
  inScope := Finset.filter_subset _ _

variable {T : Tables} {port : Nat} {proto : Proto}

theorem Entry.mem_at {e : Entry} :
    proto ∈ (e.at T port).items ↔ e.denotes T port proto := by
  rw [Entry.at, Finset.mem_filter]
  exact ⟨fun h => h.2, fun h => ⟨h.1, h⟩⟩

/-- The protocols of a number after a range that has it -/
def numberAfter (T : Tables) (nested : Bool) (restriction : Finset Proto) (port : Nat)
    (old : Finset Proto) : Finset Proto :=
  if (old ∩ restriction).Nonempty then old
  else old ∪ restriction.filter fun proto => nested = true → T.known port proto = true

theorem addNumber_self (T : Tables) (nested : Bool) (restriction : Finset Proto)
    (table : PortTable) (port : Nat) :
    addNumber T nested restriction table port port =
      numberAfter T nested restriction port (table port) := by
  unfold addNumber numberAfter
  by_cases there : (table port ∩ restriction).Nonempty
  · rw [if_pos there, if_pos there]
  · rw [if_neg there, if_neg there]
    cases nested with
    | true =>
      rw [if_pos rfl, update_self]
      simp only [true_imp_iff]
    | false =>
      rw [if_neg Bool.false_ne_true, update_self]
      simp only [Bool.false_eq_true, false_imp_iff, Finset.filter_true]

theorem addNumber_of_ne (T : Tables) (nested : Bool) (restriction : Finset Proto)
    (table : PortTable) (other : port ≠ n) :
    addNumber T nested restriction table n port = table port := by
  unfold addNumber
  split
  · rfl
  · split
    · exact update_of_ne other _ _
    · exact update_of_ne other _ _

theorem addRange_apply (T : Tables) (nested : Bool) (restriction : Finset Proto)
    (table : PortTable) (start count port : Nat) :
    (List.range' start count).foldl (addNumber T nested restriction) table port =
      if start ≤ port ∧ port < start + count then
        numberAfter T nested restriction port (table port)
      else table port := by
  induction count generalizing start table with
  | zero =>
    rw [if_neg (by omega)]
    rfl
  | succ count ih =>
    rw [List.range'_succ, foldl_cons, ih]
    by_cases here : port = start
    · subst here
      rw [if_neg (by omega), if_pos (by omega), addNumber_self]
    · have same : (start + 1 ≤ port ∧ port < start + 1 + count) ↔
          start ≤ port ∧ port < start + (count + 1) := by omega
      rw [addNumber_of_ne T nested restriction table here]
      simp only [same]

variable {table : PortTable}

theorem mem_add {p : Proto} :
    proto ∈ table.add n p port ↔ proto ∈ table port ∨ (n = port ∧ p = proto) := by
  unfold PortTable.add
  by_cases same : port = n
  · subst same
    rw [update_self, Finset.mem_insert]
    constructor
    · rintro (rfl | old)
      · exact .inr ⟨rfl, rfl⟩
      · exact .inl old
    · rintro (old | ⟨-, rfl⟩)
      · exact .inr old
      · exact .inl rfl
  · rw [update_of_ne same]
    exact ⟨.inl, fun h => h.resolve_right fun both => same both.1.symm⟩

theorem mem_foldl_add {α : Type} (selected : α → Bool) (number : α → Nat) (protocol : α → Proto)
    (xs : List α) (table : PortTable) (t : Nat) (port : Nat) (proto : Proto) :
    proto ∈ (xs.foldl (fun (acc : PortTable × Nat) x =>
        if selected x then (acc.1.add (number x) (protocol x), acc.2 + 1) else (acc.1, acc.2))
        (table, t)).1 port ↔
      proto ∈ table port ∨ ∃ x ∈ xs, selected x = true ∧ number x = port ∧ protocol x = proto := by
  induction xs generalizing table t with
  | nil => simp
  | cons x xs ih =>
    rw [foldl_cons]
    by_cases picked : selected x = true
    · rw [if_pos picked, ih, mem_add]
      simp only [mem_cons, exists_eq_or_imp, picked, true_and]
      tauto
    · rw [if_neg picked, ih]
      simp [picked]

variable {mask : Bytes}

/-- A mask adds the services it stands for. -/
theorem mem_addPortsFromServMask :
    proto ∈ (addPortsFromServMask T mask restriction table).1 port ↔
      proto ∈ table port ∨
        (proto ≠ .ip ∧ proto ∈ restriction ∧ T.masked mask port proto = true) := by
  unfold addPortsFromServMask
  refine (mem_foldl_add (·.selected mask restriction) (·.port.toNat) (·.proto) T.services table 0
    port proto).trans (or_congr_right ?_)
  constructor
  · rintro ⟨s, mem, picked, rfl, rfl⟩
    obtain ⟨matched, allowed⟩ := Bool.and_eq_true_iff.mp picked
    refine ⟨s.transport, of_decide_eq_true allowed, ?_⟩
    have found : (T.services.any fun r => wildtest mask (r.name.getD unknownName) &&
        r.port.toNat = s.port.toNat && r.proto = s.proto) = true :=
      any_eq_true.mpr ⟨s, mem, by simp [matched]⟩
    cases eq : s.proto with
    | ip => exact absurd eq s.transport
    | tcp => rw [eq] at found; exact found
    | udp => rw [eq] at found; exact found
    | sctp => rw [eq] at found; exact found
  · rintro ⟨transport, allowed, masked⟩
    have found : (T.services.any fun r => wildtest mask (r.name.getD unknownName) &&
        r.port.toNat = port && r.proto = proto) = true := by
      cases proto with
      | ip => exact absurd rfl transport
      | tcp => exact masked
      | udp => exact masked
      | sctp => exact masked
    obtain ⟨s, mem, fits⟩ := any_eq_true.mp found
    simp only [Bool.and_eq_true, decide_eq_true_eq] at fits
    obtain ⟨⟨matched, number⟩, rfl⟩ := fits
    exact ⟨s, mem, by simp [ServiceNode.selected, matched, allowed], number, rfl⟩

/-- A mask adds the protocols it stands for. -/
theorem mem_addProtocolsFromServMask :
    proto ∈ (addProtocolsFromServMask T mask table).1 port ↔
      proto ∈ table port ∨ (proto = .ip ∧ T.masked mask port proto = true) := by
  unfold addProtocolsFromServMask
  cases find : T.protocols.find? (fun p => p.name = mask) with
  | some p =>
    refine mem_add.trans (or_congr_right ?_)
    constructor
    · rintro ⟨rfl, rfl⟩
      exact ⟨rfl, by simp [Tables.masked, find]⟩
    · rintro ⟨rfl, masked⟩
      rw [Tables.masked, find] at masked
      exact ⟨of_decide_eq_true masked, rfl⟩
  | none =>
    refine (mem_foldl_add (wildtest mask ·.name) (·.proto.toNat) (fun _ => .ip) T.protocols
      table 0 port proto).trans (or_congr_right ?_)
    constructor
    · rintro ⟨p, mem, matched, rfl, rfl⟩
      refine ⟨rfl, ?_⟩
      rw [Tables.masked, find]
      exact any_eq_true.mpr ⟨p, mem, by simp [matched]⟩
    · rintro ⟨rfl, masked⟩
      rw [Tables.masked, find] at masked
      obtain ⟨p, mem, fits⟩ := any_eq_true.mp masked
      obtain ⟨matched, number⟩ := Bool.and_eq_true_iff.mp fits
      exact ⟨p, mem, matched, of_decide_eq_true number, rfl⟩

theorem known_of_masked (masked : T.masked mask port proto = true) : T.known port proto = true := by
  have service : (T.services.any fun s => wildtest mask (s.name.getD unknownName) &&
      s.port.toNat = port && s.proto = proto) = true →
      (T.services.any fun s => s.port.toNat = port && s.proto = proto) = true := by
    intro found
    obtain ⟨s, mem, fits⟩ := any_eq_true.mp found
    rw [Bool.and_assoc, Bool.and_eq_true] at fits
    exact any_eq_true.mpr ⟨s, mem, fits.2⟩
  cases proto with
  | tcp => exact service masked
  | udp => exact service masked
  | sctp => exact service masked
  | ip =>
    apply any_eq_true.mpr
    unfold Tables.masked at masked
    dsimp only at masked
    split at masked
    · next p find => exact ⟨p, mem_of_find?_eq_some find, masked⟩
    · obtain ⟨p, mem, fits⟩ := any_eq_true.mp masked
      exact ⟨p, mem, (Bool.and_eq_true_iff.mp fits).2⟩

variable {table' : PortTable}

/-- A mask adds what it denotes. -/
theorem addMask_apply {servmask : Bytes}
    (added : addEntry T table ⟨restriction, nested, .mask servmask⟩ = .ok table') :
    proto ∈ table' port ↔
      proto ∈ table port ∨ Entry.denotes T ⟨restriction, nested, .mask servmask⟩ port proto := by
  have denotes : Entry.denotes T ⟨restriction, nested, .mask servmask⟩ port proto ↔
      proto ∈ restriction ∧ T.masked servmask port proto = true :=
    ⟨fun h => ⟨h.1, h.2.2⟩, fun h => ⟨h.1, fun _ => known_of_masked h.2, h.2⟩⟩
  rw [denotes]
  unfold addEntry at added
  dsimp only at added
  by_cases ip : Proto.ip ∈ restriction
  · rw [if_pos ip] at added
    split at added
    · cases added
    · cases added
      rw [mem_addProtocolsFromServMask, mem_addPortsFromServMask, or_assoc]
      refine or_congr_right ⟨?_, fun h => ?_⟩
      · rintro (⟨-, allowed, masked⟩ | ⟨rfl, masked⟩)
        · exact ⟨allowed, masked⟩
        · exact ⟨ip, masked⟩
      · by_cases isIp : proto = .ip
        · exact .inr ⟨isIp, h.2⟩
        · exact .inl ⟨isIp, h⟩
  · rw [if_neg ip] at added
    split at added
    · cases added
    · cases added
      rw [mem_addPortsFromServMask]
      refine or_congr_right ⟨fun h => h.2, fun h => ⟨?_, h⟩⟩
      rintro rfl
      exact ip h.1

/-- A range adds what it denotes, where nothing of its restriction is there. -/
theorem addRangeEntry_apply {rangeend : Nat} (port : Nat) :
    (List.range' rangestart (rangeend + 1 - rangestart)).foldl
        (addNumber T nested restriction) table port =
      Guarded.collect (table port)
        (Entry.at T port ⟨restriction, nested, .range rangestart rangeend⟩) := by
  rw [addRange_apply]
  show _ = if true && decide (table port ∩ restriction).Nonempty then table port
    else table port ∪ restriction.filter _
  rw [Bool.true_and]
  by_cases inside : rangestart ≤ port ∧ port ≤ rangeend
  · rw [if_pos (by omega)]
    unfold numberAfter
    by_cases there : (table port ∩ restriction).Nonempty
    · rw [if_pos there, if_pos (decide_eq_true there)]
    · rw [if_neg there, if_neg (by simpa using there)]
      congr 1
      apply Finset.filter_congr
      intro proto allowed
      have covers : Item.covers T port proto (.range rangestart rangeend) = true := by
        simp [Item.covers, inside]
      exact ⟨fun h => ⟨allowed, h, covers⟩, fun h => h.2.1⟩
  · rw [if_neg (by omega)]
    have none : restriction.filter
        (Entry.denotes T ⟨restriction, nested, .range rangestart rangeend⟩ port) = ∅ := by
      rw [Finset.filter_eq_empty_iff]
      intro proto _ denoted
      have covers := denoted.2.2
      simp only [Item.covers, Bool.and_eq_true, decide_eq_true_eq] at covers
      exact inside covers
    rw [none, Finset.union_empty, ite_self]

theorem addEntry_apply {e : Entry} (added : addEntry T table e = .ok table') (port : Nat) :
    table' port = Guarded.collect (table port) (e.at T port) := by
  obtain ⟨restriction, nested, item⟩ := e
  cases item with
  | range rangestart rangeend =>
    cases added
    exact addRangeEntry_apply port
  | mask servmask =>
    ext proto
    rw [addMask_apply added]
    show _ ↔ proto ∈ table port ∪ _
    rw [Finset.mem_union, Entry.mem_at]

theorem addEntries_apply {es : List Entry} (added : es.foldlM (addEntry T) table = .ok table')
    (port : Nat) :
    table' port = Guarded.collectAll (table port) (es.map (Entry.at T port)) := by
  induction es generalizing table with
  | nil =>
    cases added
    rfl
  | cons e es ih =>
    rw [foldlM_cons] at added
    obtain ⟨middle, first, rest⟩ := bind_eq_ok added
    rw [ih rest, addEntry_apply first]
    rfl

/-! ## The lists -/

/-- An expression leaves out a number for a protocol: the first item that denotes it is a range
under a restriction for which an earlier item denotes the number, and so are all later ones
ranges under several protocols. -/
def Overlooked (T : Tables) (es : List Entry) (port : Nat) (proto : Proto) : Prop :=
  ∃ before e after, es = before ++ e :: after ∧ e.denotes T port proto ∧
    (∀ d ∈ before, ¬ d.denotes T port proto) ∧ (e.at T port).guarded = true ∧
    (∃ d ∈ before, ∃ other ∈ e.restriction, d.denotes T port other) ∧
    ∀ d ∈ after, d.denotes T port proto →
      (d.at T port).guarded = true ∧ 1 < d.restriction.card

theorem lost_iff {es : List Entry} :
    Guarded.Lost (es.map (Entry.at T port)) proto ↔ Overlooked T es port proto := by
  constructor
  · rintro ⟨before, g, after, eq, item, first, guarded, ⟨h, hmem, y, hy, scope⟩, held⟩
    obtain ⟨front, back, rfl, rfl, back_eq⟩ := map_eq_append_iff.mp eq
    obtain ⟨e, rest, rfl, rfl, rfl⟩ := map_eq_cons_iff.mp back_eq
    refine ⟨front, e, rest, rfl, Entry.mem_at.mp item, ?_, guarded, ?_, ?_⟩
    · intro d mem denoted
      exact first _ (mem_map_of_mem mem) (Entry.mem_at.mpr denoted)
    · obtain ⟨d, mem, rfl⟩ := mem_map.mp hmem
      exact ⟨d, mem, y, scope, Entry.mem_at.mp hy⟩
    · intro d mem denoted
      exact held _ (mem_map_of_mem mem) (Entry.mem_at.mpr denoted)
  · rintro ⟨before, e, after, rfl, denoted, first, guarded, ⟨d, mem, other, scope, there⟩, held⟩
    refine ⟨before.map (Entry.at T port), e.at T port, after.map (Entry.at T port),
      by rw [map_append, map_cons], Entry.mem_at.mpr denoted, ?_, guarded, ?_, ?_⟩
    · intro g gmem item
      obtain ⟨d, mem, rfl⟩ := mem_map.mp gmem
      exact first d mem (Entry.mem_at.mp item)
    · exact ⟨d.at T port, mem_map_of_mem mem, other, Entry.mem_at.mpr there, scope⟩
    · intro g gmem item
      obtain ⟨d, mem, rfl⟩ := mem_map.mp gmem
      exact held d mem (Entry.mem_at.mp item)

theorem maxNumber_le (restriction : Finset Proto) : maxNumber restriction ≤ 65535 := by
  unfold maxNumber
  split <;> decide

theorem masked_bounded (masked : T.masked mask port proto = true) : port < 65536 ∧
    (proto = .ip → port ≤ 255) := by
  have known := known_of_masked masked
  have service : (T.services.any fun s => s.port.toNat = port && s.proto = proto) = true →
      port < 65536 := by
    intro found
    obtain ⟨s, -, fits⟩ := any_eq_true.mp found
    rw [← of_decide_eq_true (Bool.and_eq_true_iff.mp fits).1]
    exact s.port.toNat_lt
  cases proto with
  | tcp => exact ⟨service known, fun h => by cases h⟩
  | udp => exact ⟨service known, fun h => by cases h⟩
  | sctp => exact ⟨service known, fun h => by cases h⟩
  | ip =>
    obtain ⟨p, -, number⟩ := any_eq_true.mp known
    have small := p.proto.toNat_lt
    rw [of_decide_eq_true number] at small
    exact ⟨by omega, fun _ => by omega⟩

theorem Entry.Bounded.denoted {T : Tables} {e : Entry} {port : Nat} {proto : Proto}
    (bounded : e.Bounded) (denoted : e.denotes T port proto) :
    port < 65536 ∧ (proto = .ip → port ≤ 255) := by
  obtain ⟨allowed, -, covers⟩ := denoted
  cases eq : e.item with
  | range rangestart rangeend =>
    rw [eq] at covers
    simp only [Item.covers, Bool.and_eq_true, decide_eq_true_eq] at covers
    have le := covers.2.trans (bounded rangestart rangeend eq)
    refine ⟨Nat.lt_succ_of_le (le.trans (maxNumber_le _)), ?_⟩
    rintro rfl
    rwa [maxNumber, if_pos allowed] at le
  | mask servmask =>
    rw [eq] at covers
    exact masked_bounded covers

theorem mem_scanLists :
    port ∈ table.scanLists.ports proto ↔
      (port < 65536 ∧ (proto = .ip → port ≤ 255)) ∧ proto ∈ table port := by
  unfold PortTable.scanLists ScanLists.ports
  generalize 65536 = count
  cases proto with
  | tcp | udp | sctp => simp
  | ip => simp [and_left_comm, and_comm]

variable {protocols : Finset Proto}

theorem getpts_items {text : CString} {lists : ScanLists}
    (accepted : getpts T protocols text = .ok lists) :
    ∃ es, items protocols text.bytes = .ok es ∧
      (∀ e ∈ es, Restricted protocols e.restriction) ∧
      ∀ port proto, port ∈ lists.ports proto ↔
        proto ∈ Guarded.collectAll ∅ (es.map (Entry.at T port)) := by
  obtain ⟨table, scanned, accepted⟩ := bind_eq_ok accepted
  generalize eq : table.scanLists = ports at accepted
  dsimp only at accepted
  split at accepted
  · cases accepted
  · rw [← Except.ok.inj accepted, ← eq]
    obtain ⟨es, collected, folded, fine⟩ := scanExpr_items (.inl rfl) scanned
    refine ⟨es, collected [], fun e mem => (fine e mem).1, fun port proto => ?_⟩
    rw [mem_scanLists, addEntries_apply folded]
    refine ⟨fun h => h.2, fun mem => ⟨?_, mem⟩⟩
    obtain ⟨g, gmem, item⟩ := (Guarded.mem_collectAll mem).resolve_left (Finset.notMem_empty _)
    obtain ⟨e, emem, rfl⟩ := mem_map.mp gmem
    exact (fine e emem).2.denoted (Entry.mem_at.mp item)

theorem mem_lists_iff {text : CString} {lists : ScanLists}
    (accepted : getpts T protocols text = .ok lists) :
    ∃ es, items protocols text.bytes = .ok es ∧
      ∀ port proto, port ∈ lists.ports proto ↔
        (∃ e ∈ es, e.denotes T port proto) ∧ ¬ Overlooked T es port proto := by
  obtain ⟨es, parsed, restricted, mem⟩ := getpts_items accepted
  refine ⟨es, parsed, fun port proto => ?_⟩
  have scopes : Guarded.Scoped protocols (es.map (Entry.at T port)) := by
    intro g gmem
    obtain ⟨e, emem, rfl⟩ := mem_map.mp gmem
    exact restricted e emem
  rw [mem, Guarded.mem_collect_iff scopes, lost_iff]
  refine and_congr_left fun _ => ⟨?_, ?_⟩
  · rintro ⟨g, gmem, item⟩
    obtain ⟨e, emem, rfl⟩ := mem_map.mp gmem
    exact ⟨e, emem, Entry.mem_at.mp item⟩
  · rintro ⟨e, emem, denoted⟩
    exact ⟨e.at T port, mem_map_of_mem emem, Entry.mem_at.mpr denoted⟩

/-- **Port expressions as unions**: of every accepted expression the lists have exactly what
its items denote when, and only when, no item is overlooked. -/
theorem ports_denoted_iff {T : Tables} {protocols : Finset Proto} {text : CString}
    {lists : ScanLists} (accepted : getpts T protocols text = .ok lists) :
    ∃ es, items protocols text.bytes = .ok es ∧
      ((∀ port proto, port ∈ lists.ports proto ↔ ∃ e ∈ es, e.denotes T port proto) ↔
        ∀ port proto, ¬ Overlooked T es port proto) := by
  obtain ⟨es, parsed, mem⟩ := mem_lists_iff accepted
  refine ⟨es, parsed, fun union port proto overlooked => ?_, fun none port proto => ?_⟩
  · obtain ⟨before, e, after, rfl, denoted, -⟩ := id overlooked
    have listed := (union port proto).mpr ⟨e, by simp, denoted⟩
    exact ((mem port proto).mp listed).2 overlooked
  · rw [mem]
    exact and_iff_left (none port proto)

theorem ScanLists.some_ports {lists : ScanLists} (some : port ∈ lists.ports proto) :
    lists.tcpPorts.length + lists.udpPorts.length + lists.sctpPorts.length +
      lists.prots.length ≠ 0 := by
  have positive := length_pos_of_mem some
  cases proto <;> unfold ScanLists.ports at positive <;> dsimp only at positive <;> omega

theorem getpts_of_table {text : CString}
    (scanned : getptsAux T true text.bytes protocols = .ok table)
    (some : port ∈ table.scanLists.ports proto) :
    getpts T protocols text = .ok table.scanLists := by
  unfold getpts
  rw [scanned]
  exact if_neg fun none => ScanLists.some_ports some none.2

/-- A services file in which `domain` is known for UDP only -/
def udpDomain : Tables where
  services := [⟨some (ascii "domain"), 53, .udp, by decide⟩]
  protocols := []

/-- The name of a service and its number -/
def nameFirst : CString := ⟨ascii "domain,53", by decide⟩

def numberFirst : CString := ⟨ascii "53,domain", by decide⟩

/-- The table of an expression for TCP and UDP -/
def tableOf (text : CString) : PortTable :=
  match getptsAux udpDomain true text.bytes {.tcp, .udp} with
  | .ok table => table
  | .error _ => fun _ => ∅

theorem getpts_tableOf (text : CString)
    (scanned : getptsAux udpDomain true text.bytes {.tcp, .udp} = .ok (tableOf text))
    (udp : .udp ∈ tableOf text 53) :
    getpts udpDomain {.tcp, .udp} text = .ok (tableOf text).scanLists := by
  have there : 53 ∈ (tableOf text).scanLists.ports .udp :=
    mem_scanLists.mpr ⟨⟨by omega, fun h => by cases h⟩, udp⟩
  exact getpts_of_table scanned there

/-- With the number first, TCP is there as well. -/
theorem ports_denoted_numberFirst : ∃ lists,
    getpts udpDomain {.tcp, .udp} numberFirst = .ok lists ∧ 53 ∈ lists.ports .tcp ∧
      ∃ es, items {.tcp, .udp} numberFirst.bytes = .ok es ∧
        ((∀ port proto, port ∈ lists.ports proto ↔ ∃ e ∈ es, e.denotes udpDomain port proto) ↔
          ∀ port proto, ¬ Overlooked udpDomain es port proto) := by
  have accepted := getpts_tableOf numberFirst rfl (by decide)
  refine ⟨_, accepted, mem_scanLists.mpr ⟨⟨by omega, fun h => by cases h⟩, by decide⟩, ?_⟩
  exact ports_denoted_iff accepted

/-- After its name, port 53 is taken for a duplicate, and TCP is missing. -/
theorem name_hides_number : ∃ lists,
    getpts udpDomain {.tcp, .udp} nameFirst = .ok lists ∧ 53 ∉ lists.ports .tcp ∧
      ∃ es, items {.tcp, .udp} nameFirst.bytes = .ok es ∧
        ∃ e ∈ es, e.denotes udpDomain 53 .tcp := by
  have accepted := getpts_tableOf nameFirst rfl (by decide)
  refine ⟨_, accepted, fun there => ?_, _, rfl, ⟨{.tcp, .udp}, false, .range 53 53⟩, ?_, ?_⟩
  · exact absurd (mem_scanLists.mp there).2 (by decide)
  · decide
  · decide

end Nmap.Ports.PortSpec
