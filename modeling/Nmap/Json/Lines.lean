import Nmap.Json.Finish
import Nmap.Json.Stream

/-!
# The records of line mode (`json.cc`)

With `--json-lines` the header goes out when the preamble is over, every other child of
the root as soon as it is closed, and preamble elements that come after the header at the
end. `lines_of_stream` gives the lines of an arbitrary well-nested stream under one root.
-/

namespace Nmap.Json

open Nmap.Base List

/-! ## The parts of a stream -/

namespace Item

def attribute? : Item → Option (Bytes × Bytes)
  | .attr name value => some (name, value)
  | _ => none

/-- The attributes of an element with this content -/
def attributes (content : List Item) : List (Bytes × Bytes) := content.filterMap attribute?

/-- What is in before the header goes out: `debugging` ends the preamble, and so does
the first element that is not part of it. -/
def beforeHeader : List Item → List Item
  | [] => []
  | .element name items :: content =>
    if !JsonWriter.isPreambleElement name then []
    else if name = ascii "debugging" then [.element name items]
    else .element name items :: beforeHeader content
  | item :: content => item :: beforeHeader content

def afterHeader : List Item → List Item
  | [] => []
  | .element name items :: content =>
    if !JsonWriter.isPreambleElement name then .element name items :: content
    else if name = ascii "debugging" then content
    else afterHeader content
  | _ :: content => afterHeader content

/-- The children that are written as they come -/
def liveElements (content : List Item) : List JsonElement :=
  (childElements content).filter fun el => !JsonWriter.isPreambleElement el.name

def preambleElements (content : List Item) : List JsonElement :=
  (childElements content).filter fun el => JsonWriter.isPreambleElement el.name

section

variable (n v : Bytes) (items content : List Item)

@[simp] theorem attributes_attr :
    attributes (.attr n v :: content) = (n, v) :: attributes content := rfl

@[simp] theorem attributes_characters :
    attributes (.characters v :: content) = attributes content := rfl

@[simp] theorem attributes_element :
    attributes (.element n items :: content) = attributes content := rfl

@[simp] theorem childElements_attr :
    childElements (.attr n v :: content) = childElements content := rfl

@[simp] theorem childElements_characters :
    childElements (.characters v :: content) = childElements content := rfl

@[simp] theorem childElements_element : childElements (.element n items :: content) =
    addAll (.empty n) items :: childElements content := rfl

end

theorem addTo_name (item : Item) (el : JsonElement) : (item.addTo el).name = el.name := by
  cases el with
  | mk name attrs text children =>
    cases item <;> simp [addTo, JsonElement.addAttribute, JsonElement.addText,
      JsonElement.addChild, JsonElement.name]

theorem addAll_name (el : JsonElement) (items : List Item) : (addAll el items).name = el.name := by
  induction items generalizing el with
  | nil => rw [addAll]
  | cons item items ih => rw [addAll, ih, addTo_name]

theorem cons_live {n : Bytes} (live : JsonWriter.isPreambleElement n = false)
    (items content : List Item) :
    liveElements (.element n items :: content) =
        addAll (.empty n) items :: liveElements content ∧
      preambleElements (.element n items :: content) = preambleElements content := by
  have named : (addAll (.empty n) items).name = n := addAll_name _ items
  simp [liveElements, preambleElements, named, live]

theorem cons_preamble {n : Bytes} (preamble : JsonWriter.isPreambleElement n = true)
    (items content : List Item) :
    liveElements (.element n items :: content) = liveElements content ∧
      preambleElements (.element n items :: content) =
        addAll (.empty n) items :: preambleElements content := by
  have named : (addAll (.empty n) items).name = n := addAll_name _ items
  simp [liveElements, preambleElements, named, preamble]

end Item

open Item

/-- The record of an element: its name and its value -/
def elementRecord (el : JsonElement) : Members :=
  JsonWriter.lineRecord el.name (jsonConvertElement el)

/-- The object on the header line, for these root attributes and this preamble -/
def scanRecord (attrs : List (Bytes × Bytes)) (held : Members) : Members :=
  let obj := Members.set [] (ascii "type") (.string (ascii "scan"))
  let obj := (attrs.map fun a => (a.1, typedAttribute a.1 a.2)).foldl
    (fun (obj : Members) m => obj.set m.1 m.2) obj
  held.foldl (fun (obj : Members) m => obj.set m.1 m.2) obj

/-- What is held back of these children -/
def heldMembers (held : Members) (els : List JsonElement) : Members :=
  addMembers held (els.map (childContribution none))

namespace JsonWriter

/-! ## Flushing children in line mode -/

/-- Between two children of the root: what is known of the root, what is held back and the
lines that are out -/
structure Lined (jw : JsonWriter) (header : Bool) (name : Bytes) (attrs : List (Bytes × Bytes))
    (held : Members) (objs : List Members) : Prop where
  alive : jw.Alive
  lineMode : jw.lines = true
  size : jw.stackSize = 1
  header : jw.headerWritten = header
  root : jw.root = some (.mk name attrs [] [])
  pending : jw.pending = held
  emitted : jw.emitted = linesText objs

section

variable {jw : JsonWriter} {header : Bool} {name : Bytes} {attrs : List (Bytes × Bytes)}
  {held : Members} {objs : List Members}

theorem writeHeader_of_header (written : jw.headerWritten = true) : jw.writeHeader = jw := by
  unfold JsonWriter.writeHeader
  rw [if_pos written]

theorem writeHeader_of_lined (lined : Lined jw true name attrs held objs) : jw.writeHeader = jw :=
  writeHeader_of_header lined.header

theorem filter_runstats (quiet : ascii "runstats" ∉ held.keys) :
    (held.filter fun m => m.1 = ascii "runstats") = [] ∧
      (held.filter fun m => m.1 ≠ ascii "runstats") = held := by
  have other : ∀ m ∈ held, m.1 ≠ ascii "runstats" := by
    intro m mem key
    rw [← key] at quiet
    exact quiet (mem_map_of_mem mem)
  constructor
  · rw [filter_eq_nil_iff]
    intro m mem
    simpa using other m mem
  · rw [filter_eq_self]
    intro m mem
    simpa using other m mem

theorem Lined.writeHeader (lined : Lined jw false name attrs held objs)
    (quiet : ascii "runstats" ∉ held.keys) :
    Lined jw.writeHeader true name attrs [] (objs ++ [scanRecord attrs held]) := by
  obtain ⟨kept, out⟩ := filter_runstats quiet
  have record : jw.headerRecord = scanRecord attrs held := by
    unfold headerRecord scanRecord rootAttributes
    rw [lined.root, lined.pending, out]
    rfl
  rw [writeHeader_lines lined.lineMode lined.header, lined.pending, kept, record, lined.emitted,
    ← linesText_append]
  exact ⟨⟨lined.alive.enabled, lined.alive.running⟩, lined.lineMode, lined.size, rfl, lined.root,
    rfl, rfl⟩

theorem Lined.writeLineRecord (lined : Lined jw header name attrs held objs) (type : Bytes)
    (value : JsonValue) :
    Lined (jw.writeLineRecord type value) header name attrs held
      (objs ++ [lineRecord type value]) where
  alive := ⟨lined.alive.enabled, lined.alive.running⟩
  lineMode := lined.lineMode
  size := lined.size
  header := lined.header
  root := lined.root
  pending := lined.pending
  emitted := by
    rw [linesText_append, linesText_singleton, ← lined.emitted]
    rfl

variable {el : JsonElement}

theorem Lined.flushLive (lined : Lined jw true name attrs held objs)
    (live : isPreambleElement el.name = false) :
    Lined (jw.flushSubtree el) true name attrs held (objs ++ [elementRecord el]) := by
  have line := lined.writeLineRecord el.name (jsonConvertElement el)
  unfold flushSubtree
  rw [live]
  simp only [Bool.not_false, if_true, writeHeader_of_lined lined, lined.lineMode, Bool.and_true]
  split
  · next host =>
      unfold writeHost
      simp only [writeHeader_of_lined lined, lined.lineMode, if_true, ← host]
      exact ⟨⟨line.alive.enabled, line.alive.running⟩, line.lineMode, line.size, line.header,
        line.root, line.pending, line.emitted⟩
  · exact line

theorem preamble_cases {n : Bytes} (preamble : isPreambleElement n = true) :
    n = ascii "scaninfo" ∨ n = ascii "verbose" ∨ n = ascii "debugging" := by
  simpa [isPreambleElement, or_assoc] using preamble

theorem Lined.bufferPending (lined : Lined jw header name attrs held objs) (el : JsonElement) :
    Lined (jw.bufferPending (jsonKeyForElement el.name) (jsonConvertElement el)
      (jsonElementIsArray el.name)) header name attrs (heldMembers held [el]) objs where
  alive := ⟨lined.alive.enabled, lined.alive.running⟩
  lineMode := lined.lineMode
  size := lined.size
  header := lined.header
  root := lined.root
  pending := by
    show addMember jw.pending _ _ _ = _
    rw [lined.pending]
    rfl
  emitted := lined.emitted

/-- A child of the preamble is held back, and `debugging` asks for the header. -/
theorem Lined.flushPreamble (lined : Lined jw header name attrs held objs)
    (preamble : isPreambleElement el.name = true) :
    Lined (jw.bufferPending (jsonKeyForElement el.name) (jsonConvertElement el)
        (jsonElementIsArray el.name)) header name attrs (heldMembers held [el]) objs ∧
      jw.flushSubtree el = if el.name = ascii "debugging" then
        (jw.bufferPending (jsonKeyForElement el.name) (jsonConvertElement el)
          (jsonElementIsArray el.name)).writeHeader
      else jw.bufferPending (jsonKeyForElement el.name) (jsonConvertElement el)
        (jsonElementIsArray el.name) := by
  refine ⟨lined.bufferPending el, ?_⟩
  have names : el.name ≠ ascii "host" ∧ jsonElementIsTransparent el.name = false := by
    rcases preamble_cases preamble with h | h | h <;> rw [h] <;> decide
  unfold flushSubtree
  simp only [preamble, Bool.not_true, Bool.false_eq_true, if_false, names.1, names.2,
    Bool.and_false]

theorem flushSubtree_live (lineMode : jw.lines = true) (live : isPreambleElement el.name = false) :
    jw.flushSubtree el = jw.writeHeader.flushSubtree el := by
  have written : jw.writeHeader.headerWritten = true := by
    cases first : jw.headerWritten with
    | true => rw [writeHeader_of_header first, first]
    | false => rw [writeHeader_lines lineMode first]
  unfold flushSubtree
  rw [live]
  simp only [Bool.not_false, if_true, writeHeader_of_header written]

/-! ## Runs over the content of the root -/

theorem Lined.withSubtree (lined : Lined jw header name attrs held objs)
    (subtree : Option JsonElement) :
    Lined { jw with subtree := subtree } header name attrs held objs :=
  ⟨⟨lined.alive.enabled, lined.alive.running⟩, lined.lineMode, lined.size, lined.header,
    lined.root, lined.pending, lined.emitted⟩

theorem Lined.attr (lined : Lined jw header name attrs held objs) (n v : Bytes) :
    Lined (jw.run (Item.attr n v).events) header name (attrs ++ [(n, v)]) held objs := by
  have ran : jw.run (Item.attr n v).events =
      { jw with root := some (.mk name (attrs ++ [(n, v)]) [] []) } := by
    simp [Item.events, run, step, jsonMirrorAttribute, lined.alive.enabled, lined.alive.running,
      lined.size, modifyBack, lined.root, JsonElement.addAttribute]
  rw [ran]
  exact ⟨⟨lined.alive.enabled, lined.alive.running⟩, lined.lineMode, lined.size, lined.header,
    rfl, lined.pending, lined.emitted⟩

theorem Lined.characters (lined : Lined jw header name attrs held objs) (text : Bytes) :
    jw.run (Item.characters text).events = jw := by
  simp [Item.events, run, step, jsonMirrorCharacters, lined.size]

theorem heldMembers_cons (held : Members) (el : JsonElement) (els : List JsonElement) :
    heldMembers held (el :: els) = heldMembers (heldMembers held [el]) els := rfl

/-- After the header, children are lines or held back. -/
theorem Lined.run_after (lined : Lined jw true name attrs held objs) (content : List Item) :
    Lined (jw.run (eventsAll content)) true name (attrs ++ attributes content)
      (heldMembers held (preambleElements content))
      (objs ++ (liveElements content).map elementRecord) := by
  induction content generalizing jw attrs held objs with
  | nil => simpa [eventsAll, run, attributes, preambleElements, liveElements, childElements,
      heldMembers] using lined
  | cons item content ih =>
    rw [eventsAll, run_append]
    cases item with
    | attr n v => simpa [preambleElements, liveElements] using ih (lined.attr n v)
    | characters text =>
      rw [lined.characters text]
      simpa [preambleElements, liveElements] using ih lined
    | element n items =>
      have started := lined.withSubtree (some (addAll (.empty n) items))
      have named : (addAll (.empty n) items).name = n := addAll_name _ items
      rw [run_child lined.alive lined.size n items, attributes_element]
      cases kind : isPreambleElement n with
      | true =>
        obtain ⟨buffered, flushed⟩ := started.flushPreamble (named.symm ▸ kind)
        obtain ⟨live, preamble⟩ := cons_preamble kind items content
        rw [writeHeader_of_lined buffered, ite_self] at flushed
        rw [live, preamble, heldMembers_cons, flushed]
        exact ih (buffered.withSubtree none)
      | false =>
        have line := (started.flushLive (named.symm ▸ kind)).withSubtree none
        obtain ⟨live, preamble⟩ := cons_live kind items content
        rw [live, preamble, map_cons, append_cons]
        exact ih line

theorem heldMembers_quiet (quiet : ascii "runstats" ∉ held.keys)
    (preamble : isPreambleElement el.name = true) :
    ascii "runstats" ∉ (heldMembers held [el]).keys := by
  intro mem
  rcases mem_keys_addMembers.mp mem with old | new
  · exact quiet old
  · have key : ascii "runstats" = jsonKeyForElement el.name := by
      simpa [childContribution] using new
    rcases preamble_cases preamble with h | h | h <;> rw [h] at key <;>
      exact absurd key (by decide +kernel)

/-- Up to the header, and from there on -/
theorem Lined.run_before (lined : Lined jw false name attrs held [])
    (quiet : ascii "runstats" ∉ held.keys) (content : List Item) :
    Lined (jw.run (eventsAll content)).writeHeader true name (attrs ++ attributes content)
      (heldMembers [] (preambleElements (afterHeader content)))
      (scanRecord (attrs ++ attributes (beforeHeader content))
        (heldMembers held (preambleElements (beforeHeader content))) ::
          (liveElements content).map elementRecord) := by
  induction content generalizing jw attrs held with
  | nil => simpa [eventsAll, run, attributes, preambleElements, liveElements, childElements,
      heldMembers, afterHeader, beforeHeader] using lined.writeHeader quiet
  | cons item content ih =>
    rw [eventsAll, run_append]
    cases item with
    | attr n v =>
      have rest := ih (lined.attr n v) quiet
      simpa [afterHeader, beforeHeader, preambleElements, liveElements] using rest
    | characters text =>
      rw [lined.characters text]
      simpa [afterHeader, beforeHeader, preambleElements, liveElements] using ih lined quiet
    | element n items =>
      have started := lined.withSubtree (some (addAll (.empty n) items))
      have named : (addAll (.empty n) items).name = n := addAll_name _ items
      rw [run_child lined.alive lined.size n items, attributes_element]
      cases kind : isPreambleElement n with
      | false =>
        -- the header goes out first
        have line := (started.writeHeader quiet).flushLive (named.symm ▸ kind)
        have after := (line.withSubtree none).run_after content
        obtain ⟨live, preamble⟩ := cons_live kind items content
        have parts : beforeHeader (.element n items :: content) = [] ∧
            afterHeader (.element n items :: content) = .element n items :: content := by
          simp [beforeHeader, afterHeader, kind]
        rw [← flushSubtree_live started.lineMode (named.symm ▸ kind)] at after
        rw [writeHeader_of_lined after, parts.1, parts.2, live, preamble]
        show Lined _ true name _ _ (scanRecord (attrs ++ []) held :: _)
        rw [append_nil]
        exact after
      | true =>
        obtain ⟨buffered, flushed⟩ := started.flushPreamble (named.symm ▸ kind)
        have quiet' := heldMembers_quiet quiet (named.symm ▸ kind)
        obtain ⟨live, -⟩ := cons_preamble kind items content
        rw [flushed, live, named]
        by_cases last : n = ascii "debugging"
        · -- it asks for the header
          have after := ((buffered.writeHeader quiet').withSubtree none).run_after content
          obtain ⟨-, preamble⟩ := cons_preamble kind items []
          have parts : beforeHeader (.element n items :: content) = [.element n items] ∧
              afterHeader (.element n items :: content) = content := by
            rw [beforeHeader, afterHeader, kind]
            simp [last]
          rw [named] at after
          rw [if_pos last, writeHeader_of_lined after, parts.1, parts.2, preamble]
          show Lined _ true name _ _ (scanRecord (attrs ++ []) _ :: _)
          rw [append_nil]
          exact after
        · have rest := ih (buffered.withSubtree none) quiet'
          obtain ⟨-, preamble⟩ := cons_preamble kind items (beforeHeader content)
          have parts : beforeHeader (.element n items :: content) =
                .element n items :: beforeHeader content ∧
              afterHeader (.element n items :: content) = afterHeader content := by
            simp [beforeHeader, afterHeader, kind, last]
          rw [named] at rest
          rw [if_neg last, parts.1, parts.2, preamble, heldMembers_cons, attributes_element]
          exact rest

end

theorem end_lines {jw : JsonWriter} (alive : jw.Alive) (lineMode : jw.lines = true)
    (size : jw.stackSize = 1) : (jw.run [.endElement]).emitted =
      jw.writeHeader.emitted ++ linesText (jw.writeHeader.pending.flatMap pendingRecords) := by
  have ends : jw.run [.endElement] = jsonOutputFinish { jw with stackSize := 0 } := by
    simp [run, step, jsonMirrorEndElement, alive.enabled, alive.running, size]
  have alive' : Alive { jw with stackSize := 0 } := ⟨alive.enabled, alive.running⟩
  have header : (closed { jw with stackSize := 0 }).writeHeader =
      { jw.writeHeader with finished := true, stackSize := 0 } := by
    show writeHeader { jw with finished := true, stackSize := 0 } = _
    rcases Bool.eq_false_or_eq_true jw.headerWritten with written | first
    · rw [writeHeader_of_header written, writeHeader_of_header (by exact written)]
    · rw [writeHeader_lines lineMode first, writeHeader_lines (by exact lineMode) (by exact first)]
      rfl
  rw [ends, jsonOutputFinish_eq alive', if_pos (by exact lineMode), (finishLines_emitted _).1,
    header]

end JsonWriter

/-! ## What was held back after the header -/

theorem pendingRecords_single (key : Bytes) {value : JsonValue}
    (single : ∀ vs, value ≠ .array vs) :
    JsonWriter.pendingRecords (key, value) = [JsonWriter.lineRecord key value] := by
  cases value with
  | array vs => exact absurd rfl (single vs)
  | _ => rfl

theorem pendingRecords_merge (c : Contribution) (value : JsonValue) :
    JsonWriter.pendingRecords (c.key, c.merge (some value)) =
      JsonWriter.pendingRecords (c.key, value) ++ [JsonWriter.lineRecord c.key c.value] := by
  cases value with
  | array vs => simp [Contribution.merge, JsonWriter.pendingRecords]
  | _ => rfl

theorem pendingRecords_set (obj : Members) (c : Contribution)
    (single : ∀ vs, c.value ≠ .array vs) :
    ((obj.set c.key (c.merge (obj.get c.key))).flatMap JsonWriter.pendingRecords).Perm
      (obj.flatMap JsonWriter.pendingRecords ++ [JsonWriter.lineRecord c.key c.value]) := by
  induction obj with
  | nil =>
    have first : JsonWriter.pendingRecords (c.key, c.merge none) =
        [JsonWriter.lineRecord c.key c.value] := by
      show JsonWriter.pendingRecords
        (c.key, if c.asArray = true then .array [c.value] else c.value) = _
      split
      · rfl
      · exact pendingRecords_single c.key single
    simp [Members.set, Members.get, first]
  | cons m ms ih =>
    rcases m with ⟨k, v⟩
    by_cases key : k = c.key
    · subst key
      rw [Members.get, if_pos rfl, Members.set, if_pos rfl, flatMap_cons, flatMap_cons,
        pendingRecords_merge, append_assoc, append_assoc]
      exact perm_append_comm.append_left _
    · rw [Members.get, if_neg key, Members.set, if_neg key, flatMap_cons, flatMap_cons,
        append_assoc]
      exact ih.append_left _

theorem preamble_single {el : JsonElement}
    (preamble : JsonWriter.isPreambleElement el.name = true) (vs : List JsonValue) :
    jsonConvertElement el ≠ .array vs := by
  rcases el with ⟨name, attrs, text, children⟩
  have names : name ≠ ascii "script" ∧ name ≠ ascii "table" ∧ name ≠ ascii "elem" := by
    rcases JsonWriter.preamble_cases preamble with h | h | h <;>
      (rw [show name = _ from h]; decide)
  rw [jsonConvertElement, if_neg names.1, if_neg names.2.1, if_neg names.2.2]
  dsimp only
  split
  · split <;> exact fun h => by cases h
  · exact fun h => by cases h

theorem preamble_key {n : Bytes} (preamble : JsonWriter.isPreambleElement n = true) :
    jsonKeyForElement n = n := by
  rcases JsonWriter.preamble_cases preamble with h | h | h <;> rw [h] <;> decide

theorem heldMembers_records (held : Members) {els : List JsonElement}
    (preamble : ∀ el ∈ els, JsonWriter.isPreambleElement el.name = true) :
    ((heldMembers held els).flatMap JsonWriter.pendingRecords).Perm
      (held.flatMap JsonWriter.pendingRecords ++ els.map elementRecord) := by
  induction els generalizing held with
  | nil => simp [heldMembers]
  | cons el els ih =>
    have here := preamble el mem_cons_self
    have rest := ih (heldMembers held [el]) fun el mem => preamble el (mem_cons_of_mem _ mem)
    have first := pendingRecords_set held (childContribution none el) (preamble_single here)
    rw [JsonWriter.heldMembers_cons, map_cons, append_cons]
    refine rest.trans (Perm.append_right _ ?_)
    have step : heldMembers held [el] = held.set (jsonKeyForElement el.name)
        ((childContribution none el).merge (held.get (jsonKeyForElement el.name))) :=
      addMember_eq_set held (childContribution none el)
    have record : JsonWriter.lineRecord (childContribution none el).key
        (childContribution none el).value = elementRecord el := by
      show JsonWriter.lineRecord (jsonKeyForElement el.name) _ = _
      rw [preamble_key here]
      rfl
    rw [step, ← record]
    exact first

/-! ## Members of the records -/

theorem get_setAll_of_not_mem {ms : Members} {key : Bytes} (fresh : key ∉ ms.keys)
    (obj : Members) :
    (ms.foldl (fun (obj : Members) m => obj.set m.1 m.2) obj).get key = obj.get key := by
  induction ms generalizing obj with
  | nil => rfl
  | cons m ms ih =>
    rw [Members.keys, map_cons, mem_cons, not_or] at fresh
    rw [foldl_cons, ih fresh.2, Members.get_set, if_neg (Ne.symm fresh.1)]

/-- The record of an element that has no member `type` of its own names the element. -/
theorem elementRecord_type {el : JsonElement}
    (untyped : ∀ ms, jsonConvertElement el = .object ms → ascii "type" ∉ Members.keys ms) :
    (elementRecord el).get (ascii "type") = some (.string el.name) := by
  unfold elementRecord JsonWriter.lineRecord
  dsimp only
  split
  · next ms object =>
      rw [get_setAll_of_not_mem (untyped ms object), Members.get_set, if_pos rfl]
  · rw [Members.get_set, if_pos rfl]
  · rw [Members.get_set, if_neg (by decide), Members.get_set, if_pos rfl]

theorem keys_heldMembers {els : List JsonElement}
    (preamble : ∀ el ∈ els, JsonWriter.isPreambleElement el.name = true) {key : Bytes}
    (mem : key ∈ (heldMembers [] els).keys) : JsonWriter.isPreambleElement key = true := by
  rcases mem_keys_addMembers.mp mem with old | new
  · exact absurd old not_mem_nil
  · rw [map_map] at new
    obtain ⟨el, mem', rfl⟩ := mem_map.mp new
    show JsonWriter.isPreambleElement (jsonKeyForElement el.name) = true
    rw [preamble_key (preamble el mem')]
    exact preamble el mem'

section

variable {attrs : List (Bytes × Bytes)} {els : List JsonElement}
  (preamble : ∀ el ∈ els, JsonWriter.isPreambleElement el.name = true)

include preamble

theorem scanRecord_type (untyped : ascii "type" ∉ attrs.map Prod.fst) :
    (scanRecord attrs (heldMembers [] els)).get (ascii "type") =
      some (.string (ascii "scan")) := by
  have held : ascii "type" ∉ (heldMembers [] els).keys := fun mem =>
    absurd (keys_heldMembers preamble mem) (by decide)
  unfold scanRecord
  dsimp only
  rw [get_setAll_of_not_mem held, get_setAll_of_not_mem, Members.get_set, if_pos rfl]
  rw [Members.keys, map_map]
  exact untyped

theorem scanRecord_attribute {front back : List (Bytes × Bytes)} {n v : Bytes}
    (split : attrs = front ++ (n, v) :: back) (last : n ∉ back.map Prod.fst)
    (free : JsonWriter.isPreambleElement n = false) :
    (scanRecord attrs (heldMembers [] els)).get n = some (typedAttribute n v) := by
  have held : n ∉ (heldMembers [] els).keys := fun mem => by
    rw [keys_heldMembers preamble mem] at free
    cases free
  unfold scanRecord
  dsimp only
  rw [get_setAll_of_not_mem held, split, map_append, foldl_append, map_cons,
    foldl_cons, get_setAll_of_not_mem, Members.get_set, if_pos rfl]
  rw [Members.keys, map_map]
  exact last

end

/-! ## The lines of a stream -/

/-- What the writer emits for a stream, in line mode -/
def streamText (root : Item) : Bytes := ((jsonOutputEnable true).run root.events).emitted

theorem preambleElements_preamble (content : List Item) :
    ∀ el ∈ preambleElements content, JsonWriter.isPreambleElement el.name = true := by
  intro el mem
  exact (mem_filter.mp mem).2

theorem streamText_eq (name : Bytes) (content : List Item) :
    streamText (.element name content) = JsonWriter.linesText
      (scanRecord (attributes (beforeHeader content))
          (heldMembers [] (preambleElements (beforeHeader content))) ::
        ((liveElements content).map elementRecord ++
          (heldMembers [] (preambleElements (afterHeader content))).flatMap
            JsonWriter.pendingRecords)) := by
  have start : JsonWriter.Lined ((jsonOutputEnable true).step (.startElement name)) false name []
      [] [] := ⟨⟨rfl, rfl⟩, rfl, rfl, rfl, rfl, rfl, rfl⟩
  have lined := start.run_before not_mem_nil content
  unfold streamText
  rw [Item.events, JsonWriter.run_cons, JsonWriter.run_append]
  generalize ((jsonOutputEnable true).step (.startElement name)).run (eventsAll content) = jw
    at lined
  have same := JsonWriter.sameCursor_writeHeader jw
  have alive : jw.Alive :=
    ⟨same.enabled.symm.trans lined.alive.enabled, same.finished.symm.trans lined.alive.running⟩
  rw [JsonWriter.end_lines alive (same.lines.symm.trans lined.lineMode)
    (same.stackSize.symm.trans lined.size), lined.emitted, lined.pending,
    ← JsonWriter.linesText_append, cons_append]
  rfl

theorem heldMembers_numbersOk (els : List JsonElement) : NumbersOkMembers (heldMembers [] els) := by
  have none : NumbersOkMembers [] := trivial
  apply addMembers_numbersOk none
  intro c mem
  obtain ⟨el, -, rfl⟩ := mem_map.mp mem
  exact jsonConvertElement_numbersOk el

theorem scanRecord_numbersOk (attrs : List (Bytes × Bytes)) (els : List JsonElement) :
    NumbersOkMembers (scanRecord attrs (heldMembers [] els)) := by
  have tag : NumbersOkMembers (Members.set [] (ascii "type") (.string (ascii "scan"))) :=
    ⟨trivial, trivial⟩
  refine JsonWriter.setAll_numbersOk ?_ (heldMembers_numbersOk els)
  refine JsonWriter.setAll_numbersOk tag ?_
  rw [numbersOkMembers_iff]
  intro m mem
  obtain ⟨a, -, rfl⟩ := mem_map.mp mem
  exact typedAttribute_numbersOk a.1 a.2

/-- **The lines of a stream.** The first line is the scan with the root attributes that came
before it, then every child that is not part of the preamble has its line, in order, and the
preamble elements that came after the header have theirs at the end. Every line is one
object. -/
theorem lines_of_stream (name : Bytes) (content : List Item) :
    ∃ (header : Members) (late : List Members),
      streamText (.element name content) = JsonWriter.linesText
        (header :: ((liveElements content).map elementRecord ++ late)) ∧
      late.Perm ((preambleElements (afterHeader content)).map elementRecord) ∧
      (∀ obj ∈ header :: ((liveElements content).map elementRecord ++ late),
        0x0a ∉ dump (-1) 0 (.object obj) ∧
          Json.read (dump (-1) 0 (.object obj)) = some (meaning (.object obj))) ∧
      (ascii "type" ∉ (attributes (beforeHeader content)).map Prod.fst →
        header.get (ascii "type") = some (.string (ascii "scan"))) ∧
      (∀ front n v back, attributes (beforeHeader content) = front ++ (n, v) :: back →
        n ∉ back.map Prod.fst → JsonWriter.isPreambleElement n = false →
          header.get n = some (typedAttribute n v)) ∧
      ∀ el ∈ childElements content,
        (∀ ms, jsonConvertElement el = .object ms → ascii "type" ∉ Members.keys ms) →
          (elementRecord el).get (ascii "type") = some (.string el.name) := by
  have before := preambleElements_preamble (beforeHeader content)
  have after := preambleElements_preamble (afterHeader content)
  have late := heldMembers_records [] after
  refine ⟨_, _, streamText_eq name content, late, ?_, scanRecord_type before, ?_, ?_⟩
  · intro obj mem
    have numbers : NumbersOk (.object obj) := by
      rcases mem_cons.mp mem with rfl | mem
      · exact scanRecord_numbersOk _ _
      rcases mem_append.mp mem with live | late
      · obtain ⟨el, -, rfl⟩ := mem_map.mp live
        exact JsonWriter.lineRecord_numbersOk el.name (jsonConvertElement_numbersOk el)
      · exact JsonWriter.pendingRecords_numbersOk (heldMembers_numbersOk _) obj late
    exact ⟨dump_singleLine (by decide) 0 _ numbers, read_dump numbers (-1) 0⟩
  · intro front n v back parts last free
    exact scanRecord_attribute before parts last free
  · intro el _ untyped
    exact elementRecord_type untyped

/-- A host, and `verbose` after it -/
def lateVerbose : List Item := [leaf "host", leaf "verbose"]

theorem newlines_of_lines {lines : List Bytes} (whole : ∀ line ∈ lines, 0x0a ∉ line) :
    (lines.map (· ++ [0x0a])).flatten.count 0x0a = lines.length := by
  induction lines with
  | nil => rfl
  | cons line lines ih =>
    have here := count_eq_zero_of_not_mem (whole line mem_cons_self)
    have rest := ih fun line mem => whole line (mem_cons_of_mem _ mem)
    rw [map_cons, flatten_cons, count_append, count_append, rest, here]
    simp [Nat.add_comm]

/-- A preamble element after the header has a line of its own. -/
theorem late_preamble_has_line :
    ¬ ∃ lines : List Bytes,
      streamText (.element (ascii "nmaprun") lateVerbose) = (lines.map (· ++ [0x0a])).flatten ∧
      (∀ line ∈ lines, 0x0a ∉ line) ∧ lines.length = 1 + (liveElements lateVerbose).length := by
  rintro ⟨lines, text, whole, count⟩
  have newlines : (streamText (.element (ascii "nmaprun") lateVerbose)).count 0x0a = 3 := by
    decide
  rw [text, newlines_of_lines whole, count] at newlines
  exact absurd newlines (by decide)

end Nmap.Json
