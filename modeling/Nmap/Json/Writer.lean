import Nmap.Json.Members

/-!
# The streaming writer (`json.cc`)

The state of `json_writer` in both modes, driven by the mirror hooks of `xml.cc`. What
it emits is kept in `emitted`. The functions that write and flush leave the cursor
alone, that is the flags of the run, the root and the stack (`SameCursor`), and a
stream of events below a child of the root builds the element it describes
(`run_child`).
-/

namespace Nmap.Json

open Nmap.Base

/-- `json_writer`. The stack holds the root, then the subtree, and from there on each
element is the last child of the one before, so its size says it all. -/
structure JsonWriter where
  enabled : Bool
  lines : Bool
  finished : Bool
  headerWritten : Bool
  hostsOpen : Bool
  wroteAHost : Bool
  needComma : Bool
  root : Option JsonElement
  subtree : Option JsonElement
  stackSize : Nat
  pending : Members
  emitted : Bytes

def jsonOutputEnable (lines : Bool) : JsonWriter :=
  { enabled := true, lines := lines, finished := false, headerWritten := false,
    hostsOpen := false, wroteAHost := false, needComma := false, root := none,
    subtree := none, stackSize := 0, pending := [], emitted := [] }

namespace JsonWriter

def jsonEmit (jw : JsonWriter) (text : Bytes) : JsonWriter :=
  { jw with emitted := jw.emitted ++ text }

def writeTopMember (jw : JsonWriter) (key : Bytes) (value : JsonValue) : JsonWriter :=
  let out := (if jw.needComma then ascii ",\n" else []) ++ ascii "  " ++ jsonQuote key ++
    ascii ": " ++ dump 2 1 value
  { jw.jsonEmit out with needComma := true }

/-- The loops over members that are ready to go out. -/
def writeTopMembers (jw : JsonWriter) (ms : Members) : JsonWriter :=
  ms.foldl (fun jw m => jw.writeTopMember m.1 m.2) jw

/-- The object of `write_line_record`: the discriminator, and the members over it. -/
def lineRecord (type : Bytes) (value : JsonValue) : Members :=
  let obj := Members.set [] (ascii "type") (.string type)
  match value with
  | .object ms => ms.foldl (fun obj m => obj.set m.1 m.2) obj
  | .null => obj
  | value => obj.set (ascii "value") value

def writeLineRecord (jw : JsonWriter) (type : Bytes) (value : JsonValue) : JsonWriter :=
  jw.jsonEmit (dump (-1) 0 (.object (lineRecord type value)) ++ ascii "\n")

/-- `buffer_pending`: as in an object, a key that is taken turns into an array. -/
def bufferPending (jw : JsonWriter) (key : Bytes) (value : JsonValue) (asArray : Bool) :
    JsonWriter :=
  { jw with pending := addMember jw.pending key value asArray }

def rootAttributes (jw : JsonWriter) : Members :=
  match jw.root with
  | some root => root.attrs.map fun a => (a.1, typedAttribute a.1 a.2)
  | none => []

def writeHeader (jw : JsonWriter) : JsonWriter :=
  if jw.headerWritten then jw
  else
    let jw := { jw with headerWritten := true }
    -- runstats belongs at the end
    let rest := jw.pending.filter fun m => m.1 = ascii "runstats"
    let out := jw.pending.filter fun m => m.1 ≠ ascii "runstats"
    if jw.lines then
      let obj := Members.set [] (ascii "type") (.string (ascii "scan"))
      let obj := jw.rootAttributes.foldl (fun obj m => obj.set m.1 m.2) obj
      let obj := out.foldl (fun obj m => obj.set m.1 m.2) obj
      { jw with pending := rest }.jsonEmit (dump (-1) 0 (.object obj) ++ ascii "\n")
    else
      let jw := jw.jsonEmit [0x7b, 0x0a]
      { (jw.writeTopMembers jw.rootAttributes).writeTopMembers out with pending := rest }

def writeHost (jw : JsonWriter) (el : JsonElement) : JsonWriter :=
  let value := jsonConvertElement el
  let jw := jw.writeHeader
  if jw.lines then
    { jw.writeLineRecord (ascii "host") value with wroteAHost := true }
  else
    let jw :=
      if !jw.hostsOpen then
        { jw.jsonEmit ((if jw.needComma then ascii ",\n" else []) ++ ascii "  \"hosts\": [") with
          hostsOpen := true, needComma := true }
      else jw
    let out := (if jw.wroteAHost then ascii ",\n" else ascii "\n") ++ ascii "    " ++
      dump 2 2 value
    { jw.jsonEmit out with wroteAHost := true }

def isPreambleElement (name : Bytes) : Bool :=
  name = ascii "scaninfo" || name = ascii "verbose" || name = ascii "debugging"

/-- `flush_subtree`: a direct child of the root is complete. -/
def flushSubtree (jw : JsonWriter) (el : JsonElement) : JsonWriter :=
  let jw := if !isPreambleElement el.name then jw.writeHeader else jw
  if el.name = ascii "host" then jw.writeHost el
  else if jw.lines && !isPreambleElement el.name then
    jw.writeLineRecord el.name (jsonConvertElement el)
  else if jsonElementIsTransparent el.name then
    el.children.foldl
      (fun jw child =>
        let key := (transparentChildKey el.name).getD (jsonKeyForElement child.name)
        jw.bufferPending key (jsonConvertElement child) true)
      jw
  else
    let jw := jw.bufferPending (jsonKeyForElement el.name) (jsonConvertElement el)
      (jsonElementIsArray el.name)
    -- the last element of the preamble
    if el.name = ascii "debugging" then jw.writeHeader else jw

/-- The element `depth` last children below. -/
def modifyLast : Nat → (JsonElement → JsonElement) → JsonElement → JsonElement
  | 0, f, el => f el
  | depth + 1, f, .mk name attrs text children =>
    .mk name attrs text
      (children.dropLast ++ children.getLast?.toList.map (modifyLast depth f))

/-- `jw.stack.back()`, changed in place -/
def modifyBack (jw : JsonWriter) (f : JsonElement → JsonElement) : JsonWriter :=
  match jw.stackSize with
  | 0 => jw
  | 1 => { jw with root := jw.root.map f }
  | depth + 2 => { jw with subtree := jw.subtree.map (modifyLast depth f) }

/-- `flush_subtree` of a subtree that is complete. -/
def endSubtree (jw : JsonWriter) : JsonWriter :=
  if jw.stackSize = 1 then
    match jw.subtree with
    | some el => { jw.flushSubtree el with subtree := none }
    | none => jw
  else jw

/-- Close the elements that are still open. -/
def closeOpen : Nat → JsonWriter → JsonWriter
  | 0, jw => jw
  | n + 1, jw => closeOpen n { jw with stackSize := jw.stackSize - 1 }.endSubtree

/-- The end of `json_output_finish` in line mode: one record for each item. -/
def finishLines (jw : JsonWriter) : JsonWriter :=
  let jw := jw.pending.foldl
    (fun jw m =>
      match m.2 with
      | .array vs => vs.foldl (fun jw v => jw.writeLineRecord m.1 v) jw
      | value => jw.writeLineRecord m.1 value)
    jw
  { jw with pending := [], root := none }

/-- The end of `json_output_finish` in document mode. -/
def finishDocument (jw : JsonWriter) : JsonWriter :=
  let jw :=
    if jw.hostsOpen then { jw.jsonEmit (ascii "\n  ]") with hostsOpen := false }
    -- "Always present, so that consumers can iterate it unconditionally."
    else jw.writeTopMember (ascii "hosts") (.array [])
  let jw := (jw.writeTopMembers jw.pending).jsonEmit [0x0a, 0x7d, 0x0a]
  { jw with pending := [], root := none }

def jsonOutputFinish (jw : JsonWriter) : JsonWriter :=
  if !jw.enabled || jw.finished then jw
  else
    let jw := { jw with finished := true }
    -- "Their partial data is still worth writing out"
    let jw := closeOpen (jw.stackSize - 1) jw
    let jw := { jw with stackSize := 0 }.writeHeader
    if jw.lines then jw.finishLines else jw.finishDocument

def jsonMirrorStartElement (jw : JsonWriter) (name : Bytes) : JsonWriter :=
  if !jw.enabled || jw.finished then jw
  else
    match jw.stackSize with
    | 0 => { jw with root := some (jw.root.getD (.empty name)), stackSize := 1 }
    | 1 => { jw with subtree := some (.empty name), stackSize := 2 }
    | n + 2 => { jw.modifyBack (·.addChild (.empty name)) with stackSize := n + 3 }

def jsonMirrorAttribute (jw : JsonWriter) (name value : Bytes) : JsonWriter :=
  if !jw.enabled || jw.finished || jw.stackSize = 0 then jw
  else jw.modifyBack (JsonElement.addAttribute name value)

def jsonMirrorCharacters (jw : JsonWriter) (text : Bytes) : JsonWriter :=
  if !jw.enabled || jw.finished || jw.stackSize < 2 then jw
  else jw.modifyBack (JsonElement.addText text)

def jsonMirrorEndElement (jw : JsonWriter) : JsonWriter :=
  if !jw.enabled || jw.finished || jw.stackSize = 0 then jw
  else
    let jw := { jw with stackSize := jw.stackSize - 1 }
    if jw.stackSize = 0 then jw.jsonOutputFinish else jw.endSubtree

end JsonWriter

/-- A call of one of the mirror hooks. -/
inductive Event
  | startElement (name : Bytes)
  | attr (name value : Bytes)
  | characters (text : Bytes)
  | endElement

def JsonWriter.step (jw : JsonWriter) : Event → JsonWriter
  | .startElement name => jw.jsonMirrorStartElement name
  | .attr name value => jw.jsonMirrorAttribute name value
  | .characters text => jw.jsonMirrorCharacters text
  | .endElement => jw.jsonMirrorEndElement

def JsonWriter.run (jw : JsonWriter) (events : List Event) : JsonWriter := events.foldl step jw

/-! ## Well-nested streams -/

/-- What stands between the start and the end of an element: attributes, text and
elements, in any order. -/
inductive Item
  | attr (name value : Bytes)
  | characters (text : Bytes)
  | element (name : Bytes) (items : List Item)

namespace Item

mutual

def events : Item → List Event
  | .attr name value => [.attr name value]
  | .characters text => [.characters text]
  | .element name items => .startElement name :: (eventsAll items ++ [.endElement])

def eventsAll : List Item → List Event
  | [] => []
  | item :: items => item.events ++ eventsAll items

end

mutual

def addTo (el : JsonElement) : Item → JsonElement
  | .attr name value => el.addAttribute name value
  | .characters text => el.addText text
  | .element name items => el.addChild (addAll (.empty name) items)

def addAll (el : JsonElement) : List Item → JsonElement
  | [] => el
  | item :: items => addAll (addTo el item) items

end

end Item

namespace JsonWriter

theorem run_append (jw : JsonWriter) (xs ys : List Event) :
    jw.run (xs ++ ys) = (jw.run xs).run ys :=
  List.foldl_append

theorem run_cons (jw : JsonWriter) (x : Event) (xs : List Event) :
    jw.run (x :: xs) = (jw.step x).run xs := rfl

/-- The writer takes calls. -/
structure Alive (jw : JsonWriter) : Prop where
  enabled : jw.enabled = true
  running : jw.finished = false

theorem modifyLast_modifyLast (depth : Nat) (f g : JsonElement → JsonElement) (el : JsonElement) :
    modifyLast depth f (modifyLast depth g el) = modifyLast depth (fun el => f (g el)) el := by
  induction depth generalizing el with
  | zero => rfl
  | succ depth ih =>
    cases el with
    | mk name attrs text children =>
      rcases List.eq_nil_or_concat children with rfl | ⟨front, last, rfl⟩
      · rfl
      · simp [modifyLast, ih]

theorem modifyLast_addChild (depth : Nat) (f : JsonElement → JsonElement) (child : JsonElement)
    (el : JsonElement) :
    modifyLast (depth + 1) f (modifyLast depth (·.addChild child) el) =
      modifyLast depth (·.addChild (f child)) el := by
  induction depth generalizing el with
  | zero =>
    cases el with
    | mk name attrs text children => simp [modifyLast, JsonElement.addChild]
  | succ depth ih =>
    cases el with
    | mk name attrs text children =>
      rcases List.eq_nil_or_concat children with rfl | ⟨front, last, rfl⟩
      · rfl
      · rw [modifyLast, modifyLast, modifyLast]
        simp [ih]

theorem modifyLast_id (depth : Nat) (el : JsonElement) :
    modifyLast depth (fun el => el) el = el := by
  induction depth generalizing el with
  | zero => rfl
  | succ depth ih =>
    cases el with
    | mk name attrs text children =>
      rcases List.eq_nil_or_concat children with rfl | ⟨front, last, rfl⟩
      · rfl
      · simp [modifyLast, ih]

mutual

theorem run_item : ∀ (item : Item) (jw : JsonWriter) (depth : Nat), jw.Alive →
    jw.stackSize = depth + 2 →
    jw.run item.events =
      { jw with subtree := jw.subtree.map (modifyLast depth fun el => item.addTo el) }
  | .attr name value, jw, depth, alive, size => by
    simp [Item.events, run, step, jsonMirrorAttribute, alive.enabled, alive.running, size,
      modifyBack, Item.addTo]
  | .characters text, jw, depth, alive, size => by
    have deep : ¬ depth + 2 < 2 := by omega
    simp [Item.events, run, step, jsonMirrorCharacters, alive.enabled, alive.running, size, deep,
      modifyBack, Item.addTo]
  | .element name items, jw, depth, alive, size => by
    have start : jw.step (.startElement name) =
        { jw with
          subtree := jw.subtree.map (modifyLast depth (·.addChild (.empty name)))
          stackSize := depth + 1 + 2 } := by
      simp [step, jsonMirrorStartElement, alive.enabled, alive.running, size, modifyBack]
    have alive' : (jw.step (.startElement name)).Alive := by
      rw [start]
      exact ⟨alive.enabled, alive.running⟩
    rw [Item.events, run_cons, run_append, run_items items _ (depth + 1) alive' (by rw [start]),
      start]
    simp [run, step, jsonMirrorEndElement, alive.enabled, alive.running, endSubtree,
      Option.map_map, Function.comp_def, modifyLast_addChild, Item.addTo, size]

theorem run_items : ∀ (items : List Item) (jw : JsonWriter) (depth : Nat), jw.Alive →
    jw.stackSize = depth + 2 →
    jw.run (Item.eventsAll items) =
      { jw with subtree := jw.subtree.map (modifyLast depth fun el => Item.addAll el items) }
  | [], jw, depth, _, _ => by
    have same : (modifyLast depth fun el => el) = id := funext (modifyLast_id depth)
    simp [Item.eventsAll, run, Item.addAll, same]
  | item :: items, jw, depth, alive, size => by
    have head := run_item item jw depth alive size
    have alive' : (jw.run item.events).Alive := by
      rw [head]
      exact ⟨alive.enabled, alive.running⟩
    rw [Item.eventsAll, run_append, run_items items _ depth alive' (by rw [head]; exact size),
      head]
    simp [Option.map_map, Function.comp_def, modifyLast_modifyLast, Item.addAll]

end

theorem run_child {jw : JsonWriter} (alive : jw.Alive) (size : jw.stackSize = 1) (name : Bytes)
    (items : List Item) : jw.run (Item.element name items).events =
      { flushSubtree { jw with subtree := some (Item.addAll (.empty name) items) }
          (Item.addAll (.empty name) items) with subtree := none } := by
  have start : jw.step (.startElement name) =
      { jw with subtree := some (.empty name), stackSize := 0 + 2 } := by
    simp [step, jsonMirrorStartElement, alive.enabled, alive.running, size]
  have alive' : (jw.step (.startElement name)).Alive := by
    rw [start]
    exact ⟨alive.enabled, alive.running⟩
  rw [Item.events, run_cons, run_append, run_items items _ 0 alive' (by rw [start]), start]
  simp [run, step, jsonMirrorEndElement, alive.enabled, alive.running, endSubtree, modifyLast,
    size]

/-! ## What writing leaves alone -/

/-- The flags of the run, the root and the stack are the same. -/
structure SameCursor (a b : JsonWriter) : Prop where
  enabled : b.enabled = a.enabled
  lines : b.lines = a.lines
  finished : b.finished = a.finished
  root : b.root = a.root
  stackSize : b.stackSize = a.stackSize

namespace SameCursor

theorem refl (jw : JsonWriter) : SameCursor jw jw := ⟨rfl, rfl, rfl, rfl, rfl⟩

theorem trans {a b c : JsonWriter} (hab : SameCursor a b) (hbc : SameCursor b c) :
    SameCursor a c :=
  ⟨hbc.enabled.trans hab.enabled, hbc.lines.trans hab.lines, hbc.finished.trans hab.finished,
    hbc.root.trans hab.root, hbc.stackSize.trans hab.stackSize⟩

theorem foldl {α : Type} {f : JsonWriter → α → JsonWriter} (h : ∀ jw x, SameCursor jw (f jw x))
    (xs : List α) (jw : JsonWriter) : SameCursor jw (xs.foldl f jw) := by
  induction xs generalizing jw with
  | nil => exact refl jw
  | cons x xs ih => exact (h jw x).trans (ih (f jw x))

end SameCursor

theorem sameCursor_writeTopMember (jw : JsonWriter) (key : Bytes) (value : JsonValue) :
    SameCursor jw (jw.writeTopMember key value) := ⟨rfl, rfl, rfl, rfl, rfl⟩

theorem sameCursor_writeTopMembers (jw : JsonWriter) (ms : Members) :
    SameCursor jw (jw.writeTopMembers ms) := by
  rw [writeTopMembers]
  apply SameCursor.foldl
  intro jw m
  exact sameCursor_writeTopMember jw m.1 m.2

theorem sameCursor_bufferPending (jw : JsonWriter) (key : Bytes) (value : JsonValue)
    (asArray : Bool) : SameCursor jw (jw.bufferPending key value asArray) :=
  ⟨rfl, rfl, rfl, rfl, rfl⟩

theorem sameCursor_writeHeader (jw : JsonWriter) : SameCursor jw jw.writeHeader := by
  rw [writeHeader]
  split
  · exact .refl jw
  · dsimp only
    split
    · exact ⟨rfl, rfl, rfl, rfl, rfl⟩
    · have members := (sameCursor_writeTopMembers (jsonEmit { jw with headerWritten := true }
          [0x7b, 0x0a]) (rootAttributes jw)).trans (sameCursor_writeTopMembers _
          (jw.pending.filter fun m => m.1 ≠ ascii "runstats"))
      exact ⟨members.enabled, members.lines, members.finished, members.root, members.stackSize⟩

theorem sameCursor_writeHost (jw : JsonWriter) (el : JsonElement) :
    SameCursor jw (jw.writeHost el) := by
  refine (sameCursor_writeHeader jw).trans ?_
  rw [writeHost]
  dsimp only
  split
  · exact ⟨rfl, rfl, rfl, rfl, rfl⟩
  · split <;> exact ⟨rfl, rfl, rfl, rfl, rfl⟩

/-- What `flush_subtree` keeps: it writes the header, an array member or a line, or holds back. -/
theorem flushSubtree_keeps {P : JsonWriter → Prop} {jw : JsonWriter} (el : JsonElement)
    (header : ∀ {jw : JsonWriter}, P jw → P jw.writeHeader)
    (buffer : ∀ {jw : JsonWriter}, P jw → ∀ key el asArray,
      P (jw.bufferPending key (jsonConvertElement el) asArray))
    (host : ∀ {jw : JsonWriter}, P jw → P (jw.writeHost el))
    (line : ∀ {jw : JsonWriter}, P jw → jw.lines = true →
      P (jw.writeLineRecord el.name (jsonConvertElement el)))
    (holds : P jw) : P (jw.flushSubtree el) := by
  have started : P (if !isPreambleElement el.name then jw.writeHeader else jw) := by
    split
    · exact header holds
    · exact holds
  rw [flushSubtree]
  dsimp only
  generalize (if !isPreambleElement el.name then jw.writeHeader else jw) = jw at started
  split
  · exact host started
  split
  · next lines => exact line started (Bool.and_eq_true_iff.mp lines).1
  split
  · next notLines _ =>
      clear notLines
      induction el.children generalizing jw with
      | nil => exact started
      | cons child children ih => exact ih _ (buffer started _ child true)
  · have held := buffer started (jsonKeyForElement el.name) el (jsonElementIsArray el.name)
    split
    · exact header held
    · exact held

theorem sameCursor_flushSubtree (jw : JsonWriter) (el : JsonElement) :
    SameCursor jw (jw.flushSubtree el) :=
  flushSubtree_keeps el (·.trans (sameCursor_writeHeader _))
    (fun same key el _ => same.trans (sameCursor_bufferPending _ key (jsonConvertElement el) _))
    (·.trans (sameCursor_writeHost _ el)) (fun same _ => same.trans ⟨rfl, rfl, rfl, rfl, rfl⟩)
    (.refl jw)

end JsonWriter

end Nmap.Json
