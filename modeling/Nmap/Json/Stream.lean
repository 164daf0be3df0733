import Mathlib.Data.List.Induction
import Nmap.Json.Document

/-!
# Documents for streams in the order of the DTD

The children of the root come in the order the DTD gives them: the preamble
`scaninfo*, verbose, debugging`, then hosts, task events and scripts in any mixture,
then `runstats`. The header goes out after `debugging`, hosts as they come, and the
rest at the end. The document is one object, it always has the array `hosts`, and its
members are those `json_convert_element` gives the root.
-/

namespace Nmap.Json

open Nmap.Base List

/-! ## The root -/

namespace Item

/-- `json_mirror_attribute` -/
def isAttribute : Item → Bool
  | .attr _ _ => true
  | _ => false

def element? : Item → Option JsonElement
  | .element name items => some (addAll (.empty name) items)
  | _ => none

/-- The children of an element with this content. -/
def childElements (content : List Item) : List JsonElement := content.filterMap element?

/-- A root with its attributes first and then its content. -/
def root (name : Bytes) (attrs : List (Bytes × Bytes)) (content : List Item) : Item :=
  .element name ((attrs.map fun a => .attr a.1 a.2) ++ content)

/-- The element that the root stands for. -/
def rootElement (name : Bytes) (attrs : List (Bytes × Bytes)) (content : List Item) :
    JsonElement :=
  addAll (.empty name) ((attrs.map fun a => .attr a.1 a.2) ++ content)

theorem addAll_append (el : JsonElement) (xs ys : List Item) :
    addAll el (xs ++ ys) = addAll (addAll el xs) ys := by
  induction xs generalizing el with
  | nil => rw [addAll]; rfl
  | cons x xs ih => rw [cons_append, addAll, addAll, ih]

theorem addAll_attributes (name text : Bytes) (attrs more : List (Bytes × Bytes))
    (children : List JsonElement) :
    addAll (.mk name attrs text children) (more.map fun a => .attr a.1 a.2) =
      .mk name (attrs ++ more) text children := by
  induction more generalizing attrs with
  | nil => rw [map_nil, addAll, append_nil]
  | cons a more ih =>
    rw [map_cons, addAll, addTo, JsonElement.addAttribute, ih]
    simp

theorem addAll_content {content : List Item} (plain : ∀ item ∈ content, item.isAttribute = false)
    (name text : Bytes) (attrs : List (Bytes × Bytes)) (children : List JsonElement) :
    ∃ more, addAll (.mk name attrs text children) content =
      .mk name attrs (text ++ more) (children ++ childElements content) := by
  induction content generalizing text children with
  | nil => exact ⟨[], by rw [addAll]; simp [childElements]⟩
  | cons item content ih =>
    have plain' : ∀ item ∈ content, item.isAttribute = false := fun i hi => plain i (by simp [hi])
    cases item with
    | attr n v => exact absurd (plain (.attr n v) (by simp)) (by simp [isAttribute])
    | characters t =>
      obtain ⟨more, h⟩ := ih plain' (text ++ t) children
      refine ⟨t ++ more, ?_⟩
      rw [addAll, addTo, JsonElement.addText, h]
      simp [childElements, element?, filterMap_cons]
    | element n items =>
      obtain ⟨more, h⟩ := ih plain' text (children ++ [addAll (.empty n) items])
      refine ⟨more, ?_⟩
      rw [addAll, addTo, JsonElement.addChild, h]
      simp [childElements, element?]

end Item

def JsonElement.withoutText : JsonElement → JsonElement
  | .mk name attrs _ children => .mk name attrs [] children

namespace JsonWriter

/-- A child of the root that is complete. -/
def flushChild (jw : JsonWriter) (el : JsonElement) : JsonWriter :=
  { flushSubtree { jw with subtree := some el } el with subtree := none }

theorem sameCursor_flushChild (jw : JsonWriter) (el : JsonElement) :
    SameCursor jw (jw.flushChild el) := by
  have flushed := sameCursor_flushSubtree { jw with subtree := some el } el
  exact ⟨flushed.enabled, flushed.lines, flushed.finished, flushed.root, flushed.stackSize⟩

theorem sameCursor_flushChildren (jw : JsonWriter) (els : List JsonElement) :
    SameCursor jw (els.foldl flushChild jw) :=
  SameCursor.foldl sameCursor_flushChild els jw

theorem Alive.sameCursor {a b : JsonWriter} (h : a.Alive) (same : SameCursor a b) : b.Alive :=
  ⟨same.enabled.trans h.enabled, same.finished.trans h.running⟩

theorem run_content {jw : JsonWriter} (alive : jw.Alive) (size : jw.stackSize = 1)
    {content : List Item} (plain : ∀ item ∈ content, item.isAttribute = false) :
    jw.run (Item.eventsAll content) = (Item.childElements content).foldl flushChild jw := by
  induction content generalizing jw with
  | nil => rfl
  | cons item content ih =>
    have plain' : ∀ item ∈ content, item.isAttribute = false := fun i hi => plain i (by simp [hi])
    rw [Item.eventsAll, run_append]
    cases item with
    | attr n v => exact absurd (plain (.attr n v) (by simp)) (by simp [Item.isAttribute])
    | characters text =>
      have ignored : jw.run (Item.characters text).events = jw := by
        simp [Item.events, run, step, jsonMirrorCharacters, size]
      rw [ignored, ih alive size plain']
      rfl
    | element name items =>
      have child := run_child alive size name items
      have same := sameCursor_flushChild jw (Item.addAll (.empty name) items)
      rw [child]
      exact ih (alive.sameCursor same) (same.stackSize.trans size) plain'

/-- The writer after the start tag of the root. -/
def started (name : Bytes) (attrs : List (Bytes × Bytes)) : JsonWriter :=
  { jsonOutputEnable false with root := some (.mk name attrs [] []), stackSize := 1 }

theorem run_attributes (name : Bytes) (attrs more : List (Bytes × Bytes)) :
    (started name attrs).run (Item.eventsAll (more.map fun a => .attr a.1 a.2)) =
      started name (attrs ++ more) := by
  induction more generalizing attrs with
  | nil => rw [append_nil]; rfl
  | cons a more ih =>
    have one : (started name attrs).run (Item.attr a.1 a.2).events =
        started name (attrs ++ [a]) := by
      simp [Item.events, run, step, jsonMirrorAttribute, started, jsonOutputEnable, modifyBack,
        JsonElement.addAttribute]
    rw [map_cons, Item.eventsAll, run_append, one, ih]
    simp

end JsonWriter

/-- What the writer emits for a stream, in document mode. -/
def documentText (root : Item) : Bytes := ((jsonOutputEnable false).run root.events).emitted

theorem eventsAll_append (xs ys : List Item) :
    Item.eventsAll (xs ++ ys) = Item.eventsAll xs ++ Item.eventsAll ys := by
  induction xs with
  | nil => rfl
  | cons x xs ih => rw [cons_append, Item.eventsAll, Item.eventsAll, ih, append_assoc]

variable {content : List Item}

theorem documentText_root (name : Bytes) (attrs : List (Bytes × Bytes))
    (plain : ∀ item ∈ content, item.isAttribute = false) :
    documentText (.root name attrs content) =
      (((Item.childElements content).foldl JsonWriter.flushChild
        (JsonWriter.started name attrs)).run [.endElement]).emitted := by
  have start : (jsonOutputEnable false).step (.startElement name) = JsonWriter.started name [] := by
    rfl
  rw [documentText, Item.root, Item.events, JsonWriter.run_cons, start, JsonWriter.run_append,
    eventsAll_append, JsonWriter.run_append, JsonWriter.run_attributes, nil_append,
    JsonWriter.run_content ⟨rfl, rfl⟩ rfl plain]

theorem rootElement_withoutText (name : Bytes) (attrs : List (Bytes × Bytes))
    (plain : ∀ item ∈ content, item.isAttribute = false) :
    (Item.rootElement name attrs content).withoutText =
      .mk name attrs [] (Item.childElements content) := by
  obtain ⟨more, h⟩ := Item.addAll_content plain name [] attrs []
  rw [Item.rootElement, JsonElement.empty, Item.addAll_append, Item.addAll_attributes,
    nil_append, h]
  rfl

/-! ## Phases -/

namespace JsonWriter

/-- Only the preamble has been seen, and it is held back. -/
structure Preamble (jw : JsonWriter) (cs : List Contribution) : Prop where
  unwritten : Unwritten jw
  pending : jw.pending = addMembers [] cs

/-- The header is out. -/
structure Body (jw : JsonWriter) (ms : Members) (hosts : List JsonValue)
    (cs : List Contribution) : Prop where
  written : Written jw ms hosts
  pending : jw.pending = addMembers [] cs

variable {jw : JsonWriter} {cs : List Contribution}

theorem flushChild_preamble (h : Preamble jw cs) {el : JsonElement}
    (name : el.name ∈ [ascii "scaninfo", ascii "verbose"]) :
    Preamble (jw.flushChild el) (cs ++ contributions el) := by
  have facts : ∀ name ∈ [ascii "scaninfo", ascii "verbose"], isPreambleElement name = true ∧
      name ≠ ascii "host" ∧ name ≠ ascii "debugging" ∧ jsonElementIsTransparent name = false := by
    decide
  obtain ⟨preamble, noHost, noDebugging, noContainer⟩ := facts _ name
  have flushed := flushSubtree_pending { jw with subtree := some el } el h.unwritten.document
    (Or.inl preamble) noHost noDebugging (by simp [noContainer])
  rw [flushChild, flushed]
  refine ⟨⟨h.unwritten.document, h.unwritten.header, h.unwritten.hostsOpen,
    h.unwritten.wroteAHost, h.unwritten.comma, h.unwritten.text⟩, ?_⟩
  rw [addMembers_append_list, ← h.pending]

theorem flushChildren_preamble (h : Preamble jw cs) {els : List JsonElement}
    (names : ∀ el ∈ els, el.name ∈ [ascii "scaninfo", ascii "verbose"]) :
    Preamble (els.foldl flushChild jw) (cs ++ els.flatMap contributions) := by
  induction els generalizing jw cs with
  | nil => simpa using h
  | cons el els ih =>
    have head := flushChild_preamble h (names el (by simp))
    have := ih head fun el hel => names el (by simp [hel])
    simpa using this

theorem flushChild_debugging (h : Preamble jw cs) {el : JsonElement}
    (name : el.name = ascii "debugging")
    (keys : ∀ c ∈ cs ++ contributions el, c.key ≠ ascii "runstats") :
    Body (jw.flushChild el) (jw.rootAttributes ++ addMembers [] (cs ++ contributions el)) []
      [] := by
  have flushed := flushSubtree_debugging { jw with subtree := some el } el h.unwritten.document name
  have unwritten : Unwritten { jw with
      subtree := some el, pending := addMembers jw.pending (contributions el) } :=
    ⟨h.unwritten.document, h.unwritten.header, h.unwritten.hostsOpen, h.unwritten.wroteAHost,
      h.unwritten.comma, h.unwritten.text⟩
  obtain ⟨written, pending⟩ := writeHeader_written unwritten
  have all : addMembers jw.pending (contributions el) = addMembers [] (cs ++ contributions el) := by
    rw [addMembers_append_list, ← h.pending]
  have noStats : ∀ m ∈ addMembers [] (cs ++ contributions el), m.1 ≠ ascii "runstats" := by
    intro m hm
    have hkey : m.1 ∈ Members.keys (addMembers [] (cs ++ contributions el)) :=
      mem_map_of_mem hm
    rw [mem_keys_addMembers] at hkey
    rcases hkey with hkey | hkey
    · cases hkey
    · obtain ⟨c, hc, heq⟩ := mem_map.mp hkey
      rw [← heq]
      exact keys c hc
  rw [all] at written pending flushed
  have kept : (addMembers [] (cs ++ contributions el)).filter (fun m => m.1 ≠ ascii "runstats") =
      addMembers [] (cs ++ contributions el) := by
    rw [filter_eq_self]
    intro m hm
    simpa using noStats m hm
  have none : (addMembers [] (cs ++ contributions el)).filter (fun m => m.1 = ascii "runstats") =
      [] := by
    rw [filter_eq_nil_iff]
    intro m hm
    simpa using noStats m hm
  rw [kept] at written
  rw [none] at pending
  rw [flushChild, flushed]
  exact ⟨⟨written.document, written.header, written.hostsOpen, written.wroteAHost, written.comma,
    written.text⟩, pending⟩

end JsonWriter

/-! ## The order of the DTD -/

/-- The elements that may be mixed after the preamble. -/
def bodyElements : List Bytes :=
  ["target", "taskbegin", "taskprogress", "taskend", "hosthint", "prescript", "postscript",
    "host", "output"].map ascii

/-- `scaninfo*, verbose, debugging, (target | taskbegin | ...)*, runstats` -/
def InDtdOrder (names : List Bytes) : Prop :=
  ∃ n body, names = List.replicate n (ascii "scaninfo") ++
      (ascii "verbose" :: ascii "debugging" :: (body ++ [ascii "runstats"])) ∧
    ∀ name ∈ body, name ∈ bodyElements

def rootElements : List Bytes :=
  ["scaninfo", "verbose", "debugging"].map ascii ++ (bodyElements ++ [ascii "runstats"])

/-- The key that an element and what is lifted out of it go to. -/
def topKey (name : Bytes) : Bytes := (transparentChildKey name).getD (jsonKeyForElement name)

theorem contributions_key {el : JsonElement} (name : el.name ∈ rootElements) :
    ∀ c ∈ contributions el, c.key = topKey el.name := by
  have facts : ∀ name ∈ rootElements,
      if jsonElementIsTransparent name then (transparentChildKey name).isSome
      else transparentChildKey name = none := by decide
  have hname := facts _ name
  intro c hc
  rw [contributions] at hc
  split at hc
  · rename_i transparent
    rw [if_pos transparent] at hname
    obtain ⟨key, hkey⟩ := Option.isSome_iff_exists.mp hname
    obtain ⟨child, -, rfl⟩ := mem_map.mp hc
    rw [childContribution, topKey, hkey]
    rfl
  · rename_i noContainer
    rw [if_neg noContainer] at hname
    rw [mem_singleton.mp hc, childContribution, topKey, hname]

/-- Is this a `host` element? -/
def isHost (el : JsonElement) : Bool := el.name = ascii "host"

/-- The values of the hosts among these elements. -/
def hostValues (els : List JsonElement) : List JsonValue :=
  (els.filter isHost).map jsonConvertElement

def otherContributions (els : List JsonElement) : List Contribution :=
  (els.filter fun el => !isHost el).flatMap contributions

namespace JsonWriter

theorem flushChildren_body {jw : JsonWriter} {ms : Members} {hosts : List JsonValue}
    {cs : List Contribution} (h : Body jw ms hosts cs) {els : List JsonElement}
    (names : ∀ el ∈ els, el.name ∈ bodyElements ++ [ascii "runstats"]) :
    Body (els.foldl flushChild jw) ms (hosts ++ hostValues els)
      (cs ++ otherContributions els) := by
  induction els generalizing jw hosts cs with
  | nil => simpa [hostValues, otherContributions] using h
  | cons el els ih =>
    have names' : ∀ el ∈ els, el.name ∈ bodyElements ++ [ascii "runstats"] :=
      fun el hel => names el (by simp [hel])
    have written : Written { jw with subtree := some el } ms hosts :=
      ⟨h.written.document, h.written.header, h.written.hostsOpen, h.written.wroteAHost,
        h.written.comma, h.written.text⟩
    by_cases host : el.name = ascii "host"
    · have hisHost : isHost el = true := by simpa [isHost] using host
      obtain ⟨hwritten, hpending⟩ := writeHost_written written el
      have head : Body (jw.flushChild el) ms (hosts ++ [jsonConvertElement el]) cs := by
        rw [flushChild, flushSubtree_host written host]
        exact ⟨⟨hwritten.document, hwritten.header, hwritten.hostsOpen, hwritten.wroteAHost,
          hwritten.comma, hwritten.text⟩, hpending.trans h.pending⟩
      have := ih head names'
      simpa [hostValues, otherContributions, hisHost] using this
    · have hisHost : isHost el = false := by simpa [isHost] using host
      have facts : ∀ name ∈ bodyElements ++ [ascii "runstats"], name ≠ ascii "debugging" ∧
          (jsonElementIsTransparent name = true → (transparentChildKey name).isSome) := by
        decide
      obtain ⟨noDebugging, lifted⟩ := facts _ (names el (by simp))
      have flushed := flushSubtree_pending { jw with subtree := some el } el written.document
        (Or.inr written.header) host noDebugging lifted
      have head : Body (jw.flushChild el) ms hosts (cs ++ contributions el) := by
        rw [flushChild, flushed]
        refine ⟨⟨h.written.document, h.written.header, h.written.hostsOpen,
          h.written.wroteAHost, h.written.comma, h.written.text⟩, ?_⟩
        rw [addMembers_append_list, ← h.pending]
      have := ih head names'
      simpa [hostValues, otherContributions, hisHost] using this

end JsonWriter

/-! ## The members of a document -/

variable {attrs : List (Bytes × Bytes)}

theorem addMembers_attributes (h : (attrs.map Prod.fst).Nodup) :
    addMembers [] (attrs.map attributeContribution) =
      attrs.map fun a => (a.1, typedAttribute a.1 a.2) := by
  induction attrs using List.reverseRecOn with
  | nil => rfl
  | append_singleton attrs a ih =>
    rw [map_append, nodup_append] at h
    have fresh : ∀ c ∈ [attributeContribution a],
        c.key ∉ Members.keys (attrs.map fun a => (a.1, typedAttribute a.1 a.2)) := by
      intro c hc ha
      rw [mem_singleton.mp hc, Members.keys, map_map] at ha
      exact h.2.2 a.1 ha a.1 (by simp) rfl
    have single : addMembers [] [attributeContribution a] =
        [(a.1, typedAttribute a.1 a.2)] := rfl
    have appended := addMembers_append fresh []
    rw [map_append, addMembers_append_list, ih h.1, map_singleton, map_append,
      map_singleton, ← single, ← appended, append_nil]

variable {els : List JsonElement}

theorem addMembers_hosts (names : ∀ el ∈ els, el.name = ascii "host") (ne : els ≠ []) : addMembers
    [] (els.map (childContribution none)) =
      [(ascii "hosts", .array (els.map jsonConvertElement))] := by
  have one : ∀ el : JsonElement, el.name = ascii "host" →
      childContribution none el = ⟨ascii "hosts", jsonConvertElement el, true⟩ := by
    intro el hel
    have key : jsonKeyForElement (ascii "host") = ascii "hosts" ∧
        jsonElementIsArray (ascii "host") = true := by decide
    rw [childContribution, hel, key.1, key.2]
    rfl
  induction els using List.reverseRecOn with
  | nil => exact absurd rfl ne
  | append_singleton els el ih =>
    rw [map_append, map_singleton, one el (names el (by simp)), addMembers_concat]
    cases els with
    | nil => rfl
    | cons el' els =>
      rw [ih (fun el hel => names el (mem_append_left _ hel)) (by simp)]
      simp [addMember, Members.get, Members.set]

theorem filter_hosts (names : ∀ el ∈ els, el.name ∈ rootElements) :
    (els.flatMap contributions).filter (fun c => c.key = ascii "hosts") =
        (els.filter isHost).map (childContribution none) ∧
      (els.flatMap contributions).filter (fun c => !decide (c.key = ascii "hosts")) =
        otherContributions els := by
  have facts : ∀ name ∈ rootElements, (topKey name = ascii "hosts" ↔ name = ascii "host") := by
    decide +kernel
  have noContainer : jsonElementIsTransparent (ascii "host") = false := by decide
  induction els with
  | nil => exact ⟨rfl, rfl⟩
  | cons el els ih =>
    obtain ⟨ih1, ih2⟩ := ih fun el hel => names el (by simp [hel])
    have keys := contributions_key (names el (by simp))
    have hostKey := facts _ (names el (by simp))
    rw [flatMap_cons, filter_append, filter_append, ih1, ih2, otherContributions,
      otherContributions]
    by_cases host : el.name = ascii "host"
    · have hisHost : isHost el = true := by simpa [isHost] using host
      have all : ∀ c ∈ contributions el, c.key = ascii "hosts" := fun c hc =>
        (keys c hc).trans (hostKey.mpr host)
      have one : contributions el = [childContribution none el] := by
        rw [contributions, host, noContainer]
        rfl
      rw [one] at all ⊢
      simp [hisHost, all]
    · have hisHost : isHost el = false := by simpa [isHost] using host
      have none : ∀ c ∈ contributions el, c.key ≠ ascii "hosts" := fun c hc h =>
        host (hostKey.mp ((keys c hc).symm.trans h))
      have first : (contributions el).filter (fun c => decide (c.key = ascii "hosts")) = [] := by
        rw [filter_eq_nil_iff]
        intro c hc
        simpa using none c hc
      have second : (contributions el).filter (fun c => !decide (c.key = ascii "hosts")) =
          contributions el := by
        rw [filter_eq_self]
        intro c hc
        simpa using none c hc
      rw [first, second]
      simp [hisHost]

/-- The members a document ends up with: root attributes and preamble in the header, the
hosts, and what was held back. -/
def documentMembers (attrs : List (Bytes × Bytes)) (preamble rest : List JsonElement) : Members :=
  (attrs.map fun a => (a.1, typedAttribute a.1 a.2)) ++
    addMembers [] (preamble.flatMap contributions) ++
    (ascii "hosts", .array (hostValues rest)) :: addMembers [] (otherContributions rest)

/-- The members that the conversion of the root has. -/
def convertedMembers (attrs : List (Bytes × Bytes)) (children : List JsonElement) : Members :=
  addMembers [] (attrs.map attributeContribution ++ children.flatMap contributions)

/-- `hosts = []`, added when no host occurred. -/
def withHosts (anyHost : Bool) (ms : Members) : Members :=
  if anyHost then ms else ms ++ [(ascii "hosts", .array [])]

section Members

variable {attrs : List (Bytes × Bytes)} {preamble rest : List JsonElement}
  (distinct : (attrs.map Prod.fst).Nodup)
  (fresh : ∀ a ∈ attrs, ∀ c ∈ (preamble ++ rest).flatMap contributions, a.1 ≠ c.key)
  (preambleNames : ∀ el ∈ preamble, el.name ∈ ["scaninfo", "verbose", "debugging"].map ascii)
  (restNames : ∀ el ∈ rest, el.name ∈ bodyElements ++ [ascii "runstats"])

include distinct fresh preambleNames restNames

theorem convertedMembers_eq : convertedMembers attrs (preamble ++ rest) =
    (attrs.map fun a => (a.1, typedAttribute a.1 a.2)) ++
      (addMembers [] (preamble.flatMap contributions) ++
        addMembers [] (rest.flatMap contributions)) := by
  have disjoint : ∀ p ∈ ["scaninfo", "verbose", "debugging"].map ascii,
      ∀ r ∈ bodyElements ++ [ascii "runstats"], topKey r ≠ topKey p := by decide
  have inRoot : ∀ p ∈ ["scaninfo", "verbose", "debugging"].map ascii, p ∈ rootElements := by
    intro p hp
    exact mem_append_left _ hp
  have attrsFresh : ∀ c ∈ (preamble ++ rest).flatMap contributions,
      c.key ∉ Members.keys (attrs.map fun a => (a.1, typedAttribute a.1 a.2)) := by
    intro c hc hk
    rw [Members.keys, map_map] at hk
    obtain ⟨a, ha, heq⟩ := mem_map.mp hk
    exact fresh a ha c hc heq
  have restFresh : ∀ c ∈ rest.flatMap contributions,
      c.key ∉ Members.keys (addMembers [] (preamble.flatMap contributions)) := by
    intro c hc hk
    rw [mem_keys_addMembers] at hk
    rcases hk with hk | hk
    · cases hk
    · obtain ⟨c', hc', heq⟩ := mem_map.mp hk
      obtain ⟨r, hr, hcr⟩ := mem_flatMap.mp hc
      obtain ⟨p, hp, hcp⟩ := mem_flatMap.mp hc'
      have keyR := contributions_key (mem_append_right _ (restNames r hr)) c hcr
      have keyP := contributions_key (inRoot _ (preambleNames p hp)) c' hcp
      exact disjoint _ (preambleNames p hp) _ (restNames r hr)
        (keyR.symm.trans (heq.symm.trans keyP))
  have one := addMembers_append attrsFresh []
  have two := addMembers_append restFresh []
  rw [append_nil] at one two
  rw [convertedMembers, addMembers_append_list, addMembers_attributes distinct, one,
    flatMap_append, addMembers_append_list, two]

/-- The document has the members of the conversion, in another order. -/
theorem documentMembers_perm : (documentMembers attrs preamble rest).Perm
    (withHosts (rest.any isHost) (convertedMembers attrs (preamble ++ rest))) := by
  rw [convertedMembers_eq distinct fresh preambleNames restNames, documentMembers]
  have names : ∀ el ∈ rest, el.name ∈ rootElements := fun el hel =>
    mem_append_right _ (restNames el hel)
  obtain ⟨hosts, others⟩ := filter_hosts names
  have parts := addMembers_partition (fun k => decide (k = ascii "hosts"))
    (rest.flatMap contributions)
  rw [hosts, others] at parts
  have hostNames : ∀ el ∈ rest.filter isHost, el.name = ascii "host" := by
    intro el hel
    simpa [isHost] using (mem_filter.mp hel).2
  cases hany : rest.any isHost with
  | true =>
    have ne : rest.filter isHost ≠ [] := by
      obtain ⟨el, hel, hhost⟩ := any_eq_true.mp hany
      exact ne_nil_of_mem (mem_filter.mpr ⟨hel, hhost⟩)
    rw [addMembers_hosts hostNames ne] at parts
    rw [withHosts, if_pos rfl, append_assoc]
    exact Perm.append_left _ (Perm.append_left _ parts.symm)
  | false =>
    have nil : rest.filter isHost = [] := by
      rw [filter_eq_nil_iff]
      intro el hel hhost
      rw [any_eq_false] at hany
      exact hany el hel hhost
    have noValues : hostValues rest = [] := by
      rw [hostValues, nil]
      rfl
    rw [nil, map_nil, addMembers_nil, nil_append] at parts
    rw [withHosts, if_neg (by simp), noValues, append_assoc, append_assoc,
      append_assoc]
    refine Perm.append_left _ (Perm.append_left _ ?_)
    exact (perm_append_singleton _ _).symm.trans (Perm.append_right _ parts.symm)

end Members

/-! ## Numbers and keys of a document -/

theorem addMembers_numbersOk {obj : Members} {cs : List Contribution}
    (hobj : NumbersOkMembers obj) (hcs : ∀ c ∈ cs, NumbersOk c.value) :
    NumbersOkMembers (addMembers obj cs) := by
  induction cs generalizing obj with
  | nil => exact hobj
  | cons c cs ih =>
    exact ih (addMember_numbersOk hobj (hcs c (by simp)) _ _) fun c hc => hcs c (by simp [hc])

theorem contributions_numbersOk :
    ∀ c ∈ els.flatMap contributions, NumbersOk c.value := by
  intro c hc
  obtain ⟨el, -, hc⟩ := mem_flatMap.mp hc
  rw [contributions] at hc
  split at hc
  · obtain ⟨child, -, rfl⟩ := mem_map.mp hc
    exact jsonConvertElement_numbersOk child
  · rw [mem_singleton.mp hc]
    exact jsonConvertElement_numbersOk el

theorem documentMembers_numbersOk (attrs : List (Bytes × Bytes))
    (preamble rest : List JsonElement) :
    NumbersOkMembers (documentMembers attrs preamble rest) := by
  rw [numbersOkMembers_iff]
  intro m hm
  rw [documentMembers, mem_append, mem_append, mem_cons] at hm
  have collected : ∀ {cs : List Contribution}, (∀ c ∈ cs, NumbersOk c.value) →
      ∀ m ∈ addMembers [] cs, NumbersOk m.2 := fun hcs =>
    numbersOkMembers_iff.mp (addMembers_numbersOk trivial hcs)
  rcases hm with (hm | hm) | rfl | hm
  · obtain ⟨a, -, rfl⟩ := mem_map.mp hm
    exact typedAttribute_numbersOk a.1 a.2
  · exact collected contributions_numbersOk m hm
  · rw [NumbersOk, numbersOkItems_iff]
    intro v hv
    obtain ⟨el, -, rfl⟩ := mem_map.mp hv
    exact jsonConvertElement_numbersOk el
  · exact collected contributions_numbersOk m hm

theorem lt_of_all {s : Bytes} (all : s.all (fun c => c < 0x80) = true) : ∀ c ∈ s, c < 0x80 :=
  fun c mem => of_decide_eq_true (all_eq_true.mp all c mem)

theorem decodeLossy_ascii_inj {s t : Bytes} (hs : ∀ c ∈ s, c < 0x80) (ht : ∀ c ∈ t, c < 0x80)
    (h : Utf8.decodeLossy s = Utf8.decodeLossy t) : s = t := by
  induction s generalizing t with
  | nil =>
    cases t with
    | nil => rfl
    | cons c t =>
      rw [Utf8.decodeLossy_nil, decodeLossy_ascii (ht c (by simp))] at h
      cases h
  | cons c s ih =>
    cases t with
    | nil =>
      rw [Utf8.decodeLossy_nil, decodeLossy_ascii (hs c (by simp))] at h
      cases h
    | cons d t =>
      rw [decodeLossy_ascii (hs c (by simp)), decodeLossy_ascii (ht d (by simp))] at h
      obtain ⟨hchar, hrest⟩ := List.cons.inj h
      have same : ∀ n < 128, (Char.ofNat n).toNat = n := by decide
      have hcd : c.toNat = d.toNat := by
        have := congrArg Char.toNat hchar
        rwa [same c.toNat (hs c (by simp)), same d.toNat (ht d (by simp))] at this
      rw [UInt8.toNat_inj.mp hcd,
        ih (fun c hc => hs c (by simp [hc])) (fun c hc => ht c (by simp [hc])) hrest]

/-- The keys that the children of the root take, and `hosts`. -/
def topKeys (children : List JsonElement) : List Bytes :=
  ascii "hosts" :: (children.flatMap contributions).map Contribution.key

theorem documentMembers_keys {preamble rest : List JsonElement} {k : Bytes}
    (h : k ∈ (documentMembers attrs preamble rest).keys) :
    k ∈ attrs.map Prod.fst ∨ k ∈ topKeys (preamble ++ rest) := by
  have collected : ∀ {cs : List Contribution} {k : Bytes}, k ∈ (addMembers [] cs).keys →
      k ∈ cs.map Contribution.key := by
    intro cs k hk
    rcases mem_keys_addMembers.mp hk with hk | hk
    · cases hk
    · exact hk
  simp only [documentMembers, Members.keys, map_append, map_cons, mem_append,
    mem_cons, map_map] at h
  rw [topKeys, flatMap_append, map_append, mem_cons, mem_append]
  rcases h with (h | h) | h | h
  · exact Or.inl h
  · exact Or.inr (Or.inr (Or.inl (collected h)))
  · exact Or.inr (Or.inl h)
  · refine Or.inr (Or.inr (Or.inr ?_))
    obtain ⟨c, hc, rfl⟩ := mem_map.mp (collected h)
    obtain ⟨el, hel, hc⟩ := mem_flatMap.mp hc
    exact mem_map_of_mem (mem_flatMap.mpr ⟨el, (mem_filter.mp hel).1, hc⟩)

theorem elements_in_order (order : InDtdOrder (els.map JsonElement.name)) :
    ∃ early debugging rest, els = early ++ debugging :: rest ∧
      (∀ el ∈ early, el.name ∈ [ascii "scaninfo", ascii "verbose"]) ∧
      debugging.name = ascii "debugging" ∧
      ∀ el ∈ rest, el.name ∈ bodyElements ++ [ascii "runstats"] := by
  obtain ⟨n, body, hnames, hbody⟩ := order
  obtain ⟨infos, others, rfl, hinfos, hothers⟩ := map_eq_append_iff.mp hnames
  obtain ⟨verbose, others, rfl, hverbose, hothers⟩ := map_eq_cons_iff.mp hothers
  obtain ⟨debugging, rest, rfl, hdebugging, hrest⟩ := map_eq_cons_iff.mp hothers
  refine ⟨infos ++ [verbose], debugging, rest, by simp, ?_, hdebugging, ?_⟩
  · intro el hel
    rcases mem_append.mp hel with hel | hel
    · have : el.name ∈ List.replicate n (ascii "scaninfo") := hinfos ▸ mem_map_of_mem hel
      rw [(mem_replicate.mp this).2]
      simp
    · rw [mem_singleton.mp hel, hverbose]
      simp
  · intro el hel
    have : el.name ∈ body ++ [ascii "runstats"] := hrest ▸ mem_map_of_mem hel
    rcases mem_append.mp this with h | h
    · exact mem_append_left _ (hbody _ h)
    · exact mem_append_right _ h

/-- The text of a document for a stream in the order of the DTD. -/
theorem documentText_eq (name : Bytes) (attrs : List (Bytes × Bytes))
    (plain : ∀ item ∈ content, item.isAttribute = false)
    (order : InDtdOrder ((Item.childElements content).map JsonElement.name)) :
    ∃ preamble rest, Item.childElements content = preamble ++ rest ∧
      (∀ el ∈ preamble, el.name ∈ ["scaninfo", "verbose", "debugging"].map ascii) ∧
      (∀ el ∈ rest, el.name ∈ bodyElements ++ [ascii "runstats"]) ∧
      documentText (.root name attrs content) =
        dump 2 0 (.object (documentMembers attrs preamble rest)) ++ ascii "\n" := by
  obtain ⟨early, debugging, rest, hels, hearly, hdebugging, hrest⟩ := elements_in_order order
  have preambleNames : ∀ el ∈ early ++ [debugging],
      el.name ∈ ["scaninfo", "verbose", "debugging"].map ascii := by
    intro el hel
    rcases mem_append.mp hel with hel | hel
    · exact mem_append_left [ascii "debugging"] (hearly el hel)
    · rw [mem_singleton.mp hel, hdebugging]
      simp
  refine ⟨early ++ [debugging], rest, by rw [hels]; simp, preambleNames, hrest, ?_⟩
  -- the preamble is held back until `debugging`, the rest goes out or is held back
  have begun : JsonWriter.Preamble (JsonWriter.started name attrs) [] :=
    ⟨⟨rfl, rfl, rfl, rfl, rfl, rfl⟩, rfl⟩
  have held := JsonWriter.flushChildren_preamble begun hearly
  have noStats : ∀ c ∈ [] ++ early.flatMap contributions ++ contributions debugging,
      c.key ≠ ascii "runstats" := by
    have facts : ∀ p ∈ ["scaninfo", "verbose", "debugging"].map ascii,
        p ∈ rootElements ∧ topKey p ≠ ascii "runstats" := by decide
    intro c hc
    have hmem : c ∈ (early ++ [debugging]).flatMap contributions := by simpa using hc
    obtain ⟨el, hel, hc⟩ := mem_flatMap.mp hmem
    obtain ⟨inRoot, noStats⟩ := facts _ (preambleNames el hel)
    rw [contributions_key inRoot c hc]
    exact noStats
  have header := JsonWriter.flushChild_debugging held hdebugging noStats
  have out := JsonWriter.flushChildren_body header hrest
  have cursor := JsonWriter.sameCursor_flushChildren (JsonWriter.started name attrs)
  have attributes : (early.foldl JsonWriter.flushChild
      (JsonWriter.started name attrs)).rootAttributes =
        attrs.map fun a => (a.1, typedAttribute a.1 a.2) := by
    rw [JsonWriter.rootAttributes, (cursor early).root]
    rfl
  have whole : rest.foldl JsonWriter.flushChild ((early.foldl JsonWriter.flushChild
      (JsonWriter.started name attrs)).flushChild debugging) =
        (Item.childElements content).foldl JsonWriter.flushChild
          (JsonWriter.started name attrs) := by
    rw [hels, foldl_append, foldl_cons]
  rw [whole, attributes] at out
  rw [documentText_root name attrs plain, JsonWriter.end_emitted out.written
    (JsonWriter.Alive.sameCursor ⟨rfl, rfl⟩ (cursor _)) (cursor _).stackSize, out.pending,
    documentMembers]
  simp

/-! ## The document and the conversion -/

/-- The key `hosts`, as it is read. -/
def hostsKey : List Char := "hosts".toList

/-- The text is one JSON object in which every key occurs once, with an array `hosts`,
and its members are those of the converted element, with `hosts = []` added when no
host occurred. -/
def SaysTheSame (root : JsonElement) (text : Bytes) : Prop :=
  ∃ ms converted, Json.read text = some (.object ms) ∧ (ms.map Prod.fst).Nodup ∧
    (∃ hosts, (hostsKey, .array hosts) ∈ ms) ∧
    meaning (jsonConvertElement root) = .object converted ∧
    ms.Perm (if root.children.any isHost then converted
      else converted ++ [(hostsKey, .array [])])

theorem decodeLossy_hosts : Utf8.decodeLossy (ascii "hosts") = hostsKey := by
  have bytes : ascii "hosts" = [0x68, 0x6f, 0x73, 0x74, 0x73] := by decide
  rw [bytes, decodeLossy_ascii (by decide), decodeLossy_ascii (by decide),
    decodeLossy_ascii (by decide), decodeLossy_ascii (by decide), decodeLossy_ascii (by decide),
    Utf8.decodeLossy_nil]
  decide

theorem jsonConvertElement_root {name : Bytes}
    (ordinary : name ∉ [ascii "script", ascii "table", ascii "elem"])
    (attrs : List (Bytes × Bytes)) (children : List JsonElement) :
    jsonConvertElement (.mk name attrs [] children) =
      .object (convertedMembers attrs children) := by
  simp only [mem_cons, not_mem_nil, or_false, not_or] at ordinary
  rw [jsonConvertElement, if_neg ordinary.1, if_neg ordinary.2.1, if_neg ordinary.2.2]
  simp [addAttributes_eq, addChildren_eq, convertedMembers, addMembers_append_list]

/-- The keys of a document are read as different keys. -/
theorem documentMembers_distinct {preamble rest : List JsonElement}
    (distinct : ((attrs.map Prod.fst).map Utf8.decodeLossy).Nodup)
    (fresh : ∀ a ∈ attrs, ∀ k ∈ topKeys (preamble ++ rest),
      Utf8.decodeLossy a.1 ≠ Utf8.decodeLossy k)
    (names : ∀ el ∈ preamble ++ rest, el.name ∈ rootElements)
    (nodup : (documentMembers attrs preamble rest).keys.Nodup) :
    ((documentMembers attrs preamble rest).keys.map Utf8.decodeLossy).Nodup := by
  have facts : (ascii "hosts").all (fun c => c < 0x80) = true ∧
      ∀ name ∈ rootElements, (topKey name).all (fun c => c < 0x80) = true := by decide
  have asciiKeys : ∀ k ∈ topKeys (preamble ++ rest), ∀ c ∈ k, c < 0x80 := by
    intro k hk
    rcases mem_cons.mp hk with rfl | hk
    · exact lt_of_all facts.1
    · obtain ⟨c, hc, rfl⟩ := mem_map.mp hk
      obtain ⟨el, hel, hc⟩ := mem_flatMap.mp hc
      rw [contributions_key (names el hel) c hc]
      exact lt_of_all (facts.2 _ (names el hel))
  refine nodup.map_on ?_
  intro k hk k' hk' heq
  rcases documentMembers_keys hk with hattr | htop
  · rcases documentMembers_keys hk' with hattr' | htop'
    · exact inj_on_of_nodup_map distinct hattr hattr' heq
    · obtain ⟨a, ha, rfl⟩ := mem_map.mp hattr
      exact absurd heq (fresh a ha k' htop')
  · rcases documentMembers_keys hk' with hattr' | htop'
    · obtain ⟨a, ha, rfl⟩ := mem_map.mp hattr'
      exact absurd heq.symm (fresh a ha k htop)
    · exact decodeLossy_ascii_inj (asciiKeys k htop) (asciiKeys k' htop') heq

/-- `hosts` is added only where it is missing. -/
theorem withHosts_nodup {children : List JsonElement}
    (names : ∀ el ∈ children, el.name ∈ rootElements) (fresh : ∀ a ∈ attrs, a.1 ≠ ascii "hosts") :
    (withHosts (children.any isHost) (convertedMembers attrs children)).keys.Nodup := by
  have nodup : (convertedMembers attrs children).keys.Nodup :=
    nodup_addMembers (by simp [Members.keys]) _
  rw [withHosts]
  split
  · exact nodup
  · rename_i noHost
    rw [Members.keys_append, nodup_append]
    refine ⟨nodup, nodup_singleton _, ?_⟩
    rintro k hk k' hk' rfl
    rw [show k = ascii "hosts" from mem_singleton.mp hk', convertedMembers,
      mem_keys_addMembers, map_append, mem_append, map_map] at hk
    rcases hk with hk | hk | hk
    · cases hk
    · obtain ⟨a, ha, heq⟩ := mem_map.mp hk
      exact fresh a ha heq
    · obtain ⟨c, hc, heq⟩ := mem_map.mp hk
      obtain ⟨el, hel, hc⟩ := mem_flatMap.mp hc
      have facts : ∀ name ∈ rootElements, topKey name = ascii "hosts" → name = ascii "host" := by
        decide
      have host := facts _ (names el hel) ((contributions_key (names el hel) c hc).symm.trans heq)
      exact noHost (any_eq_true.mpr ⟨el, hel, by simpa [isHost] using host⟩)

/-- In document mode, a stream in the order of the DTD gives the document that the
conversion of the root describes. Root attributes come before its content, have
different names and take no key of a child; the root's own text is not part of the
document. -/
theorem document_reads_as_conversion (name : Bytes) (attrs : List (Bytes × Bytes))
    (content : List Item) (plain : ∀ item ∈ content, item.isAttribute = false)
    (order : InDtdOrder ((Item.childElements content).map JsonElement.name))
    (ordinary : name ∉ [ascii "script", ascii "table", ascii "elem"])
    (distinct : ((attrs.map Prod.fst).map Utf8.decodeLossy).Nodup)
    (fresh : ∀ a ∈ attrs, ∀ k ∈ topKeys (Item.childElements content),
      Utf8.decodeLossy a.1 ≠ Utf8.decodeLossy k) :
    SaysTheSame (Item.rootElement name attrs content).withoutText
      (documentText (.root name attrs content)) := by
  obtain ⟨preamble, rest, hels, preambleNames, restNames, htext⟩ :=
    documentText_eq name attrs plain order
  rw [hels] at fresh
  have freshNames : ∀ a ∈ attrs, ∀ c ∈ (preamble ++ rest).flatMap contributions, a.1 ≠ c.key := by
    intro a ha c hc heq
    exact fresh a ha c.key (mem_cons_of_mem _ (mem_map_of_mem hc)) (by rw [heq])
  have perm := documentMembers_perm distinct.of_map freshNames preambleNames restNames
  have noHost : preamble.any isHost = false := by
    have facts : ∀ n ∈ ["scaninfo", "verbose", "debugging"].map ascii, n ≠ ascii "host" := by
      decide
    rw [any_eq_false]
    intro el hel
    simpa [isHost] using facts _ (preambleNames el hel)
  have names : ∀ el ∈ preamble ++ rest, el.name ∈ rootElements := by
    intro el hel
    rcases mem_append.mp hel with hel | hel
    · exact mem_append_left _ (preambleNames el hel)
    · exact mem_append_right _ (restNames el hel)
  have anyHost : rest.any isHost = (preamble ++ rest).any isHost := by
    rw [any_append, noHost, Bool.false_or]
  rw [anyHost] at perm
  have nodup : (documentMembers attrs preamble rest).keys.Nodup := by
    refine (perm.map Prod.fst).nodup_iff.mpr (withHosts_nodup names ?_)
    intro a ha heq
    exact fresh a ha (ascii "hosts") (mem_cons_self ..) (by rw [heq])
  have reads := (dump_reads 2 0 (.object (documentMembers attrs preamble rest))
    (documentMembers_numbersOk attrs preamble rest)).read
      (show (ascii "\n").all Json.isWs = true by decide)
  have keys : (meaningMembers (documentMembers attrs preamble rest)).map Prod.fst =
      (documentMembers attrs preamble rest).keys.map Utf8.decodeLossy := by
    rw [meaningMembers_eq_map, Members.keys, map_map, map_map]
    rfl
  rw [rootElement_withoutText name attrs plain, hels]
  refine ⟨meaningMembers (documentMembers attrs preamble rest),
    meaningMembers (convertedMembers attrs (preamble ++ rest)), ?_, ?_, ?_, ?_, ?_⟩
  · rw [htext, reads]
    rfl
  · rw [keys]
    exact documentMembers_distinct distinct fresh names nodup
  · refine ⟨meaningItems (hostValues rest), ?_⟩
    rw [meaningMembers_eq_map, ← decodeLossy_hosts]
    exact mem_map_of_mem
      (show (ascii "hosts", JsonValue.array (hostValues rest)) ∈ documentMembers attrs preamble rest
        by simp [documentMembers])
  · rw [jsonConvertElement_root ordinary]
    rfl
  · have same := perm.map fun m => (Utf8.decodeLossy m.1, meaning m.2)
    rw [← meaningMembers_eq_map, ← meaningMembers_eq_map, withHosts] at same
    refine same.trans (Perm.of_eq ?_)
    rw [JsonElement.children]
    split
    · rfl
    · rw [meaningMembers_eq_map, meaningMembers_eq_map, map_append, map_singleton,
        decodeLossy_hosts]
      rfl

def leaf (name : String) : Item := .element (ascii name) []

/-- A scan of one host, with a host that is nothing but text in between. -/
def oneHost : List Item :=
  [leaf "scaninfo", leaf "verbose", leaf "debugging", leaf "taskbegin",
    .element (ascii "host") [.attr (ascii "starttime") (ascii "7"), leaf "status"],
    .element (ascii "prescript") [leaf "script"], leaf "runstats"]

theorem document_oneHost : SaysTheSame
    (Item.rootElement (ascii "nmaprun") [(ascii "scanner", ascii "nmap")] oneHost).withoutText
    (documentText (.root (ascii "nmaprun") [(ascii "scanner", ascii "nmap")] oneHost)) := by
  apply document_reads_as_conversion
  · decide
  · exact ⟨1, [ascii "taskbegin", ascii "host", ascii "prescript"], rfl, by decide⟩
  · decide
  · exact nodup_singleton _
  · intro a ha k hk heq
    have facts : ∀ a ∈ [(ascii "scanner", ascii "nmap")],
        ∀ k ∈ topKeys (Item.childElements oneHost),
          a.1 ≠ k ∧ a.1.all (fun c => c < 0x80) = true ∧
            k.all (fun c => c < 0x80) = true := by decide +kernel
    obtain ⟨ne, hascii, hascii'⟩ := facts a ha k hk
    exact ne (decodeLossy_ascii_inj (lt_of_all hascii) (lt_of_all hascii') heq)

/-- The keys of the object a text reads as. -/
def readKeys (text : Bytes) : Option (List (List Char)) :=
  match Json.read text with
  | some (.object ms) => some (ms.map Prod.fst)
  | _ => none

/-- How many members the conversion of an element has. -/
def memberCount (el : JsonElement) : Nat :=
  match jsonConvertElement el with
  | .object ms => ms.length
  | _ => 0

theorem SaysTheSame.keys {root : JsonElement} {text : Bytes} (h : SaysTheSame root text)
    {keys : List (List Char)} (hkeys : readKeys text = some keys) : keys.Nodup ∧
      keys.length = memberCount root + if root.children.any isHost then 0 else 1 := by
  obtain ⟨ms, converted, hread, hnodup, -, hmeaning, hperm⟩ := h
  rw [readKeys, hread] at hkeys
  cases hkeys
  refine ⟨hnodup, ?_⟩
  have count : memberCount root = converted.length := by
    rw [memberCount]
    cases hconvert : jsonConvertElement root with
    | object members =>
      rw [hconvert, meaning] at hmeaning
      cases hmeaning
      rw [meaningMembers_eq_map, length_map]
    | _ =>
      rw [hconvert, meaning] at hmeaning
      cases hmeaning
  rw [length_map, hperm.length_eq, count]
  split <;> simp

def noHosts : List Item := [leaf "verbose", leaf "debugging", leaf "runstats"]

/-- Where the document is not the conversion: a root attribute that takes the key of a
member, the same one twice, one that comes after the header, text of the root, and a root
with the name of a script. -/
theorem document_differs_from_conversion :
    InDtdOrder ((Item.childElements noHosts).map JsonElement.name) ∧
      (∀ stream ∈ [(ascii "nmaprun", [(ascii "hosts", ascii "1")], noHosts),
          (ascii "nmaprun", [(ascii "args", ascii "1"), (ascii "args", ascii "2")], noHosts),
          (ascii "nmaprun", [], noHosts ++ [.attr (ascii "args") (ascii "1")]),
          (ascii "nmaprun", [], noHosts ++ [.characters (ascii "text")]),
          (ascii "script", [], noHosts)],
        ¬ SaysTheSame (Item.rootElement stream.1 stream.2.1 stream.2.2)
          (documentText (.root stream.1 stream.2.1 stream.2.2))) := by
  refine ⟨⟨0, [], rfl, by decide⟩, ?_⟩
  have differs : ∀ (keys : List (List Char)) {root : JsonElement} {text : Bytes},
      readKeys text = some keys → ¬ (keys.Nodup ∧
        keys.length = memberCount root + if root.children.any isHost then 0 else 1) →
      ¬ SaysTheSame root text := fun _ _ _ hkeys h same => h (same.keys hkeys)
  intro stream hstream
  simp only [mem_cons, not_mem_nil, or_false] at hstream
  rcases hstream with rfl | rfl | rfl | rfl | rfl
  · exact differs (["hosts", "verbose", "debugging", "hosts", "runstats"].map String.toList)
      (by decide +kernel) (by decide +kernel)
  · exact differs (["args", "args", "verbose", "debugging", "hosts", "runstats"].map String.toList)
      (by decide +kernel) (by decide +kernel)
  all_goals
    exact differs (["verbose", "debugging", "hosts", "runstats"].map String.toList)
      (by decide +kernel) (by decide +kernel)

end Nmap.Json
