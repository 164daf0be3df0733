import Nmap.Json.ReadBack

/-!
# Elements and their conversion (`json.cc`)

The captured XML element tree, the tables of mapping rules and
`json_convert_element`. Whatever an element looks like, its value holds only
numbers that `json_is_number` accepts (`jsonConvertElement_numbersOk`).

The members of an object are collected one contribution after the other
(`addMember`), and contributions under different keys do not see each other: taking
those with a chosen set of keys first only reorders the members
(`addMembers_partition`).
-/

namespace Nmap.Json

open Nmap.Base List

inductive JsonElement
  | mk (name : Bytes) (attrs : List (Bytes × Bytes)) (text : Bytes) (children : List JsonElement)

namespace JsonElement

def name : JsonElement → Bytes
  | .mk name _ _ _ => name

def attrs : JsonElement → List (Bytes × Bytes)
  | .mk _ attrs _ _ => attrs

def text : JsonElement → Bytes
  | .mk _ _ text _ => text

def children : JsonElement → List JsonElement
  | .mk _ _ _ children => children

/-- The constructor: `JsonElement(elname)` -/
def empty (elname : Bytes) : JsonElement := .mk elname [] [] []

def addAttribute (attrname value : Bytes) : JsonElement → JsonElement
  | .mk name attrs text children => .mk name (attrs ++ [(attrname, value)]) text children

/-- `text += more` -/
def addText (more : Bytes) : JsonElement → JsonElement
  | .mk name attrs text children => .mk name attrs (text ++ more) children

/-- `children.push_back(child)` -/
def addChild : JsonElement → JsonElement → JsonElement
  | .mk name attrs text children, child => .mk name attrs text (children ++ [child])

end JsonElement

/-! ## Mapping rules -/

def arrayElements : List (Bytes × Bytes) :=
  [("address", "addresses"), ("cpe", "cpe"), ("extraports", "extraports"),
    ("extrareasons", "extrareasons"), ("hop", "hops"), ("host", "hosts"),
    ("hosthint", "hosthints"), ("hostname", "hostnames"), ("osclass", "osclasses"),
    ("osfingerprint", "osfingerprints"), ("osmatch", "osmatches"), ("output", "output"),
    ("port", "ports"), ("portused", "portsused"), ("scaninfo", "scaninfo"),
    ("script", "scripts"), ("target", "targets"), ("taskbegin", "taskbegin"),
    ("taskend", "taskend"), ("taskprogress", "taskprogress")].map
    fun (name, key) => (ascii name, ascii key)

def transparentElements : List (Bytes × Option Bytes) :=
  [(ascii "hostnames", none), (ascii "hostscript", none), (ascii "ports", none),
    (ascii "postscript", some (ascii "postscripts")),
    (ascii "prescript", some (ascii "prescripts"))]

def numericAttributes : List Bytes :=
  ["accuracy", "conf", "count", "down", "elapsed", "end", "endtime", "etc",
    "highver", "index", "level", "line", "lowver", "numservices", "percent",
    "port", "portid", "reason_ttl", "remaining", "responses", "rpcnum", "rtt",
    "rttvar", "seconds", "srtt", "start", "starttime", "time", "to", "total",
    "ttl", "up", "value"].map ascii

def booleanAttributes : List Bytes := [ascii "timedout"]

def inList (list : List Bytes) (name : Bytes) : Bool := list.any fun entry => name = entry

def findMapping {β : Type} (table : List (Bytes × β)) (name : Bytes) : Option (Bytes × β) :=
  table.find? fun m => name = m.1

def jsonKeyForElement (name : Bytes) : Bytes :=
  match findMapping arrayElements name with
  | some m => m.2
  | none => name

def jsonElementIsArray (name : Bytes) : Bool := (findMapping arrayElements name).isSome

def jsonElementIsTransparent (name : Bytes) : Bool := (findMapping transparentElements name).isSome

def transparentChildKey (name : Bytes) : Option Bytes :=
  (findMapping transparentElements name).bind fun m => m.2

def typedAttribute (name value : Bytes) : JsonValue :=
  if inList booleanAttributes name then
    if value = ascii "true" then .bool true
    else if value = ascii "false" then .bool false
    else .string value
  -- rtt="--" for a hop that timed out, and versions, stay strings
  else if inList numericAttributes name && jsonIsNumber value then .number value
  else .string value

def attributeValue (el : JsonElement) (name : Bytes) : Option Bytes :=
  (el.attrs.find? fun a => a.1 = name).map Prod.snd

/-! ## Conversion -/

/-- Add to an object under a key that may be taken, which turns its value into an
array; an `asArray` value starts out as one. -/
def addMember (obj : Members) (key : Bytes) (value : JsonValue) (asArray : Bool) : Members :=
  match obj.get key with
  | none => obj.set key (if asArray then .array [value] else value)
  | some (.array arr) => obj.set key (.array (arr ++ [value]))
  | some existing => obj.set key (.array [existing, value])

def objectAdd (obj : Members) (key : Bytes) (value : JsonValue) : Members :=
  addMember obj key value false

/-- `add_child_value`, for the converted child -/
def addChildValue (parent : Members) (childName : Bytes) (value : JsonValue)
    (keyOverride : Option Bytes) : Members :=
  let key := keyOverride.getD (jsonKeyForElement childName)
  let asArray := keyOverride.isSome || jsonElementIsArray childName
  addMember parent key value asArray

/-- The loop over the attributes of an element. -/
def addAttributes (obj : Members) (attrs : List (Bytes × Bytes)) : Members :=
  attrs.foldl (fun obj a => objectAdd obj a.1 (typedAttribute a.1 a.2)) obj

/-- One turn of the loop of `convert_nse_children`: keyed values are members, the others
are collected. -/
def addNseChild (acc : Members × List JsonValue) (child : JsonElement × JsonValue) :
    Members × List JsonValue :=
  match attributeValue child.1 (ascii "key") with
  | some key => (objectAdd acc.1 key child.2, acc.2)
  | none => (acc.1, acc.2 ++ [child.2])

/-- `convert_nse_children`, for children with their values -/
def convertNseChildren (children : List (JsonElement × JsonValue)) : JsonValue :=
  let anyKeyed := children.any fun c => (attributeValue c.1 (ascii "key")).isSome
  let anyUnkeyed := children.any fun c => (attributeValue c.1 (ascii "key")).isNone
  if !anyKeyed then .array (children.map Prod.snd)
  else
    let acc := children.foldl addNseChild ([], [])
    .object (if anyUnkeyed then Members.set acc.1 (ascii "_") (.array acc.2) else acc.1)

/-- `convert_script`, for children with their values -/
def convertScript (attrs : List (Bytes × Bytes)) (text : Bytes)
    (children : List (JsonElement × JsonValue)) : JsonValue :=
  let obj := addAttributes [] attrs
  let hasStructured := children.any fun c =>
    c.1.name = ascii "table" || c.1.name = ascii "elem"
  .object <|
    if hasStructured then obj.set (ascii "data") (convertNseChildren children)
    else if !text.isEmpty then obj.set (ascii "data") (.string text)
    else obj

mutual

/-- `json_convert_element`. `convert_nse_node` makes its first tests, with the same
results, and calls it for the rest, so it stands for both. -/
def jsonConvertElement : JsonElement → JsonValue
  | .mk name attrs text children =>
    if name = ascii "script" then convertScript attrs text (convertChildren children)
    else if name = ascii "table" then convertNseChildren (convertChildren children)
    else if name = ascii "elem" then .string text
    else
      let obj := addChildren (addAttributes [] attrs) children
      if !text.isEmpty then
        -- an element that is nothing but text becomes that text
        if obj.isEmpty then .string text
        else .object (obj.set (ascii "_text") (.string text))
      else .object obj

def convertChildren : List JsonElement → List (JsonElement × JsonValue)
  | [] => []
  | child :: children => (child, jsonConvertElement child) :: convertChildren children

/-- The loop over the children, which lifts those of transparent elements. -/
def addChildren (obj : Members) : List JsonElement → Members
  | [] => obj
  | child :: children =>
    let obj :=
      if jsonElementIsTransparent child.name then addTransparent obj child
      else addChildValue obj child.name (jsonConvertElement child) none
    addChildren obj children

/-- The branch for a transparent child. -/
def addTransparent (obj : Members) : JsonElement → Members
  | .mk name _ _ children => addLifted obj (transparentChildKey name) children

/-- The inner loop, over the children of a transparent element. -/
def addLifted (obj : Members) (overrideKey : Option Bytes) : List JsonElement → Members
  | [] => obj
  | child :: children =>
    addLifted (addChildValue obj child.name (jsonConvertElement child) overrideKey)
      overrideKey children

end

/-! ## Numbers in converted elements -/

theorem numbersOkItems_iff {vs : List JsonValue} :
    NumbersOkItems vs ↔ ∀ v ∈ vs, NumbersOk v := by
  induction vs with
  | nil => simp [NumbersOkItems]
  | cons v vs ih => simp [NumbersOkItems, ih]

theorem numbersOkMembers_iff {ms : Members} :
    NumbersOkMembers ms ↔ ∀ m ∈ ms, NumbersOk m.2 := by
  induction ms with
  | nil => simp [NumbersOkMembers]
  | cons m ms ih => simp [NumbersOkMembers, ih]

namespace Members

theorem set_numbersOk {ms : Members} {v : JsonValue} (hms : NumbersOkMembers ms)
    (hv : NumbersOk v) (k : Bytes) : NumbersOkMembers (ms.set k v) := by
  induction ms with
  | nil => exact ⟨hv, trivial⟩
  | cons m ms ih =>
    rw [set]
    split
    · exact ⟨hv, hms.2⟩
    · exact ⟨hms.1, ih hms.2⟩

theorem get_numbersOk {ms : Members} {k : Bytes} {v : JsonValue} (hms : NumbersOkMembers ms)
    (h : ms.get k = some v) : NumbersOk v := by
  induction ms with
  | nil => cases h
  | cons m ms ih =>
    rw [get] at h
    split at h
    · cases h
      exact hms.1
    · exact ih hms.2 h

end Members

theorem addMember_numbersOk {obj : Members} {value : JsonValue} (hobj : NumbersOkMembers obj)
    (hvalue : NumbersOk value) (key : Bytes) (asArray : Bool) :
    NumbersOkMembers (addMember obj key value asArray) := by
  rw [addMember]
  split
  · apply Members.set_numbersOk hobj
    split
    · exact ⟨hvalue, trivial⟩
    · exact hvalue
  · rename_i arr hget
    apply Members.set_numbersOk hobj
    have harr : NumbersOkItems arr := Members.get_numbersOk hobj hget
    rw [NumbersOk, numbersOkItems_iff]
    intro v hv
    rcases mem_append.mp hv with hv | hv
    · exact numbersOkItems_iff.mp harr v hv
    · rw [mem_singleton.mp hv]
      exact hvalue
  · rename_i existing _ hget
    apply Members.set_numbersOk hobj
    exact ⟨Members.get_numbersOk hobj hget, hvalue, trivial⟩

theorem typedAttribute_numbersOk (name value : Bytes) : NumbersOk (typedAttribute name value) := by
  rw [typedAttribute]
  split
  · split
    · trivial
    · split <;> trivial
  · split
    · rename_i h
      exact (Bool.and_eq_true _ _ ▸ h).2
    · trivial

theorem addAttributes_numbersOk {obj : Members} (hobj : NumbersOkMembers obj)
    (attrs : List (Bytes × Bytes)) : NumbersOkMembers (addAttributes obj attrs) := by
  induction attrs generalizing obj with
  | nil => exact hobj
  | cons a attrs ih =>
    exact ih (addMember_numbersOk hobj (typedAttribute_numbersOk a.1 a.2) a.1 false)

variable {children : List (JsonElement × JsonValue)}

theorem addNseChild_numbersOk (h : ∀ c ∈ children, NumbersOk c.2) (acc : Members × List JsonValue)
    (hobj : NumbersOkMembers acc.1) (hunkeyed : NumbersOkItems acc.2) :
    NumbersOkMembers (children.foldl addNseChild acc).1 ∧
      NumbersOkItems (children.foldl addNseChild acc).2 := by
  induction children generalizing acc with
  | nil => exact ⟨hobj, hunkeyed⟩
  | cons c children ih =>
    have hc := h c (by simp)
    have hchildren : ∀ c ∈ children, NumbersOk c.2 := fun c hc => h c (by simp [hc])
    rw [foldl_cons, addNseChild]
    split
    · exact ih hchildren _ (addMember_numbersOk hobj hc _ false) hunkeyed
    · refine ih hchildren _ hobj ?_
      rw [numbersOkItems_iff]
      intro v hv
      rcases mem_append.mp hv with hv | hv
      · exact numbersOkItems_iff.mp hunkeyed v hv
      · rw [mem_singleton.mp hv]
        exact hc

theorem convertNseChildren_numbersOk (h : ∀ c ∈ children, NumbersOk c.2) : NumbersOk
    (convertNseChildren children) := by
  rw [convertNseChildren]
  dsimp only
  split
  · rw [NumbersOk, numbersOkItems_iff]
    intro v hv
    obtain ⟨c, hc, rfl⟩ := mem_map.mp hv
    exact h c hc
  · obtain ⟨hobj, hunkeyed⟩ := addNseChild_numbersOk h ([], []) trivial trivial
    rw [NumbersOk]
    split
    · exact Members.set_numbersOk hobj (v := .array _) hunkeyed _
    · exact hobj

theorem convertScript_numbersOk (attrs : List (Bytes × Bytes)) (text : Bytes)
    (h : ∀ c ∈ children, NumbersOk c.2) :
    NumbersOk (convertScript attrs text children) := by
  have hattrs := addAttributes_numbersOk (show NumbersOkMembers [] from trivial) attrs
  rw [convertScript, NumbersOk]
  split
  · exact Members.set_numbersOk hattrs (convertNseChildren_numbersOk h) _
  · split
    · exact Members.set_numbersOk hattrs (v := .string text) trivial _
    · exact hattrs

mutual

theorem jsonConvertElement_numbersOk : ∀ el, NumbersOk (jsonConvertElement el)
  | .mk name attrs text children => by
    rw [jsonConvertElement]
    split
    · exact convertScript_numbersOk attrs text (convertChildren_numbersOk children)
    · split
      · exact convertNseChildren_numbersOk (convertChildren_numbersOk children)
      · split
        · trivial
        · have hobj := addChildren_numbersOk children (addAttributes [] attrs)
            (addAttributes_numbersOk (show NumbersOkMembers [] from trivial) attrs)
          dsimp only
          split
          · split
            · trivial
            · exact Members.set_numbersOk hobj (v := .string text) trivial _
          · exact hobj

theorem convertChildren_numbersOk : ∀ children, ∀ c ∈ convertChildren children, NumbersOk c.2
  | [], c, hc => by cases hc
  | child :: children, c, hc => by
    rw [convertChildren] at hc
    rcases mem_cons.mp hc with rfl | hc
    · exact jsonConvertElement_numbersOk child
    · exact convertChildren_numbersOk children c hc

theorem addChildren_numbersOk : ∀ children obj, NumbersOkMembers obj →
    NumbersOkMembers (addChildren obj children)
  | [], _, hobj => hobj
  | child :: children, obj, hobj => by
    rw [addChildren]
    apply addChildren_numbersOk children
    split
    · exact addTransparent_numbersOk child obj hobj
    · exact addMember_numbersOk hobj (jsonConvertElement_numbersOk child) _ _

theorem addTransparent_numbersOk : ∀ child obj, NumbersOkMembers obj →
    NumbersOkMembers (addTransparent obj child)
  | .mk name _ _ children, obj, hobj => by
    rw [addTransparent]
    exact addLifted_numbersOk children _ obj hobj

theorem addLifted_numbersOk : ∀ children override obj, NumbersOkMembers obj →
    NumbersOkMembers (addLifted obj override children)
  | [], _, _, hobj => hobj
  | child :: children, override, obj, hobj => by
    rw [addLifted]
    exact addLifted_numbersOk children override _
      (addMember_numbersOk hobj (jsonConvertElement_numbersOk child) _ _)

end

end Nmap.Json
