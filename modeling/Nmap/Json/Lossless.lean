import Mathlib.Data.List.Dedup
import Nmap.Json.Members

/-!
# What conversion keeps (`json.cc`)

Members that meet under one key are collected in an array, so `json_convert_element` keeps
every value the mapping rules ask for (`conversion_keeps`), unless a reserved member, `_`,
`data` or `_text`, is taken by a key or an attribute of that name. The rules themselves
leave out some of what an XML element can hold (`rules_leave_out`): they remove containers,
they turn `elem` into its text and `table` into its entries, and a key that repeats within
one table is written once.
-/

namespace Nmap.Json

open Nmap.Base List

/-! ## Values in a tree and in its conversion -/

mutual

/-- The scalars and member keys of a value -/
def scalars : JsonValue → List Bytes
  | .null => []
  | .bool b => [ascii (if b then "true" else "false")]
  | .number literal => [literal]
  | .string s => [s]
  | .array vs => scalarsItems vs
  | .object ms => scalarsMembers ms

def scalarsItems : List JsonValue → List Bytes
  | [] => []
  | v :: vs => scalars v ++ scalarsItems vs

def scalarsMembers : List (Bytes × JsonValue) → List Bytes
  | [] => []
  | (k, v) :: ms => k :: (scalars v ++ scalarsMembers ms)

end

def textValues (text : Bytes) : List Bytes := if text.isEmpty then [] else [text]

mutual

/-- Every attribute value of the tree and every text of a leaf -/
def treeValues : JsonElement → List Bytes
  | .mk _ attrs text children =>
    attrs.map Prod.snd ++ (if children.isEmpty then textValues text else []) ++
      treeValuesAll children

def treeValuesAll : List JsonElement → List Bytes
  | [] => []
  | child :: children => treeValues child ++ treeValuesAll children

end

/-- The `key` attributes of the children of a table -/
def nseKeys (children : List JsonElement) : List Bytes :=
  children.filterMap fun child => attributeValue child (ascii "key")

/-- Is this structured output of a script? -/
def isStructured (el : JsonElement) : Bool := el.name = ascii "table" || el.name = ascii "elem"

mutual

/-- The values that the mapping rules keep: the attributes of all but containers, `table` and
`elem`, texts, and every key of a table once. -/
def reported : JsonElement → List Bytes
  | .mk name attrs text children =>
    if name = ascii "script" then
      attrs.map Prod.snd ++
        if children.any isStructured then (nseKeys children).dedup ++ reportedAll children
        else textValues text
    else if name = ascii "table" then (nseKeys children).dedup ++ reportedAll children
    else if name = ascii "elem" then textValues text
    else attrs.map Prod.snd ++ reportedChildren children ++ textValues text

def reportedAll : List JsonElement → List Bytes
  | [] => []
  | child :: children => reported child ++ reportedAll children

/-- Containers give way to their children. -/
def reportedChildren : List JsonElement → List Bytes
  | [] => []
  | child :: children =>
    (if jsonElementIsTransparent child.name then reportedLifted child else reported child) ++
      reportedChildren children

def reportedLifted : JsonElement → List Bytes
  | .mk _ _ _ children => reportedAll children

end

/-! ## Reserved members -/

/-- The keys that a child takes in the enclosing object -/
def memberKeys (child : JsonElement) : List Bytes :=
  if jsonElementIsTransparent child.name then
    child.children.map fun c => (transparentChildKey child.name).getD (jsonKeyForElement c.name)
  else [jsonKeyForElement child.name]

/-- `_` is free for the children without a key. -/
def unkeyedFree (children : List JsonElement) : Bool :=
  !(nseKeys children).contains (ascii "_") ||
    children.all fun child => (attributeValue child (ascii "key")).isSome

mutual

/-- No reserved member of the tree is taken. -/
def reservedFree : JsonElement → Bool
  | .mk name attrs text children =>
    if name = ascii "script" then
      if children.any isStructured then
        !(attrs.map Prod.fst).contains (ascii "data") && unkeyedFree children &&
          reservedFreeAll children
      else text.isEmpty || !(attrs.map Prod.fst).contains (ascii "data")
    else if name = ascii "table" then unkeyedFree children && reservedFreeAll children
    else if name = ascii "elem" then true
    else
      (text.isEmpty ||
        !(attrs.map Prod.fst ++ children.flatMap memberKeys).contains (ascii "_text")) &&
          reservedFreeChildren children

def reservedFreeAll : List JsonElement → Bool
  | [] => true
  | child :: children => reservedFree child && reservedFreeAll children

def reservedFreeChildren : List JsonElement → Bool
  | [] => true
  | child :: children =>
    (if jsonElementIsTransparent child.name then reservedFreeLifted child
      else reservedFree child) && reservedFreeChildren children

def reservedFreeLifted : JsonElement → Bool
  | .mk _ _ _ children => reservedFreeAll children

end

/-! ## Members and their values -/

/-- The scalars in the values of an object -/
def valueScalars (ms : Members) : List Bytes := ms.flatMap fun m => scalars m.2

theorem scalarsItems_eq (vs : List JsonValue) : scalarsItems vs = vs.flatMap scalars := by
  induction vs with
  | nil => rfl
  | cons v vs ih => rw [scalarsItems, ih, flatMap_cons]

theorem scalars_typedAttribute (name value : Bytes) :
    scalars (typedAttribute name value) = [value] := by
  unfold typedAttribute
  split
  · split
    · next h => rw [h]; rfl
    · split
      · next h => rw [h]; rfl
      · rfl
  · split <;> rfl

section

variable (x : Bytes)

theorem count_scalarsMembers (ms : Members) :
    (scalarsMembers ms).count x = ms.keys.count x + (valueScalars ms).count x := by
  induction ms with
  | nil => rfl
  | cons m ms ih =>
    have keys : (Members.keys (m :: ms)).count x =
        (Members.keys ms).count x + if m.1 == x then 1 else 0 := count_cons
    have values : (valueScalars (m :: ms)).count x =
        (scalars m.2).count x + (valueScalars ms).count x := count_append
    rw [scalarsMembers, count_cons, count_append, ih, keys, values]
    omega

theorem count_valueScalars_set {ms : Members} {key : Bytes} (fresh : key ∉ ms.keys)
    (value : JsonValue) : (valueScalars (ms.set key value)).count x =
      (valueScalars ms).count x + (scalars value).count x := by
  rw [Members.set_of_not_mem fresh, valueScalars, flatMap_append, count_append]
  simp [valueScalars]

/-- A key that is taken turns into an array that keeps what was there. -/
theorem count_valueScalars_addMember (obj : Members) (c : Contribution) :
    (valueScalars (addMember obj c.key c.value c.asArray)).count x =
      (valueScalars obj).count x + (scalars c.value).count x := by
  rw [addMember_eq_set]
  induction obj with
  | nil =>
    show (scalars (if c.asArray then .array [c.value] else c.value) ++ []).count x = _
    rw [append_nil]
    split
    · simp [scalars, scalarsItems, valueScalars]
    · simp [valueScalars]
  | cons m ms ih =>
    rcases m with ⟨k, v⟩
    by_cases key : k = c.key
    · have merged : (scalars (c.merge (some v))).count x =
          (scalars v).count x + (scalars c.value).count x := by
        cases v with
        | array vs =>
          simp [Contribution.merge, scalars, scalarsItems_eq, count_append]
        | _ =>
          show (scalars _ ++ (scalars c.value ++ [])).count x = _
          rw [append_nil, count_append]
      rw [Members.get, if_pos key, Members.set, if_pos key]
      simp only [valueScalars, flatMap_cons, count_append, merged]
      omega
    · rw [Members.get, if_neg key, Members.set, if_neg key]
      simp only [valueScalars, flatMap_cons, count_append] at ih ⊢
      omega

theorem count_valueScalars_addMembers (obj : Members) (cs : List Contribution) :
    (valueScalars (addMembers obj cs)).count x =
      (valueScalars obj).count x + (cs.flatMap fun c => scalars c.value).count x := by
  induction cs generalizing obj with
  | nil => simp
  | cons c cs ih =>
    have one := count_valueScalars_addMember x obj c
    rw [addMember_eq_set] at one
    rw [addMembers_cons, ih, one, flatMap_cons, count_append]
    omega

theorem count_addAttributes (attrs : List (Bytes × Bytes)) :
    (valueScalars (addAttributes [] attrs)).count x = (attrs.map Prod.snd).count x := by
  have values : ((attrs.map attributeContribution).flatMap fun c => scalars c.value) =
      attrs.map Prod.snd := by
    induction attrs with
    | nil => rfl
    | cons a attrs ih =>
      rw [map_cons, flatMap_cons, ih, map_cons]
      show scalars (typedAttribute a.1 a.2) ++ _ = _
      rw [scalars_typedAttribute]
      rfl
  rw [addAttributes_eq, count_valueScalars_addMembers, values]
  simp [valueScalars]

end

/-! ## The children of a table -/

def keyedContributions (children : List (JsonElement × JsonValue)) : List Contribution :=
  children.filterMap fun c =>
    (attributeValue c.1 (ascii "key")).map fun key => ⟨key, c.2, false⟩

def unkeyedValues (children : List (JsonElement × JsonValue)) : List JsonValue :=
  (children.filter fun c => (attributeValue c.1 (ascii "key")).isNone).map Prod.snd

theorem foldl_addNseChild (children : List (JsonElement × JsonValue))
    (acc : Members × List JsonValue) : children.foldl addNseChild acc =
      (addMembers acc.1 (keyedContributions children), acc.2 ++ unkeyedValues children) := by
  induction children generalizing acc with
  | nil => simp [keyedContributions, unkeyedValues]
  | cons c children ih =>
    rw [foldl_cons, ih]
    unfold addNseChild
    cases found : attributeValue c.1 (ascii "key") with
    | none => simp [keyedContributions, unkeyedValues, found]
    | some key =>
      simp only [keyedContributions, unkeyedValues, found, filterMap_cons, Option.map_some,
        filter_cons, Option.isNone_some, Bool.false_eq_true, if_false]
      rfl

theorem count_keyed_unkeyed (x : Bytes) (children : List (JsonElement × JsonValue)) :
    ((keyedContributions children).flatMap fun c => scalars c.value).count x +
        ((unkeyedValues children).flatMap scalars).count x =
      (children.flatMap fun c => scalars c.2).count x := by
  induction children with
  | nil => rfl
  | cons c children ih =>
    rw [flatMap_cons, count_append, ← ih]
    cases found : attributeValue c.1 (ascii "key") with
    | none => simp [keyedContributions, unkeyedValues, found, count_append]; omega
    | some key => simp [keyedContributions, unkeyedValues, found, count_append]; omega

theorem keyedContributions_keys (children : List (JsonElement × JsonValue)) :
    (keyedContributions children).map Contribution.key = nseKeys (children.map Prod.fst) := by
  unfold keyedContributions nseKeys
  rw [map_filterMap, filterMap_map]
  congr 1
  funext c
  simp [Option.map_map, Function.comp_def]

theorem unkeyedValues_eq_nil {children : List (JsonElement × JsonValue)}
    (keyed : (children.any fun c => (attributeValue c.1 (ascii "key")).isNone) = false) :
    unkeyedValues children = [] := by
  unfold unkeyedValues
  rw [map_eq_nil_iff, filter_eq_nil_iff]
  intro c mem
  simpa using any_eq_false.mp keyed c mem

theorem count_dedup_le {x : Bytes} {keys : List Bytes} {ms : Members}
    (all : ∀ key ∈ keys, key ∈ ms.keys) : keys.dedup.count x ≤ ms.keys.count x := by
  by_cases mem : x ∈ keys.dedup
  · have one := nodup_iff_count_le_one.mp (nodup_dedup keys) x
    have here := count_pos_iff.mpr (all x (mem_dedup.mp mem))
    omega
  · rw [count_eq_zero_of_not_mem mem]
    exact Nat.zero_le _

/-- Nothing in a table is lost as long as `_` is free. -/
theorem convertNseChildren_keeps (x : Bytes) (children : List (JsonElement × JsonValue))
    (free : unkeyedFree (children.map Prod.fst) = true) :
    (nseKeys (children.map Prod.fst)).dedup.count x +
        (children.flatMap fun c => scalars c.2).count x ≤
      (scalars (convertNseChildren children)).count x := by
  have split := count_keyed_unkeyed x children
  unfold convertNseChildren
  dsimp only
  split
  · next list =>
      have unkeyed : nseKeys (children.map Prod.fst) = [] := by
        unfold nseKeys
        rw [filterMap_map, filterMap_eq_nil_iff]
        simpa using list
      rw [unkeyed, scalars, scalarsItems_eq, flatMap_map]
      simp
  · have keys : ∀ key ∈ nseKeys (children.map Prod.fst),
        key ∈ (addMembers [] (keyedContributions children)).keys := by
      intro key mem
      rw [mem_keys_addMembers, keyedContributions_keys]
      exact .inr mem
    have distinct := count_dedup_le (x := x) keys
    have values := count_valueScalars_addMembers x [] (keyedContributions children)
    have none : (valueScalars []).count x = 0 := rfl
    rw [foldl_addNseChild, nil_append, scalars, count_scalarsMembers]
    dsimp only
    split
    · next mixed =>
        have reserved : ascii "_" ∉ (addMembers [] (keyedContributions children)).keys := by
          rw [mem_keys_addMembers, keyedContributions_keys]
          rintro (old | taken)
          · cases old
          · obtain ⟨c, mem, unkeyed⟩ := any_eq_true.mp mixed
            have all : ∀ c ∈ children, (attributeValue c.1 (ascii "key")).isSome = true := by
              simpa [unkeyedFree, taken] using free
            have keyed := all c mem
            rw [Option.isNone_iff_eq_none.mp unkeyed] at keyed
            cases keyed
        rw [count_valueScalars_set x reserved, Members.set_of_not_mem reserved, Members.keys_append,
          count_append, scalars, scalarsItems_eq]
        omega
    · next allKeyed =>
        rw [unkeyedValues_eq_nil (by simpa using allKeyed)] at split
        have nothing : (([] : List JsonValue).flatMap scalars).count x = 0 := rfl
        omega

/-! ## Elements -/

theorem convertChildren_fst (children : List JsonElement) :
    (convertChildren children).map Prod.fst = children := by
  induction children with
  | nil => rfl
  | cons child children ih => rw [convertChildren, map_cons, ih]

theorem convertChildren_flatMap (children : List JsonElement) :
    ((convertChildren children).flatMap fun c => scalars c.2) =
      children.flatMap fun child => scalars (jsonConvertElement child) := by
  induction children with
  | nil => rfl
  | cons child children ih => rw [convertChildren, flatMap_cons, flatMap_cons, ih]

theorem contributions_keys (child : JsonElement) :
    (contributions child).map Contribution.key = memberKeys child := by
  unfold contributions memberKeys
  split
  · rw [map_map]
    rfl
  · rfl

theorem keys_addAttributes {attrs : List (Bytes × Bytes)} {key : Bytes}
    (free : (attrs.map Prod.fst).contains key = false) : key ∉ (addAttributes [] attrs).keys := by
  rw [addAttributes_eq, mem_keys_addMembers, map_map]
  rintro (old | taken)
  · cases old
  · have named : key ∈ attrs.map Prod.fst := taken
    simp only [contains_eq_mem, decide_eq_false_iff_not] at free
    exact free named

/-- The script object: its attributes and the data -/
theorem convertScript_keeps (x : Bytes) (attrs : List (Bytes × Bytes)) (text : Bytes)
    (children : List JsonElement)
    (free : if children.any isStructured then
        (attrs.map Prod.fst).contains (ascii "data") = false ∧ unkeyedFree children = true
      else text = [] ∨ (attrs.map Prod.fst).contains (ascii "data") = false) :
    (attrs.map Prod.snd).count x +
        (if children.any isStructured then (nseKeys children).dedup.count x +
          ((convertChildren children).flatMap fun c => scalars c.2).count x
        else (textValues text).count x) ≤
      (scalars (convertScript attrs text (convertChildren children))).count x := by
  have structured : ((convertChildren children).any fun c =>
      c.1.name = ascii "table" || c.1.name = ascii "elem") = children.any isStructured := by
    rw [← convertChildren_fst children, any_map, convertChildren_fst]
    rfl
  have values := count_addAttributes x attrs
  unfold convertScript
  dsimp only
  rw [structured, scalars, count_scalarsMembers]
  split
  · next data =>
      rw [if_pos data] at free
      have table := convertNseChildren_keeps x (convertChildren children)
        (by rw [convertChildren_fst]; exact free.2)
      rw [convertChildren_fst] at table
      rw [count_valueScalars_set x (keys_addAttributes free.1)]
      omega
  · next plain =>
      rw [if_neg plain] at free
      split
      · next some =>
          have named : (attrs.map Prod.fst).contains (ascii "data") = false := by
            rcases free with rfl | named
            · cases some
            · exact named
          rw [count_valueScalars_set x (keys_addAttributes named), scalars]
          have text : textValues text = [text] := if_neg (by simpa using some)
          rw [text]
          omega
      · next none =>
          have text : textValues text = [] := if_pos (by simpa using none)
          rw [text, count_nil]
          omega

theorem addChildren_attributes_free {attrs : List (Bytes × Bytes)} {children : List JsonElement}
    (free : (attrs.map Prod.fst ++ children.flatMap memberKeys).contains (ascii "_text") = false) :
    ascii "_text" ∉ (addChildren (addAttributes [] attrs) children).keys := by
  simp only [contains_eq_mem, decide_eq_false_iff_not, mem_append, not_or] at free
  rw [addChildren_eq, mem_keys_addMembers, map_flatMap]
  rintro (attr | child)
  · refine keys_addAttributes ?_ attr
    simpa using free.1
  · simp only [contributions_keys] at child
    exact free.2 child

/-- An element that becomes an object, or just its text -/
theorem convertOther_keeps (x : Bytes) (attrs : List (Bytes × Bytes)) {text : Bytes}
    {children : List JsonElement} (free : text = [] ∨
      (attrs.map Prod.fst ++ children.flatMap memberKeys).contains (ascii "_text") = false) :
    (attrs.map Prod.snd).count x +
        ((children.flatMap contributions).flatMap fun c => scalars c.value).count x +
        (textValues text).count x ≤
      (scalars
        (let obj := addChildren (addAttributes [] attrs) children
        if !text.isEmpty then
          if obj.isEmpty then .string text
          else .object (obj.set (ascii "_text") (.string text))
        else .object obj)).count x := by
  have values : (valueScalars (addChildren (addAttributes [] attrs) children)).count x =
      (attrs.map Prod.snd).count x +
        ((children.flatMap contributions).flatMap fun c => scalars c.value).count x := by
    rw [addChildren_eq, count_valueScalars_addMembers, count_addAttributes]
  rw [← values]
  dsimp only
  split
  · next some =>
      have texts : textValues text = [text] := if_neg (by simpa using some)
      have named := free.resolve_left (by rintro rfl; cases some)
      split
      · next empty =>
          rw [isEmpty_iff.mp empty, texts, scalars]
          simp [valueScalars]
      · rw [scalars, count_scalarsMembers,
          count_valueScalars_set x (addChildren_attributes_free named), texts, scalars]
        omega
  · next none =>
      have texts : textValues text = [] := if_pos (by simpa using none)
      rw [scalars, count_scalarsMembers, texts, count_nil]
      omega

mutual

theorem count_reported (x : Bytes) : ∀ el, reservedFree el = true →
    (reported el).count x ≤ (scalars (jsonConvertElement el)).count x
  | .mk name attrs text children, free => by
    rw [reservedFree] at free
    rw [reported, jsonConvertElement]
    split at free
    · next script =>
        rw [if_pos script, if_pos script, count_append]
        split at free
        · next data =>
            simp only [Bool.and_eq_true, Bool.not_eq_true'] at free
            have kept := convertScript_keeps x attrs text children
              (by rw [if_pos data]; exact free.1)
            have inner := count_reportedAll x children free.2
            rw [if_pos data] at kept ⊢
            rw [count_append]
            omega
        · next plain =>
            simp only [Bool.or_eq_true, List.isEmpty_iff, Bool.not_eq_true'] at free
            have kept := convertScript_keeps x attrs text children
              (by rw [if_neg plain]; exact free)
            rw [if_neg plain] at kept ⊢
            exact kept
    · next notScript =>
        rw [if_neg notScript, if_neg notScript]
        split at free
        · next table =>
            rw [if_pos table, if_pos table, count_append]
            rw [Bool.and_eq_true] at free
            have inner := count_reportedAll x children free.2
            have kept := convertNseChildren_keeps x (convertChildren children)
              (by rw [convertChildren_fst]; exact free.1)
            rw [convertChildren_fst] at kept
            omega
        · next notTable =>
            rw [if_neg notTable, if_neg notTable]
            split at free
            · next elem =>
                rw [if_pos elem, if_pos elem, scalars, textValues]
                split <;> simp
            · next notElem =>
                rw [if_neg notElem, if_neg notElem]
                simp only [Bool.and_eq_true, Bool.or_eq_true, List.isEmpty_iff,
                  Bool.not_eq_true'] at free
                have inner := count_reportedChildren x children free.2
                have kept := convertOther_keeps x attrs free.1
                rw [List.count_append, List.count_append]
                omega

theorem count_reportedAll (x : Bytes) : ∀ children, reservedFreeAll children = true →
    (reportedAll children).count x ≤
      ((convertChildren children).flatMap fun c => scalars c.2).count x
  | [], _ => by
    rw [reportedAll]
    exact Nat.zero_le _
  | child :: children, free => by
    rw [reservedFreeAll, Bool.and_eq_true] at free
    have first := count_reported x child free.1
    have rest := count_reportedAll x children free.2
    rw [reportedAll, convertChildren, flatMap_cons, count_append, count_append]
    exact Nat.add_le_add first rest

theorem count_reportedChildren (x : Bytes) : ∀ children, reservedFreeChildren children = true →
    (reportedChildren children).count x ≤
      ((children.flatMap contributions).flatMap fun c => scalars c.value).count x
  | [], _ => by
    rw [reportedChildren]
    exact Nat.zero_le _
  | child :: children, free => by
    rw [reservedFreeChildren, Bool.and_eq_true] at free
    have rest := count_reportedChildren x children free.2
    have first : (if jsonElementIsTransparent child.name then reportedLifted child
        else reported child).count x ≤
        ((contributions child).flatMap fun c => scalars c.value).count x := by
      unfold contributions
      split
      · next lifted =>
          have inner := count_reportedLifted x child (by simpa [lifted] using free.1)
          rw [flatMap_map]
          rw [convertChildren_flatMap] at inner
          exact inner
      · next stays =>
          have inner := count_reported x child (by simpa [stays] using free.1)
          simpa [childContribution] using inner
    rw [reportedChildren, flatMap_cons, flatMap_append, count_append,
      count_append]
    exact Nat.add_le_add first rest

theorem count_reportedLifted (x : Bytes) : ∀ child, reservedFreeLifted child = true →
    (reportedLifted child).count x ≤
      ((convertChildren child.children).flatMap fun c => scalars c.2).count x
  | .mk _ _ _ children, free => by
    rw [reportedLifted]
    exact count_reportedAll x children free

end

/-- **Conversion keeps what the rules ask for.** Where no reserved member is taken, every
value that the mapping rules keep occurs in the converted element, as a scalar or as a key, at
least as often. -/
theorem conversion_keeps (el : JsonElement) (free : reservedFree el = true) (x : Bytes) :
    (reported el).count x ≤ (scalars (jsonConvertElement el)).count x :=
  count_reported x el free

def elementOf (name : String) (attrs : List (String × String)) (text : String)
    (children : List JsonElement) : JsonElement :=
  .mk (ascii name) (attrs.map fun a => (ascii a.1, ascii a.2)) (ascii text) children

/-- A script with keyed and unkeyed results, one of them twice -/
def mixedScript : JsonElement :=
  elementOf "script" [("id", "ssl-cert"), ("output", "text")] "" [
    elementOf "table" [("key", "names")] "" [
      elementOf "elem" [] "a" [], elementOf "elem" [("key", "x")] "a" [],
      elementOf "elem" [("key", "x")] "b" []],
    elementOf "elem" [] "c" []]

theorem conversion_keeps_mixedScript : reservedFree mixedScript = true ∧
    (reported mixedScript).count (ascii "a") = 2 ∧
    2 ≤ (scalars (jsonConvertElement mixedScript)).count (ascii "a") := by
  have free : reservedFree mixedScript = true := by decide
  have count : (reported mixedScript).count (ascii "a") = 2 := by decide
  refine ⟨free, count, ?_⟩
  have kept := conversion_keeps mixedScript free (ascii "a")
  rw [count] at kept
  exact kept

/-- Every value of the tree is in its conversion, as often as in the tree. -/
def KeepsAll (el : JsonElement) : Prop :=
  ∀ value, (treeValues el).count value ≤ (scalars (jsonConvertElement el)).count value

theorem not_keepsAll {el : JsonElement} (value : Bytes)
    (fewer : (scalars (jsonConvertElement el)).count value < (treeValues el).count value) :
    ¬ KeepsAll el := fun keeps => absurd (keeps value) (Nat.not_le_of_lt fewer)

/-- What the rules leave out: a key that repeats in a table is one member, containers are
removed with their attributes, and `elem` becomes its text. -/
theorem rules_leave_out :
    ¬ KeepsAll (elementOf "table" [] "" [elementOf "elem" [("key", "x")] "1" [],
        elementOf "elem" [("key", "x")] "2" []]) ∧
      ¬ KeepsAll (elementOf "host" [] "" [elementOf "ports" [("count", "x")] "" []]) ∧
      ¬ KeepsAll (elementOf "script" [] "" [elementOf "elem" [("lang", "x")] "1" []]) := by
  refine ⟨not_keepsAll (ascii "x") ?_, not_keepsAll (ascii "x") ?_, not_keepsAll (ascii "x") ?_⟩
  · decide
  · decide
  · decide

end Nmap.Json
