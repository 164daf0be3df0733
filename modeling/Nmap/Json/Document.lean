import Nmap.Json.Writer

/-!
# The document mode

The text of a document goes out in pieces: the header, the open array of hosts, the
members that were held back. `MembersOut` and `Written` tie the flags of the writer
to the text that is out, which is the beginning of `dump` of an object with the
members written so far, and each writer function keeps them. What is complete at the
end is `dump` of all members (`finish_emitted`).
-/

namespace Nmap.Json

open Nmap.Base List

/-! ## The text that is out -/

/-- An object with its last members still to come. -/
def membersText : Members → Bytes
  | [] => [0x7b, 0x0a]
  | m :: ms => 0x7b :: Json.commaSep ((m :: ms).map (memberText 2 0))

def hostsText (hosts : List JsonValue) : Bytes :=
  newline 2 1 ++ (jsonQuote (ascii "hosts") ++ [0x3a, 0x20, 0x5b]) ++
    Json.commaSep (hosts.map (itemText 2 1))

def openText (ms : Members) : List JsonValue → Bytes
  | [] => membersText ms
  | v :: vs => 0x7b :: Json.commaSep (ms.map (memberText 2 0) ++ [hostsText (v :: vs)])

theorem membersText_of_ne {ms : Members} (h : ms ≠ []) :
    membersText ms = 0x7b :: Json.commaSep (ms.map (memberText 2 0)) := by
  cases ms with
  | nil => exact absurd rfl h
  | cons m ms => rfl

theorem openText_of_ne (ms : Members) {hosts : List JsonValue} (h : hosts ≠ []) :
    openText ms hosts = 0x7b :: Json.commaSep (ms.map (memberText 2 0) ++ [hostsText hosts]) := by
  cases hosts with
  | nil => exact absurd rfl h
  | cons v vs => rfl

/-- The closed array is the member `hosts`. -/
theorem hostsText_close (hosts : List JsonValue) (h : hosts ≠ []) :
    hostsText hosts ++ ascii "\n  ]" = memberText 2 0 (ascii "hosts", .array hosts) := by
  cases hosts with
  | nil => exact absurd rfl h
  | cons v vs =>
    have close : newline 2 1 ++ [0x5d] = ascii "\n  ]" := by decide
    have noComma : comma true = [] := rfl
    rw [memberText, dump, dumpItems_eq, noComma, hostsText, ← close]
    simp

theorem membersText_append (ms : Members) (t : Bytes) :
    membersText ms ++ (if !ms.isEmpty then ascii ",\n" else []) ++ (ascii "  " ++ t) =
      0x7b :: Json.commaSep (ms.map (memberText 2 0) ++ [newline 2 1 ++ t]) := by
  have spaces : newline 2 1 = 0x0a :: ascii "  " := by decide
  have comma : ascii ",\n" = [0x2c, 0x0a] := by decide
  cases ms with
  | nil => simp [membersText, Json.commaSep, spaces]
  | cons m ms =>
    rw [membersText, Json.commaSep_concat (by simp), spaces]
    simp [comma]

namespace JsonWriter

/-! ## Writing members -/

/-- These members are out, and nothing else. -/
structure MembersOut (jw : JsonWriter) (ms : Members) : Prop where
  comma : jw.needComma = !ms.isEmpty
  text : jw.emitted = membersText ms

variable {jw : JsonWriter} {ms : Members}

theorem writeTopMember_out (h : MembersOut jw ms) (key : Bytes) (value : JsonValue) : MembersOut
    (jw.writeTopMember key value) (ms ++ [(key, value)]) := by
  refine ⟨by simp [writeTopMember], ?_⟩
  have colon : ascii ": " = [0x3a, 0x20] := by decide
  have member := membersText_append ms (jsonQuote key ++ 0x3a :: ([0x20] ++ dump 2 1 value))
  rw [membersText_of_ne (by simp), map_append]
  have two : memberText 2 0 (key, value) =
    newline 2 1 ++ (jsonQuote key ++ 0x3a :: ([0x20] ++ dump 2 1 value)) := rfl
  rw [map_singleton, two, ← member]
  simp [writeTopMember, jsonEmit, h.comma, h.text, colon]

theorem writeTopMembers_out (h : MembersOut jw ms) (more : Members) : MembersOut
    (jw.writeTopMembers more) (ms ++ more) := by
  induction more generalizing jw ms with
  | nil => rw [append_nil]; exact h
  | cons m more ih =>
    have := ih (writeTopMember_out h m.1 m.2)
    rwa [append_assoc] at this

theorem writeTopMembers_eq (jw : JsonWriter) (ms : Members) :
    ∃ text comma, jw.writeTopMembers ms = { jw with emitted := text, needComma := comma } := by
  induction ms generalizing jw with
  | nil => exact ⟨jw.emitted, jw.needComma, rfl⟩
  | cons m ms ih =>
    obtain ⟨text, comma, h⟩ := ih (jw.writeTopMember m.1 m.2)
    exact ⟨text, comma, h⟩

/-! ## Before and after the header -/

/-- Nothing is out yet. -/
structure Unwritten (jw : JsonWriter) : Prop where
  document : jw.lines = false
  header : jw.headerWritten = false
  hostsOpen : jw.hostsOpen = false
  wroteAHost : jw.wroteAHost = false
  comma : jw.needComma = false
  text : jw.emitted = []

/-- The header is out with these members, and so are these hosts. -/
structure Written (jw : JsonWriter) (ms : Members) (hosts : List JsonValue) : Prop where
  document : jw.lines = false
  header : jw.headerWritten = true
  hostsOpen : jw.hostsOpen = !hosts.isEmpty
  wroteAHost : jw.wroteAHost = !hosts.isEmpty
  comma : jw.needComma = (!ms.isEmpty || !hosts.isEmpty)
  text : jw.emitted = openText ms hosts

theorem writeHeader_written (h : Unwritten jw) :
    Written jw.writeHeader
        (jw.rootAttributes ++ jw.pending.filter fun m => m.1 ≠ ascii "runstats") [] ∧
      jw.writeHeader.pending = jw.pending.filter fun m => m.1 = ascii "runstats" := by
  have opened : MembersOut (jsonEmit { jw with headerWritten := true } [0x7b, 0x0a]) [] :=
    ⟨h.comma, by rw [jsonEmit, h.text]; rfl⟩
  have out := writeTopMembers_out (writeTopMembers_out opened jw.rootAttributes)
    (jw.pending.filter fun m => m.1 ≠ ascii "runstats")
  rw [nil_append] at out
  have eq : jw.writeHeader =
      { ((jsonEmit { jw with headerWritten := true } [0x7b, 0x0a]).writeTopMembers
          jw.rootAttributes).writeTopMembers
          (jw.pending.filter fun m => m.1 ≠ ascii "runstats") with
        pending := jw.pending.filter fun m => m.1 = ascii "runstats" } := by
    rw [writeHeader, h.header]
    simp only [Bool.false_eq_true, if_false, h.document]
    rfl
  obtain ⟨text, comma, hmembers⟩ := writeTopMembers_eq
    (jsonEmit { jw with headerWritten := true } [0x7b, 0x0a]) jw.rootAttributes
  obtain ⟨text', comma', hpending⟩ := writeTopMembers_eq
    ((jsonEmit { jw with headerWritten := true } [0x7b, 0x0a]).writeTopMembers jw.rootAttributes)
    (jw.pending.filter fun m => m.1 ≠ ascii "runstats")
  refine ⟨⟨?_, ?_, ?_, ?_, ?_, ?_⟩, by rw [eq]⟩
  · rw [(sameCursor_writeHeader jw).lines]
    exact h.document
  · rw [eq, hpending, hmembers]
    rfl
  · rw [eq, hpending, hmembers]
    exact h.hostsOpen
  · rw [eq, hpending, hmembers]
    exact h.wroteAHost
  · rw [eq, isEmpty_nil, Bool.not_true, Bool.or_false]
    exact out.comma
  · rw [eq]
    exact out.text

variable {hosts : List JsonValue}

theorem writeHeader_of_written (h : Written jw ms hosts) : jw.writeHeader = jw := by
  rw [writeHeader, h.header]
  rfl

theorem writeHost_written (h : Written jw ms hosts) (el : JsonElement) :
    Written (jw.writeHost el) ms (hosts ++ [jsonConvertElement el]) ∧
      (jw.writeHost el).pending = jw.pending := by
  have item : itemText 2 1 (jsonConvertElement el) =
      0x0a :: (ascii "    " ++ dump 2 2 (jsonConvertElement el)) := by
    have spaces : newline 2 2 = 0x0a :: ascii "    " := by decide
    rw [itemText, spaces]
    rfl
  cases hosts with
  | nil =>
    -- the first host opens the array
    have key : ascii "  \"hosts\": [" =
        ascii "  " ++ (jsonQuote (ascii "hosts") ++ [0x3a, 0x20, 0x5b]) := by decide
    have opened := membersText_append ms (jsonQuote (ascii "hosts") ++ [0x3a, 0x20, 0x5b])
    have text := h.text
    have comma := h.comma
    rw [openText] at text
    rw [isEmpty_nil, Bool.not_true, Bool.or_false] at comma
    have line : ascii "\n" = [0x0a] := by decide
    refine ⟨⟨?_, ?_, ?_, ?_, ?_, ?_⟩, ?_⟩
    · rw [(sameCursor_writeHost jw el).lines]
      exact h.document
    all_goals
      simp only [writeHost, writeHeader_of_written h, h.document, h.hostsOpen, h.wroteAHost,
        Bool.false_eq_true, if_false, isEmpty_nil, Bool.not_true, Bool.not_false, if_true,
        jsonEmit]
    · exact h.header
    · rfl
    · rfl
    · simp
    · rw [text, comma, key, ← append_assoc (membersText ms), opened, nil_append,
        openText_of_ne ms (by simp), hostsText, map_singleton, Json.commaSep, item,
        cons_append, Json.commaSep_concat_append, line]
      simp
  | cons v vs =>
    have line : ascii ",\n" = [0x2c, 0x0a] := by decide
    have more : hostsText (v :: vs ++ [jsonConvertElement el]) =
        hostsText (v :: vs) ++ 0x2c :: itemText 2 1 (jsonConvertElement el) := by
      rw [hostsText, hostsText, map_append, map_singleton,
        Json.commaSep_concat (by simp)]
      simp
    refine ⟨⟨?_, ?_, ?_, ?_, ?_, ?_⟩, ?_⟩
    · rw [(sameCursor_writeHost jw el).lines]
      exact h.document
    all_goals
      simp only [writeHost, writeHeader_of_written h, h.document, h.hostsOpen, h.wroteAHost,
        Bool.false_eq_true, if_false, isEmpty_cons, Bool.not_true, Bool.not_false, if_true,
        jsonEmit]
    · exact h.header
    · simp
    · simp
    · rw [h.comma]
      simp
    · rw [h.text, openText, openText_of_ne ms (by simp), more, ← Json.commaSep_concat_append,
        item, line]
      simp

/-- The whole document, from what is out and what is still held back. -/
theorem finishDocument_emitted (h : Written jw ms hosts) : jw.finishDocument.emitted =
      dump 2 0 (.object (ms ++ (ascii "hosts", .array hosts) :: jw.pending)) ++ ascii "\n" := by
  -- the array is closed, or written empty
  have out : MembersOut
      (if jw.hostsOpen then { jw.jsonEmit (ascii "\n  ]") with hostsOpen := false }
      else jw.writeTopMember (ascii "hosts") (.array []))
      (ms ++ [(ascii "hosts", .array hosts)]) := by
    cases hosts with
    | nil =>
      rw [if_neg (by rw [h.hostsOpen]; simp)]
      apply writeTopMember_out
      exact ⟨by rw [h.comma]; simp, h.text⟩
    | cons v vs =>
      rw [if_pos (by rw [h.hostsOpen]; rfl)]
      refine ⟨by simp [jsonEmit, h.comma], ?_⟩
      have close := hostsText_close (v :: vs) (by simp)
      rw [membersText_of_ne (by simp), map_append, map_singleton, ← close,
        ← Json.commaSep_concat_append]
      simp [jsonEmit, h.text, openText]
  have all := writeTopMembers_out out jw.pending
  have whole : jw.finishDocument.emitted =
      ((if jw.hostsOpen then { jw.jsonEmit (ascii "\n  ]") with hostsOpen := false }
      else jw.writeTopMember (ascii "hosts") (.array [])).writeTopMembers jw.pending).emitted ++
        [0x0a, 0x7d, 0x0a] := by
    rw [finishDocument]
    split <;> rfl
  have last : newline 2 0 = [0x0a] := by decide
  have line : ascii "\n" = [0x0a] := by decide
  have noComma : comma true = [] := rfl
  rw [whole, all.text, append_assoc, singleton_append, membersText_of_ne (by simp)]
  cases ms with
  | nil => simp [dump, dumpMembers_eq, noComma, last, line]
  | cons m ms => simp [dump, dumpMembers_eq, noComma, last, line]

theorem end_emitted (h : Written jw ms hosts) (alive : jw.Alive) (size : jw.stackSize = 1) :
    (jw.run [.endElement]).emitted =
      dump 2 0 (.object (ms ++ (ascii "hosts", .array hosts) :: jw.pending)) ++ ascii "\n" := by
  have written : Written { jw with finished := true, stackSize := 0 } ms hosts :=
    ⟨h.document, h.header, h.hostsOpen, h.wroteAHost, h.comma, h.text⟩
  have finish : jw.run [.endElement] =
      finishDocument { jw with finished := true, stackSize := 0 } := by
    have ends : jw.run [.endElement] = jsonOutputFinish { jw with stackSize := 0 } := by
      simp [run, step, jsonMirrorEndElement, alive.enabled, alive.running, size]
    have header := writeHeader_of_written written
    rw [ends, jsonOutputFinish]
    simp only [alive.enabled, alive.running, Bool.not_true, Bool.or_self, Bool.false_eq_true,
      if_false, Nat.zero_sub, closeOpen] at header ⊢
    rw [header]
    simp [h.document]
  rw [finish]
  exact finishDocument_emitted written

/-! ## Flushing children of the root -/

theorem bufferPending_children (jw : JsonWriter) (key : Bytes) (children : List JsonElement) :
    children.foldl (fun jw child => jw.bufferPending key (jsonConvertElement child) true) jw =
      { jw with
        pending := addMembers jw.pending (children.map (childContribution (some key))) } := by
  induction children generalizing jw with
  | nil => rfl
  | cons child children ih =>
    rw [foldl_cons, ih]
    rfl

theorem flushSubtree_pending (jw : JsonWriter) (el : JsonElement) (document : jw.lines = false)
    (ready : isPreambleElement el.name = true ∨ jw.headerWritten = true)
    (noHost : el.name ≠ ascii "host") (noDebugging : el.name ≠ ascii "debugging")
    (lifted : jsonElementIsTransparent el.name = true → (transparentChildKey el.name).isSome) :
    jw.flushSubtree el = { jw with pending := addMembers jw.pending (contributions el) } := by
  have header : (if !isPreambleElement el.name then jw.writeHeader else jw) = jw := by
    split
    · rename_i noPreamble
      rcases ready with h | h
      · simp [h] at noPreamble
      · rw [writeHeader, if_pos h]
    · rfl
  have noLines : ¬ (jw.lines && !isPreambleElement el.name) = true := by simp [document]
  rw [flushSubtree]
  dsimp only
  rw [header, if_neg noHost, if_neg noDebugging, contributions, if_neg noLines]
  split
  · rename_i transparent
    obtain ⟨key, hkey⟩ := Option.isSome_iff_exists.mp (lifted transparent)
    rw [hkey]
    exact bufferPending_children jw key el.children
  · rfl

theorem flushSubtree_debugging (jw : JsonWriter) (el : JsonElement) (document : jw.lines = false)
    (name : el.name = ascii "debugging") : jw.flushSubtree el =
      writeHeader { jw with pending := addMembers jw.pending (contributions el) } := by
  have facts : isPreambleElement (ascii "debugging") = true ∧ ascii "debugging" ≠ ascii "host" ∧
      jsonElementIsTransparent (ascii "debugging") = false := by decide +kernel
  obtain ⟨preamble, noHost, noContainer⟩ := facts
  have noLines : ¬ (jw.lines && !isPreambleElement el.name) = true := by simp [document]
  rw [flushSubtree, contributions]
  dsimp only
  rw [name] at noLines ⊢
  rw [preamble, if_neg noHost, noContainer]
  simp only [Bool.not_true, Bool.false_eq_true, if_false, Bool.and_false, if_true]
  rw [childContribution, name, Option.getD_none, Option.isSome_none, Bool.false_or]
  rfl

theorem flushSubtree_host {el : JsonElement} (h : Written jw ms hosts)
    (name : el.name = ascii "host") :
    jw.flushSubtree el = jw.writeHost el := by
  rw [flushSubtree, name, writeHeader_of_written h]
  simp

end JsonWriter

end Nmap.Json
