import Nmap.Json.Document
import Nmap.Json.RoundTrip

/-!
# Finishing at any point (`json.cc`)

A scan may die anywhere. Whatever calls the writer has seen, the text that is out is the
beginning of a document (`Sound`), or a number of whole lines (`LinesSound`), and what
`json_output_finish` adds completes it. After that nothing more is written
(`finish_completes`).
-/

namespace Nmap.Json

open Nmap.Base List

namespace JsonWriter

/-! ## Numbers in what is held back -/

theorem rootAttributes_numbersOk (jw : JsonWriter) : NumbersOkMembers jw.rootAttributes := by
  unfold rootAttributes
  split
  · rw [numbersOkMembers_iff]
    intro m mem
    obtain ⟨a, -, rfl⟩ := mem_map.mp mem
    exact typedAttribute_numbersOk a.1 a.2
  · trivial

variable {ms : Members}

theorem filter_numbersOk (numbers : NumbersOkMembers ms) (p : Bytes × JsonValue → Bool) :
    NumbersOkMembers (ms.filter p) := by
  rw [numbersOkMembers_iff] at numbers ⊢
  exact fun m mem => numbers m (mem_of_mem_filter mem)

theorem append_numbersOk {ms' : Members} (numbers : NumbersOkMembers ms)
    (numbers' : NumbersOkMembers ms') : NumbersOkMembers (ms ++ ms') := by
  rw [numbersOkMembers_iff] at numbers numbers' ⊢
  exact fun m mem => (mem_append.mp mem).elim (numbers m) (numbers' m)

variable {obj : Members}

theorem setAll_numbersOk (numbers : NumbersOkMembers obj) (numbers' : NumbersOkMembers ms) :
    NumbersOkMembers (ms.foldl (fun (obj : Members) m => obj.set m.1 m.2) obj) := by
  induction ms generalizing obj with
  | nil => exact numbers
  | cons m ms ih => exact ih (Members.set_numbersOk numbers numbers'.1 m.1) numbers'.2

theorem lineRecord_numbersOk (type : Bytes) {value : JsonValue} (numbers : NumbersOk value) :
    NumbersOkMembers (lineRecord type value) := by
  have tag : NumbersOkMembers (Members.set [] (ascii "type") (.string type)) := ⟨trivial, trivial⟩
  unfold lineRecord
  dsimp only
  split
  · exact setAll_numbersOk tag numbers
  · exact tag
  · exact Members.set_numbersOk tag numbers _

/-! ## Documents -/

/-- The text that is out is the beginning of a document, and what is held back can follow. -/
structure Sound (jw : JsonWriter) : Prop where
  document : jw.lines = false
  pending : NumbersOkMembers jw.pending
  out : Unwritten jw ∨
    ∃ ms hosts, Written jw ms hosts ∧ NumbersOkMembers ms ∧ NumbersOkItems hosts

/-- The document is complete. -/
structure Complete (jw : JsonWriter) : Prop where
  finished : jw.finished = true
  text : ∃ ms, jw.emitted = dump 2 0 (.object ms) ++ ascii "\n" ∧ NumbersOkMembers ms

/-- What the text depends on -/
structure SameText (a b : JsonWriter) : Prop where
  lines : b.lines = a.lines
  headerWritten : b.headerWritten = a.headerWritten
  hostsOpen : b.hostsOpen = a.hostsOpen
  wroteAHost : b.wroteAHost = a.wroteAHost
  needComma : b.needComma = a.needComma
  pending : b.pending = a.pending
  emitted : b.emitted = a.emitted

theorem Sound.congr {a b : JsonWriter} (sound : a.Sound) (same : SameText a b) : b.Sound where
  document := same.lines.trans sound.document
  pending := by
    rw [same.pending]
    exact sound.pending
  out := by
    rcases sound.out with un | ⟨ms, hosts, written, numbers⟩
    · exact .inl ⟨same.lines.trans un.document, same.headerWritten.trans un.header,
        same.hostsOpen.trans un.hostsOpen, same.wroteAHost.trans un.wroteAHost,
        same.needComma.trans un.comma, same.emitted.trans un.text⟩
    · exact .inr ⟨ms, hosts, ⟨same.lines.trans written.document,
        same.headerWritten.trans written.header, same.hostsOpen.trans written.hostsOpen,
        same.wroteAHost.trans written.wroteAHost, same.needComma.trans written.comma,
        same.emitted.trans written.text⟩, numbers⟩

variable {jw : JsonWriter}

theorem Sound.hold (sound : jw.Sound) {pending : Members} (numbers : NumbersOkMembers pending) :
    Sound { jw with pending := pending } where
  document := sound.document
  pending := numbers
  out := by
    rcases sound.out with un | ⟨ms, hosts, written, numbers⟩
    · exact .inl ⟨un.document, un.header, un.hostsOpen, un.wroteAHost, un.comma, un.text⟩
    · exact .inr ⟨ms, hosts, ⟨written.document, written.header, written.hostsOpen,
        written.wroteAHost, written.comma, written.text⟩, numbers⟩

/-- After `write_header` the header is out. -/
theorem Sound.writeHeader (sound : jw.Sound) :
    jw.writeHeader.Sound ∧ ∃ ms hosts, Written jw.writeHeader ms hosts ∧
      NumbersOkMembers ms ∧ NumbersOkItems hosts := by
  rcases sound.out with un | ⟨ms, hosts, written, numbers⟩
  · obtain ⟨written, held⟩ := writeHeader_written un
    have numbers := append_numbersOk (rootAttributes_numbersOk jw)
      (filter_numbersOk sound.pending fun m => m.1 ≠ ascii "runstats")
    have out : ∃ ms hosts, Written jw.writeHeader ms hosts ∧
        NumbersOkMembers ms ∧ NumbersOkItems hosts := ⟨_, [], written, numbers, trivial⟩
    refine ⟨⟨written.document, ?_, .inr out⟩, out⟩
    rw [held]
    exact filter_numbersOk sound.pending _
  · rw [writeHeader_of_written written]
    exact ⟨sound, ms, hosts, written, numbers⟩

theorem Sound.writeHost (sound : jw.Sound) (el : JsonElement) :
    (jw.writeHost el).Sound := by
  obtain ⟨sound', ms, hosts, written, numbers, items⟩ := sound.writeHeader
  have twice : jw.writeHost el = jw.writeHeader.writeHost el := by
    unfold JsonWriter.writeHost
    rw [writeHeader_of_written written]
  obtain ⟨written', held⟩ := writeHost_written written el
  rw [twice]
  refine ⟨written'.document, ?_, .inr ⟨ms, _, written', numbers, ?_⟩⟩
  · rw [held]
    exact sound'.pending
  · rw [numbersOkItems_iff] at items ⊢
    intro v mem
    rcases mem_append.mp mem with old | new
    · exact items v old
    · rw [mem_singleton.mp new]
      exact jsonConvertElement_numbersOk el

theorem Sound.bufferPending (sound : jw.Sound) (key : Bytes) (el : JsonElement) (asArray : Bool) :
    (jw.bufferPending key (jsonConvertElement el) asArray).Sound :=
  sound.hold (addMember_numbersOk sound.pending (jsonConvertElement_numbersOk el) key asArray)

theorem Sound.flushSubtree (sound : jw.Sound) (el : JsonElement) :
    (jw.flushSubtree el).Sound := by
  refine flushSubtree_keeps el (·.writeHeader.1) Sound.bufferPending (·.writeHost el) ?_ sound
  intro jw sound lines
  rw [sound.document] at lines
  cases lines

/-! ## Runs -/

/-- A property of the text that `flush_subtree` and `write_header` keep -/
structure TextInvariant (P : JsonWriter → Prop) : Prop where
  congr : ∀ {a b : JsonWriter}, P a → SameText a b → P b
  flushSubtree : ∀ {jw : JsonWriter}, P jw → ∀ el, P (jw.flushSubtree el)
  writeHeader : ∀ {jw : JsonWriter}, P jw → P jw.writeHeader

theorem sound_invariant : TextInvariant Sound where
  congr := Sound.congr
  flushSubtree := Sound.flushSubtree
  writeHeader := fun sound => sound.writeHeader.1

theorem sameCursor_endSubtree (jw : JsonWriter) : SameCursor jw jw.endSubtree := by
  unfold JsonWriter.endSubtree
  split
  · split
    · next el _ =>
        have flushed := sameCursor_flushSubtree jw el
        exact ⟨flushed.enabled, flushed.lines, flushed.finished, flushed.root, flushed.stackSize⟩
    · exact .refl jw
  · exact .refl jw

theorem closeOpen_cursor (n : Nat) (jw : JsonWriter) :
    (closeOpen n jw).lines = jw.lines ∧ (closeOpen n jw).finished = jw.finished := by
  induction n generalizing jw with
  | zero => exact ⟨rfl, rfl⟩
  | succ n ih =>
    have same := sameCursor_endSubtree { jw with stackSize := jw.stackSize - 1 }
    obtain ⟨lines, finished⟩ := ih (endSubtree { jw with stackSize := jw.stackSize - 1 })
    exact ⟨lines.trans same.lines, finished.trans same.finished⟩

/-- The writer when `json_output_finish` has closed the open elements -/
def closed (jw : JsonWriter) : JsonWriter :=
  { closeOpen (jw.stackSize - 1) { jw with finished := true } with stackSize := 0 }

theorem closed_finished (jw : JsonWriter) : jw.closed.writeHeader.finished = true :=
  (sameCursor_writeHeader jw.closed).finished.trans (closeOpen_cursor _ _).2

/-- `json_output_finish` on a writer that still runs -/
theorem jsonOutputFinish_eq (alive : jw.Alive) : jw.jsonOutputFinish =
    if jw.lines then jw.closed.writeHeader.finishLines
    else jw.closed.writeHeader.finishDocument := by
  have running : ¬ (!jw.enabled || jw.finished) = true := by
    rw [alive.enabled, alive.running]
    decide
  have mode : jw.closed.writeHeader.lines = jw.lines :=
    (sameCursor_writeHeader jw.closed).lines.trans (closeOpen_cursor _ _).1
  have whole : jw.jsonOutputFinish =
      if jw.closed.writeHeader.lines then jw.closed.writeHeader.finishLines
      else jw.closed.writeHeader.finishDocument := by
    unfold jsonOutputFinish
    rw [if_neg running]
    rfl
  rw [whole, mode]

section

variable {P : JsonWriter → Prop} (invariant : TextInvariant P)

include invariant

variable {jw : JsonWriter}

theorem TextInvariant.endSubtree (holds : P jw) : P jw.endSubtree := by
  unfold JsonWriter.endSubtree
  split
  · split
    · next el _ =>
        exact invariant.congr (invariant.flushSubtree holds el) ⟨rfl, rfl, rfl, rfl, rfl, rfl, rfl⟩
    · exact holds
  · exact holds

theorem TextInvariant.closeOpen {jw : JsonWriter} (holds : P jw) (n : Nat) :
    P (closeOpen n jw) := by
  induction n generalizing jw with
  | zero => exact holds
  | succ n ih =>
    have popped : P { jw with stackSize := jw.stackSize - 1 } :=
      invariant.congr holds ⟨rfl, rfl, rfl, rfl, rfl, rfl, rfl⟩
    exact ih (invariant.endSubtree popped)

theorem TextInvariant.closed (holds : P jw) : P jw.closed := by
  have ending : P { jw with finished := true } :=
    invariant.congr holds ⟨rfl, rfl, rfl, rfl, rfl, rfl, rfl⟩
  exact invariant.congr (invariant.closeOpen ending (jw.stackSize - 1))
    ⟨rfl, rfl, rfl, rfl, rfl, rfl, rfl⟩

theorem TextInvariant.modifyBack (holds : P jw) (f : JsonElement → JsonElement) :
    P (jw.modifyBack f) := by
  unfold JsonWriter.modifyBack
  split
  · exact holds
  · exact invariant.congr holds ⟨rfl, rfl, rfl, rfl, rfl, rfl, rfl⟩
  · exact invariant.congr holds ⟨rfl, rfl, rfl, rfl, rfl, rfl, rfl⟩

/-- A call leaves the invariant in place, or it finishes the output. -/
theorem TextInvariant.step (holds : P jw) (alive : jw.Alive) (event : Event) :
    (P (jw.step event) ∧ (jw.step event).Alive) ∨
      ∃ jw' : JsonWriter, P jw' ∧ jw'.Alive ∧ jw.step event = jw'.jsonOutputFinish := by
  have back : ∀ f, (jw.modifyBack f).Alive := by
    intro f
    unfold JsonWriter.modifyBack
    split <;> exact ⟨alive.enabled, alive.running⟩
  cases event with
  | startElement name =>
    left
    unfold JsonWriter.step jsonMirrorStartElement
    dsimp only
    rw [if_neg (by rw [alive.enabled, alive.running]; decide)]
    split
    · exact ⟨invariant.congr holds ⟨rfl, rfl, rfl, rfl, rfl, rfl, rfl⟩,
        alive.enabled, alive.running⟩
    · exact ⟨invariant.congr holds ⟨rfl, rfl, rfl, rfl, rfl, rfl, rfl⟩,
        alive.enabled, alive.running⟩
    · have alive' := back (·.addChild (.empty name))
      exact ⟨invariant.congr (invariant.modifyBack holds _) ⟨rfl, rfl, rfl, rfl, rfl, rfl, rfl⟩,
        alive'.enabled, alive'.running⟩
  | attr name value =>
    left
    unfold JsonWriter.step jsonMirrorAttribute
    dsimp only
    split
    · exact ⟨holds, alive⟩
    · exact ⟨invariant.modifyBack holds _, back _⟩
  | characters text =>
    left
    unfold JsonWriter.step jsonMirrorCharacters
    dsimp only
    split
    · exact ⟨holds, alive⟩
    · exact ⟨invariant.modifyBack holds _, back _⟩
  | endElement =>
    have popped : P { jw with stackSize := jw.stackSize - 1 } :=
      invariant.congr holds ⟨rfl, rfl, rfl, rfl, rfl, rfl, rfl⟩
    have alive' : Alive { jw with stackSize := jw.stackSize - 1 } :=
      ⟨alive.enabled, alive.running⟩
    unfold JsonWriter.step jsonMirrorEndElement
    dsimp only
    split
    · exact .inl ⟨holds, alive⟩
    split
    · exact .inr ⟨_, popped, alive', rfl⟩
    · have same := sameCursor_endSubtree { jw with stackSize := jw.stackSize - 1 }
      exact .inl ⟨invariant.endSubtree popped, same.enabled.trans alive'.enabled,
        same.finished.trans alive'.running⟩

end

theorem step_of_finished (finished : jw.finished = true) (event : Event) :
    jw.step event = jw := by
  cases event <;>
    simp [step, jsonMirrorStartElement, jsonMirrorAttribute, jsonMirrorCharacters,
      jsonMirrorEndElement, finished]

theorem finish_of_finished (finished : jw.finished = true) :
    jw.jsonOutputFinish = jw := by
  simp [jsonOutputFinish, finished]

/-- At every point of a run the invariant holds, or the output was finished from a state in
which it did. -/
theorem TextInvariant.run {P : JsonWriter → Prop} (invariant : TextInvariant P)
    (finishes : ∀ {jw : JsonWriter}, P jw → jw.Alive → jw.jsonOutputFinish.finished = true)
    (holds : P jw) (alive : jw.Alive) (events : List Event) :
    ∃ jw' : JsonWriter, P jw' ∧ jw'.Alive ∧
      (jw.run events).jsonOutputFinish = jw'.jsonOutputFinish := by
  induction events generalizing jw with
  | nil => exact ⟨jw, holds, alive, rfl⟩
  | cons event events ih =>
    rw [run_cons]
    rcases invariant.step holds alive event with ⟨holds', alive'⟩ | ⟨jw', holds', alive', eq⟩
    · exact ih holds' alive'
    · have finished := finishes holds' alive'
      have rest : (jw.step event).run events = jw.step event := by
        rw [eq]
        clear ih eq
        induction events with
        | nil => rfl
        | cons event events ih =>
          rw [run_cons, step_of_finished finished]
          exact ih
      refine ⟨jw', holds', alive', ?_⟩
      rw [rest, eq, finish_of_finished finished]

/-! ## Documents, to the end -/

theorem finishDocument_finished (jw : JsonWriter) : jw.finishDocument.finished = jw.finished := by
  have members : ∀ (jw : JsonWriter) ms, (jw.writeTopMembers ms).finished = jw.finished :=
    fun jw ms => (sameCursor_writeTopMembers jw ms).finished
  unfold finishDocument
  dsimp only [jsonEmit]
  rw [members]
  split <;> rfl

theorem Sound.finish (sound : jw.Sound) (alive : jw.Alive) :
    jw.jsonOutputFinish.Complete := by
  obtain ⟨sound', ms, hosts, written, numbers, items⟩ := (sound_invariant.closed sound).writeHeader
  rw [jsonOutputFinish_eq alive, sound.document, if_neg Bool.false_ne_true]
  refine ⟨?_, _, finishDocument_emitted written, ?_⟩
  · rw [finishDocument_finished]
    exact closed_finished jw
  · exact append_numbersOk numbers ⟨items, sound'.pending⟩

theorem sound_enable : (jsonOutputEnable false).Sound :=
  ⟨rfl, trivial, .inl ⟨rfl, rfl, rfl, rfl, rfl, rfl⟩⟩

/-! ## Lines -/

def linesText (objs : List Members) : Bytes :=
  (objs.map fun obj => dump (-1) 0 (.object obj) ++ ascii "\n").flatten

theorem linesText_append (objs objs' : List Members) :
    linesText (objs ++ objs') = linesText objs ++ linesText objs' := by
  unfold linesText
  rw [map_append, flatten_append]

theorem linesText_singleton (obj : Members) :
    linesText [obj] = dump (-1) 0 (.object obj) ++ ascii "\n" := by
  unfold linesText
  rw [map_singleton, flatten_singleton]

/-- The text that is out consists of whole lines. -/
structure LinesSound (jw : JsonWriter) : Prop where
  lineMode : jw.lines = true
  pending : NumbersOkMembers jw.pending
  text : ∃ objs, jw.emitted = linesText objs ∧ ∀ obj ∈ objs, NumbersOkMembers obj

theorem LinesSound.emit (sound : jw.LinesSound) (numbers : NumbersOkMembers obj) :
    (jw.jsonEmit (dump (-1) 0 (.object obj) ++ ascii "\n")).LinesSound := by
  obtain ⟨objs, text, all⟩ := sound.text
  refine ⟨sound.lineMode, sound.pending, objs ++ [obj], ?_, ?_⟩
  · rw [linesText_append, linesText_singleton, ← text]
    rfl
  · intro o mem
    rcases mem_append.mp mem with old | new
    · exact all o old
    · rw [mem_singleton.mp new]
      exact numbers

theorem LinesSound.hold (sound : jw.LinesSound) {pending : Members}
    (numbers : NumbersOkMembers pending) : LinesSound { jw with pending := pending } :=
  ⟨sound.lineMode, numbers, sound.text⟩

theorem LinesSound.congr {a b : JsonWriter} (sound : a.LinesSound) (same : SameText a b) :
    b.LinesSound where
  lineMode := same.lines.trans sound.lineMode
  pending := by
    rw [same.pending]
    exact sound.pending
  text := by
    rw [same.emitted]
    exact sound.text

theorem LinesSound.writeLineRecord (sound : jw.LinesSound) (type : Bytes) {value : JsonValue}
    (numbers : NumbersOk value) : (jw.writeLineRecord type value).LinesSound :=
  sound.emit (lineRecord_numbersOk type numbers)

/-- The object on the header line: what is known of the root and what was held back -/
def headerRecord (jw : JsonWriter) : Members :=
  let obj := Members.set [] (ascii "type") (.string (ascii "scan"))
  let obj := jw.rootAttributes.foldl (fun (obj : Members) m => obj.set m.1 m.2) obj
  (jw.pending.filter fun m => m.1 ≠ ascii "runstats").foldl
    (fun (obj : Members) m => obj.set m.1 m.2) obj

theorem headerRecord_numbersOk (numbers : NumbersOkMembers jw.pending) :
    NumbersOkMembers jw.headerRecord := by
  have tag : NumbersOkMembers (Members.set [] (ascii "type") (.string (ascii "scan"))) :=
    ⟨trivial, trivial⟩
  exact setAll_numbersOk (setAll_numbersOk tag (rootAttributes_numbersOk jw))
    (filter_numbersOk numbers _)

/-- `write_header` in line mode, the first time -/
theorem writeHeader_lines (lineMode : jw.lines = true) (first : jw.headerWritten = false) :
    jw.writeHeader =
      { jw with
        headerWritten := true
        pending := jw.pending.filter fun m => m.1 = ascii "runstats"
        emitted := jw.emitted ++ linesText [jw.headerRecord] } := by
  rw [linesText_singleton]
  unfold JsonWriter.writeHeader
  simp only [lineMode, first, Bool.false_eq_true, if_false, if_true]
  rfl

theorem LinesSound.writeHeader (sound : jw.LinesSound) :
    jw.writeHeader.LinesSound := by
  cases first : jw.headerWritten with
  | true =>
    have same : jw.writeHeader = jw := by
      unfold JsonWriter.writeHeader
      rw [if_pos first]
    rw [same]
    exact sound
  | false =>
    obtain ⟨objs, text, all⟩ := sound.text
    rw [writeHeader_lines sound.lineMode first]
    refine ⟨sound.lineMode, filter_numbersOk sound.pending _, objs ++ [jw.headerRecord], ?_, ?_⟩
    · show jw.emitted ++ _ = _
      rw [linesText_append, text]
    · intro obj mem
      rcases mem_append.mp mem with old | new
      · exact all obj old
      · rw [mem_singleton.mp new]
        exact headerRecord_numbersOk sound.pending

theorem LinesSound.bufferPending (sound : jw.LinesSound) (key : Bytes) (el : JsonElement)
    (asArray : Bool) :
    (jw.bufferPending key (jsonConvertElement el) asArray).LinesSound :=
  sound.hold (addMember_numbersOk sound.pending (jsonConvertElement_numbersOk el) key asArray)

theorem LinesSound.flushSubtree (sound : jw.LinesSound) (el : JsonElement) :
    (jw.flushSubtree el).LinesSound := by
  have numbers := jsonConvertElement_numbersOk el
  refine flushSubtree_keeps el LinesSound.writeHeader LinesSound.bufferPending ?_
    (fun sound _ => sound.writeLineRecord el.name numbers) sound
  intro jw sound
  have header := sound.writeHeader
  unfold JsonWriter.writeHost
  dsimp only
  rw [header.lineMode, if_pos rfl]
  have written := header.writeLineRecord (ascii "host") numbers
  exact ⟨written.lineMode, written.pending, written.text⟩

theorem linesSound_invariant : TextInvariant LinesSound where
  congr := LinesSound.congr
  flushSubtree := LinesSound.flushSubtree
  writeHeader := LinesSound.writeHeader

/-- The records that `json_output_finish` makes of one value that was held back -/
def pendingRecords (m : Bytes × JsonValue) : List Members :=
  match m.2 with
  | .array vs => vs.map (lineRecord m.1)
  | value => [lineRecord m.1 value]

theorem finishLines_emitted (jw : JsonWriter) :
    jw.finishLines.emitted = jw.emitted ++ linesText (jw.pending.flatMap pendingRecords) ∧
      jw.finishLines.finished = jw.finished := by
  have items : ∀ (type : Bytes) (vs : List JsonValue) (jw : JsonWriter),
      vs.foldl (fun jw v => jw.writeLineRecord type v) jw =
        { jw with emitted := jw.emitted ++ linesText (vs.map (lineRecord type)) } := by
    intro type vs
    induction vs with
    | nil => exact fun jw => by simp [linesText]
    | cons v vs ih =>
      intro jw
      rw [foldl_cons, ih, map_cons]
      simp [writeLineRecord, jsonEmit, linesText]
  have members : ∀ (ms : Members) (jw : JsonWriter), ms.foldl (fun jw m => match m.2 with
      | .array vs => vs.foldl (fun jw v => jw.writeLineRecord m.1 v) jw
      | value => jw.writeLineRecord m.1 value) jw =
        { jw with emitted := jw.emitted ++ linesText (ms.flatMap pendingRecords) } := by
    intro ms
    induction ms with
    | nil => exact fun jw => by simp [linesText]
    | cons m ms ih =>
      intro jw
      have one : (match m.2 with
          | .array vs => vs.foldl (fun jw v => jw.writeLineRecord m.1 v) jw
          | value => jw.writeLineRecord m.1 value) =
          { jw with emitted := jw.emitted ++ linesText (pendingRecords m) } := by
        unfold pendingRecords
        split
        · rw [items]
        · rw [linesText_singleton]
          rfl
      rw [foldl_cons, one, ih, flatMap_cons, linesText_append]
      simp
  have whole := members jw.pending jw
  have emitted := congrArg JsonWriter.emitted whole
  have finished := congrArg JsonWriter.finished whole
  exact ⟨emitted, finished⟩

theorem pendingRecords_numbersOk (numbers : NumbersOkMembers ms) :
    ∀ obj ∈ ms.flatMap pendingRecords, NumbersOkMembers obj := by
  intro obj mem
  obtain ⟨m, mem, here⟩ := mem_flatMap.mp mem
  have value := numbersOkMembers_iff.mp numbers m mem
  unfold pendingRecords at here
  split at here
  · next vs array =>
      rw [array] at value
      obtain ⟨v, mem', rfl⟩ := mem_map.mp here
      exact lineRecord_numbersOk m.1 (numbersOkItems_iff.mp value v mem')
  · rw [mem_singleton.mp here]
    exact lineRecord_numbersOk m.1 value

theorem LinesSound.finish (sound : jw.LinesSound) (alive : jw.Alive) :
    jw.jsonOutputFinish.finished = true ∧
      ∃ objs, jw.jsonOutputFinish.emitted = linesText objs ∧
        ∀ obj ∈ objs, NumbersOkMembers obj := by
  have closed := (linesSound_invariant.closed sound).writeHeader
  obtain ⟨objs, text, all⟩ := closed.text
  obtain ⟨emitted, finished⟩ := finishLines_emitted jw.closed.writeHeader
  rw [jsonOutputFinish_eq alive, sound.lineMode, if_pos rfl]
  refine ⟨finished.trans (closed_finished jw),
    objs ++ jw.closed.writeHeader.pending.flatMap pendingRecords, ?_, ?_⟩
  · rw [emitted, text, ← linesText_append]
  · intro obj mem
    rcases mem_append.mp mem with old | new
    · exact all obj old
    · exact pendingRecords_numbersOk closed.pending obj new

theorem linesSound_enable : (jsonOutputEnable true).LinesSound :=
  ⟨rfl, trivial, [], rfl, by simp⟩

/-- A line of the output: one object and no line break inside -/
def ObjectLine (line : Bytes) : Prop :=
  0x0a ∉ line ∧ ∃ ms, Json.read line = some (.object ms)

theorem objectLine_dump (numbers : NumbersOkMembers obj) :
    ObjectLine (dump (-1) 0 (.object obj)) := by
  have object : NumbersOk (.object obj) := numbers
  refine ⟨dump_singleLine (by decide) 0 _ object, meaningMembers obj, ?_⟩
  rw [read_dump object, meaning]

end JsonWriter

/-! ## The output at any point -/

/-- The calls into the writer: the mirror hooks and `json_output_finish` -/
inductive Call
  | event (event : Event)
  | finish

def JsonWriter.call (jw : JsonWriter) : Call → JsonWriter
  | .event event => jw.step event
  | .finish => jw.jsonOutputFinish

open JsonWriter

theorem calls_of_finished {jw : JsonWriter} (finished : jw.finished = true) (calls : List Call) :
    calls.foldl JsonWriter.call jw = jw := by
  induction calls with
  | nil => rfl
  | cons call calls ih =>
    have same : jw.call call = jw := by
      cases call with
      | event event => exact step_of_finished finished event
      | finish => exact finish_of_finished finished
    rw [foldl_cons, same]
    exact ih

/-- **The output is complete wherever the scan ends.** After any calls of the mirror hooks, in
particular after every initial part of a well-nested stream, `json_output_finish` makes the
text one JSON document, or in line mode a sequence of lines that are each one object; further
calls write nothing. -/
theorem finish_completes (events : List Event) (calls : List Call) :
    (∃ ms, Json.read ((jsonOutputEnable false).run events).jsonOutputFinish.emitted =
      some (.object ms)) ∧
    (∃ lines : List Bytes, ((jsonOutputEnable true).run events).jsonOutputFinish.emitted =
      (lines.map (· ++ [0x0a])).flatten ∧ ∀ line ∈ lines, ObjectLine line) ∧
    ∀ mode, (calls.foldl JsonWriter.call
        ((jsonOutputEnable mode).run events).jsonOutputFinish).emitted =
      ((jsonOutputEnable mode).run events).jsonOutputFinish.emitted := by
  obtain ⟨doc, sound, docAlive, docFinish⟩ := sound_invariant.run
    (fun sound alive => (sound.finish alive).finished) sound_enable ⟨rfl, rfl⟩ events
  obtain ⟨jsonl, linesSound, linesAlive, linesFinish⟩ := linesSound_invariant.run
    (fun sound alive => (sound.finish alive).1) linesSound_enable ⟨rfl, rfl⟩ events
  have complete := sound.finish docAlive
  obtain ⟨linesDone, objs, text, all⟩ := linesSound.finish linesAlive
  refine ⟨?_, ?_, ?_⟩
  · obtain ⟨ms, text, numbers⟩ := complete.text
    have object : NumbersOk (.object ms) := numbers
    refine ⟨meaningMembers ms, ?_⟩
    rw [docFinish, text, (dump_reads 2 0 _ object).read (by decide), meaning]
  · refine ⟨objs.map fun obj => dump (-1) 0 (.object obj), ?_, ?_⟩
    · rw [linesFinish, text, linesText, map_map]
      rfl
    · intro line mem
      obtain ⟨obj, mem', rfl⟩ := mem_map.mp mem
      exact objectLine_dump (all obj mem')
  · intro mode
    cases mode with
    | false =>
      rw [docFinish, calls_of_finished complete.finished]
    | true =>
      rw [linesFinish, calls_of_finished linesDone]

end Nmap.Json
