import Nmap.Ncat.HttpHeader
import Nmap.Ncat.Strbuf
import Mathlib.Data.List.Chain
import Mathlib.Data.List.TakeWhile

/-!
# Headers that are passed on (`http.c`)

A proxy reads a header with `http_parse_header` and sends it on with `http_header_to_string`. A
value is stored as its text in single spaces, so it is one line, and reading it again gives the
same value.
-/

namespace Nmap.Ncat

open Nmap.Base List Option

/-! ## The buffer of a value -/

/-- The `do` loop of `http_parse_header`. A space goes in front of what is copied if the buffer
has been allocated. -/
def copyValue (value : Strbuf) (p : Bytes) : Option (Strbuf × Bytes) :=
  let value := if value.size > 0 then value.append [space] else value
  match _read : readChunk p with
  | none => none
  | some (chunk, q) =>
    let value := value.append chunk
    if _stop : skipLws q = [] ∨ isCrlf (skipLws q) = true then some (value, skipLws q)
    else copyValue value (skipLws q)
termination_by p.length
decreasing_by exact readChunk_shorter _read _stop

/-- What a buffer holds when the next chunk is copied to it -/
def spaced (value : Strbuf) : Bytes := if value.size > 0 then value.text ++ [space] else value.text

/-- The value as `headerValue` has it, behind what the buffer held before -/
theorem copyValue_eq : ∀ (n : Nat) {p : Bytes}, p.length ≤ n → ∀ (value : Strbuf),
    (copyValue value p).map (fun (value, rest) => (value.text, rest)) =
      (headerValue p).map fun (text, rest) => (spaced value ++ text, rest)
  | n, p, short, value => by
    have front : (if value.size > 0 then value.append [space] else value).text =
        spaced value := by
      unfold spaced
      split <;> rfl
    rw [copyValue]
    dsimp only
    split
    · next no =>
        rw [headerValue]
        split
        · rfl
        · next yes =>
            rw [no] at yes
            cases yes
    · next chunk q read =>
        rw [headerValue_eq read, afterChunk]
        split
        · rw [map_some, map_some, Strbuf.text_append, front]
        · next more =>
            have less := readChunk_shorter read more
            cases n with
            | zero => omega
            | succ n =>
              have behind : spaced (Strbuf.append
                  (if value.size > 0 then value.append [space] else value) chunk) =
                  spaced value ++ chunk ++ [space] := by
                rw [spaced, if_pos (Nat.pos_of_ne_zero (Strbuf.size_append _ _)),
                  Strbuf.text_append, front]
              rw [copyValue_eq n (by omega), behind, Option.map_map]
              congr 1
              funext read
              cases read
              simp

/-- **`headerValue` is what the buffer holds in the end.** -/
theorem headerValue_copied (p : Bytes) :
    headerValue p = (copyValue .null p).map fun (value, rest) => (value.text, rest) := by
  rw [copyValue_eq p.length (Nat.le_refl _) .null]
  show headerValue p = (headerValue p).map fun (text, rest) => (text, rest)
  rw [Option.map_id']

/-! ## Values -/

/-- A text as a value is stored: one line, with single spaces inside it only -/
structure IsValue (v : Bytes) : Prop where
  text : ∀ c ∈ v, isCtlChar c = false
  single : Single v
  first : v.head? ≠ some space
  last : v.getLast? ≠ some space

theorem squeeze_single : ∀ {v : Bytes}, Single v → squeeze v = v
  | [], _ => rfl
  | c :: v, single => by
    have later := squeeze_single (isChain_cons.mp single).2
    rw [squeeze, if_neg, later]
    rintro ⟨this, next⟩
    exact (isChain_cons.mp single).1 space next ⟨this, rfl⟩

variable {s chunk q : Bytes}

/-- No chunk has white space in it. -/
theorem readChunk_text (read : readChunk s = some (chunk, q)) :
    ∀ c ∈ chunk, c ≠ space ∧ isCtlChar c = false := by
  induction s generalizing chunk with
  | nil =>
    cases read
    intro c mem
    cases mem
  | cons c s ih =>
    rw [readChunk] at read
    split at read
    · cases read
      intro c mem
      cases mem
    · next inside =>
        split at read
        · cases read
        · next text =>
            obtain ⟨⟨chunk', q'⟩, later, eq⟩ := map_eq_some_iff.mp read
            cases eq
            intro d mem
            rcases mem_cons.mp mem with rfl | mem
            · refine ⟨?_, Bool.eq_false_iff.mpr text⟩
              intro is
              subst is
              exact inside rfl
            · exact ih later d mem

theorem readChunk_ne_nil (read : readChunk s = some (chunk, q)) (some_ : s ≠ [])
    (line : isCrlf s = false) (begins : beginsWithSpace s = false) :
    chunk ≠ [] := by
  cases s with
  | nil => exact absurd rfl some_
  | cons c s =>
    have inside : ¬ (isSpaceChar c || isCrlf (c :: s)) = true := by
      rw [line, show isSpaceChar c = false from begins]
      simp
    rw [readChunk, if_neg inside] at read
    split at read
    · cases read
    · obtain ⟨⟨chunk', q'⟩, -, eq⟩ := map_eq_some_iff.mp read
      cases eq
      exact cons_ne_nil _ _

theorem skipLws_skipLws (s : Bytes) : skipLws (skipLws s) = skipLws s := by
  fun_induction skipLws s with
  | case1 => rw [skipLws]
  | case2 _ _ _ ih => exact ih
  | case3 _ _ _ _ ih => exact ih
  | case4 c notSpace notFolded =>
    rw [skipLws.eq_def]
    dsimp only
    rw [if_neg notSpace, if_neg notFolded]
  | case5 _ _ _ _ _ _ ih => exact ih
  | case6 c notSpace d t notFolded notFolded' =>
    rw [skipLws.eq_def]
    dsimp only
    rw [if_neg notSpace, if_neg notFolded, if_neg notFolded']

theorem begins_of_skipLws (skipped : skipLws s = s) : beginsWithSpace s = false := by
  cases begins : beginsWithSpace s with
  | false => rfl
  | true =>
    have less := skipLws_lt begins
    rw [skipped] at less
    exact absurd less (Nat.lt_irrefl _)

theorem single_of_no_space : ∀ {v : Bytes}, (∀ c ∈ v, c ≠ space) → Single v
  | [], _ => .nil
  | c :: v, no => by
    refine isChain_cons.mpr ⟨?_, ?_⟩
    · intro d _ ⟨is, _⟩
      exact no c mem_cons_self is
    · exact single_of_no_space fun d mem => no d (mem_cons_of_mem _ mem)

theorem isValue_chunk (read : readChunk s = some (chunk, q)) :
    IsValue chunk where
  text c mem := (readChunk_text read c mem).2
  single := single_of_no_space fun c mem => (readChunk_text read c mem).1
  first is := (readChunk_text read _ (mem_of_mem_head? is)).1 rfl
  last is := (readChunk_text read _ (mem_of_mem_getLast? is)).1 rfl

theorem IsValue.append {v w : Bytes} (left : IsValue v) (right : IsValue w) (some_v : v ≠ [])
    (some_w : w ≠ []) : IsValue (v ++ space :: w) where
  text c mem := by
    rcases mem_append.mp mem with mem | mem
    · exact left.text c mem
    · rcases mem_cons.mp mem with rfl | mem
      · rfl
      · exact right.text c mem
  single := by
    refine isChain_append.mpr ⟨left.single, ?_, ?_⟩
    · refine isChain_cons.mpr ⟨?_, right.single⟩
      intro d head ⟨_, is⟩
      rw [is] at head
      exact right.first head
    · intro c last d _ ⟨is, _⟩
      rw [is] at last
      exact left.last last
  first := by
    rw [List.head?_append_of_ne_nil _ some_v]
    exact left.first
  last := by
    rw [List.getLast?_append_of_ne_nil _ (cons_ne_nil _ _),
      List.getLast?_cons_of_ne_nil some_w]
    exact right.last

/-- **What is stored is a value.** It is empty only at the end of the line. -/
theorem headerValue_isValue : ∀ (n : Nat) {s v rest : Bytes}, s.length ≤ n → skipLws s = s →
    headerValue s = some (v, rest) → IsValue v ∧ (s ≠ [] → isCrlf s = false → v ≠ [])
  | n, s, v, rest, short, skipped, read => by
    have begins := begins_of_skipLws skipped
    cases chunk_read : readChunk s with
    | none =>
      rw [headerValue] at read
      split at read
      · cases read
      · next yes =>
          rw [chunk_read] at yes
          cases yes
    | some both =>
      obtain ⟨chunk, q⟩ := both
      have value := isValue_chunk chunk_read
      rw [headerValue_eq chunk_read, afterChunk] at read
      split at read
      · cases read
        exact ⟨value, fun some_ line => readChunk_ne_nil chunk_read some_ line begins⟩
      · next more =>
          obtain ⟨⟨v', rest'⟩, later, eq⟩ := map_eq_some_iff.mp read
          cases eq
          have less := readChunk_shorter chunk_read more
          have inside : skipLws q ≠ [] ∧ isCrlf (skipLws q) = false := by
            simpa using more
          cases n with
          | zero => omega
          | succ n =>
            obtain ⟨value', some'⟩ :=
              headerValue_isValue n (by omega) (skipLws_skipLws q) later
            have nonempty : chunk ≠ [] := by
              -- where nothing was read the line has ended, and there is no more of it
              intro empty
              have same := readChunk_append chunk_read
              rw [empty, nil_append] at same
              subst same
              rw [skipped] at inside
              exact readChunk_ne_nil chunk_read inside.1 inside.2 begins empty
            exact ⟨value.append value' nonempty (some' inside.1 inside.2),
              fun _ _ => by simp⟩

/-! ## Fields -/

/-- A field as `http_parse_header` stores it. The name may be empty. -/
structure IsField (h : Header) : Prop where
  name : ∀ c ∈ h.name, isTokenChar c = true
  value : IsValue h.value

theorem httpParseHeader_isField : ∀ (n : Nat) {s : Bytes} {header : List Header}, s.length ≤ n →
    httpParseHeader s = some header → ∀ h ∈ header, IsField h
  | n, s, header, short, read => by
    rw [httpParseHeader] at read
    split at read
    · cases read
      intro h mem
      cases mem
    · split at read
      · cases read
      · next c q drop =>
          split at read
          · split at read
            · cases read
            · next v rest value =>
                obtain ⟨header', later, eq⟩ := map_eq_some_iff.mp read
                cases eq
                have less : (skipCrlf rest).length < s.length := by
                  have name_le := length_dropWhile_le isTokenChar s
                  rw [drop, length_cons] at name_le
                  have lws := skipLws_le q
                  have value_le := headerValue_le _ (Nat.le_refl _) value
                  have crlf := skipCrlf_le rest
                  omega
                intro h mem
                rcases mem_cons.mp mem with rfl | mem
                · refine ⟨fun c mem => mem_takeWhile_imp mem, ?_⟩
                  exact (headerValue_isValue _ (Nat.le_refl _) (skipLws_skipLws q) value).1
                · cases n with
                  | zero => omega
                  | succ n => exact httpParseHeader_isField n (by omega) later h mem
          · cases read

/-! ## Printing -/

/-- `"%s: %s\r\n"` -/
def fieldLine (p : Header) : Bytes := p.name ++ ascii ": " ++ p.value ++ ascii "\r\n"

def httpHeaderToString (header : List Header) : Strbuf :=
  header.foldl (fun buf p => buf.sprintf (fieldLine p)) (Strbuf.null.append [])

theorem text_httpHeaderToString (header : List Header) :
    (httpHeaderToString header).text = header.flatMap fieldLine := by
  rw [httpHeaderToString, Strbuf.text_foldl_sprintf]
  rfl

theorem begins_lines {header : List Header} (fields : ∀ h ∈ header, IsField h) :
    beginsWithSpace (header.flatMap fieldLine) = false := by
  cases header with
  | nil => rfl
  | cons h header =>
    obtain ⟨name, value⟩ := h
    cases name with
    | nil => rfl
    | cons c name =>
      have token := (fields _ mem_cons_self).name c mem_cons_self
      show isSpaceChar c = false
      cases spaces : isSpaceChar c with
      | false => rfl
      | true =>
        -- both of them are separators
        rw [isSpaceChar, Bool.or_eq_true, decide_eq_true_eq, decide_eq_true_eq] at spaces
        rcases spaces with rfl | rfl
        · cases token
        · cases token

theorem httpParseHeader_lines {header : List Header} (fields : ∀ h ∈ header, IsField h) :
    httpParseHeader (header.flatMap fieldLine) = some header := by
  induction header with
  | nil => rw [flatMap_nil, httpParseHeader, if_pos (by rfl)]
  | cons h header ih =>
    have field := fields h mem_cons_self
    have later : ∀ h ∈ header, IsField h := fun h mem => fields h (mem_cons_of_mem _ mem)
    have line : (h :: header).flatMap fieldLine =
        h.name ++ colon :: space :: h.value ++ endOfLine (header.flatMap fieldLine) := by
      rw [flatMap_cons, fieldLine, endOfLine, show ascii ": " = [colon, space] from rfl]
      simp
    rw [line, httpParseHeader_field field.name field.value.text field.value.first
      field.value.last (begins_lines later), ih later, squeeze_single field.value.single]
    rfl

/-- **A header that was accepted is read from its print as it was, and no value in it has a line
break, a tab or two spaces in a row.** -/
theorem httpParseHeader_forwarded {s : Bytes} {header : List Header}
    (accepted : httpParseHeader s = some header) :
    httpParseHeader (httpHeaderToString header).text = some header ∧
      ∀ h ∈ header, 0x0d ∉ h.value ∧ 0x0a ∉ h.value ∧ 0x09 ∉ h.value ∧ Single h.value := by
  have fields := httpParseHeader_isField _ (Nat.le_refl _) accepted
  refine ⟨?_, ?_⟩
  · rw [text_httpHeaderToString]
    exact httpParseHeader_lines fields
  · intro h mem
    have value := (fields h mem).value
    have free {c : UInt8} (ctl : isCtlChar c = true) : c ∉ h.value := by
      intro mem
      rw [value.text c mem] at ctl
      cases ctl
    exact ⟨free rfl, free rfl, free rfl, value.single⟩

/-- A field with a tab in front of its value, ended by a bare line feed -/
theorem httpParseHeader_forwarded_tab :
    httpParseHeader (httpHeaderToString [⟨ascii "TE", ascii "a"⟩]).text =
        some [⟨ascii "TE", ascii "a"⟩] ∧
      ∀ h ∈ [(⟨ascii "TE", ascii "a"⟩ : Header)],
        0x0d ∉ h.value ∧ 0x0a ∉ h.value ∧ 0x09 ∉ h.value ∧ Single h.value := by
  refine @httpParseHeader_forwarded (ascii "TE:\ta\n") _ ?_
  have chunk : readChunk (ascii "a\n") = some (ascii "a", ascii "\n") := rfl
  have start : skipLws (ascii "\ta\n") = ascii "a\n" := by decide
  have stop : skipLws (ascii "\n") = ascii "\n" := by decide
  have value : headerValue (skipLws (ascii "\ta\n")) = some (ascii "a", ascii "\n") := by
    rw [start, headerValue_eq chunk, afterChunk, stop, if_pos (.inr (by rfl))]
  have name : (ascii "TE:\ta\n").dropWhile isTokenChar = colon :: ascii "\ta\n" := by decide
  rw [httpParseHeader_step (by decide) name value, httpParseHeader, if_pos (by decide)]
  rfl

end Nmap.Ncat
