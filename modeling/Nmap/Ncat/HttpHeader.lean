import Nmap.Base.CString

/-!
# HTTP headers (`http.c`)

Tokens, quoted strings and header fields. A C string is the list of its bytes, and the end of
the list is its terminator. A parser gives back what it did not read.
-/

namespace Nmap.Ncat

open Nmap.Base List Option

/-! ## Characters -/

/-- `"` -/
def quote : UInt8 := 0x22

/-- `\` -/
def backslash : UInt8 := 0x5c

/-- `,` -/
def comma : UInt8 := 0x2c

/-- `=` -/
def equals : UInt8 := 0x3d

/-- `:` -/
def colon : UInt8 := 0x3a

def space : UInt8 := 0x20

def isSpaceChar (c : UInt8) : Bool := c = space || c = 0x09

/-- `is_ctl_char`. Bytes above 127 are negative. -/
def isCtlChar (c : UInt8) : Bool := c ≤ 31 || c = 127

def isSepChar (c : UInt8) : Bool := c ∈ ascii "()<>@,;:\\\"/[]?=\x7b\x7d \t"

def isTokenChar (c : UInt8) : Bool := !isCtlChar c && !isSepChar c

def isCrlf : Bytes → Bool
  | 0x0a :: _ => true
  | 0x0d :: 0x0a :: _ => true
  | _ => false

def skipCrlf : Bytes → Bytes
  | 0x0a :: s => s
  | 0x0d :: 0x0a :: s => s
  | s => s

def toLower (c : UInt8) : UInt8 := if 0x41 ≤ c && c ≤ 0x5a then c + 0x20 else c

def strEqualI (a b : Bytes) : Bool := a.map toLower = b.map toLower

/-- `while (is_space_char(*s)) s++` -/
def skipSpaces (s : Bytes) : Bytes := s.dropWhile isSpaceChar

/-! ## Tokens and quoted strings -/

def readToken (s : Bytes) : Option (Bytes × Bytes) :=
  let s := s.dropWhile (· = space)
  if s.takeWhile isTokenChar = [] then none
  else some (s.takeWhile isTokenChar, s.dropWhile isTokenChar)

/-- The loops of `read_quoted_string` behind the first quote, with what was read so far -/
def quotedBody : Bytes → Bytes → Option (Bytes × Bytes)
  | _, [] => none
  | buf, c :: s =>
    if c = quote then some (buf, s)
    else if c = backslash then
      match s with
      | [] => none
      -- Only octets from 1 to 127 can be escaped.
      | d :: s => if d = 0 || d ≥ 128 then none else quotedBody (buf ++ [d]) s
    else if isCtlChar c && !isSpaceChar c then none
    else quotedBody (buf ++ [c]) s

def readQuotedString (s : Bytes) : Option (Bytes × Bytes) :=
  match skipSpaces s with
  | [] => none
  | c :: s => if c = quote then quotedBody [] s else none

def readTokenOrQuotedString (s : Bytes) : Option (Bytes × Bytes) :=
  match skipSpaces s with
  | [] => readToken []
  | c :: s => if c = quote then readQuotedString (c :: s) else readToken (c :: s)

theorem length_dropWhile_le (p : UInt8 → Bool) (s : Bytes) : (s.dropWhile p).length ≤ s.length :=
  (dropWhile_suffix p).length_le

variable {s rest : Bytes}

theorem readToken_shorter {token : Bytes} (read : readToken s = some (token, rest)) :
    rest.length < s.length := by
  unfold readToken at read
  dsimp only at read
  split at read
  · cases read
  · next some_byte =>
      cases read
      have whole := congrArg List.length
        (takeWhile_append_dropWhile (p := isTokenChar) (l := s.dropWhile (· = space)))
      have positive := length_pos_iff.mpr some_byte
      have shorter := length_dropWhile_le (· = space) s
      rw [length_append] at whole
      omega

theorem quotedBody_shorter : ∀ (s buf : Bytes) {text rest : Bytes},
    quotedBody buf s = some (text, rest) → rest.length < s.length
  | c :: s, buf, text, rest, read => by
    rw [quotedBody.eq_def] at read
    dsimp only at read
    split at read
    · cases read
      exact Nat.lt_succ_self _
    split at read
    · split at read
      · cases read
      · next d s =>
          split at read
          · cases read
          · have shorter := quotedBody_shorter s _ read
            simp only [length_cons]
            omega
    split at read
    · cases read
    · have shorter := quotedBody_shorter s _ read
      simp only [length_cons]
      omega

theorem readTokenOrQuotedString_shorter {text : Bytes}
    (read : readTokenOrQuotedString s = some (text, rest)) : rest.length < s.length := by
  have skipped := length_dropWhile_le isSpaceChar s
  unfold readTokenOrQuotedString at read
  split at read
  · cases read
  · next c s' eq =>
      unfold skipSpaces at eq
      rw [eq] at skipped
      split at read
      · next is =>
          subst is
          have body : quotedBody [] s' = some (text, rest) := read
          have shorter := quotedBody_shorter s' _ body
          simp only [length_cons] at skipped
          omega
      · have shorter := readToken_shorter read
        omega

def readTokenList (s : Bytes) : Option (List Bytes × Bytes) :=
  match _read : readToken s with
  | none => none
  | some (token, rest) =>
    match _next : rest with
    | [] => some ([token], [])
    | c :: s =>
      if c = comma then (readTokenList s).map fun (tokens, rest) => (token :: tokens, rest)
      else some ([token], c :: s)
termination_by s.length
decreasing_by
  have shorter := readToken_shorter _read
  simp only [length_cons] at shorter
  omega

/-! ## Header fields -/

/-- `struct http_header` -/
structure Header where
  name : Bytes
  value : Bytes
  deriving DecidableEq

/-- The fields of this name, as `http_header_next` goes through them -/
def headersNamed (header : List Header) (name : Bytes) : List Header :=
  header.filter fun h => strEqualI h.name name

/-- Does the text begin with white space? -/
def beginsWithSpace : Bytes → Bool
  | [] => false
  | c :: _ => isSpaceChar c

def skipLws : Bytes → Bytes
  | [] => []
  | c :: s =>
    if isSpaceChar c then skipLws s
    else if c = 0x0a && beginsWithSpace s then skipLws s
    else
      match s with
      | [] => [c]
      | d :: t =>
        if c = 0x0d && d = 0x0a && beginsWithSpace t then skipLws t else c :: d :: t

/-- The inner loop of `http_parse_header`: up to white space or the end of the line -/
def readChunk : Bytes → Option (Bytes × Bytes)
  | [] => some ([], [])
  | c :: s =>
    if isSpaceChar c || isCrlf (c :: s) then some ([], c :: s)
    else if isCtlChar c then none
    else (readChunk s).map fun (chunk, rest) => (c :: chunk, rest)

theorem skipLws_or (s : Bytes) : skipLws s = s ∨ (skipLws s).length < s.length := by
  fun_induction skipLws s with
  | case1 => exact .inl rfl
  | case2 c s space ih =>
    right
    rcases ih with eq | less
    · rw [eq]
      exact Nat.lt_succ_self _
    · exact Nat.lt_succ_of_lt less
  | case3 c s notSpace folded ih =>
    right
    rcases ih with eq | less
    · rw [eq]
      exact Nat.lt_succ_self _
    · exact Nat.lt_succ_of_lt less
  | case4 => exact .inl rfl
  | case5 c notSpace d t _ folded ih =>
    right
    simp only [length_cons]
    rcases ih with eq | less
    · rw [eq]
      omega
    · omega
  | case6 => exact .inl rfl

theorem skipLws_le (s : Bytes) : (skipLws s).length ≤ s.length := by
  rcases skipLws_or s with eq | less
  · exact Nat.le_of_eq (congrArg List.length eq)
  · exact Nat.le_of_lt less

theorem readChunk_append : ∀ {s chunk rest : Bytes}, readChunk s = some (chunk, rest) →
    s = chunk ++ rest
  | [], chunk, rest, read => by
    cases read
    rfl
  | c :: s, chunk, rest, read => by
    rw [readChunk] at read
    split at read
    · cases read
      rfl
    split at read
    · cases read
    · obtain ⟨⟨chunk', rest'⟩, later, eq⟩ := map_eq_some_iff.mp read
      cases eq
      rw [readChunk_append later]
      rfl

variable {chunk : Bytes}

/-- What `readChunk` stops at -/
theorem readChunk_stop (read : readChunk s = some (chunk, rest)) :
    rest = [] ∨ beginsWithSpace rest = true ∨ isCrlf rest = true := by
  induction s generalizing chunk with
  | nil =>
    cases read
    exact .inl rfl
  | cons c s ih =>
    rw [readChunk] at read
    split at read
    · next stop =>
        cases read
        rcases Bool.or_eq_true _ _ ▸ stop with space | crlf
        · exact .inr (.inl space)
        · exact .inr (.inr crlf)
    split at read
    · cases read
    · obtain ⟨⟨chunk', rest'⟩, later, eq⟩ := map_eq_some_iff.mp read
      cases eq
      exact ih later

theorem skipLws_lt (space : beginsWithSpace s = true) :
    (skipLws s).length < s.length := by
  cases s with
  | nil => cases space
  | cons c s =>
    rw [skipLws.eq_def]
    dsimp only
    rw [if_pos (show isSpaceChar c = true from space)]
    exact Nat.lt_succ_of_le (skipLws_le s)

theorem readChunk_shorter (read : readChunk s = some (chunk, rest))
    (more : ¬ (skipLws rest = [] ∨ isCrlf (skipLws rest) = true)) :
    (skipLws rest).length < s.length := by
  have whole := congrArg List.length (readChunk_append read)
  rw [length_append] at whole
  rcases readChunk_stop read with rfl | space | crlf
  · exact absurd (.inl rfl) more
  · have less := skipLws_lt space
    omega
  · rcases skipLws_or rest with eq | less
    · rw [eq] at more
      exact absurd (.inr crlf) more
    · omega

/-- The value of a field: its chunks with a space between them. The `do` loop of
`http_parse_header` -/
def headerValue (s : Bytes) : Option (Bytes × Bytes) :=
  match _read : readChunk s with
  | none => none
  | some (chunk, q) =>
    if _stop : skipLws q = [] ∨ isCrlf (skipLws q) = true then some (chunk, skipLws q)
    else (headerValue (skipLws q)).map fun (value, rest) => (chunk ++ space :: value, rest)
termination_by s.length
decreasing_by exact readChunk_shorter _read _stop

theorem headerValue_le : ∀ (n : Nat) {s value rest : Bytes}, s.length ≤ n →
    headerValue s = some (value, rest) → rest.length ≤ s.length
  | n, s, value, rest, short, read => by
    rw [headerValue] at read
    split at read
    · cases read
    · next chunk q chunk_read =>
        have whole := congrArg List.length (readChunk_append chunk_read)
        rw [length_append] at whole
        have skipped := skipLws_le q
        split at read
        · cases read
          omega
        · next more =>
            obtain ⟨⟨value', rest'⟩, later, eq⟩ := map_eq_some_iff.mp read
            cases eq
            have less := readChunk_shorter chunk_read more
            cases n with
            | zero => omega
            | succ n =>
              have rest_le := headerValue_le n (by omega) later
              omega

theorem skipCrlf_le (s : Bytes) : (skipCrlf s).length ≤ s.length := by
  fun_cases skipCrlf s
  · exact Nat.le_succ _
  · simp only [length_cons]
    omega
  · exact Nat.le_refl _

/-- `http_parse_header`, or `none` for a bad request -/
def httpParseHeader (s : Bytes) : Option (List Header) :=
  if s = [] || isCrlf s then some []
  else
    match _name : s.dropWhile isTokenChar with
    | [] => none
    | c :: q =>
      if c = colon then
        match _value : headerValue (skipLws q) with
        | none => none
        | some (value, rest) =>
          (httpParseHeader (skipCrlf rest)).map
            (⟨s.takeWhile isTokenChar, value⟩ :: ·)
      else none
termination_by s.length
decreasing_by
  have name_le := length_dropWhile_le isTokenChar s
  rw [_name, length_cons] at name_le
  have lws := skipLws_le q
  have value_le := headerValue_le _ (Nat.le_refl _) _value
  have crlf := skipCrlf_le rest
  omega

/-! ## What a header keeps of a text -/

/-- A text with its runs of spaces made single -/
def squeeze : Bytes → Bytes
  | [] => []
  | c :: s => if c = space ∧ s.head? = some space then squeeze s else c :: squeeze s

variable {c : UInt8}

theorem squeeze_cons (other : c ≠ space) (s : Bytes) :
    squeeze (c :: s) = c :: squeeze s := by
  rw [squeeze, if_neg fun both => other both.1]

def Single (s : Bytes) : Prop := s.IsChain fun a b => ¬ (a = space ∧ b = space)

instance (s : Bytes) : Decidable (Single s) :=
  inferInstanceAs (Decidable (s.IsChain fun a b => ¬ (a = space ∧ b = space)))

theorem isCrlf_of_text (text : isCtlChar c = false) (s : Bytes) :
    isCrlf (c :: s) = false := by
  have lf : c ≠ 0x0a := by
    rintro rfl
    cases text
  have cr : c ≠ 0x0d := by
    rintro rfl
    cases text
  rw [isCrlf.eq_def]
  split
  · next eq => exact absurd (List.cons.inj eq).1 lf
  · next eq => exact absurd (List.cons.inj eq).1 cr
  · rfl

/-- The round of `headerValue` behind a chunk -/
def afterChunk (chunk q : Bytes) : Option (Bytes × Bytes) :=
  if skipLws q = [] ∨ isCrlf (skipLws q) = true then some (chunk, skipLws q)
  else (headerValue (skipLws q)).map fun (value, rest) => (chunk ++ space :: value, rest)

variable {q : Bytes}

theorem headerValue_eq (read : readChunk s = some (chunk, q)) :
    headerValue s = afterChunk chunk q := by
  rw [headerValue]
  split
  · next no =>
      rw [read] at no
      cases no
  · next chunk' q' yes =>
      rw [read] at yes
      cases yes
      rfl

theorem afterChunk_cons (c : UInt8) (chunk q : Bytes) :
    afterChunk (c :: chunk) q =
      (afterChunk chunk q).map fun (value, rest) => (c :: value, rest) := by
  unfold afterChunk
  split
  · rfl
  · rw [Option.map_map]
    rfl

theorem readChunk_cons (text : isCtlChar c = false) (other : c ≠ space)
    (read : readChunk s = some (chunk, q)) :
    readChunk (c :: s) = some (c :: chunk, q) := by
  have notSpace : isSpaceChar c = false := by
    have tab : c ≠ 0x09 := by
      rintro rfl
      cases text
    simp [isSpaceChar, other, tab]
  rw [readChunk, if_neg (by simp [notSpace, isCrlf_of_text text]), if_neg (by simp [text]), read]
  rfl

theorem headerValue_cons (text : isCtlChar c = false) (other : c ≠ space)
    (read : readChunk s = some (chunk, q)) :
    headerValue (c :: s) = (headerValue s).map fun (value, rest) => (c :: value, rest) := by
  rw [headerValue_eq (readChunk_cons text other read), headerValue_eq read, afterChunk_cons]

theorem readChunk_space (s : Bytes) : readChunk (space :: s) = some ([], space :: s) := by
  rw [readChunk, if_pos (by rfl)]

theorem skipLws_space (s : Bytes) : skipLws (space :: s) = skipLws s := by
  rw [skipLws.eq_def]
  dsimp only
  rw [if_pos (by rfl)]

theorem headerValue_spaces (s : Bytes) :
    headerValue (space :: space :: s) = headerValue (space :: s) := by
  rw [headerValue_eq (readChunk_space _), headerValue_eq (readChunk_space _)]
  unfold afterChunk
  rw [skipLws_space (space :: s)]

theorem skipLws_text (text : isCtlChar c = false) (other : c ≠ space) (s : Bytes) :
    skipLws (c :: s) = c :: s := by
  have tab : c ≠ 0x09 := by
    rintro rfl
    cases text
  have lf : c ≠ 0x0a := by
    rintro rfl
    cases text
  have cr : c ≠ 0x0d := by
    rintro rfl
    cases text
  rw [skipLws.eq_def]
  dsimp only
  rw [if_neg (by simp [isSpaceChar, other, tab]), if_neg (by simp [lf])]
  cases s with
  | nil => rfl
  | cons d t =>
    dsimp only
    rw [if_neg (by simp [cr])]

theorem headerValue_space (text : isCtlChar c = false) (other : c ≠ space) (s : Bytes) :
    headerValue (space :: c :: s) =
      (headerValue (c :: s)).map fun (value, rest) => (space :: value, rest) := by
  rw [headerValue_eq (readChunk_space _)]
  unfold afterChunk
  rw [skipLws_space, skipLws_text text other, if_neg (by simp [isCrlf_of_text text])]
  rfl

/-- The end of a line, with no folded line behind it -/
def endOfLine (more : Bytes) : Bytes := ascii "\r\n" ++ more

variable {more : Bytes}

theorem skipLws_endOfLine (stop : beginsWithSpace more = false) :
    skipLws (endOfLine more) = endOfLine more := by
  change skipLws (0x0d :: 0x0a :: more) = _
  rw [skipLws.eq_def]
  dsimp only
  rw [if_neg (by decide), if_neg (by simp), if_neg (by simp [stop])]
  rfl

/-- **The value of a header is its text with single spaces.** -/
theorem headerValue_text {t : Bytes} (text : ∀ c ∈ t, isCtlChar c = false)
    (last : t.getLast? ≠ some space) (stop : beginsWithSpace more = false) :
    (∃ chunk q, readChunk (t ++ endOfLine more) = some (chunk, q)) ∧
      headerValue (t ++ endOfLine more) = some (squeeze t, endOfLine more) := by
  induction t with
  | nil =>
    have read : readChunk (endOfLine more) = some ([], endOfLine more) := by
      change readChunk (0x0d :: 0x0a :: more) = _
      rw [readChunk, if_pos (by rfl)]
      rfl
    refine ⟨⟨_, _, read⟩, ?_⟩
    rw [nil_append, headerValue_eq read, afterChunk, skipLws_endOfLine stop,
      if_pos (.inr (by rfl))]
    rfl
  | cons c t ih =>
    have first := text c mem_cons_self
    have texts : ∀ c ∈ t, isCtlChar c = false := fun d mem => text d (mem_cons_of_mem _ mem)
    by_cases is : c = space
    · subst is
      refine ⟨⟨_, _, readChunk_space _⟩, ?_⟩
      cases t with
      | nil => exact absurd rfl last
      | cons d t =>
        rw [List.getLast?_cons_cons] at last
        obtain ⟨-, value⟩ := ih texts last
        by_cases again : d = space
        · subst again
          rw [squeeze, if_pos ⟨rfl, rfl⟩, ← value]
          exact headerValue_spaces _
        · rw [squeeze, if_neg fun both => again (Option.some.inj both.2)]
          have kept := headerValue_space (texts d mem_cons_self) again
            (t ++ endOfLine more)
          rw [← cons_append, value] at kept
          exact kept
    · have last' : t.getLast? ≠ some space := by
        cases t with
        | nil => simp
        | cons d t => rwa [List.getLast?_cons_cons] at last
      obtain ⟨⟨chunk, q, read⟩, value⟩ := ih texts last'
      have kept := headerValue_cons first is read
      rw [value] at kept
      refine ⟨⟨_, _, readChunk_cons first is read⟩, ?_⟩
      rw [squeeze_cons is]
      exact kept

theorem httpParseHeader_step {v : Bytes} (line : (s = [] || isCrlf s) = false)
    (drop : s.dropWhile isTokenChar = colon :: q)
    (value : headerValue (skipLws q) = some (v, rest)) :
    httpParseHeader s =
      (httpParseHeader (skipCrlf rest)).map (⟨s.takeWhile isTokenChar, v⟩ :: ·) := by
  rw [httpParseHeader, if_neg (Bool.eq_false_iff.mp line)]
  split
  · next none_left =>
      rw [drop] at none_left
      cases none_left
  · next d q' eq =>
      rw [drop] at eq
      cases eq
      rw [if_pos rfl]
      split
      · next no => exact absurd (no.symm.trans value) nofun
      · next v' rest' yes =>
          cases Option.some.inj (yes.symm.trans value)
          rfl

/-- **A line of a header is a field with its text in single spaces.** -/
theorem httpParseHeader_field {name t : Bytes} (token : ∀ c ∈ name, isTokenChar c = true)
    (text : ∀ c ∈ t, isCtlChar c = false) (first : t.head? ≠ some space)
    (last : t.getLast? ≠ some space) (stop : beginsWithSpace more = false) :
    httpParseHeader (name ++ colon :: space :: t ++ endOfLine more) =
      (httpParseHeader more).map (⟨name, squeeze t⟩ :: ·) := by
  have whole : name ++ colon :: space :: t ++ endOfLine more =
      name ++ (colon :: space :: t ++ endOfLine more) := append_assoc _ _ _
  have stopped : ∀ c ∈ (colon :: space :: t ++ endOfLine more).head?, isTokenChar c = false := by
    intro c mem
    cases mem
    rfl
  obtain ⟨take, drop⟩ := takeWhile_all token stopped
  have line : ¬ (decide (name ++ (colon :: space :: t ++ endOfLine more) = []) ||
      isCrlf (name ++ (colon :: space :: t ++ endOfLine more))) = true := by
    cases name with
    | nil =>
      rw [nil_append, cons_append, isCrlf_of_text (by rfl)]
      simp
    | cons d name =>
      have ctl : isCtlChar d = false := by
        have yes := token d mem_cons_self
        rw [isTokenChar, Bool.and_eq_true] at yes
        simpa using yes.1
      rw [cons_append, isCrlf_of_text ctl]
      simp
  have lws : skipLws (space :: t ++ endOfLine more) = t ++ endOfLine more := by
    rw [cons_append, skipLws_space]
    cases t with
    | nil => exact skipLws_endOfLine stop
    | cons c t =>
      have other : c ≠ space := fun is => first (congrArg some is)
      exact skipLws_text (text c mem_cons_self) other _
  have value : headerValue (skipLws (space :: t ++ endOfLine more)) =
      some (squeeze t, endOfLine more) := by
    rw [lws]
    exact (headerValue_text text last stop).2
  rw [whole, httpParseHeader_step (Bool.eq_false_iff.mpr line) drop value, take]
  rfl

theorem httpParseHeader_end : httpParseHeader (ascii "\r\n") = some [] := by
  rw [httpParseHeader, if_pos (by rfl)]

end Nmap.Ncat
