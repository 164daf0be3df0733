import Nmap.Base.LinkedList
import Nmap.Ncat.Challenges
import Nmap.Ncat.Strbuf

/-!
# Hop-by-hop headers (`http.c`)

Before a proxy passes a header on, it takes out the fields that concern one connection only, and
those that a Connection field names. The values of all Connection fields are joined and read by
`read_token_list`, which skips spaces in front of a token and nowhere else
(`httpHeaderRemoveHopByHop_iff`).
-/

namespace Nmap.Ncat

open Nmap.Base Nmap.Base.Linked List

/-! ## The functions -/

/-- The body of the loop of `http_header_get`, with `buf` and `count` -/
def appendValue (name : Bytes) : Strbuf × Nat → Header → Strbuf × Nat
  | (buf, count), p =>
    if strEqualI p.name name then
      let buf := if count > 0 then buf.append (ascii ", ") else buf
      (buf.append p.value, count + 1)
    else (buf, count)

/-- `http_header_get`, which returns the null pointer if nothing was allocated -/
def httpHeaderGet (steps : Nat) (header : Memory Header) (name : Bytes) :
    Option (Option Bytes) := do
  let (buf, _) ← walk header.node (appendValue name) steps header.root (Strbuf.null, 0)
  return if buf.size = 0 then none else some buf.text

def httpHeaderRemove (steps : Nat) (header : Memory Header) (name : Bytes) :
    Option (Memory Header) :=
  removeFrom (fun p => strEqualI p.name name) steps header .root header.root

def hopByHopHeaders : List Bytes :=
  [ascii "Connection", ascii "Keep-Alive", ascii "Proxy-Authenticate",
    ascii "Proxy-Authorization", ascii "TE", ascii "Trailers", ascii "Transfer-Encoding",
    ascii "Upgrade"]

/-- `http_header_remove_hop_by_hop`: what it returns, and the header it leaves -/
def httpHeaderRemoveHopByHop (steps : Nat) (header : Memory Header) :
    Option (Nat × Memory Header) := do
  let removeAll := fun connectionTokens : List Bytes => do
    let header ← hopByHopHeaders.foldlM (httpHeaderRemove steps) header
    let header ← connectionTokens.foldlM (httpHeaderRemove steps) header
    return (0, header)
  match ← httpHeaderGet steps header (ascii "Connection") with
  | none => removeAll []
  | some connection =>
    match readTokenList connection with
    | none => return (400, header)
    | some (_, _ :: _) => return (400, header)
    | some (connectionTokens, []) => removeAll connectionTokens

/-! ## What they are for -/

/-- The values of the Connection fields -/
def connectionValues (header : List Header) : List Bytes :=
  (headersNamed header (ascii "Connection")).map (·.value)

/-- What stands between the commas of the Connection fields, without the white space around it -/
def connectionTokens (header : List Header) : List Bytes :=
  (connectionValues header).flatMap elements

def endToEnd (header : List Header) : List Header :=
  header.filter fun p => !(hopByHopHeaders ++ connectionTokens header).any (strEqualI p.name)

/-- The header is refused if a Connection field is no list of tokens, and else it is filtered. -/
structure Filtered (header : List Header) (code : Nat) (left : List Header) : Prop where
  accepted : code = 0 ↔ ∀ t ∈ connectionTokens header, IsToken t
  filtered : code = 0 → left = endToEnd header
  refused : code = 400 → left = header
  either : code = 0 ∨ code = 400

/-- In a list of tokens there is no tab, and no space in front of a comma or at an end. -/
def SpacesInFront (header : List Header) : Prop :=
  (∀ t ∈ connectionTokens header, IsToken t) →
    ∀ v ∈ connectionValues header, ∀ e ∈ splitCommas v, 0x09 ∉ e ∧ e.getLast? ≠ some space

/-! ## Elements -/

/-- An element without the white space around it -/
def strip (e : Bytes) : Bytes := (skipSpaces (skipSpaces e).reverse).reverse

def Listed (e : Bytes) : Prop := ∃ n t, IsToken t ∧ e = spaces n ++ t

theorem splitCommas_ne_nil (s : Bytes) : splitCommas s ≠ [] := by
  cases s with
  | nil => exact cons_ne_nil _ _
  | cons c s =>
    rw [splitCommas]
    split
    · exact cons_ne_nil _ _
    · split
      · exact cons_ne_nil _ _
      · exact cons_ne_nil _ _

theorem splitCommas_cons {c : UInt8} (other : c ≠ comma) (s : Bytes) :
    ∃ e es, splitCommas s = e :: es ∧ splitCommas (c :: s) = (c :: e) :: es := by
  obtain ⟨e, es, split⟩ := exists_cons_of_ne_nil (splitCommas_ne_nil s)
  refine ⟨e, es, split, ?_⟩
  rw [splitCommas, if_neg other, split]

theorem splitCommas_comma (a s : Bytes) :
    splitCommas (a ++ comma :: s) = splitCommas a ++ splitCommas s := by
  induction a with
  | nil =>
    show splitCommas (comma :: s) = [] :: splitCommas s
    rw [splitCommas, if_pos rfl]
  | cons c a ih =>
    by_cases is : c = comma
    · rw [cons_append, splitCommas, if_pos is, ih, splitCommas, if_pos is, cons_append]
    · obtain ⟨e, es, split, more⟩ := splitCommas_cons is a
      obtain ⟨e', es', split', more'⟩ := splitCommas_cons is (a ++ comma :: s)
      rw [ih, split, cons_append] at split'
      obtain ⟨rfl, rfl⟩ := List.cons.inj split'
      rw [cons_append, more', more, cons_append]

theorem listed_space {e : Bytes} : Listed (space :: e) ↔ Listed e := by
  constructor
  · intro ⟨n, t, token, eq⟩
    cases n with
    | zero =>
      rw [show spaces 0 ++ t = t from rfl] at eq
      have first := token.2 space (eq ▸ mem_cons_self)
      cases first
    | succ n => exact ⟨n, t, token, (List.cons.inj eq).2⟩
  · intro ⟨n, t, token, eq⟩
    exact ⟨n + 1, t, token, by rw [eq]; rfl⟩

theorem strip_space (e : Bytes) : strip (space :: e) = strip e := by
  have skipped : skipSpaces (space :: e) = skipSpaces e := dropWhile_cons_of_pos (by rfl)
  rw [strip, skipped, strip]

/-- **An element is listed if it is a token with spaces in front only.** -/
theorem listed_iff {e : Bytes} :
    Listed e ↔ IsToken (strip e) ∧ 0x09 ∉ e ∧ e.getLast? ≠ some space := by
  constructor
  · intro ⟨n, t, token, eq⟩
    subst eq
    refine ⟨?_, ?_, ?_⟩
    · rw [strip, token.strip]
      exact token
    · intro mem
      rcases mem_append.mp mem with blank | inside
      · exact absurd (eq_of_mem_replicate blank) (by decide)
      · cases token.2 _ inside
    · rw [List.getLast?_append_of_ne_nil _ token.1]
      intro last
      cases token.2 _ (mem_of_mem_getLast? last)
  · intro ⟨token, tab, last⟩
    have whole : e.takeWhile isSpaceChar ++ skipSpaces e = e := takeWhile_append_dropWhile
    -- what is skipped in front are spaces, and nothing is skipped behind
    have front : e.takeWhile isSpaceChar = spaces (e.takeWhile isSpaceChar).length := by
      apply eq_replicate_of_mem
      intro c mem
      have blank := mem_takeWhile_imp mem
      rw [isSpaceChar, Bool.or_eq_true, decide_eq_true_eq, decide_eq_true_eq] at blank
      rcases blank with is | is
      · exact is
      · exact absurd (is ▸ takeWhile_subset _ mem) tab
    have behind : skipSpaces (skipSpaces e).reverse = (skipSpaces e).reverse := by
      apply skipSpaces_of_head
      intro c head
      rw [List.head?_reverse] at head
      have some_ : skipSpaces e ≠ [] := by
        intro empty
        rw [empty] at head
        cases head
      have ends : e.getLast? = some c := by
        rw [← whole, List.getLast?_append_of_ne_nil _ some_]
        exact head
      have notTab : c ≠ 0x09 := fun is => tab (is ▸ mem_of_mem_getLast? ends)
      have notSpace : c ≠ space := fun is => last (is ▸ ends)
      simp [isSpaceChar, notSpace, notTab]
    refine ⟨(e.takeWhile isSpaceChar).length, skipSpaces e, ?_, ?_⟩
    · rw [strip, behind, reverse_reverse] at token
      exact token
    · rw [← front, whole]

/-- **A list is read if its elements are listed.** -/
theorem tokenList_iff : ∀ (n : Nat) {s : Bytes}, s.length ≤ n →
    ((∃ ts, TokenList s ts) ↔ ∀ e ∈ splitCommas s, Listed e)
  | n, s, short => by
    constructor
    · intro ⟨ts, list⟩
      clear short
      induction list with
      | @last k t token =>
        rw [splitCommas_single (token.no_comma k)]
        intro e mem
        exact ⟨k, t, token, mem_singleton.mp mem⟩
      | @more k t s ts token rest ih =>
        rw [splitCommas_append (token.no_comma k)]
        intro e mem
        rcases mem_cons.mp mem with rfl | mem
        · exact ⟨k, t, token, rfl⟩
        · exact ih e mem
    · intro all
      by_cases mem : comma ∈ s
      · obtain ⟨a, s', rfl, none_⟩ := eq_append_cons_of_mem mem
        rw [splitCommas_append none_] at all
        obtain ⟨k, t, token, rfl⟩ := all a mem_cons_self
        cases n with
        | zero => simp at short
        | succ n =>
          have shorter : s'.length ≤ n := by
            rw [length_append, length_cons] at short
            omega
          obtain ⟨ts, list⟩ := (tokenList_iff n shorter).mpr fun e mem =>
            all e (mem_cons_of_mem _ mem)
          exact ⟨t :: ts, .more k token list⟩
      · rw [splitCommas_single mem] at all
        obtain ⟨k, t, token, rfl⟩ := all s mem_cons_self
        exact ⟨[t], .last k token⟩

/-! ## The values joined -/

/-- What `http_header_get` puts together -/
def combined : List Bytes → Bytes
  | [] => []
  | v :: vs => v ++ vs.flatMap fun w => ascii ", " ++ w

theorem combined_cons (v w : Bytes) (vs : List Bytes) :
    combined (v :: w :: vs) = v ++ comma :: space :: combined (w :: vs) := by
  rw [combined, flatMap_cons, combined, show ascii ", " = [comma, space] from rfl]
  simp

theorem forall_splitCommas_combined {P : Bytes → Prop} (spaced : ∀ e, P (space :: e) ↔ P e)
    (v : Bytes) (vs : List Bytes) :
    (∀ e ∈ splitCommas (combined (v :: vs)), P e) ↔ ∀ w ∈ v :: vs, ∀ e ∈ splitCommas w, P e := by
  induction vs generalizing v with
  | nil => simp [combined]
  | cons w vs ih =>
    obtain ⟨e, es, split, more⟩ := splitCommas_cons (show space ≠ comma by decide)
      (combined (w :: vs))
    have rest := ih w
    rw [split] at rest
    rw [combined_cons, splitCommas_comma, more]
    simp only [mem_append, mem_cons, or_imp, forall_and, forall_eq, spaced] at rest ⊢
    rw [rest]

theorem elements_combined (v : Bytes) (vs : List Bytes) :
    elements (combined (v :: vs)) = (v :: vs).flatMap elements := by
  induction vs generalizing v with
  | nil => simp [combined]
  | cons w vs ih =>
    obtain ⟨e, es, split, more⟩ := splitCommas_cons (show space ≠ comma by decide)
      (combined (w :: vs))
    have rest := ih w
    have elements_eq (s : Bytes) : elements s = (splitCommas s).map strip := rfl
    rw [elements_eq, split, map_cons] at rest
    rw [elements_eq, combined_cons, splitCommas_comma, more, map_append, map_cons, strip_space,
      rest, ← elements_eq]
    rfl

theorem headersNamed_cons (h : Header) (header : List Header) (name : Bytes) :
    headersNamed (h :: header) name =
      if strEqualI h.name name then h :: headersNamed header name
      else headersNamed header name := filter_cons

theorem foldl_appendValue_more (name : Bytes) (header : List Header) (buf : Strbuf)
    {count : Nat} (more : count > 0) :
    (header.foldl (appendValue name) (buf, count)).1.text =
        buf.text ++ ((headersNamed header name).map (·.value)).flatMap (fun w => ascii ", " ++ w) ∧
      (buf.size ≠ 0 → (header.foldl (appendValue name) (buf, count)).1.size ≠ 0) := by
  induction header generalizing buf count with
  | nil => exact ⟨(append_nil _).symm, id⟩
  | cons h header ih =>
    rw [foldl_cons, appendValue, headersNamed_cons]
    by_cases named : strEqualI h.name name = true
    · rw [if_pos named, if_pos named]
      dsimp only
      rw [if_pos more]
      obtain ⟨text, size⟩ := ih ((buf.append (ascii ", ")).append h.value) (Nat.succ_pos count)
      refine ⟨?_, fun _ => size (Strbuf.size_append _ _)⟩
      rw [text]
      simp
    · rw [if_neg named, if_neg named]
      exact ih buf more

/-- `http_header_get` on a list: nothing is allocated if no field has the name. -/
theorem foldl_appendValue (name : Bytes) (header : List Header) :
    let buf := (header.foldl (appendValue name) (Strbuf.null, 0)).1
    match (headersNamed header name).map (·.value) with
    | [] => buf.size = 0
    | v :: vs => buf.size ≠ 0 ∧ buf.text = combined (v :: vs) := by
  induction header with
  | nil => rfl
  | cons h header ih =>
    dsimp only
    rw [foldl_cons, appendValue, headersNamed_cons]
    by_cases named : strEqualI h.name name = true
    · rw [if_pos named, if_pos named]
      dsimp only
      rw [if_neg (Nat.lt_irrefl 0)]
      obtain ⟨text, size⟩ :=
        foldl_appendValue_more name header (Strbuf.null.append h.value) (Nat.succ_pos 0)
      exact ⟨size (Strbuf.size_append _ _), text⟩
    · rw [if_neg named, if_neg named]
      exact ih

variable {m : Memory Header} {cells : List (Nat × Header)} {steps : Nat}

theorem httpHeaderGet_eq (chain : Chain m.node m.root cells) (enough : cells.length ≤ steps)
    (name : Bytes) :
    httpHeaderGet steps m name =
      match (headersNamed (contents cells) name).map (·.value) with
      | [] => some none
      | v :: vs => some (some (combined (v :: vs))) := by
  have buf := foldl_appendValue name (contents cells)
  rw [httpHeaderGet, chain.walk _ enough]
  generalize (contents cells).foldl (appendValue name) (Strbuf.null, 0) = result at buf ⊢
  obtain ⟨buffer, count⟩ := result
  dsimp only at buf
  show some (if buffer.size = 0 then none else some buffer.text) = _
  split at buf
  · rw [if_pos buf]
  · rw [if_neg buf.1, buf.2]

/-! ## Removing -/

/-- **The fields of all names are taken out.** -/
theorem foldlM_httpHeaderRemove (names : List Bytes) (chain : Chain m.node m.root cells)
    (enough : cells.length ≤ steps) :
    ∃ m' cells', names.foldlM (httpHeaderRemove steps) m = some m' ∧
      Chain m'.node m'.root cells' ∧ cells'.length ≤ steps ∧
      contents cells' = (contents cells).filter fun p => !names.any (strEqualI p.name) := by
  induction names generalizing m cells with
  | nil => exact ⟨m, cells, rfl, chain, enough, by simp⟩
  | cons name names ih =>
    obtain ⟨m₁, remove, chain₁⟩ :=
      remove_spec (fun p : Header => strEqualI p.name name) chain enough
    have enough₁ : (keep (fun p : Header => strEqualI p.name name) cells).length ≤ steps :=
      Nat.le_trans (length_filter_le _ _) enough
    obtain ⟨m', cells', run, chain', enough', left⟩ := ih chain₁ enough₁
    refine ⟨m', cells', ?_, chain', enough', ?_⟩
    · rw [foldlM_cons, httpHeaderRemove, remove]
      exact run
    · rw [left, contents_keep, filter_filter]
      congr 1
      funext p
      rw [any_cons, Bool.not_or, Bool.and_comm]

/-! ## The result -/

theorem reads_iff {header : List Header} {v : Bytes} {vs : List Bytes}
    (values : connectionValues header = v :: vs) :
    (∃ ts, TokenList (combined (v :: vs)) ts) ↔
      (∀ t ∈ connectionTokens header, IsToken t) ∧ SpacesInFront header := by
  rw [tokenList_iff _ (Nat.le_refl _), forall_splitCommas_combined fun e => listed_space]
  unfold SpacesInFront connectionTokens
  rw [values]
  simp only [listed_iff, mem_flatMap, elements, mem_map]
  constructor
  · intro all
    refine ⟨?_, fun _ w mem e part => (all w mem e part).2⟩
    rintro t ⟨w, mem, e, part, rfl⟩
    exact (all w mem e part).1
  · intro ⟨tokens, spelled⟩ w mem e part
    exact ⟨tokens _ ⟨w, mem, e, part, rfl⟩, spelled tokens w mem e part⟩

theorem removeAll_eq (chain : Chain m.node m.root cells) (enough : cells.length ≤ steps)
    {ts : List Bytes} (same : ts = connectionTokens (contents cells)) :
    ∃ m' cells', (do
      let header ← hopByHopHeaders.foldlM (httpHeaderRemove steps) m
      let header ← ts.foldlM (httpHeaderRemove steps) header
      return (0, header)) = some (0, m') ∧
      Chain m'.node m'.root cells' ∧ contents cells' = endToEnd (contents cells) := by
  obtain ⟨m', cells', run, chain', -, left⟩ :=
    foldlM_httpHeaderRemove (hopByHopHeaders ++ ts) chain enough
  rw [foldlM_append] at run
  obtain ⟨m₁, first, second⟩ := Option.bind_eq_some_iff.mp run
  refine ⟨m', cells', ?_, chain', by rw [left, same]; rfl⟩
  rw [first]
  show (ts.foldlM (httpHeaderRemove steps) m₁ >>= _) = _
  rw [second]
  rfl

/-- A list of tokens that is spelled with spaces in front only is filtered. -/
theorem httpHeaderRemoveHopByHop_filters (chain : Chain m.node m.root cells)
    (enough : cells.length ≤ steps)
    (tokens : ∀ t ∈ connectionTokens (contents cells), IsToken t)
    (spelled : SpacesInFront (contents cells)) :
    ∃ m' cells', httpHeaderRemoveHopByHop steps m = some (0, m') ∧
      Chain m'.node m'.root cells' ∧ contents cells' = endToEnd (contents cells) := by
  have get := httpHeaderGet_eq chain enough (ascii "Connection")
  rw [httpHeaderRemoveHopByHop, get]
  cases values : connectionValues (contents cells) with
  | nil =>
    have none_ : [] = connectionTokens (contents cells) := by
      rw [connectionTokens, values]
      rfl
    rw [connectionValues] at values
    rw [values]
    exact removeAll_eq chain enough none_
  | cons v vs =>
    obtain ⟨ts, list⟩ := (reads_iff values).mpr ⟨tokens, spelled⟩
    have same : ts = connectionTokens (contents cells) := by
      rw [connectionTokens, values, ← elements_combined, list.elements]
    rw [connectionValues] at values
    rw [values]
    dsimp only [Option.bind_eq_bind, Option.bind_some]
    rw [readTokenList_iff.mpr list]
    exact removeAll_eq chain enough same

/-- Anything else is refused. -/
theorem httpHeaderRemoveHopByHop_refuses (chain : Chain m.node m.root cells)
    (enough : cells.length ≤ steps)
    (other : ¬ ((∀ t ∈ connectionTokens (contents cells), IsToken t) ∧
      SpacesInFront (contents cells))) :
    httpHeaderRemoveHopByHop steps m = some (400, m) := by
  have get := httpHeaderGet_eq chain enough (ascii "Connection")
  rw [httpHeaderRemoveHopByHop, get]
  cases values : connectionValues (contents cells) with
  | nil =>
    refine absurd ⟨?_, ?_⟩ other
    · rw [connectionTokens, values]
      exact nofun
    · rw [SpacesInFront, values]
      exact fun _ => nofun
  | cons v vs =>
    have unread : ∀ ts, readTokenList (combined (v :: vs)) ≠ some (ts, []) := by
      intro ts read
      exact other ((reads_iff values).mp ⟨ts, readTokenList_iff.mp read⟩)
    rw [connectionValues] at values
    rw [values]
    dsimp only [Option.bind_eq_bind, Option.bind_some]
    split
    · rfl
    · rfl
    · next ts read => exact absurd read (unread ts)

/-- **The header is filtered as it should be, if a list of tokens in its Connection fields has
white space in front of tokens only, and no tabs.** -/
theorem httpHeaderRemoveHopByHop_iff (chain : Chain m.node m.root cells)
    (enough : cells.length ≤ steps) :
    (∃ code m' cells', httpHeaderRemoveHopByHop steps m = some (code, m') ∧
      Chain m'.node m'.root cells' ∧ Filtered (contents cells) code (contents cells')) ↔
      SpacesInFront (contents cells) := by
  by_cases reads : (∀ t ∈ connectionTokens (contents cells), IsToken t) ∧
      SpacesInFront (contents cells)
  · obtain ⟨m', cells', run, chain', left⟩ :=
      httpHeaderRemoveHopByHop_filters chain enough reads.1 reads.2
    refine iff_of_true ⟨0, m', cells', run, chain', ?_⟩ reads.2
    exact ⟨iff_of_true rfl reads.1, fun _ => left, nofun, .inl rfl⟩
  · have run := httpHeaderRemoveHopByHop_refuses chain enough reads
    constructor
    · intro ⟨code, m', cells', run', _, filtered⟩ tokens
      rw [run] at run'
      cases run'
      cases filtered.accepted.mpr tokens
    · intro spelled
      have refused : ¬ ∀ t ∈ connectionTokens (contents cells), IsToken t :=
        fun tokens => reads ⟨tokens, spelled⟩
      exact ⟨400, m, cells, run, chain, iff_of_false nofun refused, nofun, fun _ => rfl, .inr rfl⟩

def oneField (h : Header) : Memory Header :=
  ⟨some 0, fun a => if a = 0 then some ⟨h, none⟩ else none⟩

theorem chain_oneField (h : Header) :
    Chain (oneField h).node (oneField h).root [(0, h)] := .cons rfl .nil

/-- Two tokens with a space behind the comma -/
theorem httpHeaderRemoveHopByHop_close :
    ∃ code m' cells', httpHeaderRemoveHopByHop 1
        (oneField ⟨ascii "Connection", ascii "close, X-A"⟩) = some (code, m') ∧
      Chain m'.node m'.root cells' ∧
        Filtered [⟨ascii "Connection", ascii "close, X-A"⟩] code (contents cells') := by
  refine (httpHeaderRemoveHopByHop_iff (chain_oneField _) (Nat.le_refl 1)).mpr ?_
  intro _
  show ∀ v ∈ connectionValues [⟨ascii "Connection", ascii "close, X-A"⟩], _
  decide

/-- With a space in front of the comma the same two tokens are refused. -/
theorem httpHeaderRemoveHopByHop_space :
    httpHeaderRemoveHopByHop 1 (oneField ⟨ascii "Connection", ascii "close , X-A"⟩) =
        some (400, oneField ⟨ascii "Connection", ascii "close , X-A"⟩) ∧
      connectionTokens [⟨ascii "Connection", ascii "close , X-A"⟩] =
        [ascii "close", ascii "X-A"] ∧
      ∀ t ∈ [ascii "close", ascii "X-A"], IsToken t := by
  have tokens : connectionTokens [⟨ascii "Connection", ascii "close , X-A"⟩] =
      [ascii "close", ascii "X-A"] := by decide
  have isTokens : ∀ t ∈ [ascii "close", ascii "X-A"], IsToken t := by
    intro t mem
    rcases mem_pair.mp mem with rfl | rfl
    · exact .of_all (by decide)
    · exact .of_all (by decide)
  refine ⟨httpHeaderRemoveHopByHop_refuses (chain_oneField _) (Nat.le_refl 1) ?_, tokens, isTokens⟩
  intro ⟨_, spelled⟩
  have all : ∀ t ∈ connectionTokens [⟨ascii "Connection", ascii "close , X-A"⟩], IsToken t := by
    rw [tokens]
    exact isTokens
  have value : ascii "close , X-A" ∈
      connectionValues [⟨ascii "Connection", ascii "close , X-A"⟩] := by decide
  have element : ascii "close " ∈ splitCommas (ascii "close , X-A") := by decide
  exact (spelled all _ value _ element).2 (by decide)

end Nmap.Ncat
