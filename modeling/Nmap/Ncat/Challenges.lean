import Mathlib.Data.List.Induction
import Mathlib.Data.List.TakeWhile
import Nmap.Ncat.DigestLogin

/-!
# Challenges as they are written (`http.c`)

A list of challenges as a proxy writes it, and what is read of it. Commas stand both between
parameters and between challenges; a token without an equals sign begins the next challenge.
Everything is read as it was written, except that the list in a `qop` may have spaces only where
`read_token_list` skips them (`proxyChallenge_iff`).
-/

namespace Nmap.Ncat

open Nmap.Base List Option

/-! ## What is written -/

def spaces (n : Nat) : Bytes := List.replicate n space

/-- A character inside a quoted string: as it is, or behind a backslash -/
structure QuotedChar where
  escaped : Bool
  c : UInt8
  valid : if escaped then c ≠ 0 ∧ c < 128
    else c ≠ quote ∧ c ≠ backslash ∧ (isCtlChar c = false ∨ isSpaceChar c = true)

def QuotedChar.text (q : QuotedChar) : Bytes := if q.escaped then [backslash, q.c] else [q.c]

/-- A value of a parameter: a token, or a quoted string -/
inductive Value
  | token (t : Bytes) (isToken : IsToken t)
  | quoted (cs : List QuotedChar)

def Value.bytes : Value → Bytes
  | .token t _ => t
  | .quoted cs => cs.map (·.c)

def Value.text : Value → Bytes
  | .token t _ => t
  | .quoted cs => quote :: cs.flatMap (·.text) ++ [quote]

/-- A comma, with spaces in front of it and behind -/
structure Separator where
  before : Nat
  behind : Nat

def Separator.text (s : Separator) : Bytes := spaces s.before ++ comma :: spaces s.behind

/-- A separator and what follows, if anything does -/
def Separator.follow (s : Separator) (rest : Bytes) : Bytes :=
  if rest = [] then [] else s.text ++ rest

/-- A parameter, with spaces around its equals sign, and the separator for what follows -/
structure AuthParam where
  name : Bytes
  isToken : IsToken name
  before : Nat
  behind : Nat
  value : Value
  separator : Separator

def AuthParam.text (p : AuthParam) : Bytes :=
  p.name ++ spaces p.before ++ equals :: spaces p.behind ++ p.value.text

/-- Parameters, and the text of what follows them -/
def paramsText : List AuthParam → Bytes → Bytes
  | [], rest => rest
  | p :: ps, rest => p.text ++ p.separator.follow (paramsText ps rest)

/-- A challenge: a scheme, with at least one space before the parameters, and no parameter twice.
Without parameters the separator stands behind the scheme. -/
structure WrittenChallenge where
  scheme : Bytes
  isToken : IsToken scheme
  gap : Nat
  params : List AuthParam
  distinct : (params.map fun p => p.name.map toLower).Nodup
  separator : Separator

/-- A challenge, and the text of what follows it -/
def WrittenChallenge.text (c : WrittenChallenge) (rest : Bytes) : Bytes :=
  match c.params with
  | [] => c.scheme ++ c.separator.follow rest
  | ps => c.scheme ++ spaces (c.gap + 1) ++ paramsText ps rest

def valueText : List WrittenChallenge → Bytes
  | [] => []
  | c :: cs => c.text (valueText cs)

/-! ## What it means -/

/-- The value of the parameter with this name -/
def given (params : List AuthParam) (name : Bytes) : Option Bytes :=
  (params.find? fun p => strEqualI p.name name).map (·.value.bytes)

def splitCommas : Bytes → List Bytes
  | [] => [[]]
  | c :: s =>
    if c = comma then [] :: splitCommas s
    else
      match splitCommas s with
      | [] => [[c]]
      | e :: es => (c :: e) :: es

/-- The elements of a list, without the spaces around them -/
def elements (s : Bytes) : List Bytes :=
  (splitCommas s).map fun e => (skipSpaces (skipSpaces e).reverse).reverse

/-- Is this one of the elements of the `qop` that is given? -/
def qopGiven (params : List AuthParam) (qop : Bytes) : Bool :=
  ((given params (ascii "qop")).map elements).any fun es => es.any (strEqualI · qop)

/-- What a scheme with parameters says; only Digest has more than a realm. -/
def meaning (scheme : AuthScheme) (params : List AuthParam) : Challenge :=
  let c := { Challenge.init with scheme := scheme, realm := given params (ascii "realm") }
  if scheme = .digest then
    { c with
      nonce := given params (ascii "nonce")
      opaqueData := given params (ascii "opaque")
      algorithm := ((given params (ascii "algorithm")).map algorithmOf).getD .md5
      qopAuth := qopGiven params (ascii "auth")
      qopAuthInt := qopGiven params (ascii "auth-int") }
  else c

def WrittenChallenge.meaning (c : WrittenChallenge) : Challenge :=
  Ncat.meaning (schemeOf c.scheme) c.params

/-- The first Digest challenge, or else the first Basic one -/
def preferred (cs : List Challenge) : Challenge :=
  ((cs.find? (·.scheme = .digest)).or (cs.find? (·.scheme = .basic))).getD .init

/-- Tokens with commas between them, and spaces only in front of a token -/
inductive TokenList : Bytes → List Bytes → Prop
  | last (n : Nat) {t : Bytes} : IsToken t → TokenList (spaces n ++ t) [t]
  | more (n : Nat) {t s : Bytes} {ts : List Bytes} : IsToken t → TokenList s ts →
      TokenList (spaces n ++ t ++ comma :: s) (t :: ts)

/-- The `qop` of a Digest challenge is a list that is spelled so. -/
def WrittenChallenge.QopSpelled (c : WrittenChallenge) : Prop :=
  schemeOf c.scheme = .digest → ∀ v, given c.params (ascii "qop") = some v →
    ∃ ts, TokenList v ts

/-! ## Spaces, tokens and quoted strings -/

theorem skipSpaces_spaces (n : Nat) (s : Bytes) : skipSpaces (spaces n ++ s) = skipSpaces s := by
  induction n with
  | zero => rfl
  | succ n ih =>
    rw [spaces, replicate_succ, cons_append]
    exact ih

variable {s : Bytes}

theorem skipSpaces_of_head (head : ∀ c ∈ s.head?, isSpaceChar c = false) :
    skipSpaces s = s := by
  cases s with
  | nil => rfl
  | cons c s =>
    have no := head c rfl
    simp [skipSpaces, no]

theorem isTokenChar_not {c : UInt8} (token : isTokenChar c = true) :
    isSpaceChar c = false ∧ c ≠ equals ∧ c ≠ comma ∧ c ≠ quote := by
  have other : ∀ d, isTokenChar d = false → c ≠ d := by
    rintro d no rfl
    rw [no] at token
    cases token
  have tab := other 0x09 (by decide)
  have blank := isTokenChar_ne_space token
  exact ⟨by simp [isSpaceChar, blank, tab], other _ (by decide), other _ (by decide),
    other _ (by decide)⟩

/-- A text that begins with a token, or is empty -/
def TokenFirst (s : Bytes) : Prop := ∀ c ∈ s.head?, isTokenChar c = true

/-- A text that does not go on with a token -/
def Stops (s : Bytes) : Prop := ∀ c ∈ s.head?, isTokenChar c = false

theorem TokenFirst.skipSpaces {s : Bytes} (first : TokenFirst s) : skipSpaces s = s :=
  skipSpaces_of_head fun c head => (isTokenChar_not (first c head)).1

theorem stops_spaces (stops : Stops s) (n : Nat) : Stops (spaces n ++ s) := by
  cases n with
  | zero => exact stops
  | succ n =>
    intro c head
    cases head
    rfl

theorem Separator.stops (sep : Separator) (rest : Bytes) : Stops (sep.follow rest) := by
  unfold Separator.follow
  split
  · nofun
  · rw [Separator.text, append_assoc]
    apply stops_spaces
    intro c head
    cases head
    rfl

variable {rest : Bytes}

theorem Separator.skip_follow (sep : Separator) (first : TokenFirst rest) :
    skipSpaces (sep.follow rest) = [] ∧ rest = [] ∨
      ∃ s, skipSpaces (sep.follow rest) = comma :: s ∧ skipSpaces s = rest ∧ rest ≠ [] := by
  unfold Separator.follow
  split
  · next none_ => exact .inl ⟨rfl, none_⟩
  · next some_ =>
      refine .inr ⟨spaces sep.behind ++ rest, ?_, ?_, some_⟩
      · rw [Separator.text, append_assoc, skipSpaces_spaces]
        rfl
      · rw [skipSpaces_spaces, first.skipSpaces]

/-- A quoted string is read as it was written. -/
theorem quotedBody_text (cs : List QuotedChar) (buf rest : Bytes) :
    quotedBody buf (cs.flatMap (·.text) ++ quote :: rest) =
      some (buf ++ cs.map (·.c), rest) := by
  induction cs generalizing buf with
  | nil =>
    rw [flatMap_nil, nil_append, quotedBody.eq_def]
    simp
  | cons q cs ih =>
    have valid := q.valid
    rw [flatMap_cons, append_assoc, QuotedChar.text]
    cases escaped : q.escaped with
    | true =>
      rw [escaped, if_pos rfl] at valid
      have big : ¬ q.c ≥ 128 := by
        rw [ge_iff_le, UInt8.not_le]
        exact valid.2
      rw [if_pos rfl, cons_append, quotedBody.eq_def]
      simp only
      rw [if_neg (by decide), if_pos trivial]
      simp only [cons_append, nil_append]
      rw [if_neg (by simp [valid.1, big]), ih]
      simp
    | false =>
      rw [escaped, if_neg (by simp)] at valid
      obtain ⟨plain, notSlash, text⟩ := valid
      have kept : ¬ (isCtlChar q.c && !isSpaceChar q.c) = true := by
        rcases text with no | yes
        · simp [no]
        · simp [yes]
      rw [if_neg (by simp), cons_append, quotedBody.eq_def]
      simp only
      rw [if_neg plain, if_neg notSlash, if_neg kept, nil_append, ih]
      simp

theorem readTokenOrQuotedString_text (v : Value) (stops : Stops rest) :
    readTokenOrQuotedString (skipSpaces (v.text ++ rest)) = some (v.bytes, rest) := by
  cases v with
  | token t isToken =>
    obtain ⟨c, t, rfl⟩ := exists_cons_of_ne_nil isToken.1
    have first : TokenFirst (c :: t ++ rest) := by
      rintro d ⟨⟩
      exact isToken.2 c mem_cons_self
    have other := isTokenChar_not (isToken.2 c mem_cons_self)
    show readTokenOrQuotedString (skipSpaces (c :: t ++ rest)) = some (c :: t, rest)
    rw [first.skipSpaces, readTokenOrQuotedString, first.skipSpaces]
    simp only [cons_append]
    rw [if_neg other.2.2.2]
    exact readToken_eq isToken stops
  | quoted cs =>
    have text : (Value.quoted cs).text ++ rest =
        quote :: (cs.flatMap (·.text) ++ quote :: rest) := by
      show quote :: cs.flatMap (·.text) ++ [quote] ++ rest = _
      simp
    rw [text]
    exact quotedBody_text cs [] rest

/-! ## Parameters -/

theorem readParam_text (p : AuthParam) (stops : Stops rest) :
    readParam (p.text ++ rest) = .param p.name p.value.bytes rest := by
  have text : p.text ++ rest =
      p.name ++ (spaces p.before ++ equals :: (spaces p.behind ++ (p.value.text ++ rest))) := by
    simp [AuthParam.text]
  have stop : Stops (spaces p.before ++ equals :: (spaces p.behind ++ (p.value.text ++ rest))) := by
    apply stops_spaces
    rintro c ⟨⟩
    rfl
  have front : skipSpaces (equals :: (spaces p.behind ++ (p.value.text ++ rest))) =
      equals :: (spaces p.behind ++ (p.value.text ++ rest)) := rfl
  rw [text, readParam, readToken_eq p.isToken stop]
  simp only
  rw [skipSpaces_spaces, front]
  simp only
  rw [if_pos trivial, skipSpaces_spaces, readTokenOrQuotedString_text p.value stops]

theorem afterParam_follow (sep : Separator) (first : TokenFirst rest) :
    afterParam (sep.follow rest) = some rest := by
  unfold afterParam
  rcases sep.skip_follow first with ⟨skipped, none_⟩ | ⟨s, skipped, behind, some_⟩
  · rw [skipped, none_]
  · rw [skipped]
    simp only
    rw [if_pos trivial, behind, if_neg some_]

theorem AuthParam.text_ne_nil (p : AuthParam) (rest : Bytes) : p.text ++ rest ≠ [] := by
  simp [AuthParam.text]

theorem paramsText_first (first : TokenFirst rest) :
    ∀ ps : List AuthParam, TokenFirst (paramsText ps rest) := by
  intro ps
  cases ps with
  | nil => exact first
  | cons p ps =>
    obtain ⟨c, name, eq⟩ := exists_cons_of_ne_nil p.isToken.1
    intro d head
    simp only [paramsText, AuthParam.text, eq, cons_append, List.head?_cons,
      mem_some_iff] at head
    subst head
    apply p.isToken.2
    rw [eq]
    exact mem_cons_self

/-- What may follow a challenge: nothing, or a token with no equals sign behind it -/
structure Follows (rest : Bytes) : Prop where
  first : TokenFirst rest
  noEquals : rest ≠ [] → readParam rest = .noEquals

/-- What the loop does with all parameters -/
def setAll (c : Challenge) (ps : List AuthParam) : Option Challenge :=
  ps.foldlM (fun c p => c.set p.name p.value.bytes) c

/-- The loop reads the parameters up to what follows them. -/
theorem challengeParams_text (follows : Follows rest) :
    ∀ (ps : List AuthParam) (c : Challenge),
      challengeParams (paramsText ps rest) c = (setAll c ps).map fun c => (c, rest) := by
  intro ps
  induction ps with
  | nil =>
    intro c
    show challengeParams rest c = some (c, rest)
    rw [challengeParams]
    split
    · next none_ => rw [none_]
    · next some_ =>
        have read := follows.noEquals some_
        split
        · next bad => rw [read] at bad; cases bad
        · rfl
        · next param => rw [read] at param; cases param
  | cons p ps ih =>
    intro c
    rw [paramsText, challengeParams_param c (readParam_text p (p.separator.stops _)),
      afterParam_follow _ (paramsText_first follows.first ps)]
    show ((c.set p.name p.value.bytes).bind fun c => challengeParams (paramsText ps rest) c) =
      ((c.set p.name p.value.bytes).bind fun c => setAll c ps).map fun c => (c, rest)
    cases c.set p.name p.value.bytes with
    | none => rfl
    | some d => exact ih d

/-! ## Challenges -/

theorem WrittenChallenge.follows (c : WrittenChallenge) {rest : Bytes} (follows : Follows rest) :
    Follows (c.text rest) := by
  obtain ⟨d, scheme, eq⟩ := exists_cons_of_ne_nil c.isToken.1
  have first : ∀ t, TokenFirst (c.scheme ++ t) := by
    intro t e head
    rw [eq] at head
    cases head
    apply c.isToken.2
    rw [eq]
    exact mem_cons_self
  have read : ∀ t, Stops t → (∀ e ∈ (skipSpaces t).head?, e ≠ equals) →
      readParam (c.scheme ++ t) = .noEquals := by
    intro t stops no
    rw [readParam, readToken_eq c.isToken stops]
    simp only
    cases skipped : skipSpaces t with
    | nil => rfl
    | cons e t =>
      rw [skipped] at no
      simp only
      rw [if_neg (no e rfl)]
  unfold WrittenChallenge.text
  split
  · refine ⟨first _, fun _ => read _ (c.separator.stops rest) ?_⟩
    intro e head
    rcases c.separator.skip_follow follows.first with ⟨skipped, -⟩ | ⟨s, skipped, -, -⟩
    · rw [skipped] at head
      cases head
    · rw [skipped] at head
      cases head
      decide
  · next ps _ =>
      rw [append_assoc]
      have params := paramsText_first follows.first c.params
      refine ⟨first _, fun _ => read _ ?_ ?_⟩
      · intro e head
        cases head
        rfl
      · intro e head
        rw [skipSpaces_spaces, params.skipSpaces] at head
        exact (isTokenChar_not (params e head)).2.1

/-- What `http_read_challenge` makes of the parameters -/
def WrittenChallenge.read (c : WrittenChallenge) : Option Challenge :=
  setAll { Challenge.init with scheme := schemeOf c.scheme } c.params

/-- A challenge is read up to what follows it. -/
theorem httpReadChallenge_text (c : WrittenChallenge) (follows : Follows rest) :
    httpReadChallenge (c.text rest) = c.read.map fun d => (d, rest) := by
  unfold WrittenChallenge.text WrittenChallenge.read httpReadChallenge
  cases params : c.params with
  | nil =>
    simp only
    rw [readToken_eq c.isToken (c.separator.stops rest)]
    simp only
    rcases c.separator.skip_follow follows.first with
      ⟨skipped, none_⟩ | ⟨s, skipped, behind, some_⟩
    · rw [skipped, none_]
      rfl
    · rw [skipped]
      simp only
      rw [if_pos trivial, behind, if_neg some_]
      rfl
  | cons p ps =>
    have first := paramsText_first follows.first (p :: ps)
    have stops : Stops (spaces (c.gap + 1) ++ paramsText (p :: ps) rest) := by
      rintro e ⟨⟩
      rfl
    simp only
    rw [append_assoc, readToken_eq c.isToken stops]
    simp only
    rw [skipSpaces_spaces, first.skipSpaces]
    have run := challengeParams_text follows (p :: ps)
      { Challenge.init with scheme := schemeOf c.scheme }
    have some_ : paramsText (p :: ps) rest ≠ [] := p.text_ne_nil _
    obtain ⟨e, s, eq⟩ := exists_cons_of_ne_nil some_
    rw [eq] at first run ⊢
    simp only
    rw [if_neg (isTokenChar_not (first e rfl)).2.2.1]
    exact run

theorem valueText_follows : ∀ cs : List WrittenChallenge, Follows (valueText cs) := by
  intro cs
  induction cs with
  | nil => exact ⟨nofun, fun some_ => absurd rfl some_⟩
  | cons c cs ih => exact c.follows ih

/-! ## What the parameters set -/

variable {name : Bytes}

theorem readToken_spaces (n : Nat) (token : IsToken name) (stops : Stops rest) : readToken
    (spaces n ++ name ++ rest) = some (name, rest) := by
  have same : readToken (spaces n ++ name ++ rest) = readToken (name ++ rest) := by
    induction n with
    | zero => rfl
    | succ n ih => exact ih
  rw [same, readToken_eq token stops]

variable {token : Bytes}

/-- What `read_token` reads stands behind spaces. -/
theorem readToken_some (read : readToken s = some (token, rest)) :
    ∃ n, s = spaces n ++ token ++ rest ∧ IsToken token ∧ Stops rest := by
  unfold readToken at read
  dsimp only at read
  split at read
  · cases read
  · next some_ =>
      cases read
      refine ⟨(s.takeWhile (· = space)).length, ?_, ⟨some_, ?_⟩, ?_⟩
      · have front : s.takeWhile (fun c => decide (c = space)) =
            spaces (s.takeWhile (fun c => decide (c = space))).length := by
          apply eq_replicate_of_mem
          intro c mem
          simpa using mem_takeWhile_imp mem
        rw [← front, append_assoc, takeWhile_append_dropWhile,
          takeWhile_append_dropWhile]
      · intro c mem
        exact mem_takeWhile_imp mem
      · intro c head
        have not := List.head?_dropWhile_not isTokenChar (s.dropWhile fun c => decide (c = space))
        rw [head] at not
        simpa using not

theorem readTokenList_none (read : readToken s = none) : readTokenList s = none := by
  rw [readTokenList]
  split
  · rfl
  · next yes =>
      rw [read] at yes
      cases yes

theorem readTokenList_last (read : readToken s = some (token, [])) :
    readTokenList s = some ([token], []) := by
  rw [readTokenList]
  split
  · next no =>
      rw [read] at no
      cases no
  · next yes =>
      cases read.symm.trans yes
      rfl

variable {t : Bytes}

theorem readTokenList_cons {c : UInt8} (read : readToken s = some (token, c :: t)) :
    readTokenList s = if c = comma then
      (readTokenList t).map fun (tokens, rest) => (token :: tokens, rest)
      else some ([token], c :: t) := by
  rw [readTokenList]
  split
  · next no =>
      rw [read] at no
      cases no
  · next yes =>
      cases read.symm.trans yes
      rfl

/-- **The lists that are read are spelled with spaces only in front of tokens.** -/
theorem readTokenList_iff {ts : List Bytes} :
    readTokenList s = some (ts, []) ↔ TokenList s ts := by
  constructor
  · induction s using readTokenList.induct generalizing ts with
    | case1 s no =>
      intro all
      rw [readTokenList_none no] at all
      cases all
    | case2 s token read =>
      intro all
      rw [readTokenList_last read] at all
      cases all
      obtain ⟨n, eq, isToken, -⟩ := readToken_some read
      rw [eq, append_nil]
      exact .last n isToken
    | case3 s token t read _ ih =>
      intro all
      rw [readTokenList_cons read, if_pos rfl] at all
      obtain ⟨⟨tokens, rest⟩, later, eq⟩ := map_eq_some_iff.mp all
      cases eq
      obtain ⟨n, eq, isToken, -⟩ := readToken_some read
      rw [eq]
      exact .more n isToken (ih later)
    | case4 s token c t read other =>
      intro all
      rw [readTokenList_cons read, if_neg other] at all
      cases all
  · intro list
    induction list with
    | last n token =>
      apply readTokenList_last
      have read := readToken_spaces n token (show Stops [] from nofun)
      rwa [append_nil] at read
    | @more n t s ts token rest ih =>
      have stops : Stops (comma :: s) := by
        rintro c ⟨⟩
        rfl
      rw [readTokenList_cons (readToken_spaces n token stops), if_pos rfl, ih]
      rfl

/-! ## The elements of a list -/

theorem splitCommas_single (none_ : comma ∉ t) : splitCommas t = [t] := by
  induction t with
  | nil => rfl
  | cons c t ih =>
    rw [mem_cons, not_or] at none_
    rw [splitCommas, if_neg (Ne.symm none_.1), ih none_.2]

theorem splitCommas_append (none_ : comma ∉ t) (s : Bytes) :
    splitCommas (t ++ comma :: s) = t :: splitCommas s := by
  induction t with
  | nil =>
    rw [nil_append, splitCommas, if_pos rfl]
  | cons c t ih =>
    rw [mem_cons, not_or] at none_
    rw [cons_append, splitCommas, if_neg (Ne.symm none_.1), ih none_.2]

theorem IsToken.no_comma (token : IsToken t) (n : Nat) : comma ∉ spaces n ++ t := by
  intro mem
  rcases mem_append.mp mem with blank | inside
  · exact absurd (eq_of_mem_replicate blank) (by decide)
  · exact (isTokenChar_not (token.2 _ inside)).2.2.1 rfl

theorem IsToken.strip (token : IsToken t) (n : Nat) :
    (skipSpaces (skipSpaces (spaces n ++ t)).reverse).reverse = t := by
  have first : TokenFirst t := fun c head => token.2 c (mem_of_mem_head? head)
  have last : TokenFirst t.reverse := by
    intro c head
    exact token.2 c (mem_reverse.mp (mem_of_mem_head? head))
  rw [skipSpaces_spaces, first.skipSpaces, last.skipSpaces, reverse_reverse]

theorem TokenList.elements {s : Bytes} {ts : List Bytes} (list : TokenList s ts) :
    elements s = ts := by
  unfold Ncat.elements
  induction list with
  | last n token => rw [splitCommas_single (token.no_comma n), map_singleton, token.strip]
  | more n token rest ih =>
    rw [splitCommas_append (token.no_comma n), map_cons, ih, token.strip]

/-! ## Parameters given once -/

/-- No parameter so far has the name of this one. -/
def Fresh (done : List AuthParam) (p : AuthParam) : Prop :=
  ∀ q ∈ done, q.name.map toLower ≠ p.name.map toLower

theorem strEqualI_iff {a b : Bytes} : strEqualI a b = true ↔ a.map toLower = b.map toLower := by
  rw [strEqualI, decide_eq_true_eq]

variable {done : List AuthParam} {p : AuthParam}

theorem given_fresh (fresh : Fresh done p) (same : strEqualI p.name name = true) : given done name =
    none := by
  rw [given, map_eq_none_iff, List.find?_eq_none]
  intro q mem equal
  rw [strEqualI_iff] at same equal
  exact fresh q mem (equal.trans same.symm)

theorem given_append (fresh : Fresh done p) (name : Bytes) : given (done ++ [p]) name =
      if strEqualI p.name name then some p.value.bytes else given done name := by
  rw [given, List.find?_append, List.find?_singleton]
  split
  · next same =>
      have none_ := given_fresh fresh same
      rw [given, map_eq_none_iff] at none_
      rw [none_]
      rfl
  · rw [or_none]
    rfl

theorem strEqualI_other {a b : Bytes} (same : strEqualI name a = true)
    (differ : strEqualI a b = false) : strEqualI name b = false := by
  unfold strEqualI at *
  simp only [decide_eq_true_eq, decide_eq_false_iff_not] at *
  rwa [same]

/-- A list in a `qop`, in so far as it matters, is spelled as `read_token_list` reads it. -/
def Spelled (scheme : AuthScheme) (p : AuthParam) : Prop :=
  scheme = .digest → strEqualI p.name (ascii "qop") = true → ∃ ts, TokenList p.value.bytes ts

theorem qopGiven_append (fresh : Fresh done p) (qop : Bytes) : qopGiven (done ++ [p]) qop =
      if strEqualI p.name (ascii "qop") then (elements p.value.bytes).any (strEqualI · qop)
      else qopGiven done qop := by
  unfold qopGiven
  rw [given_append fresh]
  split <;> rfl

/-- Which of five names a name is: at most one of them -/
theorem names_cases (name : Bytes) :
    let is := fun other : String => strEqualI name (ascii other)
    (is "realm" = true ∧ is "nonce" = false ∧ is "opaque" = false ∧ is "algorithm" = false ∧
        is "qop" = false) ∨
      (is "realm" = false ∧ is "nonce" = true ∧ is "opaque" = false ∧ is "algorithm" = false ∧
        is "qop" = false) ∨
      (is "realm" = false ∧ is "nonce" = false ∧ is "opaque" = true ∧ is "algorithm" = false ∧
        is "qop" = false) ∨
      (is "realm" = false ∧ is "nonce" = false ∧ is "opaque" = false ∧ is "algorithm" = true ∧
        is "qop" = false) ∨
      (is "realm" = false ∧ is "nonce" = false ∧ is "opaque" = false ∧ is "algorithm" = false) := by
  intro is
  have other : ∀ a b : String, is a = true → strEqualI (ascii a) (ascii b) = false → is b = false :=
    fun a b same differ => strEqualI_other same differ
  cases realm : is "realm" with
  | true =>
    exact .inl ⟨rfl, other _ _ realm (by decide), other _ _ realm (by decide),
      other _ _ realm (by decide), other _ _ realm (by decide)⟩
  | false =>
    cases nonce : is "nonce" with
    | true =>
      exact .inr (.inl ⟨rfl, rfl, other _ _ nonce (by decide), other _ _ nonce (by decide),
        other _ _ nonce (by decide)⟩)
    | false =>
      cases opaque_ : is "opaque" with
      | true =>
        exact .inr (.inr (.inl ⟨rfl, rfl, rfl, other _ _ opaque_ (by decide),
          other _ _ opaque_ (by decide)⟩))
      | false =>
        cases algorithm : is "algorithm" with
        | true =>
          exact .inr (.inr (.inr (.inl ⟨rfl, rfl, rfl, rfl,
            other _ _ algorithm (by decide)⟩)))
        | false => exact .inr (.inr (.inr (.inr ⟨rfl, rfl, rfl, rfl⟩)))

/-- Being `auth-int` excludes being `auth`. -/
theorem any_authInt (ts : List Bytes) :
    (ts.any fun t => !strEqualI t (ascii "auth") && strEqualI t (ascii "auth-int")) =
      ts.any (strEqualI · (ascii "auth-int")) := by
  congr 1
  funext t
  cases int : strEqualI t (ascii "auth-int") with
  | false => rw [Bool.and_false]
  | true => rw [strEqualI_other int (by decide)]; rfl

/-- **One parameter more.** A parameter with a new name adds just what it says. -/
theorem meaning_set {scheme : AuthScheme} (fresh : Fresh done p) (spelled : Spelled scheme p) :
    (meaning scheme done).set p.name p.value.bytes = some (meaning scheme (done ++ [p])) := by
  have value := given_append fresh
  have qop := qopGiven_append fresh
  have names := names_cases p.name
  dsimp only at names
  unfold Challenge.set
  by_cases digest : scheme = .digest
  · subst digest
    rcases names with ⟨realm, nonce, opaque_, algorithm, qop_⟩ |
      ⟨realm, nonce, opaque_, algorithm, qop_⟩ | ⟨realm, nonce, opaque_, algorithm, qop_⟩ |
      ⟨realm, nonce, opaque_, algorithm, qop_⟩ | ⟨realm, nonce, opaque_, algorithm⟩
    · simp [meaning, value, qop, realm, nonce, opaque_, algorithm, qop_]
    · have none_ := given_fresh fresh nonce
      simp [meaning, value, qop, realm, nonce, opaque_, algorithm, qop_, none_, setOnce]
    · have none_ := given_fresh fresh opaque_
      simp [meaning, value, qop, realm, nonce, opaque_, algorithm, qop_, none_, setOnce]
    · simp [meaning, value, qop, realm, nonce, opaque_, algorithm, qop_]
    · cases is : strEqualI p.name (ascii "qop") with
      | false => simp [meaning, value, qop, realm, nonce, opaque_, algorithm, is]
      | true =>
        obtain ⟨ts, list⟩ := spelled rfl is
        have read := readTokenList_iff.mpr list
        have none_ : ∀ q, qopGiven done q = false := by
          intro q
          rw [qopGiven, given_fresh fresh is]
          rfl
        simp [meaning, value, qop, realm, nonce, opaque_, algorithm, is, read, list.elements,
          none_, any_authInt]
  · cases is : strEqualI p.name (ascii "realm") with
    | false => simp [meaning, value, is, digest]
    | true => simp [meaning, value, is, digest]

/-! ## All parameters -/

theorem set_scheme {c d : Challenge} {value : Bytes} (set : c.set name value = some d) :
    d.scheme = c.scheme := by
  unfold Challenge.set at set
  split_ifs at set
  all_goals
    first
    | cases set
      rfl
    | obtain ⟨field, -, rfl⟩ := map_eq_some_iff.mp set
      rfl
    | split at set
      · cases set
      · split_ifs at set
        cases set
        rfl

theorem set_misspelled {c : Challenge} (other : ¬ Spelled c.scheme p) :
    c.set p.name p.value.bytes = none := by
  unfold Spelled at other
  rw [Classical.not_imp, Classical.not_imp] at other
  obtain ⟨digest, qop, none_⟩ := other
  have read : ∀ ts, readTokenList p.value.bytes ≠ some (ts, []) :=
    fun ts all => none_ ⟨ts, readTokenList_iff.mp all⟩
  unfold Challenge.set
  rcases names_cases p.name with ⟨-, -, -, -, no⟩ | ⟨-, -, -, -, no⟩ | ⟨-, -, -, -, no⟩ |
    ⟨-, -, -, -, no⟩ | ⟨realm, nonce, opaque_, algorithm⟩
  iterate 4 exact absurd (qop.symm.trans no) nofun
  dsimp only at realm nonce opaque_ algorithm
  simp only [realm, nonce, opaque_, algorithm, digest, qop, Bool.false_eq_true, if_false,
    ne_eq, not_true_eq_false, if_true]
  split
  · rfl
  · next tokens rest eq =>
      rw [if_pos]
      rintro rfl
      exact read tokens eq

/-- No two parameters have the same name. -/
def Distinct (ps : List AuthParam) : Prop := (ps.map fun p => p.name.map toLower).Nodup

theorem Distinct.fresh {ps : List AuthParam} (distinct : Distinct (done ++ p :: ps)) :
    Fresh done p := by
  intro q mem same
  rw [Distinct, map_append, map_cons, nodup_append] at distinct
  exact distinct.2.2 _ (mem_map_of_mem mem) _ mem_cons_self same

theorem setAll_spelled (scheme : AuthScheme) : ∀ (ps done : List AuthParam),
    Distinct (done ++ ps) → (∀ p ∈ ps, Spelled scheme p) →
      setAll (meaning scheme done) ps = some (meaning scheme (done ++ ps)) := by
  intro ps
  induction ps with
  | nil =>
    intro done _ _
    rw [append_nil]
    rfl
  | cons p ps ih =>
    intro done distinct spelled
    have set := meaning_set distinct.fresh (spelled p mem_cons_self)
    show ((meaning scheme done).set p.name p.value.bytes).bind (setAll · ps) = _
    rw [set, bind_some, ih (done ++ [p])]
    · rw [append_assoc]
      rfl
    · rw [append_assoc]
      exact distinct
    · exact fun q mem => spelled q (mem_cons_of_mem _ mem)

theorem setAll_misspelled : ∀ (ps : List AuthParam) (c : Challenge),
    (∃ p ∈ ps, ¬ Spelled c.scheme p) → setAll c ps = none := by
  intro ps
  induction ps with
  | nil =>
    rintro c ⟨p, mem, -⟩
    cases mem
  | cons p ps ih =>
    rintro c ⟨q, mem, other⟩
    show (c.set p.name p.value.bytes).bind (setAll · ps) = none
    rcases mem_cons.mp mem with rfl | later
    · rw [set_misspelled other]
      rfl
    · cases set : c.set p.name p.value.bytes with
      | none => rfl
      | some d =>
        rw [bind_some]
        refine ih d ⟨q, later, ?_⟩
        rwa [set_scheme set]

theorem meaning_nil (scheme : AuthScheme) :
    meaning scheme [] = { Challenge.init with scheme := scheme } := by
  unfold meaning
  split <;> rfl

/-- A value that is given is that of a parameter. -/
theorem given_iff {ps : List AuthParam} (distinct : Distinct ps) {v : Bytes} :
    given ps name = some v ↔ ∃ p ∈ ps, strEqualI p.name name = true ∧ p.value.bytes = v := by
  induction ps using List.reverseRecOn with
  | nil => simp [given]
  | append_singleton ps p ih =>
    have front : Distinct ps := by
      rw [Distinct, map_append] at distinct
      exact (nodup_append.mp distinct).1
    rw [given_append distinct.fresh]
    simp only [mem_append, mem_singleton]
    split
    · next same =>
        constructor
        · intro eq
          exact ⟨p, .inr rfl, same, Option.some.inj eq⟩
        · rintro ⟨q, before | rfl, equal, value⟩
          · rw [strEqualI_iff] at same equal
            exact absurd (equal.trans same.symm) (distinct.fresh q before)
          · rw [value]
    · next other =>
        rw [ih front]
        constructor
        · rintro ⟨q, mem, equal, value⟩
          exact ⟨q, .inl mem, equal, value⟩
        · rintro ⟨q, before | rfl, equal, value⟩
          · exact ⟨q, before, equal, value⟩
          · exact absurd equal other

theorem WrittenChallenge.spelled_iff (c : WrittenChallenge) :
    c.QopSpelled ↔ ∀ p ∈ c.params, Spelled (schemeOf c.scheme) p := by
  constructor
  · intro spelled p mem digest qop
    exact spelled digest _ ((given_iff c.distinct).mpr ⟨p, mem, qop, rfl⟩)
  · intro spelled digest v value
    obtain ⟨p, mem, qop, rfl⟩ := (given_iff c.distinct).mp value
    exact spelled p mem digest qop

/-- **What is read of one challenge** -/
theorem WrittenChallenge.read_eq (c : WrittenChallenge) :
    (c.QopSpelled → c.read = some c.meaning) ∧ (¬ c.QopSpelled → c.read = none) := by
  rw [c.spelled_iff]
  unfold WrittenChallenge.read
  rw [← meaning_nil]
  constructor
  · intro spelled
    exact setAll_spelled _ c.params [] c.distinct spelled
  · intro other
    apply setAll_misspelled
    have scheme : (Ncat.meaning (schemeOf c.scheme) []).scheme = schemeOf c.scheme := by
      rw [meaning_nil]
    rw [scheme]
    simpa using other

/-! ## The best challenge -/

/-- What stays of the best challenge so far and the next one -/
def better (best c : Challenge) : Challenge :=
  if authSchemeIsBetter c.scheme best.scheme then c else best

theorem foldl_better (cs : List Challenge) (best : Challenge) :
    cs.foldl better best =
      if best.scheme = .digest then best
      else (cs.find? (·.scheme = .digest)).getD
        (if best.scheme = .basic then best else (cs.find? (·.scheme = .basic)).getD best) := by
  induction cs generalizing best with
  | nil => simp
  | cons c cs ih =>
    rw [foldl_cons, ih, better]
    cases old : best.scheme <;> cases new : c.scheme <;>
      simp [authSchemeIsBetter, old, new]

theorem foldl_better_init (cs : List Challenge) : cs.foldl better .init = preferred cs := by
  rw [foldl_better, preferred]
  cases cs.find? (·.scheme = .digest) <;> simp [Challenge.init]

theorem challengesIn_cons (c : WrittenChallenge) (cs : List WrittenChallenge) (best : Challenge) :
    challengesIn (valueText (c :: cs)) best =
      c.read.bind fun d => challengesIn (valueText cs) (better best d) := by
  have read := httpReadChallenge_text c (valueText_follows cs)
  have some_ : c.text (valueText cs) ≠ [] := by
    have token := c.isToken.1
    unfold WrittenChallenge.text
    split <;> simp [token]
  change challengesIn (c.text (valueText cs)) best = _
  rw [challengesIn, if_neg some_]
  split
  · next no =>
      rw [read, map_eq_none_iff] at no
      rw [no]
      rfl
  · next d s yes =>
      rw [read] at yes
      obtain ⟨e, is, eq⟩ := map_eq_some_iff.mp yes
      cases eq
      rw [is]
      rfl

theorem challengesIn_spelled : ∀ (cs : List WrittenChallenge) (best : Challenge),
    (∀ c ∈ cs, c.QopSpelled) →
      challengesIn (valueText cs) best = some ((cs.map (·.meaning)).foldl better best) := by
  intro cs
  induction cs with
  | nil =>
    intro best _
    rw [valueText, challengesIn, if_pos rfl]
    rfl
  | cons c cs ih =>
    intro best spelled
    rw [challengesIn_cons, c.read_eq.1 (spelled c mem_cons_self), bind_some,
      ih _ fun d mem => spelled d (mem_cons_of_mem _ mem)]
    rfl

theorem challengesIn_misspelled : ∀ (cs : List WrittenChallenge) (best : Challenge),
    (∃ c ∈ cs, ¬ c.QopSpelled) → challengesIn (valueText cs) best = none := by
  intro cs
  induction cs with
  | nil =>
    rintro best ⟨c, mem, -⟩
    cases mem
  | cons c cs ih =>
    rintro best ⟨d, mem, other⟩
    rw [challengesIn_cons]
    rcases mem_cons.mp mem with rfl | later
    · rw [d.read_eq.2 other]
      rfl
    · cases c.read with
      | none => rfl
      | some e => exact ih _ ⟨d, later, other⟩

/-- The fields of a header that say these challenges, field by field -/
def Says (header : List Header) (fields : List (List WrittenChallenge)) : Prop :=
  (headersNamed header (ascii "Proxy-Authenticate")).map (·.value) = fields.map valueText

theorem proxyChallenge_fields {header : List Header} {fields : List (List WrittenChallenge)}
    (written : Says header fields) : httpHeaderGetProxyChallenge header =
      fields.foldlM (fun best cs => challengesIn (valueText cs) best) .init := by
  have values : ∀ (hs : List Header) (best : Challenge),
      hs.foldlM (fun best h => challengesIn h.value best) best =
        (hs.map (·.value)).foldlM (fun best v => challengesIn v best) best := by
    intro hs
    induction hs with
    | nil =>
      intro best
      rfl
    | cons h hs ih =>
      intro best
      rw [map_cons, foldlM_cons, foldlM_cons]
      congr 1
      funext next
      exact ih next
  rw [httpHeaderGetProxyChallenge, values, written, foldlM_map]

theorem fields_spelled : ∀ (fields : List (List WrittenChallenge)) (best : Challenge),
    (∀ c ∈ fields.flatten, c.QopSpelled) →
      fields.foldlM (fun best cs => challengesIn (valueText cs) best) best =
        some ((fields.flatten.map (·.meaning)).foldl better best) := by
  intro fields
  induction fields with
  | nil =>
    intro best _
    rfl
  | cons cs fields ih =>
    intro best spelled
    rw [flatten_cons] at spelled ⊢
    rw [foldlM_cons, challengesIn_spelled cs best fun c mem =>
      spelled c (mem_append_left _ mem), map_append, foldl_append]
    exact ih _ fun c mem => spelled c (mem_append_right _ mem)

theorem fields_misspelled : ∀ (fields : List (List WrittenChallenge)) (best : Challenge),
    (∃ c ∈ fields.flatten, ¬ c.QopSpelled) →
      fields.foldlM (fun best cs => challengesIn (valueText cs) best) best = none := by
  intro fields
  induction fields with
  | nil =>
    rintro best ⟨c, mem, -⟩
    cases mem
  | cons cs fields ih =>
    rintro best ⟨c, mem, other⟩
    rw [foldlM_cons]
    by_cases here : ∃ c ∈ cs, ¬ c.QopSpelled
    · rw [challengesIn_misspelled cs best here]
      rfl
    · cases challengesIn (valueText cs) best with
      | none => rfl
      | some next =>
        rw [flatten_cons] at mem
        rcases mem_append.mp mem with first | later
        · exact absurd ⟨c, first, other⟩ here
        · exact ih next ⟨c, later, other⟩

/-- **When the challenges of a proxy are understood.** For every header whose fields hold written
challenges, the first Digest challenge, or else the first Basic one, is returned with all that it
says, exactly when the `qop` of every Digest challenge is spelled with spaces only in front of its
tokens. -/
theorem proxyChallenge_iff {header : List Header} {fields : List (List WrittenChallenge)}
    (written : Says header fields) :
    httpHeaderGetProxyChallenge header = some (preferred (fields.flatten.map (·.meaning))) ↔
      ∀ c ∈ fields.flatten, c.QopSpelled := by
  rw [proxyChallenge_fields written]
  constructor
  · intro understood
    by_contra other
    simp only [not_forall] at other
    obtain ⟨c, mem, misspelled⟩ := other
    rw [fields_misspelled fields .init ⟨c, mem, misspelled⟩] at understood
    cases understood
  · intro spelled
    rw [fields_spelled fields .init spelled, foldl_better_init]

/-! ## Two headers -/

/-- A character that can stand in a quoted string as it is -/
def plainChar (c : UInt8) : Option QuotedChar :=
  if valid : c ≠ quote ∧ c ≠ backslash ∧ (isCtlChar c = false ∨ isSpaceChar c = true) then
    some ⟨false, c, valid⟩
  else none

def plainValue (s : Bytes) : Value := .quoted (s.filterMap plainChar)

def ntlm : WrittenChallenge := ⟨ascii "NTLM", .of_all (by decide), 0, [], by decide, ⟨0, 1⟩⟩

/-- A Digest challenge with this list in its `qop` -/
def digestQop (qop : Bytes) : WrittenChallenge where
  scheme := ascii "Digest"
  isToken := .of_all (by decide)
  gap := 0
  params :=
    [⟨ascii "realm", .of_all (by decide), 0, 0, plainValue (ascii "r"), ⟨0, 1⟩⟩,
      ⟨ascii "nonce", .of_all (by decide), 0, 0, .token (ascii "n") (.of_all (by decide)), ⟨0, 1⟩⟩,
      ⟨ascii "qop", .of_all (by decide), 0, 0, plainValue qop, ⟨0, 1⟩⟩]
  distinct := show [ascii "realm", ascii "nonce", ascii "qop"].Nodup by decide
  separator := ⟨0, 1⟩

theorem proxyChallenge_ntlm : httpHeaderGetProxyChallenge
    [⟨ascii "proxy-authenticate",
      ascii "NTLM, Digest realm=\"r\", nonce=n, qop=\"auth, auth-int\""⟩] =
      some ⟨.digest, some (ascii "r"), some (ascii "n"), none, .md5, true, true⟩ := by
  have written : Says
      [⟨ascii "proxy-authenticate",
        ascii "NTLM, Digest realm=\"r\", nonce=n, qop=\"auth, auth-int\""⟩]
      [[ntlm, digestQop (ascii "auth, auth-int")]] := by
    unfold Says
    decide +kernel
  refine ((proxyChallenge_iff written).mpr ?_).trans (by decide +kernel)
  intro c mem
  simp only [flatten_cons, flatten_nil, append_nil, mem_cons,
    not_mem_nil, or_false] at mem
  rcases mem with rfl | rfl
  · intro digest
    exact absurd digest (by decide)
  · intro _ v value
    have is : given (digestQop (ascii "auth, auth-int")).params (ascii "qop") =
        some (ascii "auth, auth-int") := by decide
    rw [is] at value
    cases value
    exact ⟨_, .more 0 (t := ascii "auth") (.of_all (by decide))
      (.last 1 (t := ascii "auth-int") (.of_all (by decide)))⟩

/-- With a space in front of the comma the same two elements are not understood. -/
theorem proxyChallenge_space : httpHeaderGetProxyChallenge
    [⟨ascii "Proxy-Authenticate", ascii "Digest realm=\"r\", nonce=n, qop=\"auth , auth-int\""⟩] =
      none ∧
    elements (ascii "auth , auth-int") = [ascii "auth", ascii "auth-int"] := by
  refine ⟨?_, by decide⟩
  have written : Says
      [⟨ascii "Proxy-Authenticate", ascii "Digest realm=\"r\", nonce=n, qop=\"auth , auth-int\""⟩]
      [[digestQop (ascii "auth , auth-int")]] := by
    unfold Says
    decide +kernel
  rw [proxyChallenge_fields written]
  apply fields_misspelled
  refine ⟨digestQop (ascii "auth , auth-int"), mem_cons_self, ?_⟩
  intro spelled
  obtain ⟨ts, list⟩ := spelled (by decide) (ascii "auth , auth-int") (by decide)
  have read := readTokenList_iff.mpr list
  have first : readToken (ascii "auth , auth-int") =
      some (ascii "auth", space :: ascii ", auth-int") := by decide
  rw [readTokenList_cons first, if_neg (by decide)] at read
  cases read

end Nmap.Ncat
