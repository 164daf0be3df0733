import Nmap.Base.CString
import Nmap.Base.LastMax
import Mathlib.Data.Prod.Lex

/-!
# Checking the name of a certificate (`ncat_ssl.c`)

The names of a certificate are byte strings with a length, and they may hold zero bytes or
stand in front of any byte. `wildcard_match` looks for a dot in last position one byte too far,
so for a wildcard whose rest has its first dot there it reads the byte behind the name.
`post_connect_check_iff` says what is accepted when no such name is looked at.
-/

namespace Nmap.Ncat

open Nmap.Base List

/-- `*` -/
def star : UInt8 := 42

/-- `.` -/
def dot : UInt8 := 46

/-- A name as an `ASN1_STRING` holds it: the bytes of its length, and the byte that follows
them in memory -/
structure CertName where
  text : Bytes
  behind : UInt8
  deriving DecidableEq

/-- What a check comes to: whether it accepts, whether it read past the length of a name, and
the name that the message of a failed check prints up to a zero byte. -/
structure Verdict where
  accepts : Bool
  overread : Bool
  printed : Option CertName
  deriving DecidableEq

/-- The answer of a check that looks at nothing else -/
def Verdict.plain (accepts : Bool) : Verdict := ⟨accepts, false, none⟩

/-- `strncmp(p, h, remaining) == 0`, where `remaining` is the length of the first list -/
def strncmpZero : Bytes → Bytes → Bool
  | [], _ => true
  | a :: _, [] => a = 0
  | a :: p, b :: h => if a ≠ b then false else if a = 0 then true else strncmpZero p h

/-- `remaining == strlen(h) && strncmp(p, h, remaining) == 0` -/
def sameString (p h : Bytes) : Bool := p.length = h.length && strncmpZero p h

/-- `strchr(hostname, '.')` and the step past it -/
def afterFirstDot : Bytes → Option Bytes
  | [] => none
  | c :: s => if c = dot then some s else afterFirstDot s

def wildcardMatch (pattern : CertName) (hostname : CString) : Verdict :=
  match pattern.text with
  | c :: d :: p =>
    if c = star && d = dot then
      if star ∈ p then .plain false
      else
        match p.idxOf? dot with
        | none => .plain false
        | some i =>
          if i = p.length then .plain false
          else
            -- `*(dot + 1)` is the byte behind the name if the dot is the last of it.
            let overread : Bool := i + 1 = p.length
            if p.getD (i + 1) pattern.behind = 0 then ⟨false, overread, none⟩
            else
              match afterFirstDot hostname.bytes with
              | none => ⟨false, overread, none⟩
              | some h => ⟨sameString p h, overread, none⟩
    else .plain (sameString (c :: d :: p) hostname.bytes)
  | p => .plain (sameString p hostname.bytes)

/-! ## The names of a certificate -/

/-- A `GENERAL_NAME` -/
inductive GeneralName
  | dns (name : CertName)
  | other
  deriving DecidableEq

/-- What is used of a certificate: its subjectAltName extensions, as far as they can be decoded,
and the commonNames of its subject in order -/
structure Cert where
  subjectAltNames : List (Option (List GeneralName))
  subject : Option (List CertName)
  deriving DecidableEq

/-- The loop of `cert_match_dnsname`, with how many names were checked -/
def matchDnsNames (hostname : CString) : List GeneralName → Verdict × Nat
  | [] => (.plain false, 0)
  | .other :: names => matchDnsNames hostname names
  | .dns name :: names =>
    let v := wildcardMatch name hostname
    if v.accepts then (v, 1)
    else
      let (w, n) := matchDnsNames hostname names
      ({ w with overread := v.overread || w.overread }, n + 1)

/-- `cert_match_dnsname`: with no extension, or more than one, no name is checked. -/
def certMatchDnsname (cert : Cert) (hostname : CString) : Verdict × Nat :=
  match cert.subjectAltNames with
  | [some names] => matchDnsNames hostname names
  | _ => (.plain false, 0)

/-- `num_components`. `inside` holds within a block of bytes that are no dots. -/
def numComponents (inside : Bool) : Bytes → Nat
  | [] => 0
  | c :: s => if c = dot then numComponents false s
      else (if inside then 0 else 1) + numComponents true s

def lessSpecific (a b : CertName) : Bool :=
  if star ∈ a.text ∧ star ∉ b.text then true
  else if star ∉ a.text ∧ star ∈ b.text then false
  else numComponents false a.text < numComponents false b.text

def mostSpecificCommonname (subject : List CertName) : Option CertName :=
  lastMax lessSpecific subject

def certMatchCommonname (verbose : Bool) (cert : Cert) (hostname : CString) : Verdict :=
  match cert.subject with
  | none => .plain false
  | some subject =>
    match mostSpecificCommonname subject with
    | none => .plain false
    | some commonname =>
      let v := wildcardMatch commonname hostname
      if v.accepts then v else { v with printed := if verbose then some commonname else none }

/-- The name check in the middle of `ssl_post_connect_check` -/
def nameCheck (verbose : Bool) (cert : Cert) (hostname : CString) : Verdict :=
  let (v, numChecked) := certMatchDnsname cert hostname
  if v.accepts then v
  else if numChecked > 0 then v
  else
    let w := certMatchCommonname verbose cert hostname
    { w with overread := v.overread || w.overread }

/-- What `ssl_post_connect_check` asks the connection for: whether peers are verified at all,
the certificate of this one, and whether its chain is good -/
structure Ssl where
  verifyNone : Bool
  peerCertificate : Option Cert
  verifyOk : Bool

def sslPostConnectCheck (verbose : Bool) (ssl : Ssl) (hostname : Option CString) : Verdict :=
  if ssl.verifyNone then .plain true
  else
    match hostname, ssl.peerCertificate with
    | some hostname, some cert =>
      let v := nameCheck verbose cert hostname
      if v.accepts then { v with accepts := ssl.verifyOk } else v
    | _, _ => .plain false

/-! ## Which names match -/

/-- The name begins with `*.`. -/
def IsWildcard (text : Bytes) : Prop := ∃ rest, text = star :: dot :: rest

/-- The name is the host's, or it is `*.` and a rest without stars that has a dot before its
last byte, and this rest is what follows the first dot of the host's name. -/
def CertName.Matches (name : CertName) (hostname : CString) : Prop :=
  ¬ IsWildcard name.text ∧ name.text = hostname.bytes ∨
  ∃ rest, name.text = star :: dot :: rest ∧ star ∉ rest ∧
    (∃ a b, rest = a ++ dot :: b ∧ b ≠ []) ∧
    ∃ first, hostname.bytes = first ++ dot :: rest ∧ dot ∉ first

/-- `*.` and a rest without stars whose first dot is its last byte -/
def CertName.DotLast (name : CertName) : Prop :=
  ∃ a, name.text = star :: dot :: (a ++ [dot]) ∧ star ∉ a ∧ dot ∉ a

theorem strncmpZero_iff : ∀ {p h : Bytes}, p.length = h.length → 0 ∉ h →
    (strncmpZero p h = true ↔ p = h)
  | [], [], _, _ => by simp [strncmpZero]
  | a :: p, b :: h, length, nonzero => by
    have b_nonzero : b ≠ 0 := fun zero => nonzero (zero ▸ mem_cons_self)
    have rest := strncmpZero_iff (p := p) (h := h) (Nat.succ.inj length)
      fun mem => nonzero (mem_cons_of_mem _ mem)
    rw [strncmpZero]
    by_cases same : a = b
    · subst same
      rw [if_neg (by simp), if_neg b_nonzero, rest]
      simp
    · rw [if_pos same]
      simp [same]

variable {p : Bytes}

theorem sameString_iff {h : Bytes} (nonzero : 0 ∉ h) : sameString p h = true ↔ p = h := by
  unfold sameString
  rw [Bool.and_eq_true, decide_eq_true_iff]
  constructor
  · rintro ⟨length, same⟩
    exact (strncmpZero_iff length nonzero).mp same
  · rintro rfl
    exact ⟨rfl, (strncmpZero_iff rfl nonzero).mpr rfl⟩

theorem afterFirstDot_iff {s h : Bytes} :
    afterFirstDot s = some h ↔ ∃ first, s = first ++ dot :: h ∧ dot ∉ first := by
  induction s with
  | nil => simp [afterFirstDot]
  | cons c s ih =>
    rw [afterFirstDot]
    by_cases is : c = dot
    · subst is
      rw [if_pos rfl]
      constructor
      · intro eq
        exact ⟨[], by rw [Option.some.inj eq]; rfl, not_mem_nil⟩
      · rintro ⟨_ | ⟨d, first⟩, eq, free⟩
        · rw [(List.cons.inj eq).2]
        · rw [← (List.cons.inj eq).1] at free
          exact absurd mem_cons_self free
    · rw [if_neg is, ih]
      constructor
      · rintro ⟨first, rfl, free⟩
        refine ⟨c :: first, rfl, fun mem => ?_⟩
        rcases mem_cons.mp mem with eq | mem
        · exact is eq.symm
        · exact free mem
      · rintro ⟨_ | ⟨d, first⟩, eq, free⟩
        · exact absurd (List.cons.inj eq).1 is
        · exact ⟨first, (List.cons.inj eq).2, fun mem => free (mem_cons_of_mem _ mem)⟩

theorem idxOf?_split {x : UInt8} {i : Nat} (found : p.idxOf? x = some i) :
    ∃ a b, p = a ++ x :: b ∧ a.length = i ∧ x ∉ a := by
  induction p generalizing i with
  | nil => simp at found
  | cons c p ih =>
    rw [List.idxOf?_cons] at found
    by_cases is : c = x
    · subst is
      rw [if_pos (by simp)] at found
      cases found
      exact ⟨[], p, rfl, rfl, not_mem_nil⟩
    · rw [if_neg (by simpa using is)] at found
      obtain ⟨j, later, rfl⟩ := Option.map_eq_some_iff.mp found
      obtain ⟨a, b, rfl, length, free⟩ := ih later
      refine ⟨c :: a, b, rfl, by rw [length_cons, length], fun mem => ?_⟩
      rcases mem_cons.mp mem with eq | mem
      · exact is eq.symm
      · exact free mem

theorem matches_plain {name : CertName} {hostname : CString} (plain : ¬ IsWildcard name.text) :
    name.Matches hostname ↔ name.text = hostname.bytes := by
  constructor
  · rintro (⟨-, same⟩ | ⟨rest, eq, -⟩)
    · exact same
    · exact absurd ⟨rest, eq⟩ plain
  · exact fun same => .inl ⟨plain, same⟩

theorem matches_wildcard {behind : UInt8} {hostname : CString} :
    (CertName.mk (star :: dot :: p) behind).Matches hostname ↔
      star ∉ p ∧ (∃ a b, p = a ++ dot :: b ∧ b ≠ []) ∧
        ∃ first, hostname.bytes = first ++ dot :: p ∧ dot ∉ first := by
  constructor
  · rintro (⟨plain, -⟩ | ⟨rest, eq, free, two, after⟩)
    · exact absurd ⟨p, rfl⟩ plain
    · obtain rfl : p = rest := (List.cons.inj (List.cons.inj eq).2).2
      exact ⟨free, two, after⟩
  · rintro ⟨free, two, after⟩
    exact .inr ⟨p, rfl, free, two, after⟩

/-- A wildcard whose first dot is not its last byte: the comparison, which stays within the
name. -/
theorem wildcardMatch_inside {a b : Bytes} {e behind : UInt8} (hostname : CString)
    (free : dot ∉ a) (star_free : star ∉ a ++ dot :: e :: b) :
    wildcardMatch ⟨star :: dot :: (a ++ dot :: e :: b), behind⟩ hostname =
      if e = 0 then .plain false
      else
        match afterFirstDot hostname.bytes with
        | none => .plain false
        | some h => .plain (sameString (a ++ dot :: e :: b) h) := by
  have index : (a ++ dot :: e :: b).idxOf? dot = some a.length := by
    rw [List.idxOf?_eq_some_iff]
    refine ⟨by simp, by simp, fun j before => ?_⟩
    rw [getElem_append_left before]
    exact fun is => free (is ▸ getElem_mem before)
  have next : (a ++ dot :: e :: b).getD (a.length + 1) behind = e := by
    simp [getD_eq_getElem?_getD]
  have inside : ¬ a.length + 1 = (a ++ dot :: e :: b).length := by simp
  have short : ¬ a.length = (a ++ dot :: e :: b).length := by simp
  unfold wildcardMatch
  dsimp only
  rw [if_pos (by decide), if_neg star_free, index]
  dsimp only
  rw [if_neg short, next]
  simp only [inside, decide_false]
  rfl

/-- What matching comes to for a name whose first dot is not in last position -/
theorem wildcardMatch_spec {name : CertName} (clear : ¬ name.DotLast) (hostname : CString) :
    (wildcardMatch name hostname).overread = false ∧
      ((wildcardMatch name hostname).accepts = true ↔ name.Matches hostname) := by
  obtain ⟨text, behind⟩ := name
  by_cases wildcard : IsWildcard text
  · obtain ⟨p, rfl⟩ := wildcard
    rw [matches_wildcard]
    by_cases stars : star ∈ p
    · unfold wildcardMatch
      dsimp only
      rw [if_pos (by decide), if_pos stars]
      exact ⟨rfl, iff_of_false Bool.false_ne_true fun matched => matched.1 stars⟩
    cases found : p.idxOf? dot with
    | none =>
      unfold wildcardMatch
      dsimp only
      rw [if_pos (by decide), if_neg stars, found]
      refine ⟨rfl, iff_of_false Bool.false_ne_true ?_⟩
      rintro ⟨-, ⟨a, b, rfl, -⟩, -⟩
      exact List.idxOf?_eq_none_iff.mp found (by simp)
    | some i =>
      obtain ⟨a, b, rfl, -, free⟩ := idxOf?_split found
      cases b with
      | nil =>
        refine absurd ⟨a, rfl, fun mem => stars ?_, free⟩ clear
        exact mem_append_left _ mem
      | cons e b =>
        rw [wildcardMatch_inside hostname free stars]
        by_cases zero : e = 0
        · rw [if_pos zero]
          refine ⟨rfl, iff_of_false Bool.false_ne_true ?_⟩
          rintro ⟨-, -, first, eq, -⟩
          exact hostname.nonzero (by simp [eq, zero])
        · rw [if_neg zero]
          cases after : afterFirstDot hostname.bytes with
          | none =>
            refine ⟨rfl, iff_of_false Bool.false_ne_true ?_⟩
            rintro ⟨-, -, host⟩
            rw [afterFirstDot_iff.mpr host] at after
            cases after
          | some h =>
            obtain ⟨first, eq, free_first⟩ := afterFirstDot_iff.mp after
            have nonzero : 0 ∉ h := fun mem => hostname.nonzero (by simp [eq, mem])
            refine ⟨rfl, (sameString_iff nonzero).trans ?_⟩
            constructor
            · rintro rfl
              exact ⟨stars, ⟨a, e :: b, rfl, cons_ne_nil _ _⟩, first, eq, free_first⟩
            · rintro ⟨-, -, host⟩
              exact Option.some.inj ((afterFirstDot_iff.mpr host).symm.trans after)
  · rw [matches_plain wildcard, ← sameString_iff hostname.nonzero]
    have compared : wildcardMatch ⟨text, behind⟩ hostname =
        .plain (sameString text hostname.bytes) := by
      rcases text with _ | ⟨c, _ | ⟨d, p⟩⟩
      · rfl
      · rfl
      · refine if_neg fun both => wildcard ⟨p, ?_⟩
        rw [Bool.and_eq_true, decide_eq_true_iff, decide_eq_true_iff] at both
        rw [both.1, both.2]
    rw [compared]
    exact ⟨rfl, Iff.rfl⟩

/-! ## The names that count -/

def dnsOf (names : List GeneralName) : List CertName :=
  names.filterMap fun
    | .dns name => some name
    | .other => none

/-- The dNSNames of a certificate, which are those of its only subjectAltName extension -/
def Cert.dnsNames (cert : Cert) : List CertName :=
  match cert.subjectAltNames with
  | [some names] => dnsOf names
  | _ => []

def Cert.commonNames (cert : Cert) : List CertName := cert.subject.getD []

/-- How specific a name is: without stars before with stars, then by the number of components -/
def CertName.specificity (name : CertName) : ℕ ×ₗ ℕ :=
  toLex (if star ∈ name.text then 0 else 1, numComponents false name.text)

/-- The names the host may have: the dNSNames, and without any of these the last of the most
specific commonNames -/
def Cert.Considered (cert : Cert) (name : CertName) : Prop :=
  name ∈ cert.dnsNames ∨
    cert.dnsNames = [] ∧ LastMax CertName.specificity cert.commonNames name

theorem lessSpecific_iff (a b : CertName) :
    lessSpecific a b = true ↔ a.specificity < b.specificity := by
  unfold lessSpecific CertName.specificity
  rw [Prod.Lex.toLex_lt_toLex]
  by_cases star_a : star ∈ a.text <;> by_cases star_b : star ∈ b.text <;> simp [star_a, star_b]

theorem matchDnsNames_spec (hostname : CString) : ∀ names : List GeneralName,
    (∀ name ∈ dnsOf names, ¬ name.DotLast) →
    (matchDnsNames hostname names).1.overread = false ∧
      ((matchDnsNames hostname names).1.accepts = true ↔
        ∃ name ∈ dnsOf names, name.Matches hostname) ∧
      ((matchDnsNames hostname names).2 > 0 ↔ dnsOf names ≠ [])
  | [], _ => by simp [matchDnsNames, dnsOf, Verdict.plain]
  | .other :: names, clear => matchDnsNames_spec hostname names clear
  | .dns name :: names, clear => by
    have all : dnsOf (.dns name :: names) = name :: dnsOf names := rfl
    rw [all] at clear ⊢
    obtain ⟨inside, here⟩ := wildcardMatch_spec (clear name mem_cons_self) hostname
    obtain ⟨inside', later, -⟩ := matchDnsNames_spec hostname names
      fun name mem => clear name (mem_cons_of_mem _ mem)
    rw [matchDnsNames]
    dsimp only
    by_cases accepted : (wildcardMatch name hostname).accepts = true
    · rw [if_pos accepted]
      exact ⟨inside, iff_of_true accepted ⟨name, mem_cons_self, here.mp accepted⟩, by simp⟩
    · rw [if_neg accepted]
      refine ⟨by simp [inside, inside'], later.trans ?_, by simp⟩
      constructor
      · rintro ⟨other, mem, matched⟩
        exact ⟨other, mem_cons_of_mem _ mem, matched⟩
      · rintro ⟨other, mem, matched⟩
        rcases mem_cons.mp mem with rfl | mem
        · exact absurd (here.mpr matched) accepted
        · exact ⟨other, mem, matched⟩

theorem certMatchDnsname_spec (cert : Cert) (hostname : CString)
    (clear : ∀ name ∈ cert.dnsNames, ¬ name.DotLast) :
    (certMatchDnsname cert hostname).1.overread = false ∧
      ((certMatchDnsname cert hostname).1.accepts = true ↔
        ∃ name ∈ cert.dnsNames, name.Matches hostname) ∧
      ((certMatchDnsname cert hostname).2 > 0 ↔ cert.dnsNames ≠ []) := by
  unfold certMatchDnsname Cert.dnsNames at *
  split
  · next names eq =>
      rw [eq] at clear
      exact matchDnsNames_spec hostname names clear
  · simp [Verdict.plain]

theorem certMatchCommonname_spec (verbose : Bool) (cert : Cert) (hostname : CString)
    (clear : ∀ name, LastMax CertName.specificity cert.commonNames name → ¬ name.DotLast) :
    (certMatchCommonname verbose cert hostname).overread = false ∧
      ((certMatchCommonname verbose cert hostname).accepts = true ↔
        ∃ name, LastMax CertName.specificity cert.commonNames name ∧ name.Matches hostname) := by
  have none_of (empty : cert.commonNames = []) :
      ¬ ∃ name, LastMax CertName.specificity cert.commonNames name ∧ name.Matches hostname := by
    rintro ⟨name, ⟨before, after, eq, -⟩, -⟩
    rw [empty] at eq
    simp at eq
  unfold certMatchCommonname
  cases subject : cert.subject with
  | none =>
    have empty : cert.commonNames = [] := by rw [Cert.commonNames, subject]; rfl
    exact ⟨rfl, iff_of_false Bool.false_ne_true (none_of empty)⟩
  | some names =>
    have common : cert.commonNames = names := by rw [Cert.commonNames, subject]; rfl
    have best_spec := lastMax_spec lessSpecific_iff names
    dsimp only [mostSpecificCommonname]
    cases found : lastMax lessSpecific names with
    | none =>
      rw [found] at best_spec
      exact ⟨rfl, iff_of_false Bool.false_ne_true (none_of (common.trans best_spec))⟩
    | some best =>
      rw [found] at best_spec
      dsimp only at best_spec ⊢
      rw [common] at clear ⊢
      obtain ⟨inside, here⟩ := wildcardMatch_spec (clear best best_spec) hostname
      have only : (∃ name, LastMax CertName.specificity names name ∧ name.Matches hostname) ↔
          best.Matches hostname := by
        constructor
        · rintro ⟨name, last, matched⟩
          rwa [best_spec.unique last]
        · exact fun matched => ⟨best, best_spec, matched⟩
      rw [only, ← here]
      by_cases accepted : (wildcardMatch best hostname).accepts = true
      · rw [if_pos accepted]
        exact ⟨inside, Iff.rfl⟩
      · rw [if_neg accepted]
        exact ⟨inside, Iff.rfl⟩

/-- The name check accepts exactly when a name that is considered matches. -/
theorem nameCheck_spec (verbose : Bool) (cert : Cert) (hostname : CString)
    (clear : ∀ name, cert.Considered name → ¬ name.DotLast) :
    (nameCheck verbose cert hostname).overread = false ∧
      ((nameCheck verbose cert hostname).accepts = true ↔
        ∃ name, cert.Considered name ∧ name.Matches hostname) := by
  obtain ⟨inside, dns, checked⟩ := certMatchDnsname_spec cert hostname
    fun name mem => clear name (.inl mem)
  unfold nameCheck
  dsimp only
  by_cases accepted : (certMatchDnsname cert hostname).1.accepts = true
  · rw [if_pos accepted]
    obtain ⟨name, mem, matched⟩ := dns.mp accepted
    exact ⟨inside, iff_of_true accepted ⟨name, .inl mem, matched⟩⟩
  rw [if_neg accepted]
  by_cases some_dns : (certMatchDnsname cert hostname).2 > 0
  · rw [if_pos some_dns]
    refine ⟨inside, iff_of_false accepted ?_⟩
    rintro ⟨name, mem | ⟨no_dns, -⟩, matched⟩
    · exact accepted (dns.mpr ⟨name, mem, matched⟩)
    · exact checked.mp some_dns no_dns
  · rw [if_neg some_dns]
    have no_dns : cert.dnsNames = [] := by
      by_contra some_name
      exact some_dns (checked.mpr some_name)
    obtain ⟨inside', common⟩ := certMatchCommonname_spec verbose cert hostname
      fun name last => clear name (.inr ⟨no_dns, last⟩)
    refine ⟨by simp [inside, inside'], common.trans ?_⟩
    constructor
    · rintro ⟨name, last, matched⟩
      exact ⟨name, .inr ⟨no_dns, last⟩, matched⟩
    · rintro ⟨name, mem | ⟨-, last⟩, matched⟩
      · rw [no_dns] at mem
        cases mem
      · exact ⟨name, last, matched⟩

/-- **What the check after the connection accepts.** If no name that is considered is a wildcard
whose rest has its first dot at its end, the check of a verified connection stays within the
names, and it accepts exactly when a name that is considered matches and the chain is good. -/
theorem post_connect_check_iff (verbose : Bool) (ssl : Ssl) (hostname : CString) {cert : Cert}
    (verified : ssl.verifyNone = false) (peer : ssl.peerCertificate = some cert)
    (clear : ∀ name, cert.Considered name → ¬ name.DotLast) :
    (sslPostConnectCheck verbose ssl (some hostname)).overread = false ∧
      ((sslPostConnectCheck verbose ssl (some hostname)).accepts = true ↔
        (∃ name, cert.Considered name ∧ name.Matches hostname) ∧ ssl.verifyOk = true) := by
  obtain ⟨inside, accepts⟩ := nameCheck_spec verbose cert hostname clear
  unfold sslPostConnectCheck
  rw [if_neg (by simp [verified]), peer]
  dsimp only
  rw [← accepts]
  by_cases accepted : (nameCheck verbose cert hostname).accepts = true
  · rw [if_pos accepted]
    exact ⟨inside, by simp [accepted]⟩
  · rw [if_neg accepted]
    exact ⟨inside, by simp [accepted]⟩

def certWithDns (names : List CertName) : Cert := ⟨[some (names.map .dns)], some []⟩

/-- `*.a.com`, followed by a byte that is not zero -/
def starACom : CertName := ⟨[42, 46, 97, 46, 99, 111, 109], 120⟩

/-- `w.a.com` -/
def hostWACom : CString := ⟨[119, 46, 97, 46, 99, 111, 109], by decide⟩

theorem post_connect_check_starACom :
    (sslPostConnectCheck true ⟨false, some (certWithDns [starACom]), true⟩
        (some hostWACom)).overread = false ∧
      ((sslPostConnectCheck true ⟨false, some (certWithDns [starACom]), true⟩
          (some hostWACom)).accepts = true ↔
        (∃ name, (certWithDns [starACom]).Considered name ∧ name.Matches hostWACom) ∧
          true = true) := by
  refine post_connect_check_iff true ⟨false, _, true⟩ hostWACom rfl rfl ?_
  rintro name (mem | ⟨no_dns, -⟩)
  · rw [show (certWithDns [starACom]).dnsNames = [starACom] from rfl, mem_singleton] at mem
    subst mem
    rintro ⟨a, eq, -⟩
    have dot_last : starACom.text = (star :: dot :: a) ++ [dot] := eq
    have last := congrArg List.getLast? dot_last
    rw [List.getLast?_concat] at last
    exact absurd last (by decide)
  · cases no_dns

/-- `*.*.com` -/
def starStarCom : Bytes := [42, 46, 42, 46, 99, 111, 109]

/-- A host of this name is not accepted for a certificate of the very same name. -/
theorem equal_wildcard_rejected :
    (CertName.mk starStarCom 0).text = (CString.mk starStarCom (by decide)).bytes ∧
      (sslPostConnectCheck false ⟨false, some (certWithDns [⟨starStarCom, 0⟩]), true⟩
        (some ⟨starStarCom, by decide⟩)).accepts = false :=
  ⟨rfl, by decide⟩

end Nmap.Ncat
