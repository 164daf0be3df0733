import Nmap.Ncat.HttpHeader

/-!
# HTTP authentication (`http.c`)

Challenges of a proxy and credentials of a client are a scheme and parameters `name=value`, the
value being a token or a quoted string.
-/

namespace Nmap.Ncat

open Nmap.Base List Option

/-- `enum http_auth_scheme` -/
inductive AuthScheme
  | unknown
  | basic
  | digest
  deriving DecidableEq

/-- `enum http_digest_algorithm` -/
inductive DigestAlgorithm
  | md5
  | unknown
  deriving DecidableEq

/-- `enum http_digest_qop` -/
inductive DigestQop
  | none
  | auth
  | authInt
  deriving DecidableEq

def authSchemeIsBetter : AuthScheme → AuthScheme → Bool
  | _, .digest => false
  | a, .basic => a = .digest
  | a, .unknown => a = .basic || a = .digest

/-! ## Parameters -/

/-- What stands at the beginning of a list of parameters: nothing that can be read, a token
without an equals sign behind it, or a parameter -/
inductive Param
  | bad
  | noEquals
  | param (name value rest : Bytes)

/-- One round of the loop over parameters, up to the value -/
def readParam (s : Bytes) : Param :=
  match readToken s with
  | none => .bad
  | some (name, p) =>
    match skipSpaces p with
    | [] => .noEquals
    | c :: p =>
      if c = equals then
        match readTokenOrQuotedString (skipSpaces p) with
        | none => .bad
        | some (value, p) => .param name value p
      else .noEquals

/-- The end of the round: a comma must not be the last character. -/
def afterParam (p : Bytes) : Option Bytes :=
  match skipSpaces p with
  | [] => some []
  | c :: p =>
    if c = comma then if skipSpaces p = [] then none else some (skipSpaces p) else some (c :: p)

variable {s rest : Bytes}

theorem readParam_shorter {name value : Bytes} (read : readParam s = .param name value rest) :
    rest.length < s.length := by
  unfold readParam at read
  split at read
  · cases read
  · next name' p token =>
      have first := readToken_shorter token
      have spaces := length_dropWhile_le isSpaceChar p
      split at read
      · cases read
      · next c p' eq =>
          unfold skipSpaces at eq
          rw [eq, length_cons] at spaces
          have spaces' := length_dropWhile_le isSpaceChar p'
          split at read
          · split at read
            · cases read
            · next value' p'' value_read =>
                cases read
                have second := readTokenOrQuotedString_shorter value_read
                unfold skipSpaces at second
                omega
          · cases read

theorem afterParam_le {p : Bytes} (after : afterParam p = some rest) :
    rest.length ≤ p.length := by
  have spaces := length_dropWhile_le isSpaceChar p
  unfold afterParam at after
  split at after
  · cases after
    exact Nat.zero_le _
  · next c p' eq =>
      unfold skipSpaces at eq
      rw [eq, length_cons] at spaces
      have spaces' := length_dropWhile_le isSpaceChar p'
      split at after
      · split at after
        · cases after
        · cases after
          unfold skipSpaces
          omega
      · cases after
        simp only [length_cons]
        omega

/-! ## Challenges -/

/-- `struct http_challenge` -/
structure Challenge where
  scheme : AuthScheme
  realm : Option Bytes
  nonce : Option Bytes
  opaqueData : Option Bytes
  algorithm : DigestAlgorithm
  qopAuth : Bool
  qopAuthInt : Bool
  deriving DecidableEq

/-- `http_challenge_init` -/
def Challenge.init : Challenge := ⟨.unknown, none, none, none, .md5, false, false⟩

def schemeOf (scheme : Bytes) : AuthScheme :=
  if strEqualI scheme (ascii "Basic") then .basic
  else if strEqualI scheme (ascii "Digest") then .digest
  else .unknown

def algorithmOf (value : Bytes) : DigestAlgorithm :=
  if strEqualI value (ascii "MD5") then .md5 else .unknown

def setOnce (old : Option Bytes) (value : Bytes) : Option (Option Bytes) :=
  match old with
  | none => some (some value)
  | some _ => none

/-- What `http_read_challenge` does with a parameter -/
def Challenge.set (c : Challenge) (name value : Bytes) : Option Challenge :=
  if strEqualI name (ascii "realm") then some { c with realm := some value }
  else if c.scheme ≠ .digest then some c
  else if strEqualI name (ascii "nonce") then
    (setOnce c.nonce value).map fun nonce => { c with nonce := nonce }
  else if strEqualI name (ascii "opaque") then
    (setOnce c.opaqueData value).map fun opaqueData => { c with opaqueData := opaqueData }
  else if strEqualI name (ascii "algorithm") then some { c with algorithm := algorithmOf value }
  else if strEqualI name (ascii "qop") then
    match readTokenList value with
    | none => none
    | some (tokens, rest) =>
      if rest ≠ [] then none
      else some { c with
        qopAuth := c.qopAuth || tokens.any (strEqualI · (ascii "auth"))
        qopAuthInt := c.qopAuthInt || tokens.any fun token =>
          !strEqualI token (ascii "auth") && strEqualI token (ascii "auth-int") }
  else some c

/-- The loop of `http_read_challenge`. A token without an equals sign begins the next
challenge. -/
def challengeParams (s : Bytes) (c : Challenge) : Option (Challenge × Bytes) :=
  if s = [] then some (c, [])
  else
    match _read : readParam s with
    | .bad => none
    | .noEquals => some (c, s)
    | .param name value p =>
      match c.set name value with
      | none => none
      | some c =>
        match _after : afterParam p with
        | none => none
        | some s => challengeParams s c
termination_by s.length
decreasing_by
  have shorter := readParam_shorter _read
  have le := afterParam_le _after
  omega

def httpReadChallenge (s : Bytes) : Option (Challenge × Bytes) :=
  match readToken s with
  | none => none
  | some (scheme, s) =>
    let c := { Challenge.init with scheme := schemeOf scheme }
    match skipSpaces s with
    | [] => some (c, [])
    | d :: s =>
      if d = comma then if skipSpaces s = [] then none else some (c, skipSpaces s)
      else challengeParams (d :: s) c

theorem challengeParams_le : ∀ (n : Nat) {s rest : Bytes} {c d : Challenge}, s.length ≤ n →
    challengeParams s c = some (d, rest) → rest.length ≤ s.length
  | n, s, rest, c, d, short, read => by
    rw [challengeParams] at read
    split at read
    · cases read
      exact Nat.zero_le _
    split at read
    · cases read
    · cases read
      exact Nat.le_refl _
    · next name value p param =>
        split at read
        · cases read
        split at read
        · cases read
        · next s' after =>
            have shorter := readParam_shorter param
            have le := afterParam_le after
            cases n with
            | zero => omega
            | succ n =>
              have later := challengeParams_le n (by omega) read
              omega

theorem httpReadChallenge_shorter {c : Challenge} (read : httpReadChallenge s = some (c, rest)) :
    rest.length < s.length := by
  unfold httpReadChallenge at read
  split at read
  · cases read
  · next scheme s' token =>
      have first := readToken_shorter token
      have spaces := length_dropWhile_le isSpaceChar s'
      dsimp only at read
      split at read
      · cases read
        exact Nat.lt_of_le_of_lt (Nat.zero_le _) first
      · next d s'' eq =>
          unfold skipSpaces at eq
          rw [eq, length_cons] at spaces
          have spaces' := length_dropWhile_le isSpaceChar s''
          split at read
          · split at read
            · cases read
            · cases read
              unfold skipSpaces
              omega
          · have later := challengeParams_le _ (Nat.le_refl _) read
            simp only [length_cons] at later
            omega

/-- The challenges in the value of one field: the best of them and those before -/
def challengesIn (s : Bytes) (best : Challenge) : Option Challenge :=
  if s = [] then some best
  else
    match _read : httpReadChallenge s with
    | none => none
    | some (c, s) => challengesIn s (if authSchemeIsBetter c.scheme best.scheme then c else best)
termination_by s.length
decreasing_by exact httpReadChallenge_shorter _read

def httpHeaderGetProxyChallenge (header : List Header) : Option Challenge :=
  (headersNamed header (ascii "Proxy-Authenticate")).foldlM
    (fun best h => challengesIn h.value best) Challenge.init

/-! ## Credentials -/

/-- The Digest part of `struct http_credentials` -/
structure DigestCredentials where
  username : Option Bytes
  realm : Option Bytes
  nonce : Option Bytes
  uri : Option Bytes
  response : Option Bytes
  algorithm : DigestAlgorithm
  qop : DigestQop
  nc : Option Bytes
  cnonce : Option Bytes
  deriving DecidableEq

/-- `http_credentials_init_digest` -/
def DigestCredentials.init : DigestCredentials :=
  ⟨none, none, none, none, none, .md5, .none, none, none⟩

/-- `struct http_credentials` -/
inductive Credentials
  | unknown
  | basic (base64 : Bytes)
  | digest (d : DigestCredentials)
  deriving DecidableEq

/-- The field `scheme` -/
def Credentials.scheme : Credentials → AuthScheme
  | .unknown => .unknown
  | .basic _ => .basic
  | .digest _ => .digest

def qopOf (value : Bytes) : DigestQop :=
  if strEqualI value (ascii "auth") then .auth
  else if strEqualI value (ascii "auth-int") then .authInt
  else .none

/-- What `http_read_credentials` does with a parameter -/
def DigestCredentials.set (d : DigestCredentials) (name value : Bytes) :
    Option DigestCredentials :=
  if strEqualI name (ascii "username") then
    (setOnce d.username value).map fun username => { d with username := username }
  else if strEqualI name (ascii "realm") then
    (setOnce d.realm value).map fun realm => { d with realm := realm }
  else if strEqualI name (ascii "nonce") then
    (setOnce d.nonce value).map fun nonce => { d with nonce := nonce }
  else if strEqualI name (ascii "uri") then
    (setOnce d.uri value).map fun uri => { d with uri := uri }
  else if strEqualI name (ascii "response") then
    (setOnce d.response value).map fun response => { d with response := response }
  else if strEqualI name (ascii "algorithm") then some { d with algorithm := algorithmOf value }
  else if strEqualI name (ascii "qop") then some { d with qop := qopOf value }
  else if strEqualI name (ascii "cnonce") then
    (setOnce d.cnonce value).map fun cnonce => { d with cnonce := cnonce }
  else if strEqualI name (ascii "nc") then
    (setOnce d.nc value).map fun nc => { d with nc := nc }
  else some d

/-- The loop of `http_read_credentials` for Digest, which ends with the text -/
def credentialParams (s : Bytes) (d : DigestCredentials) : Option DigestCredentials :=
  if s = [] then some d
  else
    match _read : readParam s with
    | .bad => none
    | .noEquals => none
    | .param name value p =>
      match d.set name value with
      | none => none
      | some d =>
        match _after : afterParam p with
        | none => none
        | some s => credentialParams s d
termination_by s.length
decreasing_by
  have shorter := readParam_shorter _read
  have le := afterParam_le _after
  omega

def isBase64Char (c : UInt8) : Bool :=
  (0x61 ≤ c && c ≤ 0x7a) || (0x41 ≤ c && c ≤ 0x5a) || (0x30 ≤ c && c ≤ 0x39) || c = 0x2b ||
    c = 0x2f || c = equals

def httpReadCredentials (s : Bytes) : Option (Credentials × Bytes) :=
  match readToken s with
  | none => none
  | some (scheme, s) =>
    match schemeOf scheme with
    | .unknown => none
    | .basic =>
      let p := skipSpaces s
      some (.basic (p.takeWhile isBase64Char), skipSpaces (p.dropWhile isBase64Char))
    | .digest =>
      (credentialParams (skipSpaces s) DigestCredentials.init).map fun d => (.digest d, [])

theorem httpReadCredentials_shorter {c : Credentials}
    (read : httpReadCredentials s = some (c, rest)) : rest.length < s.length := by
  unfold httpReadCredentials at read
  split at read
  · cases read
  · next scheme s' token =>
      have first := readToken_shorter token
      split at read
      · cases read
      · cases read
        have spaces := length_dropWhile_le isSpaceChar s'
        have chars := length_dropWhile_le isBase64Char (skipSpaces s')
        have last := length_dropWhile_le isSpaceChar ((skipSpaces s').dropWhile isBase64Char)
        unfold skipSpaces at last chars ⊢
        omega
      · obtain ⟨d, _, eq⟩ := map_eq_some_iff.mp read
        cases eq
        exact Nat.lt_of_le_of_lt (Nat.zero_le _) first

/-- The credentials in the value of one field: the best of them and those before -/
def credentialsIn (s : Bytes) (best : Credentials) : Option Credentials :=
  if s = [] then some best
  else
    match _read : httpReadCredentials s with
    | none => none
    | some (c, s) => credentialsIn s (if authSchemeIsBetter c.scheme best.scheme then c else best)
termination_by s.length
decreasing_by exact httpReadCredentials_shorter _read

def httpHeaderGetProxyCredentials (header : List Header) : Option Credentials :=
  (headersNamed header (ascii "Proxy-Authorization")).foldlM
    (fun best h => credentialsIn h.value best) .unknown

/-- A user name or a URI that was given stays. -/
theorem DigestCredentials.set_keeps {d e : DigestCredentials} {name value : Bytes}
    (set : d.set name value = some e) :
    (∀ u, d.username = some u → e.username = some u) ∧ ∀ u, d.uri = some u → e.uri = some u := by
  unfold DigestCredentials.set at set
  have again : ∀ {old : Option Bytes} {u : Bytes}, old = some u → setOnce old value = none := by
    rintro old u rfl
    rfl
  split at set
  · refine ⟨fun u given => ?_, fun u given => ?_⟩
    · rw [again given] at set
      cases set
    · obtain ⟨username, _, rfl⟩ := map_eq_some_iff.mp set
      exact given
  iterate 2
    split at set
    · obtain ⟨field, _, rfl⟩ := map_eq_some_iff.mp set
      exact ⟨fun u given => given, fun u given => given⟩
  split at set
  · refine ⟨fun u given => ?_, fun u given => ?_⟩
    · obtain ⟨uri, _, rfl⟩ := map_eq_some_iff.mp set
      exact given
    · rw [again given] at set
      cases set
  split at set
  · obtain ⟨field, _, rfl⟩ := map_eq_some_iff.mp set
    exact ⟨fun u given => given, fun u given => given⟩
  iterate 2
    split at set
    · cases set
      exact ⟨fun u given => given, fun u given => given⟩
  iterate 2
    split at set
    · obtain ⟨field, _, rfl⟩ := map_eq_some_iff.mp set
      exact ⟨fun u given => given, fun u given => given⟩
  cases set
  exact ⟨fun u given => given, fun u given => given⟩

/-- They stay for all the parameters that follow. -/
theorem credentialParams_keeps : ∀ (n : Nat) {s : Bytes} {d e : DigestCredentials},
    s.length ≤ n → credentialParams s d = some e →
    (∀ u, d.username = some u → e.username = some u) ∧ ∀ u, d.uri = some u → e.uri = some u
  | n, s, d, e, short, read => by
    rw [credentialParams] at read
    split at read
    · cases read
      exact ⟨fun u given => given, fun u given => given⟩
    split at read
    · cases read
    · cases read
    · next name value p param =>
        split at read
        · cases read
        · next d' set =>
            split at read
            · cases read
            · next s' after =>
                have shorter := readParam_shorter param
                have le := afterParam_le after
                cases n with
                | zero => omega
                | succ n =>
                  have first := DigestCredentials.set_keeps set
                  have later := credentialParams_keeps n (by omega) read
                  exact ⟨fun u given => later.1 u (first.1 u given),
                    fun u given => later.2 u (first.2 u given)⟩

end Nmap.Ncat
