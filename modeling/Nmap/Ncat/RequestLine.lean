import Nmap.Ncat.HttpHeader

/-!
# Request lines and their URIs (`http.c`, `ncat_proxy.c`, `ncat_core.c`)

The proxy parses the line of a request, and its handlers give the host and the port of the URI
to `resolve`, which asserts that there is a host. A URI with a scheme but no `//` behind it has
none, and for the scheme `http` nothing stops it on the way (`namesHost_iff`).
-/

namespace Nmap.Ncat

open Nmap.Base

/-- `/` -/
def slash : UInt8 := 0x2f

/-- `struct uri`, with null pointers as `none` -/
structure Uri where
  scheme : Option Bytes
  host : Option Bytes
  port : Int
  path : Option Bytes
  deriving DecidableEq

def Uri.init : Uri := ⟨none, none, -1, none⟩

def isAlphaChar (c : UInt8) : Bool :=
  c ∈ ascii "abcdefghijklmnopqrstuvwxyzABCDEFGHIJKLMNOPQRSTUVWXYZ"

def isDigitChar (c : UInt8) : Bool := c ∈ ascii "0123456789"

/-- `parse_long`. `strtol` returns the nearest `long` where it sets `errno`. -/
def parseLong (s : Bytes) : Int × Bytes :=
  match s with
  | [] => (0, [])
  | c :: s => if isDigit c then strtol 10 (c :: s) else (0, c :: s)

def hexDigitValue (digit : UInt8) : Option Nat :=
  if isXDigit digit then digitValue digit else none

def percentDecode : Bytes → Option Bytes
  | [] => some []
  | c :: s =>
    if c = 0x25 then
      match s with
      | a :: b :: t =>
        match hexDigitValue a, hexDigitValue b with
        | some a, some b => (percentDecode t).map (UInt8.ofNat (a * 16 + b) :: ·)
        | _, _ => none
      | _ => none
    else (percentDecode s).map (c :: ·)

def schemeDefaultPort (scheme : Bytes) : Int := if strEqualI scheme (ascii "http") then 80 else -1

/-! ## Authorities -/

/-- The text from the last `c` on, as `strrchr` finds it, and what is in front of it -/
def splitLast (c : UInt8) (s : Bytes) : Bytes × Bytes :=
  if c ∈ s then
    let behind := (s.reverse.takeWhile (· ≠ c)).length
    (s.take (s.length - behind - 1), s.drop (s.length - behind - 1))
  else (s, [])

/-- `host_start` up to `host_end`, and the text at `portsep` -/
def authorityParts (authority : Bytes) : Option (Bytes × Bytes) :=
  match authority with
  | 0x5b :: s =>
    -- an IPv6 address in brackets
    match s.dropWhile (· ≠ 0x5d) with
    | [] => none
    | _ :: portsep =>
      if portsep = [] || portsep.head? = some colon then
        some (s.takeWhile (· ≠ 0x5d), portsep)
      else none
  | s => some (splitLast colon s)

/-- The port number at `portsep`; it is -1 if there is none. -/
def authorityPort (portsep : Bytes) : Option Int :=
  let digits := portsep.drop 1
  if digits = [] then some (-1)
  else
    let (n, tail) := parseLong digits
    if tail ≠ [] || tail = digits || n < 1 || n > 65535 then none else some n

/-- `uri_parse_authority`. What is stored as host ends where a zero byte was decoded. -/
def uriParseAuthority (uri : Uri) (authority : Bytes) : Option Uri :=
  if 0x40 ∈ authority then none
  else
    match authorityParts authority with
    | none => none
    | some (host, portsep) =>
      match authorityPort portsep with
      | none => none
      | some port =>
        (percentDecode host).map fun host =>
          { uri with host := some (host.takeWhile (· ≠ 0)), port := port }

/-! ## URIs -/

def isSchemeChar (c : UInt8) : Bool :=
  isAlphaChar c || isDigitChar c || c = 0x2b || c = 0x2d || c = 0x2e

/-- The characters up to the end of an authority -/
def inAuthority (c : UInt8) : Bool := !(c = slash || c = 0x3f || c = 0x23)

/-- `*p == '/' && *(p + 1) == '/'` -/
def hasAuthority : Bytes → Bool
  | a :: b :: _ => a = slash && b = slash
  | _ => false

/-- The part of `uri_parse` for section 3.2: the authority, if there is one, and what follows -/
def uriAuthority (uri : Uri) (p : Bytes) : Option (Uri × Bytes) :=
  if hasAuthority p then
    let p := p.drop 2
    (uriParseAuthority uri (p.takeWhile inAuthority)).map (·, p.dropWhile inAuthority)
  else some (uri, p)

def uriParse (uriS : Bytes) : Option Uri :=
  if !uriS.head?.any isAlphaChar then none
  else
    let scheme := uriS.takeWhile isSchemeChar
    match uriS.dropWhile isSchemeChar with
    | [] => none
    | c :: p =>
      if c ≠ colon then none
      else
        let scheme := scheme.map toLower
        match uriAuthority { Uri.init with scheme := some scheme } p with
        | none => none
        | some (uri, p) =>
          let port := if uri.port = -1 then schemeDefaultPort scheme else uri.port
          some { uri with port := port, path := some p }

/-! ## Request lines -/

/-- `enum http_version` -/
inductive HttpVersion
  | unknown
  | http09
  | http10
  | http11
  deriving DecidableEq

/-- `struct http_request`: what the request line says. The other fields are set later. -/
structure Request where
  method : Bytes
  uri : Uri
  version : HttpVersion
  deriving DecidableEq

/-- The loop of `parse_http_version` over digits and one dot -/
def versionChars (dot : Bool) : Bytes → Bytes × Bytes
  | [] => ([], [])
  | c :: s =>
    if isDigit c then
      let (version, rest) := versionChars dot s
      (c :: version, rest)
    else if c = 0x2e && !dot then
      let (version, rest) := versionChars true s
      (c :: version, rest)
    else ([], c :: s)

/-- `parse_http_version`, or `none` for a parse error -/
def parseHttpVersion (s : Bytes) : Option HttpVersion :=
  if !(ascii "HTTP/").isPrefixOf s then none
  else
    let (version, q) := versionChars false (s.drop 5)
    if q ≠ [] && q.head? ≠ some space && !isCrlf q then none
    else if version = ascii "1.0" then some .http10
    else if version = ascii "1.1" then some .http11
    else some .unknown

def requestMethod (line : Bytes) : Bytes := (line.dropWhile (· = space)).takeWhile isTokenChar

def behindMethod (line : Bytes) : Bytes :=
  ((line.dropWhile (· = space)).dropWhile isTokenChar).dropWhile (· = space)

def requestUri (line : Bytes) : Bytes := (behindMethod line).takeWhile (· ≠ space)

/-- The version of a request line; a line without one is of version 0.9. -/
def requestVersion (line : Bytes) : Option HttpVersion :=
  let p := ((behindMethod line).dropWhile (· ≠ space)).dropWhile (· = space)
  if p = [] || isCrlf p then some .http09 else parseHttpVersion p

/-- `http_parse_request_line`; `none` stands for the code 400. -/
def httpParseRequestLine (line : Bytes) : Option Request :=
  let method := requestMethod line
  if method = [] then none
  else if requestUri line = [] then none
  else
    let uri := if method = ascii "CONNECT" then uriParseAuthority Uri.init (requestUri line)
      else uriParse (requestUri line)
    match uri with
    | none => none
    | some uri => (requestVersion line).map fun version => ⟨method, uri, version⟩

/-! ## The handlers -/

/-- What a handler does until it is connected. The address is what `getaddrinfo` finds. -/
inductive Handled (Addr : Type)
  | code (code : Nat)
  | aborted
  | connects (addr : Addr)

def methodIsKnown (method : Bytes) : Bool :=
  method = ascii "CONNECT" || method = ascii "GET" || method = ascii "HEAD" ||
    method = ascii "POST"

/-- What `handle_connect` gives to `resolve`, or the code it returns before that -/
def connectTarget (request : Request) : Except Nat (Option Bytes × Int) :=
  if request.uri.port = -1 then .error 400 else .ok (request.uri.host, request.uri.port)

/-- What `handle_method` gives to `resolve`, or the code it returns before that -/
def methodTarget (request : Request) : Except Nat (Option Bytes × Int) :=
  if request.uri.scheme ≠ some (ascii "http") then .error 400
  else if request.uri.port = -1 then .error 400
  else .ok (request.uri.host, request.uri.port)

/-- The part of `http_server_handler` behind the header and the authentication -/
def requestTarget (request : Request) : Except Nat (Option Bytes × Int) :=
  if !methodIsKnown request.method then .error 405
  else if request.method = ascii "CONNECT" then connectTarget request
  else methodTarget request

section Resolving

variable {Addr : Type} (getaddrinfo : Bytes → Nat → Except Int Addr)

/-- `resolve`; it is `none` where the assertion of `resolve_internal` fails. -/
def resolve (hostname : Option Bytes) (port : Nat) : Option (Except Int Addr) :=
  hostname.map fun hostname => getaddrinfo hostname (port % 2 ^ 16)

/-- `handle_connect` and `handle_method`, up to the address that they connect to -/
def handleRequest (request : Request) : Handled Addr :=
  match requestTarget request with
  | .error code => .code code
  | .ok (host, port) =>
    match resolve getaddrinfo host port.toNat with
    | none => .aborted
    | some (.error _) => .code 504
    | some (.ok addr) => .connects addr

end Resolving

/-! ## Which URIs have a host -/

theorem uriParseAuthority_some {uri parsed : Uri} {authority : Bytes}
    (parse : uriParseAuthority uri authority = some parsed) :
    parsed.host ≠ none ∧ parsed.scheme = uri.scheme := by
  unfold uriParseAuthority at parse
  split at parse
  · cases parse
  split at parse
  · cases parse
  split at parse
  · cases parse
  · obtain ⟨host, -, eq⟩ := Option.map_eq_some_iff.mp parse
    cases eq
    exact ⟨nofun, rfl⟩

/-- What is behind the scheme and its colon -/
def behindScheme (uriS : Bytes) : Bytes := (uriS.dropWhile isSchemeChar).drop 1

/-- A URI has its scheme in lower case, and a host if `//` follows the scheme. Without that it
has the default port of the scheme. -/
theorem uriParse_some {uriS : Bytes} {uri : Uri} (parse : uriParse uriS = some uri) :
    uri.scheme = some ((uriS.takeWhile isSchemeChar).map toLower) ∧
      (hasAuthority (behindScheme uriS) = true ∧ uri.host ≠ none ∨
        hasAuthority (behindScheme uriS) = false ∧ uri.host = none ∧
          uri.port = schemeDefaultPort ((uriS.takeWhile isSchemeChar).map toLower)) := by
  unfold uriParse at parse
  unfold behindScheme
  split at parse
  · cases parse
  dsimp only at parse
  split at parse
  · cases parse
  · next c p eq =>
      rw [eq, List.drop_one, List.tail_cons]
      split at parse
      · cases parse
      split at parse
      · cases parse
      · next uri' p' authority =>
          cases parse
          unfold uriAuthority at authority
          split at authority
          · next has =>
              obtain ⟨parsed, parse, pair⟩ := Option.map_eq_some_iff.mp authority
              cases pair
              obtain ⟨host, scheme⟩ := uriParseAuthority_some parse
              exact ⟨scheme, .inl ⟨has, host⟩⟩
          · next no =>
              cases authority
              exact ⟨rfl, .inr ⟨by simpa using no, rfl, rfl⟩⟩

theorem httpParseRequestLine_some {line : Bytes} {request : Request}
    (parse : httpParseRequestLine line = some request) :
    request.method = requestMethod line ∧
      (requestMethod line = ascii "CONNECT" ∧
          uriParseAuthority Uri.init (requestUri line) = some request.uri ∨
        requestMethod line ≠ ascii "CONNECT" ∧ uriParse (requestUri line) = some request.uri) := by
  unfold httpParseRequestLine at parse
  dsimp only at parse
  split at parse
  · cases parse
  split at parse
  · cases parse
  split at parse
  · cases parse
  · next uri parsed =>
      obtain ⟨version, -, eq⟩ := Option.map_eq_some_iff.mp parse
      cases eq
      refine ⟨rfl, ?_⟩
      split at parsed
      · next connect => exact .inl ⟨connect, parsed⟩
      · next other => exact .inr ⟨other, parsed⟩

/-- A request line for one of the methods that take a whole URI, with a URI of the scheme `http`
that has no `//` behind the scheme -/
def Hostless (line : Bytes) : Prop :=
  requestMethod line ∈ [ascii "GET", ascii "HEAD", ascii "POST"] ∧
    strEqualI ((requestUri line).takeWhile isSchemeChar) (ascii "http") = true ∧
    hasAuthority (behindScheme (requestUri line)) = false

/-- The scheme `http` in any case is `http` in lower case. -/
theorem strEqualI_http (scheme : Bytes) :
    strEqualI scheme (ascii "http") = true ↔ scheme.map toLower = ascii "http" := by
  unfold strEqualI
  rw [decide_eq_true_eq, show (ascii "http").map toLower = ascii "http" by decide]

theorem mem_methods {method : Bytes} (known : methodIsKnown method = true)
    (other : method ≠ ascii "CONNECT") : method ∈ [ascii "GET", ascii "HEAD", ascii "POST"] := by
  simpa [methodIsKnown, other, or_assoc] using known

/-- What is given to `resolve` without a host -/
theorem requestTarget_hostless {line : Bytes} {request : Request}
    (parse : httpParseRequestLine line = some request) :
    (∃ port, requestTarget request = .ok (none, port)) ↔ Hostless line := by
  obtain ⟨method, uri⟩ := httpParseRequestLine_some parse
  unfold requestTarget
  rw [method]
  constructor
  · rintro ⟨port, target⟩
    split at target
    · cases target
    · next known =>
        rw [Bool.not_eq_true', Bool.not_eq_false] at known
        split at target
        · next connect =>
            rcases uri with ⟨-, authority⟩ | ⟨other, -⟩
            · have host := (uriParseAuthority_some authority).1
              unfold connectTarget at target
              split at target
              · cases target
              · exact absurd (Prod.mk.inj (Except.ok.inj target)).1 host
            · exact absurd connect other
        · next other =>
            rcases uri with ⟨connect, -⟩ | ⟨-, parsed⟩
            · exact absurd connect other
            · obtain ⟨scheme, host⟩ := uriParse_some parsed
              unfold methodTarget at target
              split_ifs at target with http bound
              have none_ := (Prod.mk.inj (Except.ok.inj target)).1
              refine ⟨mem_methods known other, ?_, ?_⟩
              · rw [strEqualI_http]
                rw [scheme] at http
                simpa using http
              · rcases host with ⟨-, some_⟩ | ⟨no, -⟩
                · exact absurd none_ some_
                · exact no
  · rintro ⟨member, http, no⟩
    have known : methodIsKnown (requestMethod line) = true := by
      unfold methodIsKnown
      simp only [List.mem_cons, List.not_mem_nil, or_false] at member
      rcases member with eq | eq | eq <;> rw [eq] <;> decide
    have other : requestMethod line ≠ ascii "CONNECT" := by
      intro eq
      rw [eq] at member
      revert member
      decide
    rcases uri with ⟨connect, -⟩ | ⟨-, parsed⟩
    · exact absurd connect other
    · obtain ⟨scheme, host⟩ := uriParse_some parsed
      have lower := (strEqualI_http _).mp http
      rcases host with ⟨has, -⟩ | ⟨-, host, port⟩
      · rw [has] at no
        cases no
      · rw [lower] at scheme port
        have eighty : request.uri.port = 80 := port.trans (by decide)
        refine ⟨80, ?_⟩
        rw [if_neg (by simp [known]), if_neg other, methodTarget, if_neg (by simp [scheme]),
          if_neg (by omega), host, eighty]

/-- **When a request names a host.** For every request line that is parsed, `resolve` is only
given a host, and its assertion cannot fail, exactly when the line is not one for a whole URI of
the scheme `http` without `//`. -/
theorem namesHost_iff {Addr : Type} (getaddrinfo : Bytes → Nat → Except Int Addr)
    {line : Bytes} {request : Request} (parse : httpParseRequestLine line = some request) :
    ((∀ host port, requestTarget request = .ok (host, port) → host ≠ none) ∧
      handleRequest getaddrinfo request ≠ .aborted) ↔ ¬ Hostless line := by
  rw [← requestTarget_hostless parse]
  constructor
  · rintro ⟨named, -⟩ ⟨port, target⟩
    exact named none port target rfl
  · intro named
    have hosts : ∀ host port, requestTarget request = .ok (host, port) → host ≠ none := by
      rintro host port target rfl
      exact named ⟨port, target⟩
    refine ⟨hosts, ?_⟩
    intro aborts
    unfold handleRequest at aborts
    split at aborts
    · cases aborts
    · next host port target =>
        obtain ⟨name, rfl⟩ := Option.ne_none_iff_exists'.mp (hosts host port target)
        cases found : getaddrinfo name (port.toNat % 2 ^ 16) with
        | error code =>
          simp only [resolve, Option.map_some, found] at aborts
          cases aborts
        | ok addr =>
          simp only [resolve, Option.map_some, found] at aborts
          cases aborts

def getAbsolute : Bytes := ascii "GET http://a/x HTTP/1.0\r\n"

def getHostless : Bytes := ascii "GET http:/x HTTP/1.0\r\n"

theorem namesHost_absolute :
    (∀ request ∈ httpParseRequestLine getAbsolute,
      requestTarget request = .ok (some (ascii "a"), 80)) ∧
    ∃ request, httpParseRequestLine getAbsolute = some request ∧
      handleRequest (fun _ _ => Except.ok ()) request ≠ .aborted := by
  have parse : httpParseRequestLine getAbsolute =
      some ⟨ascii "GET", ⟨some (ascii "http"), some (ascii "a"), 80, some (ascii "/x")⟩,
        .http10⟩ := by decide +kernel
  refine ⟨?_, _, parse, ?_⟩
  · rw [parse]
    rintro request ⟨⟩
    rfl
  · refine ((namesHost_iff _ parse).mpr ?_).2
    rintro ⟨-, -, no⟩
    revert no
    decide +kernel

theorem namesHost_hostless :
    httpParseRequestLine getHostless =
      some ⟨ascii "GET", ⟨some (ascii "http"), none, 80, some (ascii "/x")⟩, .http10⟩ ∧
    requestTarget ⟨ascii "GET", ⟨some (ascii "http"), none, 80, some (ascii "/x")⟩, .http10⟩ =
      .ok (none, 80) ∧
    (resolve (fun _ _ => Except.ok ()) none 80).isNone = true := by
  refine ⟨by decide +kernel, by rfl, by rfl⟩

end Nmap.Ncat
