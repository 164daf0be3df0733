import Nmap.Ncat.HttpAuth
import Nmap.Base.CString

/-!
# Digest authentication (`http_digest.c`)

The server sends a nonce in a challenge, and the client hashes its name, its password and the
URI with it. The name and the URI go through a quoted string and a header line before the server
hashes them. What the server reads of them is `readBack`, and it is what the client wrote when
there is no double quote in it and no two spaces in a row.
-/

namespace Nmap.Ncat

open Nmap.Base

/-- MD5 -/
abbrev Md5 := Bytes → Vector UInt8 16

structure Timeval where
  sec : Nat
  usec : Nat
  deriving DecidableEq

/-- What `gettimeofday` gives -/
structure Clock extends Timeval where
  sec_lt : sec < 2 ^ 64
  usec_lt : usec < 1000000

/-! ## Writing -/

def appendQuotedString (s : Bytes) : Bytes :=
  quote :: s.flatMap (fun c => if isCtlChar c || c = backslash then [backslash, c] else [c]) ++
    [quote]

/-- A digit of `%02x` -/
def hexDigit (n : Nat) : UInt8 := UInt8.ofNat (if n < 10 then 0x30 + n else 0x57 + n)

def enhex (src : Bytes) : Bytes :=
  src.flatMap fun c => [hexDigit (c.toNat / 16), hexDigit (c.toNat % 16)]

/-- `time_buf` of `make_nonce`, of 32 bytes -/
def timeText (tv : Timeval) : Bytes :=
  (decimal tv.sec ++ ascii "." ++ zeroPadded 6 tv.usec).take 31

def makeNonce (md5 : Md5) (secret : Vector UInt8 16) (tv : Timeval) : Bytes :=
  timeText tv ++ ascii "-" ++ enhex (md5 (secret.toList ++ ascii ":" ++ timeText tv)).toList

def makeResponse (md5 : Md5) (username realm password method uri nonce : Bytes) (qop : DigestQop)
    (nc cnonce : Bytes) : Bytes :=
  let ha1 := enhex (md5 (username ++ ascii ":" ++ realm ++ ascii ":" ++ password)).toList
  let ha2 := enhex (md5 (method ++ ascii ":" ++ uri)).toList
  let counted := if qop = .auth then ascii ":" ++ nc ++ ascii ":" ++ cnonce ++ ascii ":auth" else []
  enhex (md5 (ha1 ++ ascii ":" ++ nonce ++ counted ++ ascii ":" ++ ha2)).toList

def httpDigestNonceTime (nonce : Bytes) : Option Timeval :=
  match scanUnsigned nonce with
  | none => none
  | some (_, []) => none
  | some (sec, c :: s) =>
    if c = 0x2e then (scanUnsigned s).map fun (usec, _) => ⟨sec, usec⟩ else none

def httpDigestProxyAuthenticate (md5 : Md5) (secret : Vector UInt8 16) (now : Timeval)
    (realm : Bytes) (stale : Bool) : Bytes :=
  ascii "Digest realm=" ++ appendQuotedString realm ++
    ascii ", nonce=" ++ appendQuotedString (makeNonce md5 secret now) ++
    ascii ", qop=\"auth\"" ++ if stale then ascii ", stale=true" else []

/-- `http_digest_proxy_authorization`, with the client nonce it draws -/
def httpDigestProxyAuthorization (md5 : Md5) (cnonce : Vector UInt8 8) (challenge : Challenge)
    (username password method uri : Bytes) : Option Bytes :=
  if challenge.scheme ≠ .digest || challenge.algorithm ≠ .md5 then none
  else
    match challenge.realm, challenge.nonce with
    | some realm, some nonce =>
      let qop := if challenge.qopAuth then DigestQop.auth else .none
      let nc := ascii "00000001"
      let cnonceBuf := enhex cnonce.toList
      some (ascii " Digest" ++ ascii " username=" ++ appendQuotedString username ++
        ascii ", realm=" ++ appendQuotedString realm ++
        ascii ", nonce=" ++ appendQuotedString nonce ++
        ascii ", uri=" ++ appendQuotedString uri ++
        (if qop = .auth then ascii ", qop=auth" ++ ascii ", cnonce=" ++
          appendQuotedString cnonceBuf ++ ascii ", nc=" ++ nc else []) ++
        ascii ", response=" ++ appendQuotedString
          (makeResponse md5 username realm password method uri nonce qop nc cnonceBuf) ++
        (match challenge.opaqueData with
        | some opaqueData => ascii ", opaque=" ++ appendQuotedString opaqueData
        | none => []) ++
        ascii "\r\n")
    | _, _ => none

def httpDigestCheckCredentials (md5 : Md5) (secret : Vector UInt8 16)
    (username realm password method : Bytes) : Credentials → Bool
  | .digest ⟨some username', some realm', some nonce, some uri, some response, .md5, qop, nc,
      cnonce⟩ =>
      if qop = .authInt then false
      else if qop = .auth && (nc.isNone || cnonce.isNone) then false
      else if username ≠ username' || realm ≠ realm' then false
      else
        match httpDigestNonceTime nonce with
        | none => false
        | some tv =>
          -- Otherwise we could not have handed out this nonce.
          makeNonce md5 secret tv = nonce &&
            makeResponse md5 username' realm password method uri nonce qop (nc.getD [])
              (cnonce.getD []) = response
  | _ => false

/-! ## A login -/

/-- The header that `send_proxy_authenticate` sends behind the status line -/
def sendProxyAuthenticate (md5 : Md5) (secret : Vector UInt8 16) (now : Timeval) (stale : Bool) :
    Bytes :=
  ascii "Proxy-Authenticate: Basic realm=\"Ncat\"\r\n" ++
    ascii "Proxy-Authenticate: " ++
    httpDigestProxyAuthenticate md5 secret now (ascii "Ncat") stale ++ ascii "\r\n" ++ ascii "\r\n"

/-- The client reads the challenge in the server's header and answers it with a CONNECT request,
and the server checks the answer. -/
def login (md5 : Md5) (secret : Vector UInt8 16) (now : Timeval) (stale : Bool)
    (cnonce : Vector UInt8 8) (username password uri : Bytes) : Option Bool := do
  let header ← httpParseHeader (sendProxyAuthenticate md5 secret now stale)
  let challenge ← httpHeaderGetProxyChallenge header
  let response ← httpDigestProxyAuthorization md5 cnonce challenge username password
    (ascii "CONNECT") uri
  let request ← httpParseHeader (ascii "Proxy-Authorization:" ++ response ++ ascii "\r\n")
  let credentials ← httpHeaderGetProxyCredentials request
  pure (httpDigestCheckCredentials md5 secret username (ascii "Ncat") password (ascii "CONNECT")
    credentials)

end Nmap.Ncat
