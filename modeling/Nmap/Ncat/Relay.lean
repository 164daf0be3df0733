import Nmap.Base.TSys
import Nmap.Ncat.SocketBuffer

/-!
# Relaying (`ncat_proxy.c`)

`handle_connect` passes blocks in both directions of a tunnel, and `do_transaction` passes the
body of a request and the body of its response. Each send is made once: when it hands over less
than the whole block, the rest of the block is dropped and the next block follows.
-/

namespace Nmap.Ncat

open Nmap.Base List

/-! ## Sending blocks -/

/-- What one `send` comes to: how many bytes were handed over, or an error -/
inductive Sent
  | bytes (k : Nat)
  | eintr
  | error

/-- A block, and how many bytes of it a send handed over -/
structure Transfer where
  block : Bytes
  sent : Nat

/-- The blocks of one direction so far, in order -/
def taken (log : List Transfer) : Bytes := log.flatMap Transfer.block

/-- The bytes handed over in one direction -/
def handed (log : List Transfer) : Bytes := log.flatMap fun t => t.block.take t.sent

/-- All of the blocks were handed over. -/
def Complete (log : List Transfer) : Prop := ∀ t ∈ log, t.block.length ≤ t.sent

/-- A send hands over bytes only if everything before was handed over. -/
def InOrder (log : List Transfer) : Sent → Prop
  | .bytes k => k = 0 ∨ Complete log
  | _ => True

theorem taken_snoc (log : List Transfer) (t : Transfer) :
    taken (log ++ [t]) = taken log ++ t.block := by
  simp [taken]

theorem handed_snoc (log : List Transfer) (t : Transfer) :
    handed (log ++ [t]) = handed log ++ t.block.take t.sent := by
  simp [handed]

variable {log : List Transfer}

theorem handed_of_complete (complete : Complete log) :
    handed log = taken log := by
  induction log with
  | nil => rfl
  | cons t log ih =>
    have rest := ih fun u mem => complete u (mem_cons_of_mem _ mem)
    have whole := take_of_length_le (complete t mem_cons_self)
    unfold handed taken at *
    rw [flatMap_cons, flatMap_cons, rest, whole]

theorem handed_prefix_snoc {block : Bytes} {k : Nat} (faithful : handed log <+: taken log)
    (in_order : InOrder log (.bytes k)) :
    handed (log ++ [⟨block, k⟩]) <+: taken (log ++ [⟨block, k⟩]) := by
  rw [handed_snoc, taken_snoc]
  rcases in_order with rfl | complete
  · rw [take_zero, append_nil]
    exact faithful.trans (prefix_append _ _)
  · rw [handed_of_complete complete]
    exact (prefix_append_right_inj _).mpr (List.take_prefix _ _)

/-! ## The tunnel of `handle_connect` -/

/-- Where the tunnel is: sending what the client sent behind the header, at `select`, or at a
read or a send with its block. `origin` says that the other socket is set too. -/
inductive TunnelPhase
  | leftover (line : Bytes)
  | select
  | clientRecv (origin : Bool)
  | originSend (block : Bytes) (origin : Bool)
  | clientPending (origin : Bool)
  | originRecv
  | clientSend (block : Bytes)
  | ended

/-- The tunnel after the 200 line, with the blocks passed on in each direction -/
structure Tunnel where
  phase : TunnelPhase
  up : List Transfer
  down : List Transfer

/-- What happens to the tunnel: `select` returns with these sockets set, the loop ends at an
error number, a read, a send, or the answer of `fdinfo_pending` -/
inductive TunnelEvent
  | select (client origin : Bool)
  | stop
  | recv (r : Recv)
  | sent (s : Sent)
  | pending (more : Bool)

/-- After the client's socket was served -/
def afterClient (origin : Bool) : TunnelPhase := if origin then .originRecv else .select

/-- The body of `handle_connect` after the 200 line -/
def Tunnel.step (t : Tunnel) : TunnelEvent → Option Tunnel
  | .select client origin =>
    match t.phase with
    | .select =>
      some { t with phase := if client then .clientRecv origin else afterClient origin }
    | _ => none
  | .stop =>
    match t.phase with
    | .select => some { t with phase := .ended }
    | _ => none
  | .recv r =>
    match t.phase, r with
    | .clientRecv _, .eintr => some t
    | .clientRecv origin, .data block _ => some { t with phase := .originSend block origin }
    | .clientRecv _, _ => some { t with phase := .ended }
    | .originRecv, .eintr => some t
    | .originRecv, .data block _ => some { t with phase := .clientSend block }
    | .originRecv, _ => some { t with phase := .ended }
    | _, _ => none
  | .sent s =>
    match t.phase, s with
    | .leftover line, .bytes k =>
      if k ≤ line.length then some { t with phase := .select, up := t.up ++ [⟨line, k⟩] }
      else none
    -- An interrupted send is not tried again here.
    | .leftover line, _ => some { t with phase := .ended, up := t.up ++ [⟨line, 0⟩] }
    | .originSend block origin, .bytes k =>
      if k ≤ block.length then
        some { t with phase := .clientPending origin, up := t.up ++ [⟨block, k⟩] }
      else none
    | .originSend _ _, .eintr => some t
    | .originSend block _, .error =>
      some { t with phase := .ended, up := t.up ++ [⟨block, 0⟩] }
    | .clientSend block, .bytes k =>
      if k ≤ block.length then
        some { t with phase := .select, down := t.down ++ [⟨block, k⟩] }
      else none
    | .clientSend _, .eintr => some t
    | .clientSend block, .error =>
      some { t with phase := .ended, down := t.down ++ [⟨block, 0⟩] }
    | _, _ => none
  | .pending more =>
    match t.phase with
    | .clientPending origin =>
      some { t with phase := if more then .clientRecv origin else afterClient origin }
    | _ => none

/-- The runs of a tunnel: they start with what is left in the client's buffer. -/
def tunnel : Machine Tunnel TunnelEvent where
  init t := ∃ line, t = ⟨.leftover line, [], []⟩
  step := Tunnel.step

/-- The bytes received from the client after the header: those passed on, and the block that
waits to be -/
def Tunnel.fromClient (t : Tunnel) : Bytes :=
  taken t.up ++
    match t.phase with
    | .leftover line => line
    | .originSend block _ => block
    | _ => []

def Tunnel.fromOrigin (t : Tunnel) : Bytes :=
  taken t.down ++
    match t.phase with
    | .clientSend block => block
    | _ => []

/-- What was handed to each side is a prefix of what was received from the other. -/
def Tunnel.Faithful (t : Tunnel) : Prop :=
  handed t.up <+: t.fromClient ∧ handed t.down <+: t.fromOrigin

/-- The condition on a step of the tunnel -/
def Tunnel.Careful (t : Tunnel) : TunnelEvent → Prop
  | .sent s =>
    match t.phase with
    | .originSend _ _ => InOrder t.up s
    | .clientSend _ => InOrder t.down s
    | _ => True
  | _ => True

theorem handed_prefix_failed (faithful : handed log <+: taken log) (block : Bytes) : handed
    (log ++ [⟨block, 0⟩]) <+: taken (log ++ [⟨block, 0⟩]) :=
  handed_prefix_snoc faithful (.inl rfl)

/-- What every step of the tunnel keeps -/
structure Tunnel.Kept (t : Tunnel) : Prop where
  up : handed t.up <+: taken t.up
  down : handed t.down <+: taken t.down
  fresh : ∀ line, t.phase = .leftover line → t.up = []

theorem Tunnel.Kept.faithful {t : Tunnel} (kept : t.Kept) : t.Faithful :=
  ⟨kept.up.trans (prefix_append _ _), kept.down.trans (prefix_append _ _)⟩

theorem Tunnel.Kept.phase {t : Tunnel} (kept : t.Kept) {phase : TunnelPhase}
    (past : ∀ line, phase ≠ .leftover line) : ({ t with phase := phase } : Tunnel).Kept :=
  ⟨kept.up, kept.down, fun line eq => absurd eq (past line)⟩

theorem afterClient_past (origin : Bool) (line : Bytes) : afterClient origin ≠ .leftover line := by
  cases origin <;> exact TunnelPhase.noConfusion

theorem Tunnel.step_kept {t t' : Tunnel} {e : TunnelEvent} (kept : t.Kept) (careful : t.Careful e)
    (step : t.step e = some t') : t'.Kept := by
  obtain ⟨phase, up, down⟩ := t
  cases e with
  | select client origin =>
    cases phase <;> cases step
    refine kept.phase fun line => ?_
    cases client
    · exact afterClient_past origin line
    · exact TunnelPhase.noConfusion
  | stop =>
    cases phase <;> cases step
    exact kept.phase fun _ => TunnelPhase.noConfusion
  | recv r =>
    cases phase <;> cases r <;> cases step
    all_goals first
      | exact kept
      | exact kept.phase fun _ => TunnelPhase.noConfusion
  | pending more =>
    cases phase <;> cases step
    refine kept.phase fun line => ?_
    cases more
    · exact afterClient_past _ line
    · exact TunnelPhase.noConfusion
  | sent s =>
    obtain ⟨up_kept, down_kept, fresh⟩ := kept
    cases phase with
    | leftover line =>
      obtain rfl : up = [] := fresh line rfl
      have first : InOrder [] s := by
        cases s with
        | bytes k => exact .inr fun _ mem => absurd mem not_mem_nil
        | eintr => trivial
        | error => trivial
      cases s with
      | bytes k =>
        dsimp only [Tunnel.step] at step
        split at step <;> cases step
        exact ⟨handed_prefix_snoc up_kept first, down_kept, fun _ eq => by cases eq⟩
      | eintr =>
        cases step
        exact ⟨handed_prefix_failed up_kept _, down_kept, fun _ eq => by cases eq⟩
      | error =>
        cases step
        exact ⟨handed_prefix_failed up_kept _, down_kept, fun _ eq => by cases eq⟩
    | originSend block origin =>
      cases s with
      | bytes k =>
        dsimp only [Tunnel.step] at step
        split at step <;> cases step
        exact ⟨handed_prefix_snoc up_kept careful, down_kept, fun _ eq => by cases eq⟩
      | eintr =>
        cases step
        exact ⟨up_kept, down_kept, fun _ eq => by cases eq⟩
      | error =>
        cases step
        exact ⟨handed_prefix_failed up_kept _, down_kept, fun _ eq => by cases eq⟩
    | clientSend block =>
      cases s with
      | bytes k =>
        dsimp only [Tunnel.step] at step
        split at step <;> cases step
        exact ⟨up_kept, handed_prefix_snoc down_kept careful, fun _ eq => by cases eq⟩
      | eintr =>
        cases step
        exact ⟨up_kept, down_kept, fun _ eq => by cases eq⟩
      | error =>
        cases step
        exact ⟨up_kept, handed_prefix_failed down_kept _, fun _ eq => by cases eq⟩
    | select => cases step
    | clientRecv origin => cases step
    | clientPending origin => cases step
    | originRecv => cases step
    | ended => cases step

theorem tunnel_faithful {t : Tunnel} (reach : (tunnel.guarded Tunnel.Careful).Reachable t) :
    t.Faithful := by
  refine (TSys.Inductive.holds (P := Tunnel.Kept) ⟨?init, ?step⟩ reach).faithful
  case init =>
    rintro _ ⟨line, rfl⟩
    exact ⟨prefix_rfl, prefix_rfl, fun _ _ => rfl⟩
  case step =>
    rintro s t kept ⟨e, careful, step⟩
    exact Tunnel.step_kept kept careful step

/-! ## The bodies of `do_transaction` -/

def bufsiz : Nat := 8192

/-- Where a transaction is -/
inductive TransactionPhase
  | request
  | body
  | bodySend (block : Bytes)
  | response
  | answer
  | answerSend (block : Bytes)
  | ended

/-- A transaction from the send of the request on. `fromClient` and `fromOrigin` are what was
received of the two bodies, the bytes that were in the buffers at their beginning included. -/
structure Transaction where
  phase : TransactionPhase
  contentLength : Nat
  bytesTransferred : Nat
  client : SocketBuffer
  fromClient : Bytes
  up : List Transfer
  answerLength : Option Nat
  answerTransferred : Nat
  server : SocketBuffer
  fromOrigin : Bytes
  down : List Transfer

/-- What happens to a transaction: a send, a read with the results of `recv` it uses up, or the
header of the response, read with this much of the body behind it and passed on, or not -/
inductive TransactionEvent
  | sent (s : Sent)
  | read (rs : List Recv)
  | answered (length : Option Nat) (server : SocketBuffer)
  | failed

/-- The condition of the loop over the body of the request -/
def bodyLoop (bytesTransferred contentLength : Nat) : TransactionPhase :=
  if bytesTransferred < contentLength then .body else .response

/-- The condition of the loop over the body of the response -/
def answerLoop (answerTransferred : Nat) (answerLength : Option Nat) : TransactionPhase :=
  match answerLength with
  | none => .answer
  | some length => if answerTransferred < length then .answer else .ended

/-- How much of the response is asked for at a time -/
def answerCount (answerTransferred : Nat) (answerLength : Option Nat) : Nat :=
  match answerLength with
  | none => bufsiz
  | some length =>
    if length - answerTransferred < bufsiz then length - answerTransferred else bufsiz

/-- `do_transaction` from the send of the request on -/
def Transaction.step (t : Transaction) : TransactionEvent → Option Transaction
  | .sent s =>
    match t.phase, s with
    | .request, .bytes _ => some { t with phase := bodyLoop t.bytesTransferred t.contentLength }
    | .request, _ => some { t with phase := .ended }
    | .bodySend block, .bytes k =>
      if k ≤ block.length then
        some { t with
          phase := bodyLoop t.bytesTransferred t.contentLength
          up := t.up ++ [⟨block, k⟩] }
      else none
    | .bodySend block, _ => some { t with phase := .ended, up := t.up ++ [⟨block, 0⟩] }
    | .answerSend block, .bytes k =>
      if k ≤ block.length then
        some { t with
          phase := answerLoop t.answerTransferred t.answerLength
          down := t.down ++ [⟨block, k⟩] }
      else none
    | .answerSend block, _ => some { t with phase := .ended, down := t.down ++ [⟨block, 0⟩] }
    | _, _ => none
  | .read rs =>
    match t.phase with
    | .body =>
      match
        socketBufferRead (min bufsiz (t.contentLength - t.bytesTransferred)) t.client rs with
      | some ⟨reply, _, buf, []⟩ =>
        let t := { t with client := buf, fromClient := t.fromClient ++ received rs }
        match reply with
        | .bytes [] => some { t with phase := .response }
        | .bytes out => some { t with
            phase := .bodySend out
            bytesTransferred := t.bytesTransferred + out.length }
        | .nothing i => some { t with phase := if i < 0 then .ended else .response }
        | _ => none
      | _ => none
    | .answer =>
      match socketBufferRead (answerCount t.answerTransferred t.answerLength) t.server rs with
      | some ⟨reply, _, buf, []⟩ =>
        let t := { t with server := buf, fromOrigin := t.fromOrigin ++ received rs }
        match reply with
        | .bytes [] => some { t with phase := .ended }
        | .bytes out => some { t with
            phase := .answerSend out
            answerTransferred := t.answerTransferred + out.length }
        | .nothing _ => some { t with phase := .ended }
        | _ => none
      | _ => none
    | _ => none
  | .answered length server =>
    match t.phase with
    | .response =>
      some { t with
        phase := answerLoop 0 length
        answerLength := length
        server := server
        fromOrigin := server.available }
    | _ => none
  | .failed =>
    match t.phase with
    | .response => some { t with phase := .ended }
    | _ => none

/-- A transaction whose request is about to be sent, with this much left in the client's
buffer -/
def Transaction.start (contentLength : Nat) (client : SocketBuffer) : Transaction where
  phase := .request
  contentLength := contentLength
  bytesTransferred := 0
  client := client
  fromClient := client.available
  up := []
  answerLength := none
  answerTransferred := 0
  server := socketBufferInit
  fromOrigin := []
  down := []

def transaction : Machine Transaction TransactionEvent where
  init t := ∃ contentLength client, t = .start contentLength client
  step := Transaction.step

/-- What was handed of each body is a prefix of what was received of it. -/
def Transaction.Faithful (t : Transaction) : Prop :=
  handed t.up <+: t.fromClient ∧ handed t.down <+: t.fromOrigin

/-- The condition on a step of a transaction -/
def Transaction.Careful (t : Transaction) : TransactionEvent → Prop
  | .sent s =>
    match t.phase with
    | .bodySend _ => InOrder t.up s
    | .answerSend _ => InOrder t.down s
    | _ => True
  | _ => True

theorem refill_read {size : Nat} {fail : Bytes → Int → Reply}
    (no_bytes : ∀ taken i out, fail taken i ≠ .bytes out) : ∀ (rs : List Recv) {buf : SocketBuffer}
    {r : Returned} {out : Bytes}, refill (readPass size) fail rs [] buf = some r → r.rest = [] →
      r.reply = .bytes out → out ++ r.buf.available = received rs
  | .eintr :: rs, buf, r, out, run, used, reply => refill_read no_bytes rs run used reply
  | .eof :: rs, buf, r, out, run, used, reply => by
    cases run
    exact absurd reply (no_bytes _ _ _)
  | .error :: rs, buf, r, out, run, used, reply => by
    cases run
    exact absurd reply (no_bytes _ _ _)
  | .data block some_byte :: rs, buf, r, out, run, used, reply => by
    cases run
    obtain rfl : rs = [] := used
    cases reply
    exact (take_append_drop _ block).trans (append_nil block).symm

theorem socketBufferRead_bytes {size : Nat} {buf : SocketBuffer} {rs : List Recv} {r : Returned}
    {out : Bytes} (run : socketBufferRead size buf rs = some r) (used : r.rest = [])
    (reply : r.reply = .bytes out) :
    out ++ r.buf.available = buf.available ++ received rs := by
  unfold socketBufferRead readLoop at run
  split at run
  · next drained =>
      rw [show buf.available = [] from drop_eq_nil_of_le drained]
      exact refill_read (fun _ _ _ eq => by cases eq) rs run used reply
  · cases run
    cases reply
    obtain rfl : rs = [] := used
    unfold SocketBuffer.available
    rw [nil_append, ← drop_drop, take_append_drop]
    exact (append_nil _).symm

/-- How the body of the request stands: passed on, waiting to be, or still in the buffer -/
def Transaction.ClientBooks (t : Transaction) : Prop :=
  match t.phase with
  | .request | .body => taken t.up ++ t.client.available = t.fromClient
  | .bodySend block => taken t.up ++ block ++ t.client.available = t.fromClient
  | _ => taken t.up <+: t.fromClient

/-- How the body of the response stands -/
def Transaction.OriginBooks (t : Transaction) : Prop :=
  match t.phase with
  | .answer => taken t.down ++ t.server.available = t.fromOrigin
  | .answerSend block => taken t.down ++ block ++ t.server.available = t.fromOrigin
  | .ended => taken t.down <+: t.fromOrigin
  | _ => t.down = []

/-- What every step of a transaction keeps -/
structure Transaction.Kept (t : Transaction) : Prop where
  up : handed t.up <+: taken t.up
  down : handed t.down <+: taken t.down
  client : t.ClientBooks
  origin : t.OriginBooks

variable {t : Transaction}

theorem Transaction.Kept.faithful (kept : t.Kept) : t.Faithful := by
  obtain ⟨up, down, client, origin⟩ := kept
  have client_prefix : taken t.up <+: t.fromClient := by
    unfold ClientBooks at client
    split at client
    · exact ⟨_, client⟩
    · exact ⟨_, client⟩
    · exact ⟨_, by rw [← append_assoc]; exact client⟩
    · exact client
  have origin_prefix : taken t.down <+: t.fromOrigin := by
    unfold OriginBooks at origin
    split at origin
    · exact ⟨_, origin⟩
    · exact ⟨_, by rw [← append_assoc]; exact origin⟩
    · exact origin
    · rw [origin]
      exact nil_prefix
  exact ⟨up.trans client_prefix, down.trans origin_prefix⟩

variable {a : Nat}

theorem clientBooks_bodyLoop {b : Nat} (phase : t.phase = bodyLoop a b)
    (books : taken t.up ++ t.client.available = t.fromClient) : t.ClientBooks := by
  unfold bodyLoop at phase
  unfold Transaction.ClientBooks
  split at phase <;> rw [phase]
  · exact books
  · exact ⟨_, books⟩

theorem originBooks_bodyLoop {b : Nat} (phase : t.phase = bodyLoop a b) (none_yet : t.down = []) :
    t.OriginBooks := by
  unfold bodyLoop at phase
  unfold Transaction.OriginBooks
  split at phase <;> rw [phase] <;> exact none_yet

theorem answerLoop_cases (a : Nat) (length : Option Nat) :
    answerLoop a length = .answer ∨ answerLoop a length = .ended := by
  unfold answerLoop
  cases length with
  | none => exact .inl rfl
  | some n =>
    dsimp only
    split
    · exact .inl rfl
    · exact .inr rfl

theorem clientBooks_answerLoop {length : Option Nat} (phase : t.phase = answerLoop a length)
    (books : taken t.up <+: t.fromClient) :
    t.ClientBooks := by
  unfold Transaction.ClientBooks
  rcases answerLoop_cases a length with eq | eq <;> rw [phase, eq] <;> exact books

theorem originBooks_answerLoop {length : Option Nat} (phase : t.phase = answerLoop a length)
    (books : taken t.down ++ t.server.available = t.fromOrigin) : t.OriginBooks := by
  unfold Transaction.OriginBooks
  rcases answerLoop_cases a length with eq | eq <;> rw [phase, eq]
  · exact books
  · exact ⟨_, books⟩

variable {t' : Transaction}

/-- A send of a transaction -/
theorem Transaction.sent_kept {s : Sent} (kept : t.Kept) (careful : t.Careful (.sent s))
    (step : t.step (.sent s) = some t') : t'.Kept := by
  obtain ⟨phase, contentLength, transferred, client, fromClient, up, answerLength,
    answerTransferred, server, fromOrigin, down⟩ := t
  obtain ⟨up_kept, down_kept, client_books, origin_books⟩ := kept
  cases phase with
  | request =>
    have ended : taken up <+: fromClient := ⟨_, client_books⟩
    have nothing : taken down <+: fromOrigin := by
      rw [show down = [] from origin_books]
      exact nil_prefix
    cases s <;> cases step
    · exact ⟨up_kept, down_kept, clientBooks_bodyLoop rfl client_books,
        originBooks_bodyLoop rfl origin_books⟩
    · exact ⟨up_kept, down_kept, ended, nothing⟩
    · exact ⟨up_kept, down_kept, ended, nothing⟩
  | bodySend block =>
    have passed (k : Nat) : taken (up ++ [⟨block, k⟩]) ++ client.available = fromClient := by
      rw [taken_snoc]
      exact client_books
    have nothing : taken down <+: fromOrigin := by
      rw [show down = [] from origin_books]
      exact nil_prefix
    cases s with
    | bytes k =>
      dsimp only [Transaction.step] at step
      split at step <;> cases step
      exact ⟨handed_prefix_snoc up_kept careful, down_kept, clientBooks_bodyLoop rfl (passed k),
        originBooks_bodyLoop rfl origin_books⟩
    | eintr =>
      cases step
      exact ⟨handed_prefix_failed up_kept _, down_kept, ⟨_, passed 0⟩, nothing⟩
    | error =>
      cases step
      exact ⟨handed_prefix_failed up_kept _, down_kept, ⟨_, passed 0⟩, nothing⟩
  | answerSend block =>
    have passed (k : Nat) : taken (down ++ [⟨block, k⟩]) ++ server.available = fromOrigin := by
      rw [taken_snoc]
      exact origin_books
    cases s with
    | bytes k =>
      dsimp only [Transaction.step] at step
      split at step <;> cases step
      exact ⟨up_kept, handed_prefix_snoc down_kept careful,
        clientBooks_answerLoop rfl client_books, originBooks_answerLoop rfl (passed k)⟩
    | eintr =>
      cases step
      exact ⟨up_kept, handed_prefix_failed down_kept _, client_books, ⟨_, passed 0⟩⟩
    | error =>
      cases step
      exact ⟨up_kept, handed_prefix_failed down_kept _, client_books, ⟨_, passed 0⟩⟩
  | body => cases step
  | response => cases step
  | answer => cases step
  | ended => cases step

/-- A read of a transaction -/
theorem Transaction.read_kept {rs : List Recv} (kept : t.Kept)
    (step : t.step (.read rs) = some t') : t'.Kept := by
  obtain ⟨phase, contentLength, transferred, client, fromClient, up, answerLength,
    answerTransferred, server, fromOrigin, down⟩ := t
  obtain ⟨up_kept, down_kept, client_books, origin_books⟩ := kept
  cases phase with
  | body =>
    dsimp only [Transaction.step] at step
    have client_books : taken up ++ client.available = fromClient := client_books
    have received_more : taken up <+: fromClient ++ received rs :=
      ⟨client.available ++ received rs, by rw [← client_books, append_assoc]⟩
    have nothing : taken down <+: fromOrigin := by
      rw [show down = [] from origin_books]
      exact nil_prefix
    split at step
    · next reply taken' buf run =>
        split at step
        · cases step
          exact ⟨up_kept, down_kept, received_more, origin_books⟩
        · next out _ =>
            cases step
            refine ⟨up_kept, down_kept, ?_, origin_books⟩
            show taken up ++ out ++ buf.available = fromClient ++ received rs
            have read : out ++ buf.available = client.available ++ received rs :=
              socketBufferRead_bytes run rfl rfl
            rw [← client_books, append_assoc, append_assoc, ← read]
        · next i =>
            cases step
            by_cases negative : i < 0
            · rw [if_pos negative]
              exact ⟨up_kept, down_kept, received_more, nothing⟩
            · rw [if_neg negative]
              exact ⟨up_kept, down_kept, received_more, origin_books⟩
        · cases step
    · cases step
  | answer =>
    dsimp only [Transaction.step] at step
    have origin_books : taken down ++ server.available = fromOrigin := origin_books
    have received_more : taken down <+: fromOrigin ++ received rs :=
      ⟨server.available ++ received rs, by rw [← origin_books, append_assoc]⟩
    split at step
    · next reply taken' buf run =>
        split at step
        · cases step
          exact ⟨up_kept, down_kept, client_books, received_more⟩
        · next out _ =>
            cases step
            refine ⟨up_kept, down_kept, client_books, ?_⟩
            show taken down ++ out ++ buf.available = fromOrigin ++ received rs
            have read : out ++ buf.available = server.available ++ received rs :=
              socketBufferRead_bytes run rfl rfl
            rw [← origin_books, append_assoc, append_assoc, ← read]
        · cases step
          exact ⟨up_kept, down_kept, client_books, received_more⟩
        · cases step
    · cases step
  | request => cases step
  | bodySend block => cases step
  | response => cases step
  | answerSend block => cases step
  | ended => cases step

theorem Transaction.step_kept {e : TransactionEvent} (kept : t.Kept) (careful : t.Careful e)
    (step : t.step e = some t') : t'.Kept := by
  cases e with
  | sent s => exact sent_kept kept careful step
  | read rs => exact read_kept kept step
  | answered length server =>
    obtain ⟨phase, contentLength, transferred, client, fromClient, up, answerLength,
      answerTransferred, server', fromOrigin, down⟩ := t
    obtain ⟨up_kept, down_kept, client_books, origin_books⟩ := kept
    cases phase <;> cases step
    obtain rfl : down = [] := origin_books
    exact ⟨up_kept, down_kept, clientBooks_answerLoop rfl client_books,
      originBooks_answerLoop rfl rfl⟩
  | failed =>
    obtain ⟨phase, contentLength, transferred, client, fromClient, up, answerLength,
      answerTransferred, server', fromOrigin, down⟩ := t
    obtain ⟨up_kept, down_kept, client_books, origin_books⟩ := kept
    cases phase <;> cases step
    obtain rfl : down = [] := origin_books
    exact ⟨up_kept, down_kept, client_books, nil_prefix⟩

theorem transaction_faithful (reach : (transaction.guarded Transaction.Careful).Reachable t) :
    t.Faithful := by
  refine (TSys.Inductive.holds (P := Transaction.Kept) ⟨?init, ?step⟩ reach).faithful
  case init =>
    rintro _ ⟨contentLength, client, rfl⟩
    exact ⟨prefix_rfl, prefix_rfl, rfl, rfl⟩
  case step =>
    rintro s t kept ⟨e, careful, step⟩
    exact Transaction.step_kept kept careful step

/-! ## Both -/

/-- **What relaying keeps.** In every run of a tunnel or a transaction in which a send hands over
bytes only when everything before it in its direction was handed over, what was handed to each
side is at every moment a prefix of what was received from the other. -/
theorem relay_faithful (c : Tunnel) (t : Transaction) :
    ((tunnel.guarded Tunnel.Careful).Reachable c → c.Faithful) ∧
      ((transaction.guarded Transaction.Careful).Reachable t → t.Faithful) :=
  ⟨tunnel_faithful, transaction_faithful⟩

/-- The bytes `ab`, left in the buffer or read into it -/
def bufferAb : SocketBuffer := ⟨[97, 98], 0⟩

theorem relay_faithful_ab :
    (∃ t, (tunnel.guarded Tunnel.Careful).Reachable t ∧ handed t.up = [97, 98] ∧ t.Faithful) ∧
      ∃ t, (transaction.guarded Transaction.Careful).Reachable t ∧ handed t.up = [97, 98] ∧
        t.Faithful := by
  constructor
  · have start : (tunnel.guarded Tunnel.Careful).Reachable ⟨.leftover [97, 98], [], []⟩ :=
      .start ⟨_, rfl⟩
    have reach := start.next ⟨.sent (.bytes 2), trivial, rfl⟩
    exact ⟨_, reach, rfl, (relay_faithful _ (.start 2 bufferAb)).1 reach⟩
  · have start : (transaction.guarded Transaction.Careful).Reachable (.start 2 bufferAb) :=
      .start ⟨_, _, rfl⟩
    have request := start.next ⟨.sent (.bytes 9), trivial, rfl⟩
    have body := request.next ⟨.read [], trivial, rfl⟩
    have first : InOrder [] (.bytes 2) := .inr fun _ mem => absurd mem not_mem_nil
    have reach := body.next ⟨.sent (.bytes 2), first, rfl⟩
    exact ⟨_, reach, rfl, (relay_faithful ⟨.leftover [97, 98], [], []⟩ _).2 reach⟩

/-- A tunnel in which the client takes one byte of `ab` and then `c` -/
def shortSend : List TunnelEvent :=
  [.sent (.bytes 0), .select false true, .recv blockAb, .sent (.bytes 1), .select false true,
    .recv (.data [99] (by simp)), .sent (.bytes 1)]

/-- The client was handed `ac`. -/
theorem short_send_corrupts : ∃ t, tunnel.sys.Reachable t ∧ handed t.down = [97, 99] ∧
    t.fromOrigin = [97, 98, 99] ∧ ¬ t.Faithful := by
  have start : tunnel.sys.Reachable ⟨.leftover [], [], []⟩ := .start ⟨[], rfl⟩
  obtain ⟨t, ran⟩ : ∃ t, tunnel.run ⟨.leftover [], [], []⟩ shortSend = some t := ⟨_, rfl⟩
  have reach := Machine.run_reachable start ran
  cases ran
  refine ⟨_, reach, rfl, rfl, fun faithful => ?_⟩
  have back : ([97, 99] : Bytes) <+: [97, 98, 99] := faithful.2
  exact absurd back (by decide)

end Nmap.Ncat
