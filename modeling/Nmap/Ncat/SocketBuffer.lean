import Nmap.Base.Utf8
import Mathlib.Data.List.Basic

/-!
# Buffered socket reads (`http.c`)

`socket_buffer_read`, `socket_buffer_readline` and `socket_buffer_readcount` refill an empty
buffer and then pass over what is in it. Before the refill they put the cursor back to the
beginning, and when the refill fails it stays there, in front of bytes that were handed out
already.
-/

namespace Nmap.Ncat

open Nmap.Base List

/-- What one `recv` comes to -/
inductive Recv
  | data (block : Bytes) (some_byte : block ≠ [])
  | eintr
  | eof
  | error

/-- `struct socket_buffer`: the bytes from `buffer` to `end`, and how far `p` is into them -/
structure SocketBuffer where
  buffer : Bytes
  p : Nat

def socketBufferInit : SocketBuffer := ⟨[], 0⟩

/-- The bytes from `p` to `end` -/
def SocketBuffer.available (buf : SocketBuffer) : Bytes := buf.buffer.drop buf.p

/-- What a call hands to its caller: bytes, a result of `recv` or a count without any, or what is
left in the buffer -/
inductive Reply
  | bytes (out : Bytes)
  | nothing (i : Int)
  | noLine (n : Nat)
  | rest (out : Bytes)
  deriving DecidableEq

/-- What a loop does with the bytes in the buffer: take all of them and go on, or take some and
return -/
inductive Pass
  | more
  | done (count : Nat) (reply : Reply)

/-- What a call leaves: its reply, the bytes it took, the buffer, and the results of `recv` that
are still to come -/
structure Returned where
  reply : Reply
  taken : Bytes
  buf : SocketBuffer
  rest : List Recv

/-- The loop of the reading functions from where the buffer is empty. Without a result of `recv`
the call waits. -/
def refill (pass : Bytes → Bytes → Pass) (fail : Bytes → Int → Reply) :
    List Recv → Bytes → SocketBuffer → Option Returned
  | [], _, _ => none
  | .eintr :: rs, taken, buf => refill pass fail rs taken buf
  -- `buf->p = buf->buffer` was done before the `recv`, and `end` stays.
  | .eof :: rs, taken, buf => some ⟨fail taken 0, taken, { buf with p := 0 }, rs⟩
  | .error :: rs, taken, buf => some ⟨fail taken (-1), taken, { buf with p := 0 }, rs⟩
  | .data block _ :: rs, taken, _ =>
    match pass taken block with
    | .more => refill pass fail rs (taken ++ block) ⟨block, block.length⟩
    | .done n reply => some ⟨reply, taken ++ block.take n, ⟨block, n⟩, rs⟩

def readLoop (pass : Bytes → Bytes → Pass) (fail : Bytes → Int → Reply) (buf : SocketBuffer)
    (rs : List Recv) : Option Returned :=
  if buf.p ≥ buf.buffer.length then refill pass fail rs [] buf
  else
    match pass [] buf.available with
    | .more => refill pass fail rs buf.available { buf with p := buf.buffer.length }
    | .done n reply => some ⟨reply, buf.available.take n, { buf with p := buf.p + n }, rs⟩

/-- What `socket_buffer_read` does with the bytes. It makes one pass, so `out` is empty before. -/
def readPass (size : Nat) (out available : Bytes) : Pass :=
  let i := if available.length > size then size else available.length
  .done i (.bytes (out ++ available.take i))

def socketBufferRead (size : Nat) : SocketBuffer → List Recv → Option Returned :=
  readLoop (readPass size) fun _ i => .nothing i

/-- What `socket_buffer_readline` does with the bytes -/
def linePass (maxlen : Nat) (line available : Bytes) : Pass :=
  let newline := available.idxOf? 10
  let count := match newline with
    | none => available.length
    | some i => i + 1
  if line.length + count ≥ maxlen then .done 0 (.noLine (line.length + count))
  else
    match newline with
    | none => .more
    | some _ => .done count (.bytes (line ++ available.take count))

def socketBufferReadline (maxlen : Nat) : SocketBuffer → List Recv → Option Returned :=
  readLoop (linePass maxlen) fun line _ => .noLine line.length

/-- What `socket_buffer_readcount` does with the bytes -/
def countPass (size : Nat) (out available : Bytes) : Pass :=
  if available.length < size - out.length then .more
  else .done (size - out.length) (.bytes (out ++ available.take (size - out.length)))

def socketBufferReadcount (size : Nat) (buf : SocketBuffer) (rs : List Recv) : Option Returned :=
  if size = 0 then some ⟨.bytes [], [], buf, rs⟩
  else readLoop (countPass size) (fun _ _ => .nothing (-1)) buf rs

def socketBufferRemainder (buf : SocketBuffer) (rs : List Recv) : Option Returned :=
  some ⟨.rest buf.available, [], buf, rs⟩

/-! ## Runs -/

/-- A call on a buffer -/
inductive Call
  | read (size : Nat)
  | readline (maxlen : Nat)
  | readcount (size : Nat)
  | remainder

def Call.run : Call → SocketBuffer → List Recv → Option Returned
  | .read size => socketBufferRead size
  | .readline maxlen => socketBufferReadline maxlen
  | .readcount size => socketBufferReadcount size
  | .remainder => socketBufferRemainder

/-- Calls one after another, with the reply of each and the bytes it took -/
def runCalls : List Call → SocketBuffer → List Recv →
    Option (List (Reply × Bytes) × SocketBuffer × List Recv)
  | [], buf, rs => some ([], buf, rs)
  | call :: calls, buf, rs => do
    let r ← call.run buf rs
    let (log, buf, rs) ← runCalls calls r.buf r.rest
    return ((r.reply, r.taken) :: log, buf, rs)

/-! ## Keeping the books -/

def Recv.bytes : Recv → Bytes
  | .data block _ => block
  | _ => []

def received (rs : List Recv) : Bytes := rs.flatMap Recv.bytes

/-- The refill fails: end of stream, or an error that is not retried -/
def Recv.Fails : Recv → Prop
  | .eof | .error => True
  | _ => False

/-- A refill fails after bytes have been received. -/
def FailsAfterData (rs : List Recv) : Prop :=
  ∃ before r after, rs = before ++ r :: after ∧ r.Fails ∧ received before ≠ []

/-- How the bytes taken so far and those still in the buffer stand to those received: the same
as long as no refill failed after data, and more of them from then on. -/
structure Ledger (taken : Bytes) (buf : SocketBuffer) (used : List Recv) : Prop where
  block : buf.buffer = [] ↔ received used = []
  kept : ¬ FailsAfterData used → taken ++ buf.available = received used
  stale : FailsAfterData used → (received used).length < (taken ++ buf.available).length

theorem received_snoc (used : List Recv) (r : Recv) :
    received (used ++ [r]) = received used ++ r.bytes := by
  simp [received]

theorem failsAfterData_snoc (used : List Recv) (r : Recv) :
    FailsAfterData (used ++ [r]) ↔ FailsAfterData used ∨ r.Fails ∧ received used ≠ [] := by
  constructor
  · rintro ⟨before, r', after, eq, fails, some_byte⟩
    rcases eq_nil_or_concat after with rfl | ⟨after, last, rfl⟩
    · obtain ⟨rfl, rfl⟩ := append_inj' eq rfl |>.imp_right singleton_inj.mp
      exact .inr ⟨fails, some_byte⟩
    · rw [concat_eq_append, ← cons_append, ← append_assoc] at eq
      have init := (append_inj' eq rfl).1
      exact .inl ⟨before, r', after, init, fails, some_byte⟩
  · rintro (⟨before, r', after, rfl, fails, some_byte⟩ | ⟨fails, some_byte⟩)
    · exact ⟨before, r', after ++ [r], by simp, fails, some_byte⟩
    · exact ⟨used, r, [], rfl, fails, some_byte⟩

theorem Ledger.init : Ledger [] socketBufferInit [] where
  block := Iff.rfl
  kept _ := rfl
  stale fails := by
    obtain ⟨before, r, after, eq, -⟩ := fails
    simp at eq

variable {taken : Bytes} {buf : SocketBuffer} {used : List Recv}

theorem Ledger.take (books : Ledger taken buf used) (n : Nat) :
    Ledger (taken ++ buf.available.take n) { buf with p := buf.p + n } used := by
  have same : taken ++ buf.available.take n ++
      ({ buf with p := buf.p + n } : SocketBuffer).available = taken ++ buf.available := by
    unfold SocketBuffer.available
    rw [← drop_drop, append_assoc, take_append_drop]
  exact ⟨books.block, fun clean => same.trans (books.kept clean),
    fun fails => by rw [same]; exact books.stale fails⟩

theorem Ledger.retry (books : Ledger taken buf used) : Ledger taken buf (used ++ [.eintr]) := by
  have bytes : received (used ++ [.eintr]) = received used := by
    rw [received_snoc]
    exact append_nil _
  have fails : FailsAfterData (used ++ [.eintr]) ↔ FailsAfterData used := by
    rw [failsAfterData_snoc]
    exact or_iff_left fun both => both.1
  exact ⟨by rw [bytes]; exact books.block, by rw [bytes, fails]; exact books.kept,
    by rw [bytes, fails]; exact books.stale⟩

theorem Ledger.receive (books : Ledger taken buf used) (empty : buf.available = []) {block : Bytes}
    (some_byte : block ≠ []) : Ledger taken ⟨block, 0⟩ (used ++ [.data block some_byte]) := by
  have bytes : received (used ++ [.data block some_byte]) = received used ++ block :=
    received_snoc _ _
  have fails : FailsAfterData (used ++ [.data block some_byte]) ↔ FailsAfterData used := by
    rw [failsAfterData_snoc]
    exact or_iff_left fun both => both.1
  obtain ⟨-, kept, stale⟩ := books
  rw [empty, append_nil] at kept stale
  refine ⟨by rw [bytes]; simp [some_byte], ?_, ?_⟩
  · rw [bytes, fails]
    intro clean
    rw [kept clean]
    rfl
  · rw [bytes, fails]
    intro late
    have more := stale late
    simp only [SocketBuffer.available, drop_zero, length_append]
    omega

/-- A refill fails, and the cursor is back at the beginning. -/
theorem Ledger.fail (books : Ledger taken buf used) (empty : buf.available = []) {r : Recv}
    (fails : r.Fails) :
    Ledger taken { buf with p := 0 } (used ++ [r]) := by
  have bytes : received (used ++ [r]) = received used := by
    rw [received_snoc]
    cases r with
    | data => exact fails.elim
    | eintr => exact fails.elim
    | eof => exact append_nil _
    | error => exact append_nil _
  have late : FailsAfterData (used ++ [r]) ↔ FailsAfterData used ∨ received used ≠ [] := by
    rw [failsAfterData_snoc]
    exact or_congr_right (and_iff_right fails)
  obtain ⟨block, kept, stale⟩ := books
  rw [empty, append_nil] at kept stale
  refine ⟨by rw [bytes]; exact block, ?_, ?_⟩
  · rw [bytes, late, not_or, not_not]
    rintro ⟨clean, none_yet⟩
    show taken ++ buf.buffer.drop 0 = _
    rw [block.mpr none_yet, kept clean]
    exact append_nil _
  · rw [bytes, late]
    intro either
    show _ < (taken ++ buf.buffer.drop 0).length
    rw [drop_zero, length_append]
    by_cases already : FailsAfterData used
    · have more := stale already
      omega
    · rw [kept already]
      have some_byte := either.resolve_left already
      have block_some : buf.buffer ≠ [] := mt block.mp some_byte
      have positive := length_pos_iff.mpr block_some
      omega

/-! ## What a call does to the books -/

/-- What a loop returns as bytes is what it took. -/
def Honest (pass : Bytes → Bytes → Pass) : Prop :=
  ∀ taken available n out, pass taken available = .done n (.bytes out) →
    out = taken ++ available.take n

/-- A call keeps the books, and the bytes it returns are those it took. -/
structure Books (taken : Bytes) (used rs : List Recv) (r : Returned) : Prop where
  ledger : ∃ now, rs = now ++ r.rest ∧ Ledger (taken ++ r.taken) r.buf (used ++ now)
  honest : ∀ out, r.reply = .bytes out → out = r.taken

theorem refill_books {pass : Bytes → Bytes → Pass} {fail : Bytes → Int → Reply}
    (honest : Honest pass) (no_bytes : ∀ taken i out, fail taken i ≠ .bytes out) :
    ∀ (rs : List Recv) {taken line : Bytes} {buf : SocketBuffer} {used : List Recv} {r : Returned},
      Ledger (taken ++ line) buf used → buf.available = [] →
      refill pass fail rs line buf = some r → Books taken used rs r
  | .eintr :: rs, taken, line, buf, used, r, books, empty, run => by
    obtain ⟨⟨now, rfl, ledger⟩, same⟩ :=
      refill_books honest no_bytes rs books.retry empty run
    exact ⟨⟨.eintr :: now, rfl, by rwa [append_assoc] at ledger⟩, same⟩
  | .eof :: rs, taken, line, buf, used, r, books, empty, run => by
    cases run
    exact ⟨⟨[.eof], rfl, books.fail empty trivial⟩, fun out eq => absurd eq (no_bytes _ _ _)⟩
  | .error :: rs, taken, line, buf, used, r, books, empty, run => by
    cases run
    exact ⟨⟨[.error], rfl, books.fail empty trivial⟩, fun out eq => absurd eq (no_bytes _ _ _)⟩
  | .data block some_byte :: rs, taken, line, buf, used, r, books, empty, run => by
    have fresh := books.receive empty some_byte
    rw [refill] at run
    split at run
    · next more =>
        have whole := fresh.take block.length
        have all : (SocketBuffer.mk block 0).available.take block.length = block :=
          take_length
        rw [all, append_assoc, Nat.zero_add] at whole
        have drained : (SocketBuffer.mk block block.length).available = [] := drop_length
        obtain ⟨⟨now, rfl, ledger⟩, same⟩ := refill_books honest no_bytes rs whole drained run
        exact ⟨⟨.data block some_byte :: now, rfl, by rwa [append_assoc] at ledger⟩, same⟩
    · next n reply done =>
        cases run
        have part := fresh.take n
        rw [append_assoc, Nat.zero_add] at part
        refine ⟨⟨[.data block some_byte], rfl, part⟩, fun out eq => ?_⟩
        rw [show reply = .bytes out from eq] at done
        exact honest _ _ _ _ done

theorem readLoop_books {pass : Bytes → Bytes → Pass} {fail : Bytes → Int → Reply}
    (honest : Honest pass) (no_bytes : ∀ taken i out, fail taken i ≠ .bytes out) {rs : List Recv}
    {r : Returned} (books : Ledger taken buf used) (run : readLoop pass fail buf rs = some r) :
    Books taken used rs r := by
  unfold readLoop at run
  split at run
  · next drained =>
      have start : Ledger (taken ++ []) buf used := by rwa [append_nil]
      exact refill_books honest no_bytes rs start (drop_eq_nil_of_le drained) run
  · next left =>
      split at run
      · next more =>
          have whole := books.take (buf.buffer.length - buf.p)
          have all : buf.available.take (buf.buffer.length - buf.p) = buf.available :=
            take_of_length_le (by simp [SocketBuffer.available])
          have to_end : buf.p + (buf.buffer.length - buf.p) = buf.buffer.length := by omega
          rw [all, to_end] at whole
          exact refill_books honest no_bytes rs whole drop_length run
      · next n reply done =>
          cases run
          refine ⟨⟨[], rfl, by rw [append_nil]; exact books.take n⟩, fun out eq => ?_⟩
          rw [show reply = .bytes out from eq] at done
          exact honest _ _ _ _ done

theorem readPass_honest (size : Nat) : Honest (readPass size) := by
  intro taken available n out done
  cases done
  rfl

theorem linePass_honest (maxlen : Nat) : Honest (linePass maxlen) := by
  intro taken available n out done
  unfold linePass at done
  cases newline : available.idxOf? 10 with
  | none =>
    rw [newline] at done
    dsimp only at done
    split at done <;> cases done
  | some i =>
    rw [newline] at done
    dsimp only at done
    split at done
    · cases done
    · cases done
      rfl

theorem countPass_honest (size : Nat) : Honest (countPass size) := by
  intro taken available n out done
  unfold countPass at done
  split at done
  · cases done
  · cases done
    rfl

theorem call_books (call : Call) {rs : List Recv} {r : Returned} (books : Ledger taken buf used)
    (run : call.run buf rs = some r) :
    Books taken used rs r := by
  cases call with
  | read size =>
    exact readLoop_books (readPass_honest size) (fun _ _ _ eq => by cases eq) books run
  | readline maxlen =>
    exact readLoop_books (linePass_honest maxlen) (fun _ _ _ eq => by cases eq) books run
  | readcount size =>
    dsimp only [Call.run, socketBufferReadcount] at run
    split at run
    · cases run
      refine ⟨⟨[], rfl, by simpa using books⟩, fun out eq => ?_⟩
      cases eq
      rfl
    · exact readLoop_books (countPass_honest size) (fun _ _ _ eq => by cases eq) books run
  | remainder =>
    cases run
    exact ⟨⟨[], rfl, by simpa using books⟩, fun out eq => by cases eq⟩

theorem runCalls_books : ∀ (calls : List Call) {rs used : List Recv} {taken : Bytes}
    {buf buf' : SocketBuffer} {log : List (Reply × Bytes)} {rest : List Recv},
    Ledger taken buf used → runCalls calls buf rs = some (log, buf', rest) →
    ∃ now, rs = now ++ rest ∧ Ledger (taken ++ log.flatMap (·.2)) buf' (used ++ now) ∧
      ∀ entry ∈ log, ∀ out, entry.1 = .bytes out → out = entry.2
  | [], rs, used, taken, buf, buf', log, rest, books, run => by
    cases run
    exact ⟨[], rfl, by simpa using books, fun _ mem => absurd mem not_mem_nil⟩
  | call :: calls, rs, used, taken, buf, buf', log, rest, books, run => by
    rw [runCalls] at run
    simp only [Option.bind_eq_bind, Option.bind_eq_some_iff, Option.pure_def] at run
    obtain ⟨r, first, ⟨log', buf'', rest'⟩, later, eq⟩ := run
    cases eq
    obtain ⟨⟨now, rfl, ledger⟩, honest⟩ := call_books call books first
    obtain ⟨now', split_rest, ledger', honest'⟩ := runCalls_books calls ledger later
    refine ⟨now ++ now', by rw [split_rest, append_assoc], ?_, fun entry mem out eq => ?_⟩
    · rw [append_assoc, append_assoc] at ledger'
      exact ledger'
    · rcases mem_cons.mp mem with rfl | mem
      · exact honest out eq
      · exact honest' entry mem out eq

/-- **When the stream is kept.** After any calls, bytes that were returned are bytes that were
taken, and what was taken with what the buffer still reports is what was received exactly when
no refill has failed after bytes had been received. -/
theorem stream_kept_iff (calls : List Call) {rs rest : List Recv} {buf : SocketBuffer}
    {log : List (Reply × Bytes)}
    (run : runCalls calls socketBufferInit rs = some (log, buf, rest)) :
    ∃ used, rs = used ++ rest ∧
      (∀ entry ∈ log, ∀ out, entry.1 = .bytes out → out = entry.2) ∧
      (log.flatMap (·.2) ++ buf.available = received used ↔ ¬ FailsAfterData used) := by
  obtain ⟨used, split_rs, books, honest⟩ := runCalls_books calls .init run
  rw [nil_append, nil_append] at books
  refine ⟨used, split_rs, honest, fun same late => ?_, books.kept⟩
  have more := books.stale late
  rw [same] at more
  exact absurd more (Nat.lt_irrefl _)

/-- The block `ab` -/
def blockAb : Recv := .data [97, 98] (by simp)

theorem stream_kept_ab :
    ∃ log buf, runCalls [.read 1, .remainder] socketBufferInit [blockAb, .eof] =
        some (log, buf, [.eof]) ∧
      ∃ used, [blockAb, .eof] = used ++ [.eof] ∧
        (∀ entry ∈ log, ∀ out, entry.1 = .bytes out → out = entry.2) ∧
        (log.flatMap (·.2) ++ buf.available = received used ↔ ¬ FailsAfterData used) :=
  ⟨_, _, rfl, stream_kept_iff [.read 1, .remainder] rfl⟩

/-- After the end of the stream the last block is there once more. -/
theorem stream_repeated :
    ∃ log buf, runCalls [.read 2, .read 2, .remainder] socketBufferInit [blockAb, .eof] =
        some (log, buf, []) ∧
      log = [(.bytes [97, 98], [97, 98]), (.nothing 0, []), (.rest [97, 98], [])] ∧
      log.flatMap (·.2) ++ buf.available ≠ received [blockAb, .eof] :=
  ⟨_, _, rfl, rfl, by decide⟩

end Nmap.Ncat
