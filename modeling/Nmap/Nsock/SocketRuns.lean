import Nmap.Nsock.SocketCounts

/-!
# Runs of one socket

Each handler takes an event that waits, with the counts of the others, to one that waits for
what its new state says, or that is delivered and waits for nothing. Every run of steps that meet
the condition keeps the books.
-/

namespace Nmap.Nsock

open List

variable {cfg : SslConfig} {iod : SockIod} {nse : SockEvent} {ssl : Bool} {r w : Nat}

/-! ## Reads and writes -/

/-- What the SSL session of an iod means for a pending event -/
def SockEvent.Fits (ssl : Bool) (nse : SockEvent) : Prop :=
  match nse.type with
  | .connect => nse.sslDesire = .none
  | .connectSsl => nse.sslDesire.Asks → ssl = true
  | .read | .write => if ssl then nse.sslDesire.Asks else nse.sslDesire = .none
  | _ => False

/-- An iod with `r` readers and `w` writers, and an event that waits besides -/
structure Held (type : NseType) (ssl : Bool) (r w : Nat) (p : SockIod × SockEvent) : Prop where
  counts : p.1.Counts (r + p.2.waitsRead.toNat) (w + p.2.waitsWrite.toNat)
  descriptor : 0 ≤ p.1.sd
  session : p.1.ssl = ssl
  type : p.2.type = type
  fits : p.2.Fits ssl

/-- What a handler leaves: an event that is done waits for nothing. The session may be made if
`made` holds. -/
structure Settled (made : Prop) (ssl : Bool) (r w : Nat) (p : SockIod × SockEvent) : Prop where
  counts : p.1.Counts (r + p.2.pending.countP SockEvent.waitsRead)
    (w + p.2.pending.countP SockEvent.waitsWrite)
  descriptor : 0 ≤ p.1.sd
  session : p.1.ssl = ssl ∨ (p.1.ssl = true ∧ made)
  fits : p.2.eventDone = false → p.2.Fits p.1.ssl

/-- Two events that wait for the same -/
structure SockEvent.Same (a b : SockEvent) : Prop where
  type : b.type = a.type
  desire : b.sslDesire = a.sslDesire

theorem SockEvent.Same.refl (a : SockEvent) : a.Same a := ⟨rfl, rfl⟩

variable {a b : SockEvent}

theorem SockEvent.Same.trans {c : SockEvent} (ab : a.Same b) (bc : b.Same c) : a.Same c :=
  ⟨bc.type.trans ab.type, bc.desire.trans ab.desire⟩

theorem SockEvent.Same.waitsRead (same : a.Same b) :
    b.waitsRead = a.waitsRead := by
  simp only [SockEvent.waitsRead, same.type, same.desire]

theorem SockEvent.Same.waitsWrite (same : a.Same b) :
    b.waitsWrite = a.waitsWrite := by
  simp only [SockEvent.waitsWrite, same.type, same.desire]

theorem SockEvent.Same.fits {a b : SockEvent} (same : a.Same b) (fits : a.Fits ssl) :
    b.Fits ssl := by
  simpa only [SockEvent.Fits, same.type, same.desire] using fits

theorem Held.same {type : NseType} {nse' : SockEvent} (held : Held type ssl r w (iod, nse))
    (same : nse.Same nse') : Held type ssl r w (iod, nse') where
  counts := by
    simpa only [same.waitsRead, same.waitsWrite] using held.counts
  descriptor := held.descriptor
  session := held.session
  type := same.type.trans held.type
  fits := same.fits held.fits

variable {type : NseType}

theorem Held.eof (held : Held type ssl r w (iod, nse)) :
    Held type ssl r w ({ iod with ioeof := true }, nse) where
  counts := ⟨held.counts.read, held.counts.write, held.counts.watched, held.counts.registered⟩
  descriptor := held.descriptor
  session := held.session
  type := held.type
  fits := held.fits

theorem Held.asks (held : Held type true r w (iod, nse)) (stream : type = .read ∨ type = .write) :
    nse.sslDesire.Asks ∧ nse.waitsRead = nse.sslDesire.reads ∧
      nse.waitsWrite = nse.sslDesire.writes := by
  have fits := held.fits
  have isType := held.type
  dsimp only at fits isType
  rcases stream with rfl | rfl
  · simp only [SockEvent.Fits, isType, if_true] at fits
    refine ⟨fits, ?_⟩
    rcases fits with desire | desire <;>
      simp [SockEvent.waitsRead, SockEvent.waitsWrite, isType, desire, SslDesire.reads,
        SslDesire.writes]
  · simp only [SockEvent.Fits, isType, if_true] at fits
    refine ⟨fits, ?_⟩
    rcases fits with desire | desire <;>
      simp [SockEvent.waitsRead, SockEvent.waitsWrite, isType, desire, SslDesire.reads,
        SslDesire.writes]

theorem Held.moveDesire (held : Held type true r w (iod, nse))
    (stream : type = .read ∨ type = .write) (toRead : Bool) :
    Meets (· = .fatal) (Held type true r w) (Nsock.moveDesire iod nse toRead) := by
  obtain ⟨asks, reads, writes⟩ := held.asks stream
  have counts := held.counts
  dsimp only at counts
  rw [reads, writes] at counts
  rw [moveDesire_eq held.session held.descriptor asks toRead counts]
  have isType : nse.type = type := held.type
  refine ⟨?_, held.descriptor, held.session, isType, ?_⟩
  · rcases stream with rfl | rfl <;> cases toRead <;>
      simp only [SockEvent.waitsRead, SockEvent.waitsWrite, isType, SslDesire.toward] <;>
      exact .of_counted
  · rcases stream with rfl | rfl <;> cases toRead <;>
      simp [SockEvent.Fits, isType, SslDesire.toward, SslDesire.Asks]

theorem toNat_eq_ite (b : Bool) : b.toNat = if b then 1 else 0 := by cases b <;> rfl

theorem Held.settled (held : Held type ssl r w (iod, nse)) (waits : nse.eventDone = false)
    (made : Prop) : Settled made ssl r w (iod, nse) where
  counts := by
    have counts := held.counts
    simpa [SockEvent.pending, waits, countP_cons, toNat_eq_ite] using counts
  descriptor := held.descriptor
  session := .inl held.session
  fits _ := by
    have session : iod.ssl = ssl := held.session
    exact session ▸ held.fits

variable {iod : SockIod}

theorem Settled.done {made : Prop} (descriptor : 0 ≤ iod.sd)
    (session : iod.ssl = ssl ∨ (iod.ssl = true ∧ made)) (isDone : nse.eventDone = true) :
    Settled made ssl r w (iod.counted r w, nse) where
  counts := by
    simpa [SockEvent.pending, isDone] using SockIod.Counts.of_counted
  descriptor := descriptor
  session := session
  fits waits := by simp [isDone] at waits

theorem bind_first {ε α β γ : Type} {x : Except ε α} {f : α → Except ε β} {g : β → Except ε γ}
    {b : β} (eq : x >>= f = .ok b) : (x >>= fun a => f a >>= g) = g b := by
  rw [← bind_assoc, eq]
  rfl

theorem bind_first₂ {ε α β γ δ : Type} {x : Except ε α} {f : α → Except ε β}
    {h : α → β → Except ε γ} {g : γ → Except ε δ} {c : γ}
    (eq : (x >>= fun a => f a >>= h a) = .ok c) :
    (x >>= fun a => f a >>= fun b => h a b >>= g) = g c := by
  have assoc : (x >>= fun a => f a >>= fun b => h a b >>= g) =
      (x >>= fun a => f a >>= h a) >>= g := by simp only [bind_assoc]
  rw [assoc, eq]
  rfl

/-- The end of the handlers of reads and writes -/
theorem Held.uncountDone {dec : SockIod → Except Failure (SockIod × EvSet)}
    (held : Held type ssl r w (iod, nse))
    (own : (type = .read ∧ dec = socketCountReadDec) ∨ (type = .write ∧ dec = socketCountWriteDec))
    {hasSd : Bool} (sd : hasSd = true) :
    Meets (· = .fatal) (Settled False ssl r w) (Nsock.uncountDone iod nse hasSd dec) := by
  have stream : type = .read ∨ type = .write := own.imp And.left And.left
  cases isDone : nse.eventDone with
  | false =>
    rw [Nsock.uncountDone, if_neg (by simp [isDone])]
    exact held.settled isDone False
  | true =>
    have session : iod.ssl = ssl := held.session
    have settled : Settled False ssl r w (iod.counted r w, nse) :=
      .done held.descriptor (.inl session) isDone
    have counts := held.counts
    dsimp only at counts
    rw [Nsock.uncountDone, if_pos ⟨isDone, sd⟩]
    cases ssl with
    | true =>
      obtain ⟨asks, reads, writes⟩ := held.asks stream
      rw [reads, writes] at counts
      simp only [session, if_true]
      have uncounted := bind_first (g := fun iod => pure (iod, nse))
        (uncountDesire_eq session held.descriptor asks counts)
      exact uncounted ▸ settled
    | false =>
      have isType : nse.type = type := held.type
      have fits : nse.Fits false := held.fits
      simp only [session, Bool.false_eq_true, if_false]
      rcases own with ⟨rfl, rfl⟩ | ⟨rfl, rfl⟩
      · have desire : nse.sslDesire = .none := by simpa [SockEvent.Fits, isType] using fits
        have counts : iod.Counts (r + 1) w := by
          simpa [SockEvent.waitsRead, SockEvent.waitsWrite, isType, desire] using counts
        have uncounted := bind_first (g := fun iod => pure (iod, nse))
          (unwatchRead_eq counts held.descriptor)
        exact uncounted ▸ settled
      · have desire : nse.sslDesire = .none := by simpa [SockEvent.Fits, isType] using fits
        have counts : iod.Counts r (w + 1) := by
          simpa [SockEvent.waitsRead, SockEvent.waitsWrite, isType, desire] using counts
        have uncounted := bind_first (g := fun iod => pure (iod, nse))
          (unwatchWrite_eq counts held.descriptor)
        exact uncounted ▸ settled

theorem SockEvent.same_wrote (nse : SockEvent) (n : Nat) : nse.Same (nse.wrote n) := by
  rw [SockEvent.wrote]
  split
  · exact ⟨rfl, rfl⟩
  · exact ⟨rfl, rfl⟩

theorem Held.doWrite (held : Held .write ssl r w (iod, nse)) (answer : WriteAnswer) :
    Meets (· = .fatal) (Held .write ssl r w) (Nsock.doWrite iod nse answer) := by
  have session : iod.ssl = ssl := held.session
  cases answer with
  | wrote n => exact held.same (nse.same_wrote n)
  | failed => exact held.same ⟨rfl, rfl⟩
  | wantRead =>
    rw [Nsock.doWrite]
    split
    · next isSsl =>
        cases session.symm.trans isSsl
        exact held.moveDesire (.inr rfl) true
    · exact held
  | wantWrite =>
    rw [Nsock.doWrite]
    split
    · next isSsl =>
        cases session.symm.trans isSsl
        exact held.moveDesire (.inr rfl) false
    · exact held
  | again =>
    rw [Nsock.doWrite]
    split
    · exact held.same ⟨rfl, rfl⟩
    · exact held

theorem Held.handleWriteResult (held : Held .write ssl r w (iod, nse)) (status : NseStatus)
    (answer : WriteAnswer) : Meets (· = .fatal) (Settled False ssl r w)
      (Nsock.handleWriteResult iod nse status answer) := by
  have rest : ∀ p : SockIod × SockEvent, Held .write ssl r w p →
      Meets (· = .fatal) (Settled False ssl r w)
        (Nsock.uncountDone p.1 p.2 (decide (p.1.sd ≠ -1)) socketCountWriteDec) := by
    intro p held
    have descriptor : 0 ≤ p.1.sd := held.descriptor
    exact held.uncountDone (.inr ⟨rfl, rfl⟩) (decide_eq_true (by omega))
  rw [Nsock.handleWriteResult]
  dsimp only
  split
  · exact rest _ (held.same ⟨rfl, rfl⟩)
  · split
    · exact (held.doWrite answer).bind rest
    · exact rest _ held

/-! ## Reads -/

theorem SockEvent.same_readPlain (startlen : Nat) (last : ReadEnd) (chunks : List Chunk) :
    ∀ nse : SockEvent, nse.Same (readPlain nse startlen last chunks).1 := by
  induction chunks with
  | nil =>
    intro nse
    cases last <;> exact ⟨rfl, rfl⟩
  | cons c rest ih =>
    intro nse
    rw [readPlain]
    split
    · dsimp only
      split
      · exact ⟨rfl, rfl⟩
      · have kept : nse.Same { nse with iobuf := nse.iobuf ++ c.data } := ⟨rfl, rfl⟩
        exact kept.trans (ih _)
    · exact ⟨rfl, rfl⟩

theorem SockEvent.same_readSsl (startlen : Nat) (last : ReadEnd) (chunks : List Chunk) :
    ∀ nse : SockEvent, nse.Same (readSsl nse startlen last chunks).1 := by
  induction chunks with
  | nil => exact .refl
  | cons c rest ih =>
    intro nse
    rw [readSsl]
    split
    · dsimp only
      split
      · exact ⟨rfl, rfl⟩
      · have kept : nse.Same { nse with iobuf := nse.iobuf ++ c.data } := ⟨rfl, rfl⟩
        exact kept.trans (ih _)
    · exact ⟨rfl, rfl⟩

theorem Held.readEof (held : Held .read ssl r w (iod, nse)) :
    Held .read ssl r w (readEof iod nse) :=
  held.eof.same ⟨rfl, rfl⟩

theorem Held.doActualRead (held : Held .read ssl r w (iod, nse)) (answer : ReadAnswer) :
    Meets (· = .fatal) (fun p => Held .read ssl r w (p.1, p.2.1))
      (Nsock.doActualRead iod nse answer) := by
  have session : iod.ssl = ssl := held.session
  rw [Nsock.doActualRead]
  dsimp only
  split
  · have same := SockEvent.same_readPlain nse.iobuf.length answer.last answer.chunks nse
    split
    · next eq =>
        rw [eq] at same
        exact (held.same same).readEof
    · next eq =>
        rw [eq] at same
        exact held.same same
  · next isSsl =>
      have isSsl : iod.ssl = true := by simpa using isSsl
      cases session.symm.trans isSsl
      have same := SockEvent.same_readSsl nse.iobuf.length answer.last answer.chunks nse
      split
      · next eq =>
          rw [eq] at same
          exact held.same same
      · next eq =>
          rw [eq] at same
          exact Meets.map ((held.same same).moveDesire (.inl rfl) true)
      · next eq =>
          rw [eq] at same
          exact Meets.map ((held.same same).moveDesire (.inl rfl) false)
      · next eq =>
          rw [eq] at same
          exact (held.same same).readEof
      · next eq =>
          rw [eq] at same
          exact held.same (same.trans ⟨rfl, rfl⟩)

theorem Held.readSuccess (held : Held .read ssl r w (iod, nse)) (answer : ReadAnswer) :
    Meets (· = .fatal) (Held .read ssl r w) (Nsock.readSuccess iod nse answer) := by
  rw [Nsock.readSuccess]
  refine (held.doActualRead answer).bind fun p held => ?_
  dsimp only
  split
  · exact held.same ⟨rfl, rfl⟩
  · exact held

theorem Held.handleReadResult (held : Held .read ssl r w (iod, nse)) (status : NseStatus)
    (answer : ReadAnswer) : Meets (· = .fatal) (Settled False ssl r w)
      (Nsock.handleReadResult iod nse status answer) := by
  have rest : ∀ p : SockIod × SockEvent, Held .read ssl r w p →
      Meets (· = .fatal) (Settled False ssl r w)
        (Nsock.uncountDone p.1 p.2 (decide (0 ≤ p.1.sd)) socketCountReadDec) := by
    intro p held
    exact held.uncountDone (.inl ⟨rfl, rfl⟩) (decide_eq_true held.descriptor)
  rw [Nsock.handleReadResult]
  dsimp only
  split
  · exact rest _ (held.same ⟨rfl, rfl⟩)
  · split
    · exact rest _ (held.same ⟨rfl, rfl⟩)
    · split
      · exact (held.readSuccess answer).bind rest
      · rfl

/-! ## Connects -/

/-- A TCP connect, or an SSL connect whose session asks for nothing yet, waits in both
directions. -/
theorem SockEvent.Fits.both (fits : nse.Fits ssl)
    (connects : nse.type = .connect ∨ nse.type = .connectSsl)
    (begins : nse.sslconnectInprogress = false) :
    nse.waitsRead = true ∧ nse.waitsWrite = true := by
  rcases connects with isType | isType
  · have desire : nse.sslDesire = .none := by simpa [SockEvent.Fits, isType] using fits
    simp [SockEvent.waitsRead, SockEvent.waitsWrite, isType, desire]
  · have noDesire : nse.sslDesire ≠ .wantRead ∧ nse.sslDesire ≠ .wantWrite := by
      simpa [SockEvent.sslconnectInprogress, isType] using begins
    simp [SockEvent.waitsRead, SockEvent.waitsWrite, isType, noDesire]

theorem SockEvent.Fits.asks (fits : nse.Fits ssl) (goesOn : nse.sslconnectInprogress = true) :
    nse.type = .connectSsl ∧ ssl = true ∧ nse.sslDesire.Asks ∧
      nse.waitsRead = nse.sslDesire.reads ∧ nse.waitsWrite = nse.sslDesire.writes := by
  have parts : nse.type = .connectSsl ∧ nse.sslDesire.Asks := by
    simpa [SockEvent.sslconnectInprogress, SslDesire.Asks] using goesOn
  obtain ⟨isType, asks⟩ := parts
  have session : ssl = true := by
    simp only [SockEvent.Fits, isType] at fits
    exact fits asks
  refine ⟨isType, session, asks, ?_⟩
  rcases asks with desire | desire <;>
    simp [SockEvent.waitsRead, SockEvent.waitsWrite, isType, desire, SslDesire.reads,
      SslDesire.writes]

theorem Settled.desire {made : Prop} (descriptor : 0 ≤ iod.sd) (session : iod.ssl = true)
    (isType : nse.type = .connectSsl) (waits : nse.eventDone = false) (toRead : Bool) :
    Settled made true r w (iod.counted (r + toRead.toNat) (w + (!toRead).toNat),
      { nse with sslDesire := .toward toRead }) where
  counts := by
    have counts : (iod.counted (r + toRead.toNat) (w + (!toRead).toNat)).Counts _ _ :=
      .of_counted
    cases toRead <;>
      simpa [SockEvent.pending, waits, countP_cons, SockEvent.waitsRead,
        SockEvent.waitsWrite, isType, SslDesire.toward] using counts
  descriptor := descriptor
  session := .inl session
  fits _ := by simp [SockEvent.Fits, isType, session]

def SockIod.reopened (iod : SockIod) (sd : Nat) : SockIod :=
  { iod with sd := sd, registered := true, optNoSslv2 := true }

theorem reconnectNoSslv2_settled {made : Prop} (counts : iod.Counts r w)
    (session : iod.ssl = true) (isType : nse.type = .connectSsl)
    (waits : nse.eventDone = false) (sd : Nat) :
    Meets (· = .fatal) (Settled made true r w) (reconnectNoSslv2 iod nse (.started sd)) := by
  have kept : (iod.reopened sd).Counts r w :=
    ⟨counts.read, counts.write, counts.watched, .inl rfl⟩
  have settled : Settled made true r w ((iod.reopened sd).counted (r + 1) (w + 1),
      { nse with sslDesire := .wantConnect }) := by
    refine ⟨?_, Int.natCast_nonneg sd, .inl session, fun _ => ?_⟩
    · simpa [SockEvent.pending, waits, countP_cons, SockEvent.waitsRead,
        SockEvent.waitsWrite, isType] using SockIod.Counts.of_counted
    · simp [SockEvent.Fits, isType, SslDesire.Asks]
  have open_ : (sd : Int) ≠ -1 := by omega
  have watched := bind_first₂ (g := fun iod => pure (iod, { nse with sslDesire := .wantConnect }))
    (watchBoth_eq kept (Int.natCast_nonneg sd))
  rw [reconnectNoSslv2]
  simp only [nsockConnectInternal, nsockMakeSocket, ConnectOutcome.sd, iodUnregister,
    iodRegister, assertThat, open_, if_true, ne_eq, not_false_eq_true]
  exact watched ▸ settled

/-- `SSL_connect`, when the connect waits for nothing else -/
theorem sslConnected_settled {made : Prop} (counts : iod.Counts r w) (descriptor : 0 ≤ iod.sd)
    (session : iod.ssl = true) (isType : nse.type = .connectSsl) (waits : nse.eventDone = false)
    {answer : SslConnect}
    (started : cfg.noSslv2 ∧ ¬ iod.udp ∧ ¬ iod.optNoSslv2 → answer.retryStarted) :
    Meets (· = .fatal) (Settled made true r w) (sslConnected cfg iod nse false answer) := by
  have done (status : NseStatus) : Settled made true r w
      (iod, { nse with eventDone := true, status := status }) :=
    ⟨by simpa [SockEvent.pending] using counts, descriptor, .inl session, nofun⟩
  rw [sslConnected]
  cases answer with
  | done verified => exact done _
  | wantRead =>
    have watched := bind_first (g := fun iod => pure (iod, { nse with sslDesire := .wantRead }))
      (watchRead_eq counts descriptor)
    exact watched ▸ Settled.desire descriptor session isType waits true
  | wantWrite =>
    have watched := bind_first (g := fun iod => pure (iod, { nse with sslDesire := .wantWrite }))
      (watchWrite_eq counts descriptor)
    exact watched ▸ Settled.desire descriptor session isType waits false
  | failed retry =>
    show Meets _ _ (if cfg.noSslv2 ∧ ¬ iod.udp ∧ ¬ iod.optNoSslv2
      then reconnectNoSslv2 iod nse retry
      else pure (iod, { nse with eventDone := true, status := .error }))
    split
    · next again =>
        cases retry with
        | started sd => exact reconnectNoSslv2_settled counts session isType waits sd
        | noSocket => rfl
        | notBound sd => exact (started again).elim
        | refused sd => exact (started again).elim
    · exact done _

/-- `SSL_connect` once more, when the connect waits for what the session asked for -/
theorem sslConnected_inprogress (counts : iod.Counts (r + nse.sslDesire.reads.toNat)
      (w + nse.sslDesire.writes.toNat)) (descriptor : 0 ≤ iod.sd) (session : iod.ssl = true)
    (asks : nse.sslDesire.Asks) (answer : SslConnect) :
    sslConnected cfg iod nse true answer = sslConnected cfg (iod.counted r w) nse false answer := by
  rw [sslConnected, sslConnected]
  simp only [if_true, Bool.false_eq_true, if_false]
  exact bind_first (uncountDesire_eq session descriptor asks counts)

/-- The counts while the connect is under way, and what `handle_connect_result` does to them
first -/
theorem connectUncounted_begins (counts : iod.Counts (r + 1) (w + 1)) (descriptor : 0 ≤ iod.sd)
    (nse : SockEvent) : connectUncounted iod nse false = .ok (iod.counted r w) := by
  have open_ : iod.sd ≠ -1 := by omega
  rw [connectUncounted, if_neg open_, if_neg nofun]
  exact unwatchBoth_eq counts descriptor

theorem connectUncounted_ends (counts : iod.Counts (r + nse.sslDesire.reads.toNat)
      (w + nse.sslDesire.writes.toNat)) (descriptor : 0 ≤ iod.sd) (session : iod.ssl = true)
    (asks : nse.sslDesire.Asks) (isDone : nse.eventDone = true) :
    connectUncounted iod nse true = .ok (iod.counted r w) := by
  have open_ : iod.sd ≠ -1 := by omega
  rw [connectUncounted, if_neg open_, if_pos rfl, if_pos isDone]
  exact uncountDesire_eq session descriptor asks counts

theorem connectUncounted_goesOn (descriptor : 0 ≤ iod.sd) (waits : nse.eventDone = false) :
    connectUncounted iod nse true = .ok iod := by
  have open_ : iod.sd ≠ -1 := by omega
  rw [connectUncounted, if_neg open_, if_pos rfl, if_neg (by simp [waits])]
  rfl

theorem handleConnectResult_done {made : Prop} {status : NseStatus} {answer : ConnectAnswer}
    {nse' : SockEvent} (checked : connectChecked iod nse status answer.connected = .ok (iod, nse'))
    (uncounted : connectUncounted iod nse' nse.sslconnectInprogress = .ok (iod.counted r w))
    (descriptor : 0 ≤ iod.sd) (isDone : nse'.eventDone = true) :
    Meets (· = .fatal) (Settled made iod.ssl r w)
      (handleConnectResult cfg iod nse status answer) := by
  rw [handleConnectResult]
  simp only [checked, uncounted, bind, Except.bind, isDone, Bool.true_eq_false, and_false, if_false]
  exact Settled.done descriptor (.inl rfl) isDone

/-- The iod with a session, the one it has or a new one -/
def SockIod.newSsl (iod : SockIod) : SockIod :=
  if iod.ssl then iod else { iod with ssl := true, optNoSslv2 := false }

@[simp] theorem SockIod.newSsl_ssl (iod : SockIod) : iod.newSsl.ssl = true := by
  rw [SockIod.newSsl]
  split
  · assumption
  · rfl

@[simp] theorem SockIod.newSsl_sd (iod : SockIod) : iod.newSsl.sd = iod.sd := by
  rw [SockIod.newSsl]
  split <;> rfl

@[simp] theorem SockIod.newSsl_udp (iod : SockIod) : iod.newSsl.udp = iod.udp := by
  rw [SockIod.newSsl]
  split <;> rfl

theorem SockIod.Counts.newSsl (counts : iod.Counts r w) : iod.newSsl.Counts r w := by
  rw [SockIod.newSsl]
  split
  · exact counts
  · exact ⟨counts.read, counts.write, counts.watched, counts.registered⟩

theorem Settled.made {made : Prop} {p : SockIod × SockEvent} (settled : Settled made true r w p)
    (holds : made) : Settled made ssl r w p where
  counts := settled.counts
  descriptor := settled.descriptor
  session := .inr ⟨settled.session.elim id And.left, holds⟩
  fits := settled.fits

theorem handleConnectResult_settled (counts : iod.Counts (r + nse.waitsRead.toNat)
      (w + nse.waitsWrite.toNat)) (descriptor : 0 ≤ iod.sd) (fits : nse.Fits iod.ssl)
    (connects : nse.type = .connect ∨ nse.type = .connectSsl) (waits : nse.eventDone = false)
    (status : NseStatus) (answer : ConnectAnswer)
    (started : nse.reachesSsl status answer.connected = true →
      cfg.noSslv2 ∧ ¬ iod.udp ∧ ¬ (iod.ssl ∧ iod.optNoSslv2) → answer.ssl.retryStarted) :
    Meets (· = .fatal) (Settled (nse.reachesSsl status answer.connected = true) iod.ssl r w)
      (handleConnectResult cfg iod nse status answer) := by
  by_cases ended : status = .timeout ∨ status = .cancelled
  · have checked : connectChecked iod nse status answer.connected =
        .ok (iod, { nse with status := status, eventDone := true }) := by
      rw [connectChecked, if_pos ended]
    cases goesOn : nse.sslconnectInprogress with
    | false =>
      obtain ⟨reads, writes⟩ := fits.both connects goesOn
      rw [reads, writes] at counts
      refine handleConnectResult_done checked ?_ descriptor rfl
      rw [goesOn]
      exact connectUncounted_begins counts descriptor _
    | true =>
      obtain ⟨-, session, asks, reads, writes⟩ := fits.asks goesOn
      rw [reads, writes] at counts
      refine handleConnectResult_done checked ?_ descriptor rfl
      rw [goesOn]
      have isDone : ({ nse with status := status, eventDone := true } : SockEvent).eventDone =
        true := rfl
      exact connectUncounted_ends counts descriptor session asks isDone
  · have live : status ≠ .timeout ∧ status ≠ .cancelled := by simpa using ended
    cases goesOn : nse.sslconnectInprogress with
    | true =>
      obtain ⟨isType, session, asks, reads, writes⟩ := fits.asks goesOn
      rw [reads, writes] at counts
      have checked : connectChecked iod nse status answer.connected = .ok (iod, nse) := by
        rw [connectChecked, if_neg ended, if_pos goesOn]
      have reaches : nse.reachesSsl status answer.connected = true := by
        simp [SockEvent.reachesSsl, isType, live, goesOn]
      rw [handleConnectResult]
      simp only [checked, goesOn, connectUncounted_goesOn descriptor waits, bind, Except.bind,
        isType, waits, and_self, if_true]
      rw [sslConnected_inprogress counts descriptor session asks, session]
      refine sslConnected_settled .of_counted descriptor session isType waits fun again => ?_
      exact started reaches ⟨again.1, again.2.1, fun both => again.2.2 both.2⟩
    | false =>
      obtain ⟨reads, writes⟩ := fits.both connects goesOn
      rw [reads, writes] at counts
      by_cases success : status = .success
      · subst success
        by_cases upgrades : nse.type = .connectSsl ∧ answer.connected = true
        · obtain ⟨isType, connected⟩ := upgrades
          have reaches : nse.reachesSsl .success answer.connected = true := by
            simp [SockEvent.reachesSsl, isType, connected]
          have checked : connectChecked iod nse .success answer.connected =
              .ok (iod.newSsl, { nse with status := .success, sslDesire := .wantConnect }) := by
            rw [connectChecked, if_neg ended, if_neg (by simp [goesOn]), if_pos rfl, connected]
            exact if_pos ⟨isType, rfl⟩
          rw [handleConnectResult, checked]
          have counts := counts.newSsl
          have descriptor : 0 ≤ iod.newSsl.sd := iod.newSsl_sd ▸ descriptor
          simp only [goesOn, connectUncounted_begins counts descriptor, bind, Except.bind,
            isType, waits, and_self, if_true]
          refine Meets.mono ?_ fun p settled => Settled.made settled reaches
          refine sslConnected_settled .of_counted descriptor iod.newSsl_ssl rfl rfl ?_
          rintro ⟨noSslv2, tcp, noOption⟩
          refine started reaches ⟨noSslv2, iod.newSsl_udp ▸ tcp, fun both => noOption ?_⟩
          rw [SockIod.counted_optNoSslv2, SockIod.newSsl, if_pos both.1]
          exact both.2
        · have checked : connectChecked iod nse .success answer.connected = .ok (iod, { nse with
              status := if answer.connected then .success else .error, eventDone := true }) := by
            have notSsl : ¬ (nse.type = .connectSsl ∧
                (if answer.connected then NseStatus.success else .error) = .success) := by
              simpa using upgrades
            rw [connectChecked, if_neg ended, if_neg (by simp [goesOn]), if_pos rfl]
            exact if_neg notSsl
          refine handleConnectResult_done checked ?_ descriptor rfl
          rw [goesOn]
          exact connectUncounted_begins counts descriptor _
      · have checked : connectChecked iod nse status answer.connected = .error .fatal := by
          rw [connectChecked, if_neg ended, if_neg (by simp [goesOn]), if_neg success]
        rw [handleConnectResult, checked]
        rfl

/-! ## Starting events -/

/-- What `nsock_pool_add_event` leaves -/
structure Added (iod : SockIod) (r w : Nat) (p : SockIod × SockEvent) : Prop where
  counts : p.1.Counts (r + p.2.pending.countP SockEvent.waitsRead)
    (w + p.2.pending.countP SockEvent.waitsWrite)
  sd : p.1.sd = iod.sd
  session : p.1.ssl = iod.ssl
  waits : p.2.eventDone = false → 0 ≤ p.1.sd ∧ p.2.Fits p.1.ssl

theorem Added.done (counts : iod.Counts r w) (isDone : nse.eventDone = true) :
    Added iod r w (iod, nse) where
  counts := by simpa [SockEvent.pending, isDone] using counts
  sd := rfl
  session := rfl
  waits waits := by simp [isDone] at waits

/-- An event that waits for `dr` and `dw` -/
theorem Added.counted (dr dw : Bool) (descriptor : 0 ≤ iod.sd) (waits : nse.eventDone = false)
    (reads : nse.waitsRead = dr) (writes : nse.waitsWrite = dw) (fits : nse.Fits iod.ssl) :
    Added iod r w (iod.counted (r + dr.toNat) (w + dw.toNat), nse) where
  counts := by
    subst reads writes
    simpa [SockEvent.pending, waits, countP_cons, toNat_eq_ite] using
      SockIod.Counts.of_counted
  sd := rfl
  session := rfl
  waits _ := ⟨descriptor, fits⟩

theorem nsockPoolAddEvent_added (counts : iod.Counts r w) (fresh : nse.sslDesire = .none)
    (streams : nse.type = .connect ∨ nse.type = .connectSsl ∨ nse.type = .read ∨
      nse.type = .write) :
    Meets (· = .fatal) (Added iod r w) (nsockPoolAddEvent iod nse) := by
  rw [nsockPoolAddEvent]
  dsimp only
  have same : nse.Same (nse.atEof iod.ioeof) := by
    rw [SockEvent.atEof]
    split <;> exact ⟨rfl, rfl⟩
  generalize nse.atEof iod.ioeof = nse' at same
  have fresh : nse'.sslDesire = .none := same.desire.trans fresh
  rw [← same.type] at streams
  split
  · next isDone => exact .done counts isDone
  · next waits =>
      have waits : nse'.eventDone = false := by simpa using waits
      by_cases descriptor : 0 ≤ iod.sd
      · rw [assertThat, if_pos descriptor]
        rcases streams with isType | isType | isType | isType
        · simp only [isType]
          have watched := bind_first₂ (g := fun iod => pure (iod, nse'))
            (watchBoth_eq counts descriptor)
          refine watched ▸ Added.counted true true descriptor waits ?_ ?_ ?_ <;>
            simp [SockEvent.waitsRead, SockEvent.waitsWrite, SockEvent.Fits, isType, fresh]
        · simp only [isType]
          have watched := bind_first₂ (g := fun iod => pure (iod, nse'))
            (watchBoth_eq counts descriptor)
          refine watched ▸ Added.counted true true descriptor waits ?_ ?_ ?_ <;>
            simp [SockEvent.waitsRead, SockEvent.waitsWrite, SockEvent.Fits, SslDesire.Asks,
              isType, fresh]
        · simp only [isType]
          have watched := bind_first (g := fun iod => pure (iod,
              if iod.ssl then { nse' with type := .read, sslDesire := .wantRead } else nse'))
            (watchRead_eq counts descriptor)
          refine watched ▸ ?_
          cases session : iod.ssl with
          | true =>
            simp only [SockIod.counted_ssl, session, if_true]
            refine Added.counted true false descriptor waits ?_ ?_ ?_ <;>
              simp [SockEvent.waitsRead, SockEvent.waitsWrite, SockEvent.Fits, SslDesire.Asks,
                session]
          | false =>
            simp only [SockIod.counted_ssl, session, Bool.false_eq_true, if_false]
            refine Added.counted true false descriptor waits ?_ ?_ ?_ <;>
              simp [SockEvent.waitsRead, SockEvent.waitsWrite, SockEvent.Fits, isType, session,
                fresh]
        · simp only [isType]
          have watched := bind_first (g := fun iod => pure (iod,
              if iod.ssl then { nse' with type := .write, sslDesire := .wantWrite } else nse'))
            (watchWrite_eq counts descriptor)
          refine watched ▸ ?_
          cases session : iod.ssl with
          | true =>
            simp only [SockIod.counted_ssl, session, if_true]
            refine Added.counted false true descriptor waits ?_ ?_ ?_ <;>
              simp [SockEvent.waitsRead, SockEvent.waitsWrite, SockEvent.Fits, SslDesire.Asks,
                session]
          | false =>
            simp only [SockIod.counted_ssl, session, Bool.false_eq_true, if_false]
            refine Added.counted false true descriptor waits ?_ ?_ ?_ <;>
              simp [SockEvent.waitsRead, SockEvent.waitsWrite, SockEvent.Fits, isType, session,
                fresh]
      · rw [assertThat, if_neg descriptor]
        rfl

/-! ## Every run -/

/-- The books of a socket -/
structure SocketRun.Books (s : SocketRun) : Prop where
  counts : s.iod.Counts (s.events.countP SockEvent.waitsRead)
    (s.events.countP SockEvent.waitsWrite)
  descriptor : s.events ≠ [] → 0 ≤ s.iod.sd
  fits : ∀ nse ∈ s.events, nse.eventDone = false ∧ nse.Fits s.iod.ssl

/-- While the program runs the books are kept, and what ends it is no assertion of a
`socket_count_*` function. -/
def SocketRun.Kept (s : SocketRun) : Prop :=
  match s.failed with
  | none => s.Books
  | some f => f = .fatal

variable {s : SocketRun}

theorem SocketRun.Books.watched (books : s.Books) : s.Watched where
  read := books.counts.read
  write := books.counts.write
  watchedRead := by simp [books.counts.watched, books.counts.read]
  watchedWrite := by simp [books.counts.watched, books.counts.write]

theorem SocketRun.Kept.sound (kept : s.Kept) : s.Sound := by
  rw [SocketRun.Kept] at kept
  split at kept
  · next runs => exact ⟨by simp [runs], fun _ => kept.watched⟩
  · next f failed =>
      subst kept
      exact ⟨by simp [failed], fun runs => by simp [failed] at runs⟩

/-- What a call leaves among the other events -/
theorem SocketRun.Books.after {before later : List SockEvent} {p : SockIod × SockEvent}
    (counts : p.1.Counts ((before ++ later).countP SockEvent.waitsRead +
        p.2.pending.countP SockEvent.waitsRead)
      ((before ++ later).countP SockEvent.waitsWrite + p.2.pending.countP SockEvent.waitsWrite))
    (others : ∀ nse ∈ before ++ later, nse.eventDone = false ∧ nse.Fits p.1.ssl)
    (own : p.2.eventDone = false → p.2.Fits p.1.ssl)
    (descriptor : before ++ p.2.pending ++ later ≠ [] → 0 ≤ p.1.sd) :
    SocketRun.Books ⟨p.1, before ++ p.2.pending ++ later, none⟩ where
  counts := by
    have move : ∀ f : SockEvent → Bool, (before ++ p.2.pending ++ later).countP f =
        (before ++ later).countP f + p.2.pending.countP f := by
      intro f
      simp only [countP_append]
      omega
    simpa only [move] using counts
  descriptor := descriptor
  fits := by
    intro nse mem
    rcases mem_append.mp mem with mem | mem
    · rcases mem_append.mp mem with mem | mem
      · exact others nse (mem_append_left _ mem)
      · rw [SockEvent.pending] at mem
        split at mem
        · exact absurd mem not_mem_nil
        · next waits =>
            cases mem_singleton.mp mem
            have waits : p.2.eventDone = false := by simpa using waits
            exact ⟨waits, own waits⟩
    · exact others nse (mem_append_right _ mem)

/-- An event is started. -/
theorem SocketRun.Books.start (books : s.Books)
    (counts : iod.Counts (s.events.countP SockEvent.waitsRead)
      (s.events.countP SockEvent.waitsWrite))
    (session : iod.ssl = s.iod.ssl) (descriptor : s.events ≠ [] → 0 ≤ iod.sd)
    (fresh : nse.sslDesire = .none)
    (streams : nse.type = .connect ∨ nse.type = .connectSsl ∨ nse.type = .read ∨
      nse.type = .write) : (s.start iod nse).Kept := by
  have added := nsockPoolAddEvent_added counts fresh streams
  rw [SocketRun.start]
  cases called : nsockPoolAddEvent iod nse with
  | error f =>
    rw [called] at added
    exact added
  | ok p =>
    have added := added.of_ok called
    refine SocketRun.Books.after (p := p) ?_ ?_ (fun waits => (added.waits waits).2) ?_
    · simpa using added.counts
    · intro other mem
      rw [added.session, session]
      exact books.fits other (by simpa using mem)
    · intro some
      cases waits : p.2.eventDone with
      | false => exact (added.waits waits).1
      | true =>
        rw [added.sd]
        exact descriptor (by simpa [SockEvent.pending, waits] using some)

/-- `nsock_make_socket` changes nothing that is counted. -/
theorem SockIod.Counts.makeSocket (counts : iod.Counts r w) (udp : Bool) (sd : Option Nat) :
    (nsockMakeSocket iod udp sd).Counts r w := by
  cases sd <;> exact ⟨counts.read, counts.write, counts.watched, counts.registered⟩

theorem nsockMakeSocket_ssl (iod : SockIod) (udp : Bool) (sd : Option Nat) :
    (nsockMakeSocket iod udp sd).ssl = iod.ssl := by
  cases sd <;> rfl

/-- The handler of a pending event -/
theorem handleResult_settled (cfg : SslConfig) (counts : iod.Counts (r + nse.waitsRead.toNat)
      (w + nse.waitsWrite.toNat)) (descriptor : 0 ≤ iod.sd) (fits : nse.Fits iod.ssl)
    (waits : nse.eventDone = false) (status : NseStatus) (answers : Answers)
    (started : nse.reachesSsl status answers.connect.connected = true →
      cfg.noSslv2 ∧ ¬ iod.udp ∧ ¬ (iod.ssl ∧ iod.optNoSslv2) →
        answers.connect.ssl.retryStarted) :
    Meets (· = .fatal)
      (Settled (nse.reachesSsl status answers.connect.connected = true) iod.ssl r w)
      (handleResult cfg iod nse status answers) := by
  have weaken {p : SockIod × SockEvent} (settled : Settled False iod.ssl r w p) :
      Settled (nse.reachesSsl status answers.connect.connected = true) iod.ssl r w p :=
    { settled with session := settled.session.imp id fun made => made.2.elim }
  rw [handleResult]
  split
  · next isType =>
      exact handleConnectResult_settled counts descriptor fits (.inl isType) waits _ _ started
  · next isType =>
      exact handleConnectResult_settled counts descriptor fits (.inr isType) waits _ _ started
  · next isType =>
      have held : Held .read iod.ssl r w (iod, nse) := ⟨counts, descriptor, rfl, isType, fits⟩
      exact (held.handleReadResult status answers.read).mono fun _ => weaken
  · next isType =>
      have held : Held .write iod.ssl r w (iod, nse) := ⟨counts, descriptor, rfl, isType, fits⟩
      exact (held.handleWriteResult status answers.write).mono fun _ => weaken
  · rfl

theorem SockEvent.Fits.onlyConnects (fits : nse.Fits false)
    (connects : nse.type ≠ .read ∧ nse.type ≠ .write) : nse.Fits true := by
  cases isType : nse.type <;> simp_all [SockEvent.Fits]

/-- The handler of a pending event runs. -/
theorem SocketRun.Books.result (books : s.Books) {i : Nat} (at_ : s.events[i]? = some nse)
    {status : NseStatus} {answers : Answers}
    (safe : SocketInput.Safe cfg s (.result i status answers)) :
    (s.after (s.events.take i) (s.events.drop (i + 1))
      (handleResult cfg s.iod nse status answers)).Kept := by
  obtain ⟨inside, at_⟩ := List.getElem?_eq_some_iff.mp at_
  have split : s.events = s.events.take i ++ nse :: s.events.drop (i + 1) := by
    rw [← at_, getElem_cons_drop, take_append_drop]
  have mem : nse ∈ s.events := at_ ▸ getElem_mem inside
  generalize s.events.take i = before at split ⊢
  generalize s.events.drop (i + 1) = later at split ⊢
  have total : ∀ f : SockEvent → Bool,
      s.events.countP f = (before ++ later).countP f + (f nse).toNat := by
    intro f
    rw [split]
    cases held : f nse
    · simp [held]
    · simp [held]
      omega
  have others : ∀ other ∈ before ++ later, other ∈ s.events := by
    intro other mem
    rw [split]
    rcases mem_append.mp mem with mem | mem
    · exact mem_append_left _ mem
    · exact mem_append_right _ (mem_cons_of_mem _ mem)
  have counts := books.counts
  rw [total, total] at counts
  have descriptor := books.descriptor (ne_nil_of_mem mem)
  obtain ⟨waits, fits⟩ := books.fits nse mem
  have guard := safe nse (List.getElem?_eq_some_iff.mpr ⟨inside, at_⟩)
  have settled := handleResult_settled cfg counts descriptor fits waits status answers
    fun reaches => (guard reaches).2
  cases called : handleResult cfg s.iod nse status answers with
  | error f =>
    rw [called] at settled
    exact settled
  | ok p =>
    have settled := settled.of_ok called
    refine SocketRun.Books.after (p := p) settled.counts ?_ settled.fits
      fun _ => settled.descriptor
    intro other mem
    obtain ⟨otherWaits, otherFits⟩ := books.fits other (others other mem)
    refine ⟨otherWaits, ?_⟩
    rcases settled.session with same | ⟨made, reaches⟩
    · rw [same]
      exact otherFits
    · rw [made]
      cases session : s.iod.ssl with
      | true => exact session ▸ otherFits
      | false =>
        have connects := (guard reaches).1 session other (others other mem)
        exact SockEvent.Fits.onlyConnects (session ▸ otherFits) connects

/-- Each step that meets the condition keeps the books. -/
theorem SocketRun.Kept.step {t : SocketRun} (kept : s.Kept) {input : SocketInput}
    (safe : input.Safe cfg s) (steps : SocketRun.step cfg s input = some t) : t.Kept := by
  unfold SocketRun.step at steps
  split at steps
  · cases steps
  · next runs =>
      have runs : s.failed = none := by simpa using runs
      have books : s.Books := by simpa [SocketRun.Kept, runs] using kept
      cases input with
      | setupUdp sd =>
        cases steps
        show SocketRun.Kept { s with iod := nsockMakeSocket s.iod true sd }
        simp only [SocketRun.Kept, runs]
        refine ⟨books.counts.makeSocket true sd, ?_, ?_⟩
        · intro some
          cases sd with
          | none => exact absurd safe some
          | some sd => exact Int.natCast_nonneg sd
        · rw [nsockMakeSocket_ssl]
          exact books.fits
      | connect ssl udp outcome =>
        cases steps
        have descriptor : s.events ≠ [] → 0 ≤ (nsockMakeSocket s.iod udp outcome.sd).sd := by
          intro some
          cases outcome with
          | noSocket => exact absurd safe some
          | notBound sd => exact Int.natCast_nonneg sd
          | refused sd => exact Int.natCast_nonneg sd
          | started sd => exact Int.natCast_nonneg sd
        have begins (nse : SockEvent) (fresh : nse.sslDesire = .none)
            (connects : nse.type = if ssl then .connectSsl else .connect) :
            (s.start (nsockMakeSocket s.iod udp outcome.sd) nse).Kept := by
          refine books.start (books.counts.makeSocket udp _) (nsockMakeSocket_ssl _ _ _)
            descriptor fresh ?_
          cases ssl
          · exact .inl connects
          · exact .inr (.inl connects)
        cases outcome <;> exact begins _ rfl rfl
      | reconnectSsl =>
        dsimp only at steps
        split at steps
        · cases steps
          simp [SocketRun.Kept]
        · cases steps
          exact books.start books.counts rfl books.descriptor rfl (.inr (.inl rfl))
      | read readType num =>
        cases steps
        exact books.start books.counts rfl books.descriptor rfl (.inr (.inr (.inl rfl)))
      | write data =>
        cases steps
        exact books.start books.counts rfl books.descriptor rfl (.inr (.inr (.inr rfl)))
      | result i status answers =>
        dsimp only at steps
        split at steps
        · cases steps
        · next nse at_ =>
            cases steps
            exact books.result at_ safe

theorem socket_kept (cfg : SslConfig) :
    TSys.Inductive ((socket cfg).guarded fun s input => input.Safe cfg s) SocketRun.Kept where
  init := by
    rintro s ⟨sd, rfl⟩
    exact ⟨SockIod.Counts.makeSocket ⟨rfl, rfl, rfl, .inr ⟨rfl, rfl⟩⟩ false sd, by simp, by simp⟩
  step s t kept steps := by
    obtain ⟨input, safe, steps⟩ := steps
    exact kept.step safe steps

/-- In every run in which no descriptor goes away under a waiting event, no SSL session appears
under a plain read or write, and no second connection of an SSL connect ends at once, an iod is
watched for exactly what its events wait for. -/
theorem watches_what_is_needed (cfg : SslConfig) {s : SocketRun}
    (reach : ((socket cfg).guarded fun s input => input.Safe cfg s).Reachable s) : s.Sound :=
  ((socket_kept cfg).holds reach).sound

/-- The answers of a connection that is up, to the session of which the library answers `ssl` -/
def upAnswers (ssl : SslConnect) : Answers := ⟨⟨true, ssl⟩, .again, ⟨[], .again⟩⟩

/-- An SSL connect whose handshake waits for the peer, and a read besides -/
theorem watches_what_is_needed_handshake :
    ∃ s : SocketRun, s.iod.readsdCount = 2 ∧ s.iod.watchedEvents = .evRead ∧ s.Sound := by
  have waits : SocketInput.Safe ⟨true⟩
      ⟨⟨5, false, false, false, 1, 1, true, ⟨true, true⟩, false⟩, [.new .connectSsl], none⟩
      (.result 0 .success (upAnswers .wantRead)) := by
    intro nse at_ _
    cases at_
    exact ⟨fun _ nse mem => by cases mem_singleton.mp mem; simp [SockEvent.new],
      fun _ => trivial⟩
  exact ⟨_, rfl, rfl, watches_what_is_needed ⟨true⟩ (.next (.next (.next (.start ⟨none, rfl⟩)
    ⟨.connect true false (.started 5), trivial, rfl⟩)
    ⟨.result 0 .success (upAnswers .wantRead), waits, rfl⟩)
    ⟨.read .read 0, trivial, rfl⟩)⟩

/-- A read waits when the connection is upgraded to SSL, and then times out. -/
def upgradeUnderRead : List SocketInput :=
  [.connect false false (.started 5),
    .result 0 .success (upAnswers .wantRead),
    .read .read 0,
    .reconnectSsl,
    .result 1 .success (upAnswers .wantRead),
    .result 0 .timeout (upAnswers .wantRead)]

/-- The plain read has no `ssl_desire`, but the iod has a session by then. -/
theorem watches_not_upgradeUnderRead :
    ∃ s : SocketRun, (socket ⟨true⟩).sys.Reachable s ∧
      (socket ⟨true⟩).run ⟨.new, [], none⟩ upgradeUnderRead = some s ∧ ¬ s.Sound := by
  have ran : (socket ⟨true⟩).run ⟨.new, [], none⟩ upgradeUnderRead =
      some ⟨⟨5, false, true, false, 2, 0, true, .evRead, false⟩,
        [.new .read, { SockEvent.new .connectSsl with
          status := .success, sslDesire := .wantRead }], some .socketCount⟩ := by rfl
  exact ⟨_, Machine.run_reachable (.start ⟨none, rfl⟩) ran, ran, fun sound => sound.1 rfl⟩

end Nmap.Nsock
