import Nmap.Dns.Resolver
import Nmap.Base.TSys
import Mathlib.Data.List.Perm.Subperm
import Mathlib.Algebra.Order.BigOperators.Group.Finset

/-!
# The books of the resolver

A request that is `READY` is in one place: in `new_reqs`, in `to_process` or in `in_process` of
one server. A request that is not is nowhere. Every handler keeps these books, with two
exceptions: a write that fails takes its request off `in_process` but not off `reqs_on_wire`,
and an answer takes its request off `reqs_on_wire` even if it is not in `in_process`.
-/

namespace Nmap.Dns

open Nmap.Base List Function

/-! ## Sums over a family in which one element changes -/

theorem sum_update_balance {ι α : Type*} [Fintype ι] [DecidableEq ι] (g : α → Nat) (f : ι → α)
    (k : ι)
    (v : α) : ∑ i, g (update f k v i) + g (f k) = ∑ i, g (f i) + g v := by
  have others : ∑ i ∈ Finset.univ.erase k, g (update f k v i) =
      ∑ i ∈ Finset.univ.erase k, g (f i) := by
    refine Finset.sum_congr rfl ?_
    intro i mem
    rw [update_of_ne (Finset.ne_of_mem_erase mem)]
  have before := Finset.add_sum_erase Finset.univ (fun i => g (f i)) (Finset.mem_univ k)
  have after := Finset.add_sum_erase Finset.univ (fun i => g (update f k v i))
    (Finset.mem_univ k)
  simp only [update_self] at after
  omega

/-! ## Places -/

variable {n m : Nat}

/-- How often a request is in the lists of a server -/
def Server.places (sv : Server m) (r : Fin m) : Nat := sv.toProcess.count r + sv.inProcess.count r

/-- The lists of a server and its `reqs_on_wire` -/
structure Server.Sound (sv : Server m) : Prop where
  wire : sv.status = .connected → sv.reqsOnWire = sv.inProcess.length
  idle : sv.status ≠ .connected → sv.inProcess = [] ∧ sv.toProcess = []
  fresh : sv.status = .connecting → sv.reqsOnWire = 0

namespace Resolver

def places (s : Resolver n m) (r : Fin m) : Nat :=
  s.newReqs.count r + ∑ k, (s.servers k).places r

/-- The requests that are `READY` -/
def readyReqs (s : Resolver n m) : Finset (Fin m) := Finset.univ.filter s.Ready

/-- The books balance, but for requests that a handler holds between two lists. -/
structure Balanced (s : Resolver n m) (held : List (Fin m)) : Prop where
  sound : ∀ k, (s.servers k).Sound
  placed : ∀ r, s.places r + held.count r = if s.Ready r then 1 else 0
  total : s.totalReqs = s.readyReqs.card

/-- No request that was finished changes its status or is counted as dropped. -/
structure Kept (s t : Resolver n m) : Prop where
  status : ∀ r, ¬ s.Ready r → (t.reqs r).status = (s.reqs r).status
  dropped : ∃ new, t.stat.dropped = s.stat.dropped ++ new ∧ ∀ r ∈ new, s.Ready r

theorem Kept.refl (s : Resolver n m) : s.Kept s :=
  ⟨fun _ _ => rfl, [], by simp, by simp⟩

variable {s t : Resolver n m}

theorem Kept.trans {u : Resolver n m} (first : s.Kept t) (second : t.Kept u) : s.Kept u := by
  have back : ∀ r, t.Ready r → s.Ready r := by
    intro r ready
    by_contra finished
    have same := first.status r finished
    rw [Ready] at ready finished
    exact finished (same ▸ ready)
  obtain ⟨new, eq, ready⟩ := first.dropped
  obtain ⟨new', eq', ready'⟩ := second.dropped
  refine ⟨?_, new ++ new', by rw [eq', eq, append_assoc], ?_⟩
  · intro r finished
    have still : ¬ t.Ready r := fun again => finished (back r again)
    rw [second.status r still, first.status r finished]
  · intro r mem
    rcases mem_append.mp mem with mem | mem
    · exact ready r mem
    · exact back r (ready' r mem)

theorem Kept.of_same (same : ∀ r, (t.reqs r).status = (s.reqs r).status)
    (dropped : t.stat.dropped = s.stat.dropped) : s.Kept t :=
  ⟨fun r _ => same r, [], by simp [dropped], by simp⟩

/-! ## Changing one server or one request -/

theorem ready_congr (same : ∀ r, (t.reqs r).status = (s.reqs r).status) (r : Fin m) :
    t.Ready r ↔ s.Ready r := by
  rw [Ready, Ready, same]

theorem readyReqs_congr (same : ∀ r, (t.reqs r).status = (s.reqs r).status) :
    t.readyReqs = s.readyReqs := by
  simp [readyReqs, ready_congr same]

variable {held : List (Fin m)}

theorem Balanced.congr (books : s.Balanced held) (servers : t.servers = s.servers)
    (newReqs : t.newReqs = s.newReqs) (total : t.totalReqs = s.totalReqs)
    (same : ∀ r, (t.reqs r).status = (s.reqs r).status) :
    t.Balanced held := by
  refine ⟨?_, ?_, ?_⟩
  · rw [servers]
    exact books.sound
  · intro r
    have placed := books.placed r
    simp only [places, servers, newReqs, ready_congr same] at placed ⊢
    exact placed
  · rw [total, readyReqs_congr same]
    exact books.total

variable {k : Fin n} {f : Server m → Server m}

theorem Balanced.onServer {held' : List (Fin m)} (books : s.Balanced held)
    (sound : (f (s.servers k)).Sound)
    (moved : ∀ r, (f (s.servers k)).places r + held'.count r =
      (s.servers k).places r + held.count r) : (s.onServer k f).Balanced held' := by
  refine ⟨?_, ?_, books.total⟩
  · intro j
    by_cases is : j = k
    · subst is
      simpa [Resolver.onServer] using sound
    · simpa [Resolver.onServer, is] using books.sound j
  · intro r
    have placed := books.placed r
    have sum := sum_update_balance (fun sv : Server m => sv.places r) s.servers k (f (s.servers k))
    have here := moved r
    show (s.newReqs.count r + ∑ j, (update s.servers k (f (s.servers k)) j).places r) +
      held'.count r = if s.Ready r then 1 else 0
    rw [← placed, places]
    omega

theorem kept_onServer (s : Resolver n m) (k : Fin n) (f : Server m → Server m) :
    s.Kept (s.onServer k f) := Kept.of_same (fun _ => rfl) rfl

variable {r : Fin m}

theorem status_onRequest {f : Request n → Request n}
    (same : (f (s.reqs r)).status = (s.reqs r).status) (x : Fin m) :
    ((s.onRequest r f).reqs x).status = (s.reqs x).status := by
  by_cases is : x = r
  · subst is
    simpa [Resolver.onRequest] using same
  · simp [Resolver.onRequest, is]

theorem Balanced.onRequest (books : s.Balanced held) {f : Request n → Request n}
    (same : (f (s.reqs r)).status = (s.reqs r).status) : (s.onRequest r f).Balanced held :=
  books.congr rfl rfl rfl (status_onRequest same)

theorem kept_onRequest {f : Request n → Request n}
    (same : (f (s.reqs r)).status = (s.reqs r).status) : s.Kept (s.onRequest r f) :=
  Kept.of_same (status_onRequest same) rfl

/-- A server whose lists and `reqs_on_wire` stay -/
theorem Balanced.sameLists (books : s.Balanced held)
    (status : (f (s.servers k)).status = (s.servers k).status)
    (wire : (f (s.servers k)).reqsOnWire = (s.servers k).reqsOnWire)
    (inside : (f (s.servers k)).inProcess = (s.servers k).inProcess)
    (waiting : (f (s.servers k)).toProcess = (s.servers k).toProcess) :
    (s.onServer k f).Balanced held := by
  have old := books.sound k
  refine books.onServer ⟨?_, ?_, ?_⟩ ?_
  · rw [status, wire, inside]
    exact old.wire
  · rw [status, inside, waiting]
    exact old.idle
  · rw [status, wire]
    exact old.fresh
  · intro r
    simp [Server.places, inside, waiting]

/-- A request that is in a list is `READY`. -/
theorem Balanced.ready_of_places (books : s.Balanced held) (somewhere : 0 < s.places r) :
    s.Ready r := by
  by_contra finished
  have placed := books.placed r
  rw [if_neg finished] at placed
  omega

theorem places_server_le (s : Resolver n m) (k : Fin n) (r : Fin m) :
    s.newReqs.count r + (s.servers k).places r ≤ s.places r := by
  have one := Finset.single_le_sum (f := fun j => (s.servers j).places r)
    (fun _ _ => Nat.zero_le _) (Finset.mem_univ k)
  rw [places]
  exact Nat.add_le_add_left one _

/-- A request that is held leaves the books when it is done. -/
theorem Balanced.markAsDone (books : s.Balanced (r :: held)) (hasAnswer : Bool) :
    (s.markAsDone r hasAnswer).Balanced held ∧ s.Ready r := by
  have here := books.placed r
  rw [count_cons_self] at here
  have ready : s.Ready r := by
    by_contra finished
    rw [if_neg finished] at here
    omega
  rw [if_pos ready] at here
  have finished : ¬ (s.markAsDone r hasAnswer).Ready r := by
    cases hasAnswer <;> simp [Ready, Resolver.markAsDone]
  have other : ∀ x, x ≠ r → ((s.markAsDone r hasAnswer).Ready x ↔ s.Ready x) := by
    intro x ne
    simp [Ready, Resolver.markAsDone, ne]
  refine ⟨⟨books.sound, ?_, ?_⟩, ready⟩
  · intro x
    show s.places x + held.count x = _
    by_cases is : x = r
    · subst is
      rw [if_neg finished]
      omega
    · have placed := books.placed x
      rw [count_cons_of_ne (Ne.symm is)] at placed
      simp only [other x is]
      exact placed
  · have fewer : (s.markAsDone r hasAnswer).readyReqs = s.readyReqs.erase r := by
      ext x
      by_cases is : x = r
      · subst is
        simp [readyReqs, finished]
      · simp [readyReqs, other x is, is]
    have mem : r ∈ s.readyReqs := by simp [readyReqs, ready]
    have pos : 0 < s.readyReqs.card := Finset.card_pos.mpr ⟨r, mem⟩
    have total : (s.markAsDone r hasAnswer).totalReqs = s.totalReqs - 1 := if_pos ready
    rw [total, fewer, Finset.card_erase_of_mem mem, books.total]
    omega

theorem kept_markAsDone (ready : s.Ready r) (hasAnswer : Bool) :
    s.Kept (s.markAsDone r hasAnswer) := by
  refine ⟨?_, [], by simp [Resolver.markAsDone], by simp⟩
  intro x finished
  have ne : x ≠ r := by
    rintro rfl
    exact finished ready
  simp [Resolver.markAsDone, ne]

/-! ## Sending -/

variable (cfg : Config m)

theorem Balanced.putDnsPacketOnWire {s : Resolver n m} {r : Fin m} {held : List (Fin m)}
    (books : s.Balanced (r :: held)) {k : Fin n} (connected : (s.servers k).status = .connected) :
    (putDnsPacketOnWire cfg s r k).Balanced held := by
  have old := books.sound k
  refine books.onServer ⟨?_, ?_, ?_⟩ ?_
  · intro _
    have wire := old.wire connected
    simp only [length_cons]
    omega
  · intro other
    exact absurd connected other
  · intro other
    rw [connected] at other
    cases other
  · intro x
    simp only [Server.places, count_cons]
    omega

theorem status_firstServer (s : Resolver n m) (r : Fin m) (k : Fin n) (x : Fin m) :
    (update s.reqs r { s.reqs r with firstServer := some k } x).status =
      (s.reqs x).status := by
  by_cases is : x = r
  · subst is
    simp
  · simp [is]

/-- **A server sends a request that is `READY`, or there is none.** -/
theorem serverSend_books (books : s.Balanced []) (connected : (s.servers k).status = .connected) :
    (serverSend cfg s k).2.Balanced [] ∧ s.Kept (serverSend cfg s k).2 ∧
      ((serverSend cfg s k).2.servers k).status = .connected := by
  have old := books.sound k
  unfold serverSend
  split
  · exact ⟨books, Kept.refl s, connected⟩
  cases new : s.newReqs with
  | cons r rest =>
    have ready : s.Ready r := by
      apply books.ready_of_places
      simp [places, new]
    have pop : popNew k s.reqs (r :: rest) =
        (some r, update s.reqs r { s.reqs r with firstServer := some k }, rest) := by
      simp only [popNew, update_self]
      rw [if_pos (show (s.reqs r).status = .ready from ready)]
    simp only [pop]
    have held : ({ s with
        reqs := update s.reqs r { s.reqs r with firstServer := some k }
        newReqs := rest } : Resolver n m).Balanced [r] := by
      refine ⟨books.sound, ?_, ?_⟩
      · intro x
        have placed := books.placed x
        have same := ready_congr (s := s) (t := { s with
          reqs := update s.reqs r { s.reqs r with firstServer := some k }
          newReqs := rest }) (status_firstServer s r k) x
        simp only [same]
        rw [← placed]
        simp only [places, new, count_cons, count_nil]
        omega
      · have same := readyReqs_congr (s := s) (t := { s with
          reqs := update s.reqs r { s.reqs r with firstServer := some k }
          newReqs := rest }) (status_firstServer s r k)
        rw [same]
        exact books.total
    refine ⟨?_, ?_, ?_⟩
    · refine Balanced.putDnsPacketOnWire cfg ?_ connected
      exact held.congr rfl rfl rfl fun _ => rfl
    · exact Kept.of_same (status_firstServer s r k) rfl
    · simpa [putDnsPacketOnWire, Resolver.onServer, onStat] using connected
  | nil =>
    have pop : popNew k s.reqs [] = (none, s.reqs, []) := rfl
    simp only [pop]
    have same : ({ s with reqs := s.reqs, newReqs := [] } : Resolver n m) = s := by
      rw [← new]
    rw [same]
    cases waiting : (s.servers k).toProcess with
    | nil =>
      simp only [popToProcess]
      refine ⟨?_, kept_onServer s k _, ?_⟩
      · exact books.sameLists rfl rfl rfl waiting.symm
      · simpa [Resolver.onServer] using connected
    | cons r rest =>
      have ready : s.Ready r := by
        apply books.ready_of_places
        have here := places_server_le s k r
        simp only [Server.places, waiting, count_cons_self] at here
        omega
      simp only [popToProcess]
      rw [if_pos (show (s.reqs r).status = .ready from ready)]
      dsimp only
      have held : (s.onServer k fun sv => { sv with toProcess := rest }).Balanced [r] := by
        refine books.onServer ⟨old.wire, ?_, old.fresh⟩ ?_
        · intro other
          exact absurd connected other
        · intro x
          simp only [Server.places, waiting, count_cons, count_nil]
          omega
      have still : ((s.onServer k fun sv => { sv with toProcess := rest }).servers k).status =
          .connected := by
        simpa [Resolver.onServer] using connected
      refine ⟨?_, Kept.of_same (fun _ => rfl) rfl, ?_⟩
      · refine Balanced.putDnsPacketOnWire cfg ?_ still
        exact held.congr rfl rfl rfl fun _ => rfl
      · simpa [putDnsPacketOnWire, Resolver.onServer, onStat] using still

theorem sendMany_books (i : Nat) (books : s.Balanced [])
    (connected : (s.servers k).status = .connected) :
    (sendMany cfg k i s).Balanced [] ∧ s.Kept (sendMany cfg k i s) := by
  induction i generalizing s with
  | zero => exact ⟨books, Kept.refl s⟩
  | succ i ih =>
    obtain ⟨books', kept, still⟩ := serverSend_books cfg books connected
    rw [sendMany]
    split
    · next t eq =>
        rw [eq] at books' kept still
        obtain ⟨later, kept'⟩ := ih books' still
        exact ⟨later, kept.trans kept'⟩
    · next t eq =>
        rw [eq] at books' kept
        exact ⟨books', kept⟩

/-- A handler that keeps the books and the requests that are finished -/
def KeepsBooks (f : Resolver n m → Resolver n m) : Prop :=
  ∀ s, s.Balanced [] → (f s).Balanced [] ∧ s.Kept (f s)

theorem keepsBooks_foldl {ι : Type} {f : Resolver n m → ι → Resolver n m} (l : List ι)
    (each : ∀ i, KeepsBooks fun s => f s i) : KeepsBooks fun s => l.foldl f s := by
  induction l with
  | nil => exact fun s books => ⟨books, Kept.refl s⟩
  | cons i l ih =>
    intro s books
    obtain ⟨first, kept⟩ := each i s books
    obtain ⟨later, kept'⟩ := ih (f s i) first
    exact ⟨later, kept.trans kept'⟩

/-- **`do_possible_writes` keeps the books.** -/
theorem doPossibleWrites_books : KeepsBooks (doPossibleWrites (n := n) cfg) := by
  intro s books
  have sends := keepsBooks_foldl (f := fun s k =>
    if (s.servers k).status = .connected then
      sendMany cfg k ((s.servers k).capacity - (s.servers k).reqsOnWire).toNat s
    else s) (List.finRange n) (by
      intro k s books
      dsimp only
      split
      · next connected => exact sendMany_books cfg _ books connected
      · exact ⟨books, Kept.refl s⟩) s books
  obtain ⟨later, kept⟩ := sends
  unfold doPossibleWrites
  dsimp only
  split
  · exact ⟨later.congr rfl rfl rfl fun _ => rfl, kept.trans (Kept.of_same (fun _ => rfl) rfl)⟩
  · exact ⟨later, kept⟩

/-! ## Timeouts -/

theorem servers_onServer (s : Resolver n m) (k j : Fin n) (f : Server m → Server m) :
    (s.onServer k f).servers j = if j = k then f (s.servers k) else s.servers j := by
  simp [Resolver.onServer, update_apply]

/-- A change of a server that leaves its status and `in_process` alone -/
theorem onServer_inProcess (s : Resolver n m) (k : Fin n) (status : ∀ sv, (f sv).status = sv.status)
    (inside : ∀ sv, (f sv).inProcess = sv.inProcess) (j : Fin n) :
    ((s.onServer k f).servers j).status = (s.servers j).status ∧
      ((s.onServer k f).servers j).inProcess = (s.servers j).inProcess := by
  rw [servers_onServer]
  split
  · next is =>
      subst is
      exact ⟨status _, inside _⟩
  · exact ⟨rfl, rfl⟩

theorem nextServer_connected (connected : (s.servers k).status = .connected) :
    (s.servers (s.nextServer k)).status = .connected := by
  unfold nextServer
  cases found : ((List.finRange n).rotate (k.val + 1)).find? fun j =>
      j = k || (s.servers j).status = .connected with
  | none => exact connected
  | some j =>
    have either := List.find?_some found
    simp only [Bool.or_eq_true, decide_eq_true_eq] at either
    rcases either with rfl | yes
    · exact connected
    · exact yes

theorem slowDown_books (books : s.Balanced held) (k : Fin n) (scale : Int → Int) :
    (s.slowDown k scale).Balanced held :=
  books.sameLists rfl rfl rfl rfl

theorem Balanced.enqueue (books : s.Balanced (r :: held))
    (connected : (s.servers k).status = .connected) (f : Server m → UInt16 → Option (Fin m)) :
    (s.onServer k fun sv => { sv with
      records := f sv
      toProcess := sv.toProcess ++ [r] }).Balanced held := by
  have old := books.sound k
  refine books.onServer ⟨old.wire, ?_, old.fresh⟩ ?_
  · intro other
    exact absurd connected other
  · intro x
    simp only [Server.places, count_append, count_cons, count_nil]
    omega

/-- **A request that moves on is in the queue of the next server, or it is dropped.** -/
theorem moveOn_books (books : s.Balanced [r]) (connected : (s.servers k).status = .connected) :
    (moveOn cfg s k r).Balanced [] ∧ s.Kept (moveOn cfg s k r) := by
  have retried := books.onRequest (r := r)
    (f := fun q => { q with tries := 0, serversTried := q.serversTried + 1 }) rfl
  have kept : s.Kept (s.onRequest r fun q =>
      { q with tries := 0, serversTried := q.serversTried + 1 }) := kept_onRequest rfl
  unfold moveOn
  dsimp only
  split
  · have counted : ((s.onRequest r fun q =>
        { q with tries := 0, serversTried := q.serversTried + 1 }).onStat fun st =>
          { st with dropped := st.dropped ++ [r] }).Balanced [r] :=
      retried.congr rfl rfl rfl fun _ => rfl
    obtain ⟨dropped, ready⟩ := counted.markAsDone false
    have ready' : s.Ready r := (books.markAsDone false).2
    refine ⟨dropped, ?_⟩
    have drop : s.Kept ((s.onRequest r fun q =>
        { q with tries := 0, serversTried := q.serversTried + 1 }).onStat fun st =>
          { st with dropped := st.dropped ++ [r] }) := by
      refine ⟨kept.status, [r], rfl, ?_⟩
      intro x mem
      rw [mem_singleton.mp mem]
      exact ready'
    exact drop.trans (kept_markAsDone ready false)
  · have next := nextServer_connected connected
    exact ⟨retried.enqueue next _, kept.trans (kept_onServer _ _ _)⟩

theorem moveOn_inProcess (s : Resolver n m) (k : Fin n) (r : Fin m) (j : Fin n) :
    ((moveOn cfg s k r).servers j).inProcess = (s.servers j).inProcess := by
  unfold moveOn
  dsimp only
  split
  · rfl
  · rw [servers_onServer]
    split
    · next is =>
        subst is
        rfl
    · rfl

theorem count_erase_add {l : List (Fin m)} (mem : r ∈ l) (x : Fin m) :
    (l.erase r).count x + [r].count x = l.count x := by
  have split := (perm_cons_erase mem).count_eq x
  rw [split, count_cons, count_cons, count_nil]
  omega

/-- A request leaves `in_process` and `reqs_on_wire` together. -/
theorem Balanced.takeOff (books : s.Balanced []) (mem : r ∈ (s.servers k).inProcess)
    (connected : (s.servers k).status = .connected) :
    (s.onServer k fun sv => { sv with
      inProcess := sv.inProcess.erase r
      reqsOnWire := sv.reqsOnWire - 1 }).Balanced [r] := by
  have old := books.sound k
  refine books.onServer ⟨?_, ?_, ?_⟩ ?_
  · intro _
    have wire := old.wire connected
    have shorter := length_erase_of_mem mem
    have pos := length_pos_of_mem mem
    simp only at wire ⊢
    omega
  · intro other
    exact absurd connected other
  · intro other
    rw [connected] at other
    cases other
  · intro x
    have counts := count_erase_add mem x
    simp only [Server.places, count_nil]
    omega

theorem Balanced.connected_of_mem (books : s.Balanced held) (mem : r ∈ (s.servers k).inProcess) :
    (s.servers k).status = .connected := by
  by_contra other
  rw [((books.sound k).idle other).1] at mem
  cases mem

/-- **A request that has timed out** -/
theorem timedOut_books (books : s.Balanced []) (t : Timing) (mem : r ∈ (s.servers k).inProcess) :
    (timedOut cfg s t k r).1.Balanced [] ∧ s.Kept (timedOut cfg s t k r).1 ∧
      ((timedOut cfg s t k r).1.servers k).inProcess = (s.servers k).inProcess.erase r := by
  have connected := books.connected_of_mem mem
  let tried := s.onRequest r fun q => { q with tries := min (q.tries + 1) maxDnsTries }
  let off := tried.onServer k fun sv => { sv with
    inProcess := sv.inProcess.erase r
    reqsOnWire := sv.reqsOnWire - 1 }
  have retried : tried.Balanced [] := books.onRequest rfl
  have held : off.Balanced [r] := retried.takeOff mem connected
  have kept : s.Kept off := (kept_onRequest rfl).trans (kept_onServer _ _ _)
  have still : (off.servers k).status = .connected := by
    simpa [off, tried, servers_onServer, Resolver.onRequest] using connected
  have erased : (off.servers k).inProcess = (s.servers k).inProcess.erase r := by
    simp [off, tried, servers_onServer, Resolver.onRequest]
  have slow : ∀ scale, ((off.slowDown k scale).servers k).status = .connected ∧
      ((off.slowDown k scale).servers k).inProcess = (s.servers k).inProcess.erase r := by
    intro scale
    have same := onServer_inProcess off k (f := fun sv => Server.checkCapacities
      { sv with ssthresh := min sv.ssthresh sv.capacity, capacity := scale sv.capacity })
      (fun _ => rfl) (fun _ => rfl) k
    exact ⟨same.1.trans still, same.2.trans erased⟩
  have keptSlow : ∀ scale, s.Kept (off.slowDown k scale) := by
    intro scale
    exact kept.trans (kept_onServer _ _ _)
  have moved : ∀ u : Resolver n m, u.Balanced [r] → s.Kept u → (u.servers k).status = .connected →
      (u.servers k).inProcess = (s.servers k).inProcess.erase r →
      (moveOn cfg u k r).Balanced [] ∧ s.Kept (moveOn cfg u k r) ∧
        ((moveOn cfg u k r).servers k).inProcess = (s.servers k).inProcess.erase r := by
    intro u booksU keptU connectedU inside
    obtain ⟨later, keptMove⟩ := moveOn_books cfg booksU connectedU
    exact ⟨later, keptU.trans keptMove, (moveOn_inProcess cfg u k r k).trans inside⟩
  have queued : ∀ u : Resolver n m, u.Balanced [r] → s.Kept u →
      (u.servers k).status = .connected →
      (u.servers k).inProcess = (s.servers k).inProcess.erase r →
      (u.onServer k fun sv => { sv with toProcess := sv.toProcess ++ [r] }).Balanced [] ∧
        s.Kept (u.onServer k fun sv => { sv with toProcess := sv.toProcess ++ [r] }) ∧
        ((u.onServer k fun sv => { sv with toProcess := sv.toProcess ++ [r] }).servers k).inProcess
          = (s.servers k).inProcess.erase r := by
    intro u booksU keptU connectedU inside
    refine ⟨booksU.enqueue connectedU fun sv => sv.records, keptU.trans (kept_onServer _ _ _), ?_⟩
    simpa [servers_onServer] using inside
  show (timedOut cfg s t k r).1.Balanced [] ∧ _
  unfold timedOut
  dsimp only
  split
  · split
    · exact moved _ (slowDown_books held k _) (keptSlow _) (slow _).1 (slow _).2
    · exact moved _ held kept still erased
  · split
    · exact queued _ (slowDown_books held k _) (keptSlow _) (slow _).1 (slow _).2
    · exact queued _ held kept still erased

/-- The rounds over the requests that are in `in_process` at the beginning -/
theorem checkTimeouts_books (k : Fin n) (now : Timeval) (l : List (Fin m)) (books : s.Balanced [])
    (t : Timing) (inside : l.Subperm (s.servers k).inProcess) :
    (l.foldl (checkTimeout cfg k now) (s, t)).1.Balanced [] ∧
      s.Kept (l.foldl (checkTimeout cfg k now) (s, t)).1 := by
  induction l generalizing s t with
  | nil => exact ⟨books, Kept.refl s⟩
  | cons r l ih =>
    have mem : r ∈ (s.servers k).inProcess := inside.subset mem_cons_self
    rw [foldl_cons]
    unfold checkTimeout
    dsimp only
    split
    · apply ih books
      exact ((sublist_cons_self r l).subperm).trans inside
    · obtain ⟨first, kept, erased⟩ := timedOut_books cfg books t mem
      have rest : l.Subperm ((timedOut cfg s t k r).1.servers k).inProcess := by
        rw [erased]
        have shorter := inside.erase r
        rwa [erase_cons_head] at shorter
      obtain ⟨later, kept'⟩ := ih first (timedOut cfg s t k r).2 rest
      exact ⟨later, kept.trans kept'⟩

/-- **`deal_with_timedout_reads` keeps the books.** -/
theorem dealWithTimedoutReads_books (now : Timeval) (adjustTiming : Bool) :
    KeepsBooks fun s : Resolver n m => (dealWithTimedoutReads cfg s now adjustTiming).1 := by
  have server : ∀ (k : Fin n) (s : Resolver n m) (least : Int), s.Balanced [] →
      (checkServer cfg now adjustTiming (s, least) k).1.Balanced [] ∧
        s.Kept (checkServer cfg now adjustTiming (s, least) k).1 := by
    intro k s least books
    unfold checkServer
    dsimp only
    split
    · exact ⟨books, Kept.refl s⟩
    · obtain ⟨later, kept⟩ := checkTimeouts_books cfg k now (s.servers k).inProcess books
        ⟨now, !adjustTiming, adjustTiming, least⟩ (List.Subperm.refl _)
      generalize (s.servers k).inProcess.foldl (checkTimeout cfg k now)
        (s, ⟨now, !adjustTiming, adjustTiming, least⟩) = checked at later kept ⊢
      split
      · dsimp only
        refine ⟨?_, kept.trans (kept_onServer _ _ _)⟩
        apply later.sameLists
        all_goals rfl
      · exact ⟨later, kept⟩
  have all : ∀ (l : List (Fin n)) (s : Resolver n m) (least : Int), s.Balanced [] →
      (l.foldl (checkServer cfg now adjustTiming) (s, least)).1.Balanced [] ∧
        s.Kept (l.foldl (checkServer cfg now adjustTiming) (s, least)).1 := by
    intro l
    induction l with
    | nil =>
      intro s least books
      exact ⟨books, Kept.refl s⟩
    | cons k l ih =>
      intro s least books
      obtain ⟨first, kept⟩ := server k s least books
      obtain ⟨later, kept'⟩ := ih _ (checkServer cfg now adjustTiming (s, least) k).2 first
      exact ⟨later, kept.trans kept'⟩
  intro s books
  exact all (List.finRange n) s _ books

/-! ## Answers -/

theorem onServer_onServer (s : Resolver n m) (k : Fin n) (f g : Server m → Server m) :
    (s.onServer k f).onServer k g = s.onServer k (g ∘ f) := by
  simp [Resolver.onServer]

theorem count_filter_ne (l : List (Fin m)) (r x : Fin m) :
    (l.filter (· ≠ r)).count x = if x = r then 0 else l.count x := by
  split
  · next is =>
      subst is
      simp [count_eq_zero]
  · next ne => exact count_filter (by simpa using ne)

/-- The request is taken off a server, and off `reqs_on_wire`. -/
def endOn (r : Fin m) (sv : Server m) : Server m :=
  let sv :=
    if sv.reqsOnWire = sv.capacity ∧ sv.capacity < sv.ssthresh then
      Server.checkCapacities { sv with capacity := sv.capacity + capacityUpStep }
    else sv
  { sv with
    records := update sv.records (cfg.id r) none
    inProcess := sv.inProcess.filter (· ≠ r)
    toProcess := sv.toProcess.filter (· ≠ r)
    reqsOnWire := sv.reqsOnWire - 1 }

theorem endRequest_eq (s : Resolver n m) (k : Fin n) (r : Fin m) (hasAnswer : Bool) :
    endRequest cfg s k r hasAnswer = (s.onServer k (endOn cfg r)).markAsDone r hasAnswer := by
  have late : ∀ (t : Resolver n m) (f : Server m → Server m),
      (t.markAsDone r hasAnswer).onServer k f = (t.onServer k f).markAsDone r hasAnswer :=
    fun _ _ => rfl
  unfold endRequest
  dsimp only
  rw [late, onServer_onServer, onServer_onServer]
  rfl

theorem endOn_lists (r : Fin m) (sv : Server m) :
    (endOn cfg r sv).status = sv.status ∧ (endOn cfg r sv).reqsOnWire = sv.reqsOnWire - 1 ∧
      (endOn cfg r sv).inProcess = sv.inProcess.filter (· ≠ r) ∧
      (endOn cfg r sv).toProcess = sv.toProcess.filter (· ≠ r) := by
  unfold endOn
  dsimp only
  split
  · exact ⟨rfl, rfl, rfl, rfl⟩
  · exact ⟨rfl, rfl, rfl, rfl⟩

/-- **A request that is in `in_process` of a server is ended by it.** -/
theorem endRequest_books (books : s.Balanced []) (mem : r ∈ (s.servers k).inProcess)
    (hasAnswer : Bool) :
    (endRequest cfg s k r hasAnswer).Balanced [] ∧ s.Kept (endRequest cfg s k r hasAnswer) := by
  have connected := books.connected_of_mem mem
  have old := books.sound k
  obtain ⟨status, wire, inside, waiting⟩ := endOn_lists cfg r (s.servers k)
  have inPlace : (s.servers k).inProcess.count r = 1 ∧ (s.servers k).toProcess.count r = 0 := by
    have here := places_server_le s k r
    have placed := books.placed r
    have pos := count_pos_iff.mpr mem
    have atMost : (if s.Ready r then 1 else 0) ≤ 1 := by split <;> omega
    simp only [Server.places, count_nil] at here placed
    omega
  have one : (s.servers k).inProcess.length =
      ((s.servers k).inProcess.filter (· ≠ r)).length + 1 := by
    have split := length_eq_countP_add_countP (· = r) (l := (s.servers k).inProcess)
    have first : List.countP (fun x => decide (x = r)) (s.servers k).inProcess = 1 := by
      rw [← inPlace.1, List.count]
      congr 1
    have second : List.countP (fun x => decide ¬ decide (x = r) = true) (s.servers k).inProcess =
        ((s.servers k).inProcess.filter (· ≠ r)).length := by
      rw [countP_eq_length_filter]
      simp
    omega
  have held : (s.onServer k (endOn cfg r)).Balanced [r] := by
    refine books.onServer ⟨?_, ?_, ?_⟩ ?_
    · intro _
      rw [wire, inside, old.wire connected, one]
      omega
    · intro other
      exact absurd (status ▸ connected) other
    · intro other
      rw [status, connected] at other
      cases other
    · intro x
      simp only [Server.places, inside, waiting, count_filter_ne, count_nil,
        count_singleton]
      by_cases is : x = r
      · subst is
        simp [inPlace.1, inPlace.2]
      · simp [is, Ne.symm is]
  obtain ⟨ended, ready⟩ := held.markAsDone hasAnswer
  rw [endRequest_eq]
  exact ⟨ended, (kept_onServer _ _ _).trans (kept_markAsDone ready hasAnswer)⟩

def Action.Ends : Action → Prop
  | .timeout => False
  | _ => True

theorem processRequest_books (action : Action) (books : s.Balanced []) (now : Timeval)
    (inside : action.Ends → r ∈ (s.servers k).inProcess) :
    (processRequest cfg action s r k now).Balanced [] ∧
      s.Kept (processRequest cfg action s r k now) := by
  cases action with
  | finished => exact endRequest_books cfg books (inside trivial) true
  | systemResolve =>
    obtain ⟨ended, kept⟩ := endRequest_books cfg books (inside trivial) false
    unfold processRequest
    dsimp only
    split
    · exact ⟨ended.congr rfl rfl rfl fun _ => rfl, kept.trans (Kept.of_same (fun _ => rfl) rfl)⟩
    · exact ⟨ended.congr rfl rfl rfl fun _ => rfl, kept.trans (Kept.of_same (fun _ => rfl) rfl)⟩
  | timeout =>
    have tried : (s.onRequest r fun q => { q with tries := maxDnsTries }).Balanced [] :=
      books.onRequest rfl
    obtain ⟨later, kept⟩ := dealWithTimedoutReads_books cfg now false _ tried
    exact ⟨later, (kept_onRequest rfl).trans kept⟩

/-- When no request is `READY`, there is none in any list. -/
theorem Balanced.empty (books : s.Balanced []) (noneLeft : s.totalReqs = 0) :
    (∀ r, ¬ s.Ready r) ∧ s.newReqs = [] ∧
      ∀ k, (s.servers k).inProcess = [] ∧ (s.servers k).toProcess = [] := by
  have none : s.readyReqs = ∅ := by
    have total := books.total
    rw [noneLeft] at total
    exact Finset.card_eq_zero.mp (by exact_mod_cast total.symm)
  have finished : ∀ r, ¬ s.Ready r := by
    intro r ready
    have mem : r ∈ s.readyReqs := by simp [readyReqs, ready]
    rw [none] at mem
    exact absurd mem (Finset.notMem_empty r)
  have nowhere : ∀ r, s.places r = 0 := by
    intro r
    have placed := books.placed r
    rw [if_neg (finished r)] at placed
    omega
  have lists : ∀ k r, s.newReqs.count r = 0 ∧ (s.servers k).inProcess.count r = 0 ∧
      (s.servers k).toProcess.count r = 0 := by
    intro k r
    have here := places_server_le s k r
    rw [nowhere r, Server.places] at here
    omega
  have nil : ∀ l : List (Fin m), (∀ r, l.count r = 0) → l = [] := by
    intro l absent
    apply eq_nil_iff_forall_not_mem.mpr
    intro r
    exact count_eq_zero.mp (absent r)
  refine ⟨finished, ?_, ?_⟩
  · apply nil
    intro r
    have place := nowhere r
    rw [places] at place
    omega
  · intro k
    exact ⟨nil _ fun r => (lists k r).2.1, nil _ fun r => (lists k r).2.2⟩

theorem closeServer_books (k : Fin n) (books : s.Balanced []) (noneLeft : s.totalReqs = 0) :
    (s.closeServer k).Balanced [] ∧ s.Kept (s.closeServer k) ∧
      (s.closeServer k).totalReqs = 0 := by
  obtain ⟨inside, waiting⟩ := (books.empty noneLeft).2.2 k
  unfold closeServer
  split
  · exact ⟨books, Kept.refl s, noneLeft⟩
  · simp only [inside, waiting, append_nil, foldl_nil]
    refine ⟨?_, kept_onServer _ _ _, noneLeft⟩
    refine books.onServer ⟨nofun, fun _ => ⟨rfl, rfl⟩, nofun⟩ ?_
    intro r
    simp [Server.places, inside, waiting]

/-- **Servers are closed when nothing is left in their lists.** -/
theorem closeDnsServers_books (books : s.Balanced []) (noneLeft : s.totalReqs = 0) :
    s.closeDnsServers.Balanced [] ∧ s.Kept s.closeDnsServers := by
  have all : ∀ (l : List (Fin n)) (s : Resolver n m), s.Balanced [] → s.totalReqs = 0 →
      (l.foldl closeServer s).Balanced [] ∧ s.Kept (l.foldl closeServer s) := by
    intro l
    induction l with
    | nil =>
      intro s books _
      exact ⟨books, Kept.refl s⟩
    | cons k l ih =>
      intro s books noneLeft
      obtain ⟨first, kept, still⟩ := closeServer_books k books noneLeft
      obtain ⟨later, kept'⟩ := ih _ first still
      exact ⟨later, kept.trans kept'⟩
  obtain ⟨closed, kept⟩ := all (List.finRange n) s books noneLeft
  exact ⟨closed.congr rfl rfl rfl fun _ => rfl, kept.trans (Kept.of_same (fun _ => rfl) rfl)⟩

theorem afterAnswer_books : KeepsBooks (afterAnswer (n := n) cfg) := by
  intro s books
  obtain ⟨sent, kept⟩ := doPossibleWrites_books cfg s books
  unfold afterAnswer
  dsimp only
  split
  · next noneLeft =>
      obtain ⟨closed, kept'⟩ := closeDnsServers_books sent noneLeft
      exact ⟨closed, kept.trans kept'⟩
  · exact ⟨sent, kept⟩

def Verdict.Ends : Verdict → Prop
  | .nxdomain _ => True
  | .answered => True
  | .deferred => True
  | .servfail => False
  | .unable => False

theorem KeepsBooks.after {f : Resolver n m → Resolver n m} (keeps : KeepsBooks f)
    (first : t.Balanced [] ∧ s.Kept t) :
    (f t).Balanced [] ∧ s.Kept (f t) := by
  obtain ⟨later, kept⟩ := keeps t first.1
  exact ⟨later, first.2.trans kept⟩

theorem keepsBooks_onStat {f : Stats m → Stats m} (dropped : ∀ st, (f st).dropped = st.dropped) :
    KeepsBooks fun s : Resolver n m => s.onStat f := by
  intro s books
  exact ⟨books.congr rfl rfl rfl fun _ => rfl, Kept.of_same (fun _ => rfl) (dropped s.stat)⟩

/-- **A packet keeps the books if it ends no request that is not in `in_process`.** -/
theorem actOn_books (books : s.Balanced []) (now : Timeval) (verdict : Verdict)
    (inside : verdict.Ends → r ∈ (s.servers k).inProcess) :
    (actOn cfg s k now r verdict).Balanced [] ∧ s.Kept (actOn cfg s k now r verdict) := by
  have counted : ∀ f : Stats m → Stats m, (∀ st, (f st).dropped = st.dropped) →
      (s.onStat f).Balanced [] ∧ s.Kept (s.onStat f) := by
    intro f dropped
    exact keepsBooks_onStat dropped s books
  cases verdict with
  | nxdomain system =>
    cases system with
    | true => exact processRequest_books cfg .systemResolve books now fun _ => inside trivial
    | false =>
      have first := processRequest_books cfg .finished books now fun _ => inside trivial
      have nx : KeepsBooks fun s : Resolver n m =>
          s.onStat fun st => { st with nx := st.nx + 1 } := keepsBooks_onStat fun _ => rfl
      exact nx.after first
  | servfail =>
    have first := processRequest_books (r := r) (k := k) cfg .timeout books now nofun
    have sf : KeepsBooks fun s : Resolver n m =>
        s.onStat fun st => { st with sf := st.sf + 1 } := keepsBooks_onStat fun _ => rfl
    exact sf.after first
  | answered =>
    obtain ⟨booked, kept⟩ := counted (fun st => { st with ok := st.ok + 1 }) fun _ => rfl
    obtain ⟨ended, kept'⟩ := processRequest_books (r := r) (k := k) cfg .finished booked now
      fun _ => inside trivial
    exact (afterAnswer_books cfg).after ⟨ended, kept.trans kept'⟩
  | deferred =>
    have first := processRequest_books cfg .systemResolve books now fun _ => inside trivial
    exact (afterAnswer_books cfg).after first
  | unable => exact afterAnswer_books cfg s books

/-! ## Connections and writes -/

theorem handleReadFailed_books (books : s.Balanced []) (k : Fin n) :
    (s.handleReadFailed k).Balanced [] ∧ s.Kept (s.handleReadFailed k) := by
  refine ⟨⟨?_, ?_, books.total⟩, Kept.of_same (fun _ => rfl) rfl⟩
  · intro j
    simp only [handleReadFailed, servers_onServer]
    split
    · exact ⟨nofun, fun _ => ⟨rfl, rfl⟩, nofun⟩
    · exact books.sound j
  · intro r
    have placed := books.placed r
    have sum := sum_update_balance (fun sv : Server m => sv.places r) s.servers k
      { s.servers k with status := .disconnected, inProcess := [], toProcess := [] }
    show ((s.newReqs ++ (s.servers k).inProcess ++ (s.servers k).toProcess).count r +
      ∑ j, (update s.servers k
        { s.servers k with status := .disconnected, inProcess := [], toProcess := [] } j).places r) +
        [].count r = if s.Ready r then 1 else 0
    rw [← placed]
    simp only [places, count_append, Server.places, count_nil] at sum ⊢
    omega

theorem handleConnect_books (books : s.Balanced [])
    (connecting : (s.servers k).status = .connecting) (success : Bool) :
    (s.handleConnect k success).Balanced [] ∧ s.Kept (s.handleConnect k success) := by
  have old := books.sound k
  have other : (s.servers k).status ≠ .connected := by
    rw [connecting]
    nofun
  obtain ⟨inside, waiting⟩ := old.idle other
  refine ⟨?_, kept_onServer _ _ _⟩
  refine books.onServer ⟨?_, ?_, ?_⟩ fun r => rfl
  · intro _
    rw [old.fresh connecting, inside]
    rfl
  · intro _
    exact ⟨inside, waiting⟩
  · intro _
    exact old.fresh connecting

theorem handleWrite_books (books : s.Balanced []) (r : Fin m) (now : Timeval)
    (connected : (s.servers k).status = .connected) :
    (handleWrite cfg s k r now true).Balanced [] ∧ s.Kept (handleWrite cfg s k r now true) := by
  have sent : (s.onRequest r fun q => { q with sent := now }).Balanced [] := books.onRequest rfl
  obtain ⟨later, kept, -⟩ := serverSend_books cfg sent connected
  exact ⟨later, (kept_onRequest rfl).trans kept⟩

/-! ## Runs -/

/-- No write fails, and a packet ends only requests that are in `in_process` of the server it came
from. -/
def Careful (s : Resolver n m) : ResolverEvent n m → Prop
  | .written _ _ _ success => success = true
  | .read k _ packet => ∀ r verdict, packet.bind (matchPacket cfg s k) = some (r, verdict) →
      verdict.Ends → r ∈ (s.servers k).inProcess
  | _ => True

/-- **One event keeps the books.** -/
theorem step_books (books : s.Balanced []) {e : ResolverEvent n m} (careful : s.Careful cfg e)
    (step : s.step cfg e = some t) : t.Balanced [] ∧ s.Kept t := by
  cases e with
  | connect k success =>
    simp only [Resolver.step] at step
    split at step
    · next connecting =>
        cases step
        exact handleConnect_books books connecting success
    · cases step
  | written k r now success =>
    simp only [Resolver.step] at step
    split at step
    · next connected =>
        cases step
        cases careful
        exact handleWrite_books cfg books r now connected
    · cases step
  | read k now packet =>
    simp only [Resolver.step] at step
    split at step
    · cases step
      unfold handleRead
      split
      · exact ⟨books, Kept.refl s⟩
      · next r verdict found => exact actOn_books cfg books now verdict (careful r verdict found)
    · cases step
  | readFailed k =>
    simp only [Resolver.step] at step
    split at step
    · cases step
      exact handleReadFailed_books books k
    · cases step
  | round now adjustTiming =>
    cases step
    have checked := dealWithTimedoutReads_books cfg now adjustTiming s books
    exact (doPossibleWrites_books cfg).after checked

theorem start_books (n m : Nat) : (start n m).Balanced [] := by
  refine ⟨?_, ?_, ?_⟩
  · intro k
    exact ⟨nofun, fun _ => ⟨rfl, rfl⟩, fun _ => rfl⟩
  · intro r
    have once : (List.finRange m).count r = 1 :=
      count_eq_one_of_mem (nodup_finRange m) (mem_finRange r)
    simp [places, start, Server.places, once, Ready]
  · have all : (start n m).readyReqs = Finset.univ := Finset.filter_true_of_mem fun _ _ => rfl
    rw [all, Finset.card_univ, Fintype.card_fin]
    rfl

/-- The resolver of a batch of requests -/
def machine : Machine (Resolver n m) (ResolverEvent n m) where
  init s := s = start n m
  step := fun s e => s.step cfg e

/-- The books that the code keeps about a connected server and about the requests that are still
to be resolved -/
structure BookkeepingOk (s : Resolver n m) : Prop where
  wire : ∀ k, (s.servers k).status = .connected →
    (s.servers k).reqsOnWire = (s.servers k).inProcess.length ∧ 0 ≤ (s.servers k).reqsOnWire
  oneList : ∀ r, s.Ready r → s.places r = 1
  total : s.totalReqs = s.readyReqs.card

theorem Balanced.bookkeepingOk (books : s.Balanced []) : s.BookkeepingOk := by
  refine ⟨?_, ?_, books.total⟩
  · intro k connected
    have wire := (books.sound k).wire connected
    refine ⟨wire, ?_⟩
    rw [wire]
    exact Int.natCast_nonneg _
  · intro r ready
    have placed := books.placed r
    rwa [if_pos ready] at placed

theorem reachable_books
    (reach : ((machine (n := n) cfg).guarded fun s e => s.Careful cfg e).Reachable s) :
    s.Balanced [] := by
  refine TSys.Inductive.holds (P := fun s => s.Balanced []) ⟨?_, ?_⟩ reach
  · rintro s rfl
    exact start_books n m
  · rintro s t books ⟨e, careful, step⟩
    exact (step_books cfg books careful step).1

/-- One request for the name of 127.0.0.1 -/
def oneRequest : Config 1 := ⟨fun _ => ⟨recordPtr, ascii "1.0.0.127.in-addr.arpa"⟩, fun _ => 7,
  fun _ => false⟩

def onlyServer : Fin 1 := 0

/-- The request after its server was connected to: it has been sent. -/
def oneSent : Resolver 1 1 :=
  doPossibleWrites oneRequest
    (dealWithTimedoutReads oneRequest ((start 1 1).handleConnect 0 true) ⟨5, 0⟩ false).1

end Resolver

end Nmap.Dns
