import Nmap.Nsock.ProxyChain

/-!
# How often a connection through proxies is answered (`nsock_proxy.c`)

What one delivery can do to an attempt, and from it what holds in all runs: how often the user's
handler is called, and what every proxy has accepted by then.
-/

namespace Nmap.Nsock.Proxy

open Nmap.Base List

/-! ## Observations -/

def Obs.isCall : Obs → Bool
  | .accepts _ => false
  | .calls _ _ => true

def Obs.node? : Obs → Option ProxyNode
  | .accepts node => some node
  | .calls _ _ => none

/-- How often `target_handler` has been called -/
def calls (log : List Obs) : Nat := log.countP Obs.isCall

/-- The proxies that have accepted their requests, in this order -/
def accepted (log : List Obs) : List ProxyNode := log.filterMap Obs.node?

@[simp] theorem calls_append (xs ys : List Obs) : calls (xs ++ ys) = calls xs + calls ys :=
  countP_append

@[simp] theorem accepted_append (xs ys : List Obs) :
    accepted (xs ++ ys) = accepted xs ++ accepted ys :=
  filterMap_append

variable {log : List Obs}

theorem split_concat {pre post : List Obs} {o c : Obs} (split : log ++ [o] = pre ++ c :: post) :
    (pre = log ∧ o = c) ∨ ∃ post', log = pre ++ c :: post' := by
  rcases post.eq_nil_or_concat with rfl | ⟨post', last, rfl⟩
  · have ⟨same, single⟩ := append_inj' split rfl
    exact .inl ⟨same.symm, singleton_inj.mp single⟩
  · rw [concat_eq_append, ← cons_append, ← append_assoc] at split
    exact .inr ⟨post', (append_inj' split rfl).1⟩

/-! ## One delivery -/

/-- A delivery ends the attempt: its event fails, the tunnel is there already, or it is a reply
that the current proxy refuses with or that the last proxy accepts with. -/
def ends (s : Attempt) : Delivery → Bool
  | .event e status readbuf =>
    let spec := s.ctx.current.spec
    status ≠ .success || s.ctx.state = spec.tunnelEstablished ||
      (s.ctx.state = spec.tcpConnected && e.type = .read &&
        (!spec.accepts readbuf || s.ctx.after.isEmpty))
  | .dropped => false

/-- What a delivery can do -/
inductive Effect (s : Attempt) (d : Delivery) (t : Attempt) : Prop
  | quiet : t.ctx = s.ctx → t.log = s.log → ends s d = false → Effect s d t
  | asked : s.ctx.state = .initial →
      t.ctx = { s.ctx with state := s.ctx.current.spec.tcpConnected } → t.log = s.log →
      ends s d = false → Effect s d t
  | passed (next : ProxyNode) (after : List ProxyNode) :
      s.ctx.state = s.ctx.current.spec.tcpConnected → s.ctx.after = next :: after →
      t.ctx = { s.ctx with
        before := s.ctx.before ++ [s.ctx.current], current := next, after := after,
        state := next.spec.tcpConnected } →
      t.log = s.log ++ [.accepts s.ctx.current] → ends s d = false → Effect s d t
  | established : s.ctx.state = s.ctx.current.spec.tcpConnected → s.ctx.after = [] →
      t.ctx = { s.ctx with state := s.ctx.current.spec.tunnelEstablished } →
      t.log = s.log ++ [.accepts s.ctx.current] ++ [.calls s.ctx.targetEvType .success] →
      ends s d = true → Effect s d t
  | failed : t.ctx = s.ctx → t.log = s.log ++ [.calls s.ctx.targetEvType .proxyError] →
      ends s d = true → Effect s d t
  | again : s.ctx.state = s.ctx.current.spec.tunnelEstablished → t.ctx = s.ctx →
      t.log = s.log ++ [.calls s.ctx.targetEvType .success] → ends s d = true → Effect s d t

theorem spec_states (node : ProxyNode) :
    node.spec.tcpConnected ≠ .initial ∧ node.spec.tunnelEstablished ≠ .initial ∧
      node.spec.tcpConnected ≠ node.spec.tunnelEstablished := by
  unfold ProxyNode.spec
  cases node.type with
  | http => decide
  | socks4 => decide

variable {s t : Attempt}

theorem handleStateInitial_ok {node : ProxyNode} (ok : node.spec.handleStateInitial s = .ok t) :
    t.ctx = { s.ctx with state := node.spec.tcpConnected } ∧ t.log = s.log := by
  unfold ProxyNode.spec at ok ⊢
  cases type : node.type with
  | http =>
    rw [type] at ok
    cases ok
    exact ⟨rfl, rfl⟩
  | socks4 =>
    rw [type] at ok
    simp only [proxySpecSocks4] at ok
    split at ok
    · cases ok
      exact ⟨rfl, rfl⟩
    · cases ok

/-- The reply of the current proxy: it refuses, is the last one to accept, or the next is asked. -/
theorem reply_effect {e : PxEvent} {readbuf : Bytes} {inFlight : List PxEvent}
    (connected : s.ctx.state = s.ctx.current.spec.tcpConnected) (read : e.type = .read)
    (ok : (match handleStateTcpConnected s.ctx.current.spec { s with inFlight := inFlight }
        ⟨e.type, .success, readbuf⟩ with
      | some result => result
      | none => .ok (forwardEvent { s with inFlight := inFlight }
          ⟨e.type, .proxyError, readbuf⟩)) = .ok t) :
    Effect s (.event e .success readbuf) t := by
  have states := spec_states s.ctx.current
  have notThere : s.ctx.state ≠ s.ctx.current.spec.tunnelEstablished := connected ▸ states.2.2
  unfold handleStateTcpConnected at ok
  cases accepts : s.ctx.current.spec.accepts readbuf with
  | false =>
    rw [if_neg (by simp [accepts])] at ok
    cases ok
    exact .failed rfl rfl (by simp [ends, connected, read, accepts])
  | true =>
    rw [if_pos accepts] at ok
    cases after : s.ctx.after with
    | nil =>
      simp only [after] at ok
      cases ok
      refine .established connected after ?_ rfl ?_
      · simp only [forwardEvent, after]
      · simp [ends, connected, read, accepts, after]
    | cons next after' =>
      simp only [after] at ok
      obtain ⟨ctx, log⟩ := handleStateInitial_ok ok
      refine .passed next after' connected after ctx log ?_
      simp [ends, connected, read, accepts, after, states.2.2]

theorem toOption_eq_some {ε α : Type} {x : Except ε α} {a : α} (some_ : x.toOption = some a) :
    x = .ok a := by
  cases x with
  | error e => cases some_
  | ok b =>
    cases some_
    rfl

theorem step_effect {d : Delivery} (step : attempts.step s d = some t) :
    Effect s d t := by
  cases d with
  | dropped =>
    cases step
    exact .quiet rfl rfl rfl
  | event e status readbuf =>
    simp only [attempts] at step
    split at step
    · replace step := toOption_eq_some step
      unfold proxyEvDispatch at step
      by_cases success : status = .success
      · subst success
        rw [if_pos rfl] at step
        unfold handler at step
        have states := spec_states s.ctx.current
        by_cases initial : s.ctx.state = .initial
        · rw [if_pos initial] at step
          obtain ⟨ctx, log⟩ := handleStateInitial_ok step
          refine .asked initial ctx log ?_
          simp [ends, initial, states.1.symm, states.2.1.symm]
        · rw [if_neg initial] at step
          by_cases connected : s.ctx.state = s.ctx.current.spec.tcpConnected
          · rw [if_pos connected] at step
            by_cases read : e.type = .read
            · rw [if_pos read] at step
              exact reply_effect connected read step
            · rw [if_neg read] at step
              cases step
              exact .quiet rfl rfl (by simp [ends, connected, read, states.2.2])
          · rw [if_neg connected] at step
            by_cases there : s.ctx.state = s.ctx.current.spec.tunnelEstablished
            · rw [if_pos there] at step
              cases step
              exact .again there rfl rfl (by simp [ends, there])
            · rw [if_neg there] at step
              cases step
      · rw [if_neg success] at step
        cases step
        refine .failed rfl ?_ (by simp [ends, success])
        simp [forwardEvent, success]
    · cases step

/-! ## Runs -/

/-- A call reports success when all proxies have accepted, and an error otherwise. Only the first
call has no excuse for an error when they have. -/
def RightCall (chain : List ProxyNode) (earlier : List Obs) (status : NseStatus) : Prop :=
  status = .success ∧ accepted earlier = chain ∨
    status = .proxyError ∧ (calls earlier = 0 → accepted earlier ≠ chain)

def RightCalls (chain : List ProxyNode) (log : List Obs) : Prop :=
  ∀ earlier type status later, log = earlier ++ .calls type status :: later →
    RightCall chain earlier status

variable {chain : List ProxyNode}

theorem RightCalls.accept (right : RightCalls chain log) (node : ProxyNode) :
    RightCalls chain (log ++ [.accepts node]) := by
  intro earlier type status later split
  rcases split_concat split with ⟨-, other⟩ | ⟨later', before⟩
  · cases other
  · exact right earlier type status later' before

theorem RightCalls.call {status : NseStatus} (right : RightCalls chain log)
    (last : RightCall chain log status) (type : NseType) :
    RightCalls chain (log ++ [.calls type status]) := by
  intro earlier type' status' later split
  rcases split_concat split with ⟨rfl, same⟩ | ⟨later', before⟩
  · cases same
    exact last
  · exact right earlier type' status' later' before

/-- What holds of an attempt in all runs: the proxies before the current one have accepted, and all
of them have when the tunnel is there, which the user has been told. -/
structure Sound (chain : List ProxyNode) (s : Attempt) : Prop where
  nodes : s.ctx.chain = chain
  opening : s.ctx.state ≠ s.ctx.current.spec.tunnelEstablished → accepted s.log = s.ctx.before
  there : s.ctx.state = s.ctx.current.spec.tunnelEstablished →
    accepted s.log = chain ∧ 0 < calls s.log
  right : RightCalls chain s.log

theorem Sound.start (first : ProxyNode) (rest : List ProxyNode) (type : NseType) (ss : SockAddr)
    (port : UInt16) : Sound (first :: rest) (.start first rest type ss port) where
  nodes := rfl
  opening _ := rfl
  there initial := absurd initial.symm (spec_states first).2.1
  right := by
    intro earlier type status later split
    cases earlier <;> cases split

theorem Sound.not_all (sound : Sound chain s)
    (opening : s.ctx.state ≠ s.ctx.current.spec.tunnelEstablished) : accepted s.log ≠ chain := by
  rw [sound.opening opening, ← sound.nodes, ChainContext.chain]
  intro same
  have length := congrArg List.length same
  rw [length_append, length_cons] at length
  omega

/-- A delivery keeps an attempt sound, and calls the user iff it ends the attempt. -/
theorem Sound.step {d : Delivery} (sound : Sound chain s) (effect : Effect s d t) :
    Sound chain t ∧ calls t.log = calls s.log + (ends s d).toNat := by
  have states := spec_states s.ctx.current
  cases effect with
  | quiet ctx log none =>
    rw [none, log]
    exact ⟨⟨ctx ▸ sound.nodes, ctx ▸ log ▸ sound.opening, ctx ▸ log ▸ sound.there,
      log ▸ sound.right⟩, rfl⟩
  | asked initial ctx log none =>
    rw [none, log]
    have opening := sound.opening (initial ▸ states.2.1.symm)
    refine ⟨⟨?_, ?_, ?_, log ▸ sound.right⟩, rfl⟩
    · rw [ctx]
      exact sound.nodes
    · rw [ctx, log]
      exact fun _ => opening
    · rw [ctx]
      exact fun there => absurd there states.2.2
  | passed next after connected cons ctx log none =>
    have opening := sound.opening (connected ▸ states.2.2)
    rw [none, log, calls_append]
    refine ⟨⟨?_, ?_, ?_, log ▸ sound.right.accept _⟩, rfl⟩
    · rw [ctx, ← sound.nodes, ChainContext.chain, ChainContext.chain, cons, append_assoc]
      rfl
    · rw [ctx, log, accepted_append, opening]
      exact fun _ => rfl
    · rw [ctx]
      exact fun there => absurd there (spec_states next).2.2
  | established connected last ctx log some_ =>
    have opening := sound.opening (connected ▸ states.2.2)
    have all : accepted (s.log ++ [.accepts s.ctx.current]) = chain := by
      rw [accepted_append, opening, ← sound.nodes, ChainContext.chain, last]
      rfl
    rw [some_, log, calls_append, calls_append]
    refine ⟨⟨?_, ?_, ?_, log ▸ (sound.right.accept _).call (.inl ⟨rfl, all⟩) _⟩, rfl⟩
    · rw [ctx]
      exact sound.nodes
    · rw [ctx]
      exact fun opening => absurd rfl opening
    · rw [log, accepted_append, all, calls_append]
      exact fun _ => ⟨append_nil _, Nat.succ_pos _⟩
  | failed ctx log some_ =>
    rw [some_, log, calls_append]
    refine ⟨⟨ctx ▸ sound.nodes, ?_, ?_, log ▸ sound.right.call (.inr ⟨rfl, ?_⟩) _⟩, rfl⟩
    · rw [ctx, log, accepted_append]
      exact fun opening => (append_nil _).trans (sound.opening opening)
    · rw [ctx, log, accepted_append, calls_append]
      exact fun there => ⟨(append_nil _).trans (sound.there there).1, Nat.succ_pos _⟩
    · -- A first call comes before the tunnel is there.
      intro first
      exact sound.not_all fun there => (sound.there there).2.ne' first
  | again there ctx log some_ =>
    have all := (sound.there there).1
    rw [some_, log, calls_append]
    refine ⟨⟨ctx ▸ sound.nodes, ?_, ?_, log ▸ sound.right.call (.inl ⟨rfl, all⟩) _⟩, rfl⟩
    · rw [ctx]
      exact fun opening => absurd there opening
    · rw [log, accepted_append, calls_append]
      exact fun _ => ⟨(append_nil _).trans all, Nat.succ_pos _⟩

theorem run_sound {deliveries : List Delivery} (start : attempts.init s)
    (ran : attempts.run s deliveries = some t) :
    Sound s.ctx.chain t ∧ calls t.log = attempts.count ends s deliveries := by
  obtain ⟨first, rest, type, ss, port, rfl⟩ := start
  obtain ⟨sound, sum⟩ := Machine.count_run (f := fun s => calls s.log)
    (fun s d t (sound : Sound (first :: rest) s) step => sound.step (step_effect step))
    (.start first rest type ss port) ran
  exact ⟨sound, sum.trans (Nat.zero_add _)⟩

/-- The user's handler is called at most once, with success when all proxies of the chain have
accepted, in this order, and with an error otherwise. -/
structure AnsweredOnce (chain : List ProxyNode) (log : List Obs) : Prop where
  once : calls log ≤ 1
  right : ∀ earlier type status later, log = earlier ++ .calls type status :: later →
    status = .success ∧ accepted earlier = chain ∨
      status = .proxyError ∧ accepted earlier ≠ chain

/-- An attempt is answered once iff at most one delivery ends it. -/
theorem answeredOnce_iff {s t : Attempt} {deliveries : List Delivery} (start : attempts.init s)
    (ran : attempts.run s deliveries = some t) :
    AnsweredOnce s.ctx.chain t.log ↔ attempts.count ends s deliveries ≤ 1 := by
  obtain ⟨sound, sum⟩ := run_sound start ran
  rw [← sum]
  constructor
  · exact AnsweredOnce.once
  · intro once
    refine ⟨once, fun earlier type status later split => ?_⟩
    -- There is no other call, so this one is the first.
    have first : calls earlier = 0 := by
      rw [split, calls_append] at once
      have this_ : calls (.calls type status :: later) = calls later + 1 :=
        countP_cons_of_pos rfl
      omega
    exact (sound.right earlier type status later split).imp_right fun wrong =>
      ⟨wrong.1, wrong.2 first⟩

/-! ## Runs through one proxy -/

def oneProxy : ProxyNode := ⟨.http, ⟨.inet, [10, 0, 0, 1]⟩, 8080⟩

def oneAttempt : Attempt := .start oneProxy [] .connect ⟨.inet, [192, 0, 2, 1]⟩ 80

theorem oneAttempt_init : attempts.init oneAttempt := ⟨oneProxy, [], .connect, _, 80, rfl⟩

def oneRequest : PxEvent := .write ⟨.http, ⟨.inet, [192, 0, 2, 1]⟩, 80⟩

/-- "HTTP/1.0 200 OK" and the end of the line -/
def okReply : Bytes :=
  [0x48, 0x54, 0x54, 0x50, 0x2f, 0x31, 0x2e, 0x30, 0x20] ++ ok200 ++ [0x0d, 0x0a]

/-- The request is written before its reply is read. -/
def inOrder : List Delivery :=
  [.event .connect .success [], .event oneRequest .success [],
    .event (.read (.lines 1)) .success okReply]

/-- The reply is read before the event of the write is delivered. -/
def replyFirst : List Delivery :=
  [.event .connect .success [], .event (.read (.lines 1)) .success okReply,
    .event oneRequest .success []]

theorem answeredOnce_iff_in_order :
    ∃ t, attempts.run oneAttempt inOrder = some t ∧ AnsweredOnce [oneProxy] t.log := by
  have ran : attempts.run oneAttempt inOrder = some _ := rfl
  exact ⟨_, ran, (answeredOnce_iff oneAttempt_init ran).mpr (by decide)⟩

/-- The user is called twice, each time with success. -/
theorem answeredOnce_misses_reply_first :
    ∃ t, attempts.init oneAttempt ∧ attempts.run oneAttempt replyFirst = some t ∧
      ¬ AnsweredOnce [oneProxy] t.log := by
  refine ⟨_, oneAttempt_init, rfl, fun answered => ?_⟩
  exact absurd answered.once (by decide)

end Nmap.Nsock.Proxy
