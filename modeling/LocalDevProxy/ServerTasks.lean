import LocalDevProxy.Lib.Remaining
import LocalDevProxy.Lib.Transitions

namespace LocalDevProxy.ServerTasks

open Lib.Transitions Lib.Remaining

/-- Where the task of a listener is. It has the listener until it is done. -/
inductive Accept
  | selecting
  | sleeping
  | done
deriving DecidableEq

/-- Where the task of a connection is. Its stream is handed to a tunnel, or closed. -/
inductive Connection
  | serving
  | upgraded
  | closed
deriving DecidableEq

inductive Upstream
  | pending
  | upgraded
  | failed
deriving DecidableEq

inductive TunnelPlace
  | joining
  | copying
  | ended
deriving DecidableEq

/-- A tunnel waits for the connection it comes from, unless that one cannot be upgraded,
and for the one to the target. -/
structure Tunnel where
  client : Option Nat
  upstream : Upstream
  place : TunnelPlace

/-- The server is kept, or it was dropped, or it awaits the accept task with a number. -/
inductive Caller
  | serves
  | dropped
  | awaits (task : Nat)
  | returned
deriving DecidableEq

/-- A server with its tasks. They see the stop when it was sent, or when its sender is gone. -/
structure Server where
  stop : Bool
  caller : Caller
  accept : List Accept
  connections : List Connection
  tunnels : List Tunnel

def Server.setTunnel (s : Server) (t : Nat) (tunnel : Tunnel) : Server :=
  { s with tunnels := s.tunnels.set t tunnel }

inductive Event
  | shutdown
  | drop
  | awaited
  | returns
  | accept (i : Nat)
  | acceptFails (i : Nat)
  | wake (i : Nat)
  | acceptStops (i : Nat)
  | tunnel (c : Nat)
  | upgrade (c : Nat)
  | close (c : Nat)
  | connectionStops (c : Nat)
  | upstream (t : Nat)
  | join (t : Nat)
  | joinFails (t : Nat)
  | tunnelEnds (t : Nat)
  | tunnelStops (t : Nat)

inductive Step : Server → Event → Server → Prop
  | shutdown {s} : s.caller = .serves → Step s .shutdown { s with stop := true, caller := .awaits 0 }
  | drop {s} : s.caller = .serves → Step s .drop { s with stop := true, caller := .dropped }
  | awaited {s i} : s.caller = .awaits i → s.accept[i]? = some .done →
      Step s .awaited { s with caller := .awaits (i + 1) }
  | returns {s} : s.caller = .awaits s.accept.length → Step s .returns { s with caller := .returned }
  | accept {s i} : s.accept[i]? = some .selecting →
      Step s (.accept i) { s with connections := s.connections ++ [.serving] }
  | acceptFails {s i} : s.accept[i]? = some .selecting →
      Step s (.acceptFails i) { s with accept := s.accept.set i .sleeping }
  | wake {s i} : s.accept[i]? = some .sleeping → Step s (.wake i) { s with accept := s.accept.set i .selecting }
  | acceptStops {s i} : s.accept[i]? = some .selecting → s.stop = true →
      Step s (.acceptStops i) { s with accept := s.accept.set i .done }
  | tunnel {s c} (client : Option Nat) : s.connections[c]? = some .serving → (client = none ∨ client = some c) →
      Step s (.tunnel c) { s with tunnels := s.tunnels ++ [⟨client, .pending, .joining⟩] }
  | upgrade {s c} : s.connections[c]? = some .serving →
      Step s (.upgrade c) { s with connections := s.connections.set c .upgraded }
  | close {s c} : s.connections[c]? = some .serving →
      Step s (.close c) { s with connections := s.connections.set c .closed }
  | connectionStops {s c} : s.connections[c]? = some .serving → s.stop = true →
      Step s (.connectionStops c) { s with connections := s.connections.set c .closed }
  | upstream {s t client} (upstream : Upstream) :
      s.tunnels[t]? = some ⟨client, .pending, .joining⟩ → upstream ≠ .pending →
      Step s (.upstream t) (s.setTunnel t ⟨client, upstream, .joining⟩)
  | join {s t c} : s.tunnels[t]? = some ⟨some c, .upgraded, .joining⟩ → s.connections[c]? = some .upgraded →
      Step s (.join t) (s.setTunnel t ⟨some c, .upgraded, .copying⟩)
  | joinFails {s t client upstream} : s.tunnels[t]? = some ⟨client, upstream, .joining⟩ →
      (upstream = .failed ∨ client = none ∨ ∃ c, client = some c ∧ s.connections[c]? = some .closed) →
      Step s (.joinFails t) (s.setTunnel t ⟨client, upstream, .ended⟩)
  | tunnelEnds {s t client upstream} : s.tunnels[t]? = some ⟨client, upstream, .copying⟩ →
      Step s (.tunnelEnds t) (s.setTunnel t ⟨client, upstream, .ended⟩)
  | tunnelStops {s t client upstream} : s.tunnels[t]? = some ⟨client, upstream, .copying⟩ → s.stop = true →
      Step s (.tunnelStops t) (s.setTunnel t ⟨client, upstream, .ended⟩)

def bound (listeners : Nat) : Server := ⟨false, .serves, .replicate listeners .selecting, [], []⟩

def server (listeners : Nat) : System Server Event := ⟨bound listeners, Step⟩

def Caller.joined (listeners : Nat) : Caller → Nat
  | .awaits task => task
  | .returned => listeners
  | _ => 0

/-- The tasks that the stop has come to, and the connections that the tunnels come from. -/
structure Ordered (listeners : Nat) (s : Server) : Prop where
  length : s.accept.length = listeners
  stop : s.stop = false ↔ s.caller = .serves
  done : ∀ i : Nat, s.accept[i]? = some .done → s.stop = true
  joined : ∀ i : Nat, i < s.caller.joined listeners → s.accept[i]? = some .done
  client : ∀ tunnel ∈ s.tunnels, ∀ c, tunnel.client = some c → c < s.connections.length

variable {listeners : Nat} {s s' : Server} {e : Event} {i t : Nat} {a : Accept}

theorem bound_ordered (listeners : Nat) : Ordered listeners (bound listeners) := by
  refine ⟨List.length_replicate, iff_of_true rfl rfl, fun i hi => ?_, nofun, nofun⟩
  rw [bound, List.getElem?_replicate] at hi
  split at hi <;> cases hi

/-- An accept task goes on while the server is kept, or it is done after the stop. -/
theorem Ordered.setAccept (h : Ordered listeners s) (hi : s.accept[i]? = some a) (ha : a ≠ .done)
    {b : Accept} (hb : b = .done → s.stop = true) : Ordered listeners { s with accept := s.accept.set i b } := by
  refine ⟨(List.length_set ..).trans h.length, h.stop, fun k hk => ?_, fun k hk => ?_, h.client⟩
  · by_cases hki : i = k
    · subst hki
      rw [List.getElem?_set_self (List.getElem?_eq_some_iff.mp hi).1] at hk
      exact hb (Option.some.inj hk)
    · rw [List.getElem?_set_ne hki] at hk
      exact h.done k hk
  · have hdone := h.joined k hk
    have hki : i ≠ k := by
      rintro rfl
      rw [hi] at hdone
      exact ha (Option.some.inj hdone)
    rw [List.getElem?_set_ne hki]
    exact hdone

theorem Ordered.setTunnel (h : Ordered listeners s) {tunnel tunnel' : Tunnel} (ht : s.tunnels[t]? = some tunnel)
    (hclient : tunnel'.client = tunnel.client) : Ordered listeners (s.setTunnel t tunnel') := by
  refine ⟨h.length, h.stop, h.done, h.joined, fun other hmem c hc => ?_⟩
  rcases List.mem_or_eq_of_mem_set hmem with hmem | rfl
  · exact h.client other hmem c hc
  · exact h.client tunnel (List.mem_of_getElem? ht) c (hclient ▸ hc)

theorem Ordered.setConnections (h : Ordered listeners s) {connections : List Connection}
    (hlength : s.connections.length ≤ connections.length) : Ordered listeners { s with connections } :=
  ⟨h.length, h.stop, h.done, h.joined, fun tunnel hmem c hc => Nat.lt_of_lt_of_le (h.client tunnel hmem c hc) hlength⟩

theorem step_ordered (h : Ordered listeners s) (hstep : Step s e s') : Ordered listeners s' := by
  cases hstep with
  | shutdown _ => exact ⟨h.length, iff_of_false nofun nofun, fun _ _ => rfl, nofun, h.client⟩
  | drop _ => exact ⟨h.length, iff_of_false nofun nofun, fun _ _ => rfl, nofun, h.client⟩
  | @awaited k hcaller hk =>
      have hstop : s.stop ≠ false := fun hstop => by
        rw [h.stop, hcaller] at hstop
        cases hstop
      refine ⟨h.length, iff_of_false hstop nofun, h.done, fun n hn => ?_, h.client⟩
      rcases Nat.lt_succ_iff_lt_or_eq.mp hn with hlt | rfl
      · refine h.joined n ?_
        rw [hcaller]
        exact hlt
      · exact hk
  | returns hcaller =>
      have hstop : s.stop ≠ false := fun hstop => by
        rw [h.stop, hcaller] at hstop
        cases hstop
      refine ⟨h.length, iff_of_false hstop nofun, h.done, fun n hn => h.joined n ?_, h.client⟩
      rw [hcaller, Caller.joined, h.length]
      exact hn
  | accept _ => exact h.setConnections (by rw [List.length_append]; omega)
  | acceptFails hi => exact h.setAccept hi nofun nofun
  | wake hi => exact h.setAccept hi nofun nofun
  | acceptStops hi hstop => exact h.setAccept hi nofun fun _ => hstop
  | @tunnel k client hk hclient =>
      refine ⟨h.length, h.stop, h.done, h.joined, fun other hmem c hc => ?_⟩
      rcases List.mem_append.mp hmem with hmem | hmem
      · exact h.client other hmem c hc
      · rw [List.mem_singleton.mp hmem] at hc
        rcases hclient with rfl | rfl
        · cases hc
        · cases hc
          exact (List.getElem?_eq_some_iff.mp hk).1
  | upgrade _ => exact h.setConnections (Nat.le_of_eq (List.length_set ..).symm)
  | close _ => exact h.setConnections (Nat.le_of_eq (List.length_set ..).symm)
  | connectionStops _ _ => exact h.setConnections (Nat.le_of_eq (List.length_set ..).symm)
  | upstream _ ht _ => exact h.setTunnel ht rfl
  | join ht _ => exact h.setTunnel ht rfl
  | joinFails ht _ => exact h.setTunnel ht rfl
  | tunnelEnds ht => exact h.setTunnel ht rfl
  | tunnelStops ht _ => exact h.setTunnel ht rfl

theorem reached_ordered (h : Reached (server listeners) (fun _ _ => True) s) : Ordered listeners s :=
  h.invariant (bound_ordered listeners) fun hi _ hstep => step_ordered hi hstep

/-- The steps that need neither a client nor a target. A target that answered has its
connection upgraded, or fails, by a task of its own. -/
def Event.own : Event → Prop
  | .awaited | .returns | .wake _ | .acceptStops _ | .connectionStops _ => True
  | .upstream _ | .join _ | .joinFails _ | .tunnelStops _ => True
  | _ => False

def Winds (s s' : Server) : Prop := ∃ e, Step s e s' ∧ Event.own e

def Accept.left : Accept → Nat
  | .selecting => 1
  | .sleeping => 2
  | .done => 0

def Connection.left : Connection → Nat
  | .serving => 1
  | _ => 0

def Tunnel.left (tunnel : Tunnel) : Nat :=
  match tunnel.place with
  | .joining => if tunnel.upstream = .pending then 3 else 2
  | .copying => 1
  | .ended => 0

def Caller.left (listeners : Nat) : Caller → Nat
  | .awaits task => listeners + 1 - task
  | _ => 0

def Server.left (listeners : Nat) (s : Server) : Nat :=
  remaining Accept.left s.accept + remaining Connection.left s.connections + remaining Tunnel.left s.tunnels +
    s.caller.left listeners

theorem Server.left_accept {accept : List Accept}
    (h : remaining Accept.left accept < remaining Accept.left s.accept) :
    ({ s with accept } : Server).left listeners < s.left listeners := by
  simp only [Server.left]
  omega

theorem Server.left_connections {connections : List Connection}
    (h : remaining Connection.left connections < remaining Connection.left s.connections) :
    ({ s with connections } : Server).left listeners < s.left listeners := by
  simp only [Server.left]
  omega

theorem Server.left_setTunnel {tunnel tunnel' : Tunnel} (ht : s.tunnels[t]? = some tunnel)
    (hless : tunnel'.left < tunnel.left) : (s.setTunnel t tunnel').left listeners < s.left listeners := by
  have h : remaining Tunnel.left (s.tunnels.set t tunnel') < remaining Tunnel.left s.tunnels := remaining_set ht hless
  simp only [Server.left, Server.setTunnel]
  omega

theorem winds_ordered (h : Ordered listeners s) (hwinds : Winds s s') : Ordered listeners s' := by
  obtain ⟨e, hstep, _⟩ := hwinds
  exact step_ordered h hstep

/-- Every step by itself brings the server closer to its end. -/
theorem winds_less (h : Ordered listeners s) (hwinds : Winds s s') : s'.left listeners < s.left listeners := by
  obtain ⟨e, hstep, hown⟩ := hwinds
  cases hstep with
  | @awaited k hcaller hk =>
      have hlt := (List.getElem?_eq_some_iff.mp hk).1
      rw [h.length] at hlt
      simp only [Server.left, hcaller, Caller.left]
      omega
  | returns hcaller =>
      simp only [Server.left, hcaller, Caller.left, h.length]
      omega
  | wake hi => exact Server.left_accept (remaining_set hi Nat.one_lt_two)
  | acceptStops hi _ => exact Server.left_accept (remaining_set hi Nat.zero_lt_one)
  | connectionStops hc _ => exact Server.left_connections (remaining_set hc Nat.zero_lt_one)
  | upstream upstream ht hresolved =>
      refine Server.left_setTunnel ht ?_
      rw [Tunnel.left, Tunnel.left]
      dsimp only
      rw [if_neg hresolved, if_pos rfl]
      exact Nat.lt_succ_self 2
  | join ht _ => exact Server.left_setTunnel ht Nat.one_lt_two
  | @joinFails t client upstream ht _ =>
      refine Server.left_setTunnel ht ?_
      change 0 < if upstream = .pending then 3 else 2
      split <;> omega
  | tunnelStops ht _ => exact Server.left_setTunnel ht Nat.zero_lt_one
  | _ => exact hown.elim

/-- An accept task that is not done wakes or stops. -/
theorem accept_winds (hstop : s.stop = true) (hlast : ∀ s', ¬ Winds s s') : ∀ a ∈ s.accept, a = .done := by
  intro a ha
  obtain ⟨i, hi⟩ := List.mem_iff_getElem?.mp ha
  cases a with
  | selecting => exact absurd ⟨_, .acceptStops hi hstop, trivial⟩ (hlast _)
  | sleeping => exact absurd ⟨_, .wake hi, trivial⟩ (hlast _)
  | done => rfl

theorem connection_winds (hstop : s.stop = true) (hlast : ∀ s', ¬ Winds s s') : ∀ c ∈ s.connections, c ≠ .serving := by
  rintro c hc rfl
  obtain ⟨i, hi⟩ := List.mem_iff_getElem?.mp hc
  exact hlast _ ⟨_, .connectionStops hi hstop, trivial⟩

/-- Where no connection is served any more, a tunnel that waits for one has its answer. -/
theorem tunnel_winds (h : Ordered listeners s) (hstop : s.stop = true) (hlast : ∀ s', ¬ Winds s s') :
    ∀ tunnel ∈ s.tunnels, tunnel.place = .ended := by
  rintro ⟨client, upstream, place⟩ hmem
  obtain ⟨t, ht⟩ := List.mem_iff_getElem?.mp hmem
  cases place with
  | ended => rfl
  | copying => exact absurd ⟨_, .tunnelStops ht hstop, trivial⟩ (hlast _)
  | joining =>
      cases upstream with
      | pending => exact absurd ⟨_, .upstream .upgraded ht nofun, trivial⟩ (hlast _)
      | failed => exact absurd ⟨_, .joinFails ht (.inl rfl), trivial⟩ (hlast _)
      | upgraded =>
          cases client with
          | none => exact absurd ⟨_, .joinFails ht (.inr (.inl rfl)), trivial⟩ (hlast _)
          | some c =>
              have hlt := h.client _ hmem c rfl
              have hc := List.getElem?_eq_getElem hlt
              have hserved := connection_winds hstop hlast _ (List.getElem_mem hlt)
              cases hconnection : s.connections[c] with
              | serving => exact absurd hconnection hserved
              | upgraded =>
                  rw [hconnection] at hc
                  exact absurd ⟨_, .join ht hc, trivial⟩ (hlast _)
              | closed =>
                  rw [hconnection] at hc
                  exact absurd ⟨_, .joinFails ht (.inr (.inr ⟨c, rfl, hc⟩)), trivial⟩ (hlast _)

/-- Where every accept task is done, the caller that awaits them goes on. -/
theorem caller_winds (h : Ordered listeners s) (hstop : s.stop = true) (hlast : ∀ s', ¬ Winds s s') :
    s.caller = .returned ∨ s.caller = .dropped := by
  cases hcaller : s.caller with
  | returned => exact .inl rfl
  | dropped => exact .inr rfl
  | serves =>
      rw [h.stop.mpr hcaller] at hstop
      cases hstop
  | awaits task =>
      rcases Nat.lt_trichotomy task s.accept.length with hlt | heq | hgt
      · have hdone := accept_winds hstop hlast _ (List.getElem_mem hlt)
        have htask := List.getElem?_eq_getElem hlt
        rw [hdone] at htask
        exact absurd ⟨_, .awaited hcaller htask, trivial⟩ (hlast _)
      · rw [heq] at hcaller
        exact absurd ⟨_, .returns hcaller, trivial⟩ (hlast _)
      · have hdone := h.joined s.accept.length (by rw [hcaller]; exact hgt)
        rw [List.getElem?_eq_none (Nat.le_refl _)] at hdone
        cases hdone

theorem step_stopped (hstop : s.stop = true) (hstep : Step s e s') : s'.stop = true := by
  cases hstep with
  | shutdown _ => rfl
  | drop _ => rfl
  | _ => exact hstop

/-- Nothing of the server is left: neither a listener nor a connection nor a tunnel. -/
structure Closed (s : Server) : Prop where
  accept : ∀ a ∈ s.accept, a = .done
  connections : ∀ c ∈ s.connections, c ≠ .serving
  tunnels : ∀ tunnel ∈ s.tunnels, tunnel.place = .ended
  caller : s.caller = .returned ∨ s.caller = .dropped

theorem done_all (h : Ordered listeners s) (hreturned : s.caller = .returned) : ∀ a ∈ s.accept, a = .done := by
  intro a ha
  obtain ⟨i, hi⟩ := List.mem_iff_getElem?.mp ha
  have hdone := h.joined i (by
    rw [hreturned, Caller.joined, ← h.length]
    exact (List.getElem?_eq_some_iff.mp hi).1)
  rw [hi] at hdone
  exact Option.some.inj hdone

/-- With every accept task done, none is ever started again, and no connection is accepted. -/
theorem step_done (h : ∀ a ∈ s.accept, a = .done) (hstep : Step s e s') :
    s'.accept = s.accept ∧ s'.connections.length = s.connections.length := by
  have hno : ∀ {i : Nat} {a : Accept}, s.accept[i]? = some a → a ≠ .done → False := fun hi ha =>
    ha (h _ (List.mem_of_getElem? hi))
  cases hstep with
  | accept hi => exact (hno hi nofun).elim
  | acceptFails hi => exact (hno hi nofun).elim
  | wake hi => exact (hno hi nofun).elim
  | acceptStops hi _ => exact (hno hi nofun).elim
  | upgrade _ => exact ⟨rfl, List.length_set ..⟩
  | close _ => exact ⟨rfl, List.length_set ..⟩
  | connectionStops _ _ => exact ⟨rfl, List.length_set ..⟩
  | _ => exact ⟨rfl, rfl⟩

/-- Every listener is served until the stop. When a shutdown returns, all of them are closed, and
no connection is accepted any more. From the stop on, what the server does by itself comes to an
end, and there no listener, no connection and no tunnel is left. -/
theorem shutdown_closes (listeners : Nat) (s : Server) (h : Reached (server listeners) (fun _ _ => True) s) :
    (s.stop = false → s.accept.length = listeners ∧ ∀ a ∈ s.accept, a ≠ .done) ∧
    (s.caller = .returned → (∀ a ∈ s.accept, a = .done) ∧
      ∀ s', Relation.ReflTransGen (fun s s' => ∃ e, Step s e s') s s' →
        s'.accept = s.accept ∧ s'.connections.length = s.connections.length) ∧
    (s.stop = true → Acc (fun s' s => Winds s s') s ∧
      ∀ s', Relation.ReflTransGen Winds s s' → (∀ s'', ¬ Winds s' s'') → Closed s') := by
  have hordered := reached_ordered h
  refine ⟨fun hstop => ⟨hordered.length, ?_⟩, fun hreturned => ?_, fun hstop => ⟨?_, fun s' hrun hlast => ?_⟩⟩
  · rintro a ha rfl
    obtain ⟨i, hi⟩ := List.mem_iff_getElem?.mp ha
    rw [hordered.done i hi] at hstop
    cases hstop
  · have hdone := done_all hordered hreturned
    refine ⟨hdone, fun s' hrun => ?_⟩
    induction hrun with
    | refl => exact ⟨rfl, rfl⟩
    | tail _ hstep ih =>
        obtain ⟨e, hstep⟩ := hstep
        obtain ⟨haccept, hlength⟩ := step_done (fun a ha => hdone a (ih.1 ▸ ha)) hstep
        exact ⟨haccept.trans ih.1, hlength.trans ih.2⟩
  · exact @runs_end _ Winds (Ordered listeners) (Server.left listeners) winds_ordered winds_less s hordered
  · have hlater : Ordered listeners s' ∧ s'.stop = true := by
      clear hlast
      induction hrun with
      | refl => exact ⟨hordered, hstop⟩
      | tail _ hwinds ih =>
          exact ⟨winds_ordered ih.1 hwinds, step_stopped ih.2 hwinds.choose_spec.1⟩
    exact ⟨accept_winds hlater.2 hlast, connection_winds hlater.2 hlast, tunnel_winds hlater.1 hlater.2 hlast,
      caller_winds hlater.1 hlater.2 hlast⟩

/-- The shutdown of a server with one listener has returned, and a connection is still served. -/
def returned : Server := ⟨true, .returned, [.done], [.serving], []⟩

theorem returned_reached : Reached (server 1) (fun _ _ => True) returned := by
  have haccepted : Reached (server 1) (fun _ _ => True) ⟨false, .serves, [.selecting], [.serving], []⟩ :=
    .step (e := Event.accept 0) .start trivial (.accept rfl)
  have hstopped : Reached (server 1) (fun _ _ => True) ⟨true, .awaits 0, [.selecting], [.serving], []⟩ :=
    .step (e := Event.shutdown) haccepted trivial (.shutdown rfl)
  have hdone : Reached (server 1) (fun _ _ => True) ⟨true, .awaits 0, [.done], [.serving], []⟩ :=
    .step (e := Event.acceptStops 0) hstopped trivial (.acceptStops rfl rfl)
  have hawaited : Reached (server 1) (fun _ _ => True) ⟨true, .awaits 1, [.done], [.serving], []⟩ :=
    .step (e := Event.awaited) hdone trivial (.awaited rfl rfl)
  exact .step (e := Event.returns) hawaited trivial (.returns rfl)

theorem shutdown_closes_returned :
    (∀ s', Relation.ReflTransGen (fun s s' => ∃ e, Step s e s') returned s' → s'.connections.length = 1) ∧
      Acc (fun s' s => Winds s s') returned := by
  have hcloses := shutdown_closes 1 returned returned_reached
  exact ⟨fun s' hrun => ((hcloses.2.1 rfl).2 s' hrun).2, (hcloses.2.2 rfl).1⟩

end LocalDevProxy.ServerTasks
