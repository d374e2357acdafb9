import LocalDevProxy.Listen
import Mathlib.Data.List.Destutter
import Mathlib.Data.List.Nodup

namespace LocalDevProxy.ListenOnce

open Lib.Interaction Config Routes Os Listen

section

variable {α : Type} [DecidableEq α]

/-- No element comes back after a different one. -/
def Gathered : List α → Prop
  | [] => True
  | a :: rest => a ∉ rest.dropWhile (· = a) ∧ Gathered rest

theorem mem_destutter (a b : α) (rest : List α) : a ∈ rest.destutter' (· ≠ ·) b ↔ a ∈ b :: rest := by
  induction rest generalizing b with
  | nil => exact Iff.rfl
  | cons c rest ih =>
      by_cases hbc : b = c
      · subst hbc
        rw [List.destutter'_cons_neg _ (not_not.mpr rfl), ih, List.mem_cons, List.mem_cons, List.mem_cons,
          or_self_left]
      · rw [List.destutter'_cons_pos _ hbc, List.mem_cons, ih, List.mem_cons, List.mem_cons, List.mem_cons]

/-- Dropping repetitions next to each other drops all of them where the list is gathered. -/
theorem nodup_destutter' (a : α) (rest : List α) :
    (rest.destutter' (· ≠ ·) a).Nodup ↔ Gathered (a :: rest) := by
  induction rest generalizing a with
  | nil => exact iff_of_true (List.nodup_singleton a) ⟨List.not_mem_nil, trivial⟩
  | cons b rest ih =>
      by_cases hab : a = b
      · subst hab
        have hsame : (a :: rest).dropWhile (· = a) = rest.dropWhile (· = a) :=
          List.dropWhile_cons_of_pos (decide_eq_true rfl)
        rw [List.destutter'_cons_neg _ (not_not.mpr rfl), ih, Gathered, Gathered, Gathered, hsame, and_self_left]
      · have hsame : (b :: rest).dropWhile (· = a) = b :: rest :=
          List.dropWhile_cons_of_neg (by simpa using Ne.symm hab)
        rw [List.destutter'_cons_pos _ hab, List.nodup_cons, mem_destutter, ih]
        conv_rhs => rw [Gathered, hsame]

end

theorem mem_dedup {addr : SocketAddr} {addrs : List SocketAddr} : addr ∈ dedup addrs ↔ addr ∈ addrs := by
  cases addrs with
  | nil => exact Iff.rfl
  | cons first rest => exact mem_destutter addr first rest

theorem nodup_dedup (addrs : List SocketAddr) : (dedup addrs).Nodup ↔ Gathered addrs := by
  cases addrs with
  | nil => exact iff_of_true List.nodup_nil trivial
  | cons first rest => exact nodup_destutter' first rest

/-- No address is named by two entries, and none comes back after another one
in what an entry stands for. -/
def Apart (groups : List (List SocketAddr)) : Prop :=
  (∀ addrs ∈ groups, Gathered addrs) ∧ groups.Pairwise List.Disjoint

theorem nodup_groups (groups : List (List SocketAddr)) : (groups.flatMap dedup).Nodup ↔ Apart groups := by
  rw [List.nodup_flatMap, Apart]
  refine and_congr (forall₂_congr fun addrs _ => nodup_dedup addrs) ?_
  refine List.Pairwise.iff fun addrs others => ?_
  exact forall_congr' fun addr => by rw [mem_dedup, mem_dedup]

/-- What each entry stands for: an address is itself, and a name is what the
resolver answers. -/
def resolutions (port : Port) : List String → List (List SocketAddr) → List (List SocketAddr)
  | [], _ => []
  | host :: hosts, answers =>
      match parseIpAddr host with
      | some ip => [⟨ip, port.number⟩] :: resolutions port hosts answers
      | none =>
          match answers with
          | [] => []
          | addrs :: answers => addrs :: resolutions port hosts answers

/-- The answers that the resolver has left, and the addresses that were tried. -/
structure Startup where
  answers : List (List SocketAddr)
  tried : List SocketAddr

def Startup.try (s : Startup) (addr : SocketAddr) : Startup := ⟨s.answers, s.tried ++ [addr]⟩

/-- A system that gives these answers, and on which only an address that was
tried already may be taken. -/
def startupAnswers : (c : Call) → Startup → Ans c → Startup → Prop
  | .lookupHost _ _, s, .ok addrs, s' => s = ⟨addrs :: s'.answers, s'.tried⟩
  | .lookupHost _ _, _, .error _, _ => False
  | .listen addr, s, .ok _, s' => s' = s.try addr
  | .listen addr, s, .error _, s' => s' = s.try addr ∧ addr ∈ s.tried
  | .localAddr _, s, .ok _, s' => s' = s
  | .localAddr _, _, .error _, _ => False
  | _, s, _, s' => s' = s

def startup : Machine sys Startup where
  answers := startupAnswers
  drift := fun s s' => s' = s
  drift_refl := fun _ => rfl
  drift_trans := fun huv hvw => hvw.trans huv

def Repeats (tried all : List SocketAddr) : Prop :=
  ∃ before addr after, all = before ++ addr :: after ∧ addr ∈ tried ++ before

theorem Repeats.append {tried all : List SocketAddr} (h : Repeats tried all) (rest : List SocketAddr) :
    Repeats tried (all ++ rest) := by
  obtain ⟨before, addr, after, rfl, hmem⟩ := h
  exact ⟨before, addr, after ++ rest, by rw [List.append_assoc, List.cons_append], hmem⟩

theorem Repeats.after {tried first rest : List SocketAddr} (h : Repeats (tried ++ first) rest) :
    Repeats tried (first ++ rest) := by
  obtain ⟨before, addr, after, rfl, hmem⟩ := h
  exact ⟨first ++ before, addr, after, (List.append_assoc ..).symm, by rwa [List.append_assoc] at hmem⟩

theorem Repeats.not_nodup {all : List SocketAddr} (h : Repeats [] all) : ¬ all.Nodup := by
  obtain ⟨before, addr, after, rfl, hmem⟩ := h
  rw [List.nodup_middle, List.nodup_cons]
  exact fun hnodup => hnodup.1 (List.mem_append_left after hmem)

variable {port : Port} {s s' : Startup}

theorem perform_runs {c : Call} {b : Ans c} (h : Runs startup (Os.perform c) s b s') : startupAnswers c s b s' := by
  obtain ⟨s₁, s₂, rfl, hanswer, rfl⟩ := runs_perform.mp h
  exact hanswer

theorem listenAll_runs {addrs : List SocketAddr} {r : Except ProxyError Unit}
    (h : Runs startup (listenAll addrs) s r s') :
    r = .ok () ∧ s' = ⟨s.answers, s.tried ++ addrs⟩ ∨ (∃ e, r = .error e) ∧ Repeats s.tried addrs := by
  induction addrs generalizing s with
  | nil =>
      obtain ⟨rfl, rfl⟩ := runs_pure.mp h
      exact .inl ⟨rfl, by rw [List.append_nil]⟩
  | cons addr rest ih =>
      obtain ⟨b, s₁, hlisten, hrest⟩ := runs_bind.mp h
      have hanswer := perform_runs hlisten
      cases b with
      | error source =>
          obtain ⟨rfl, _⟩ := runs_pure.mp hrest
          exact .inr ⟨⟨_, rfl⟩, [], addr, rest, rfl, by rw [List.append_nil]; exact hanswer.2⟩
      | ok _ =>
          obtain rfl : s₁ = s.try addr := hanswer
          rcases ih hrest with ⟨hok, hs⟩ | ⟨herror, hrepeats⟩
          · refine .inl ⟨hok, ?_⟩
            rw [hs, Startup.try, List.append_assoc, List.singleton_append]
          · exact .inr ⟨herror, hrepeats.after⟩

/-- The addresses of one entry, and the answers left for those after it. -/
theorem resolveBindHost_runs {host : String} {r : Except ProxyError (List SocketAddr)}
    (hfound : ∀ addrs ∈ s.answers, addrs ≠ []) (h : Runs startup (resolveBindHost host port) s r s') :
    ∃ addrs answers, r = .ok (dedup addrs) ∧ s' = ⟨answers, s.tried⟩ ∧ (∀ addrs ∈ answers, addrs ≠ []) ∧
      ∀ hosts, resolutions port (host :: hosts) s.answers = addrs :: resolutions port hosts answers := by
  cases hip : parseIpAddr host with
  | some ip =>
      rw [resolveBindHost, hip] at h
      obtain ⟨rfl, rfl⟩ := runs_pure.mp h
      refine ⟨[⟨ip, port.number⟩], s'.answers, rfl, rfl, hfound, fun hosts => ?_⟩
      simp only [resolutions, hip]
  | none =>
      rw [resolveBindHost, hip] at h
      obtain ⟨b, s₁, hlookup, hrest⟩ := runs_bind.mp h
      have hanswer := perform_runs hlookup
      cases b with
      | error source => exact hanswer.elim
      | ok addrs =>
          obtain rfl : s = ⟨addrs :: s₁.answers, s₁.tried⟩ := hanswer
          have hne : addrs ≠ [] := hfound addrs List.mem_cons_self
          dsimp only at hrest
          rw [if_neg hne] at hrest
          obtain ⟨rfl, rfl⟩ := runs_pure.mp hrest
          refine ⟨addrs, s'.answers, rfl, rfl, fun _ hmem => hfound _ (List.mem_cons_of_mem _ hmem), fun hosts => ?_⟩
          simp only [resolutions, hip]

theorem listenHosts_runs {hosts : List String} {r : Except ProxyError (List SocketAddr)}
    (hfound : ∀ addrs ∈ s.answers, addrs ≠ []) (h : Runs startup (listenHosts port hosts) s r s') :
    (∃ addrs, r = .ok addrs) ∧ s'.tried = s.tried ++ (resolutions port hosts s.answers).flatMap dedup ∨
      (∃ e, r = .error e) ∧ Repeats s.tried ((resolutions port hosts s.answers).flatMap dedup) := by
  induction hosts generalizing s r with
  | nil =>
      obtain ⟨rfl, rfl⟩ := runs_pure.mp h
      exact .inl ⟨⟨_, rfl⟩, (List.append_nil _).symm⟩
  | cons host hosts ih =>
      rcases runs_tryThen.mp h with ⟨e, _, hresolve⟩ | ⟨found, s₁, hresolve, hrest⟩
      · obtain ⟨addrs, answers, hok, _⟩ := resolveBindHost_runs hfound hresolve
        cases hok
      · obtain ⟨addrs, answers, hok, rfl, hfound', hgroups⟩ := resolveBindHost_runs hfound hresolve
        cases hok
        rw [hgroups, List.flatMap_cons]
        rcases runs_tryThen.mp hrest with ⟨e, rfl, hlisten⟩ | ⟨_, s₂, hlisten, hrest⟩
        · rcases listenAll_runs hlisten with ⟨hok, _⟩ | ⟨_, hrepeats⟩
          · cases hok
          · exact .inr ⟨⟨e, rfl⟩, hrepeats.append _⟩
        · rcases listenAll_runs hlisten with ⟨_, rfl⟩ | ⟨⟨e, herror⟩, _⟩
          · rcases runs_tryThen.mp hrest with ⟨e, rfl, hothers⟩ | ⟨others, s₃, hothers, hlast⟩
            · rcases ih hfound' hothers with ⟨⟨_, hok⟩, _⟩ | ⟨_, hrepeats⟩
              · cases hok
              · exact .inr ⟨⟨e, rfl⟩, hrepeats.after⟩
            · obtain ⟨rfl, rfl⟩ := runs_pure.mp hlast
              rcases ih hfound' hothers with ⟨_, htried⟩ | ⟨⟨e, herror⟩, _⟩
              · exact .inl ⟨⟨_, rfl⟩, by rw [htried, List.append_assoc]⟩
              · cases herror
          · cases herror

theorem acceptAll_runs {addrs : List SocketAddr} {r : Except ProxyError (List SocketAddr)}
    (h : Runs startup (acceptAll port addrs) s r s') : (∃ bound, r = .ok bound) ∧ s' = s := by
  induction addrs generalizing r s' with
  | nil =>
      obtain ⟨rfl, rfl⟩ := runs_pure.mp h
      exact ⟨⟨_, rfl⟩, rfl⟩
  | cons addr rest ih =>
      obtain ⟨b, s₁, hlocal, hrest⟩ := runs_bind.mp h
      have hanswer := perform_runs hlocal
      cases b with
      | error source => exact hanswer.elim
      | ok bound =>
          obtain rfl : s₁ = s := hanswer
          rcases runs_tryThen.mp hrest with ⟨e, rfl, hothers⟩ | ⟨others, s₂, hothers, hlast⟩
          · obtain ⟨⟨_, hok⟩, _⟩ := ih hothers
            cases hok
          · obtain ⟨_, rfl⟩ := ih hothers
            obtain ⟨rfl, rfl⟩ := runs_pure.mp hlast
            exact ⟨⟨_, rfl⟩, rfl⟩

variable {G : Glob} {routes : RouteTable G} {hosts : List String} {answers : List (List SocketAddr)}
  {r : Except ProxyError (ProxyServer G)}

theorem bind_runs (hfound : ∀ addrs ∈ answers, addrs ≠ [])
    (h : Runs startup (ProxyServer.bind routes port hosts) ⟨answers, []⟩ r s') :
    (∃ server, r = .ok server) ∧ s'.tried = (resolutions port hosts answers).flatMap dedup ∨
      (∃ e, r = .error e) ∧ Repeats [] ((resolutions port hosts answers).flatMap dedup) := by
  rcases runs_tryThen.mp h with ⟨e, rfl, hlisten⟩ | ⟨addrs, s₁, hlisten, hrest⟩
  · rcases listenHosts_runs hfound hlisten with ⟨⟨_, hok⟩, _⟩ | ⟨_, hrepeats⟩
    · cases hok
    · exact .inr ⟨⟨e, rfl⟩, hrepeats⟩
  · rcases listenHosts_runs hfound hlisten with ⟨_, htried⟩ | ⟨⟨e, herror⟩, _⟩
    · rcases runs_tryThen.mp hrest with ⟨e, rfl, haccept⟩ | ⟨bound, s₂, haccept, hlast⟩
      · obtain ⟨⟨_, hok⟩, _⟩ := acceptAll_runs haccept
        cases hok
      · obtain ⟨_, rfl⟩ := acceptAll_runs haccept
        obtain ⟨rfl, rfl⟩ := runs_pure.mp hlast
        exact .inl ⟨⟨_, rfl⟩, htried⟩
    · cases herror

/-- Repetitions are dropped only where they stand next to each other in what
one entry stands for, so every other one is tried again. -/
theorem bind_listens_once (hfound : ∀ addrs ∈ answers, addrs ≠ [])
    (h : Runs startup (ProxyServer.bind routes port hosts) ⟨answers, []⟩ r s') :
    ((∃ server, r = .ok server) ∧ ∀ addr ∈ (resolutions port hosts answers).flatten, s'.tried.count addr = 1) ↔
      Apart (resolutions port hosts answers) := by
  rw [← nodup_groups]
  have hmem : ∀ addr, addr ∈ (resolutions port hosts answers).flatMap dedup ↔
      addr ∈ (resolutions port hosts answers).flatten := fun addr => by
    rw [List.mem_flatMap, List.mem_flatten]
    exact exists_congr fun addrs => and_congr_right fun _ => mem_dedup
  rcases bind_runs hfound h with ⟨hok, htried⟩ | ⟨⟨e, rfl⟩, hrepeats⟩
  · rw [htried]
    constructor
    · rintro ⟨_, honce⟩
      refine List.nodup_iff_count_le_one.mpr fun addr => ?_
      by_cases haddr : addr ∈ (resolutions port hosts answers).flatMap dedup
      · exact (honce addr ((hmem addr).mp haddr)).le
      · rw [List.count_eq_zero_of_not_mem haddr]
        exact Nat.zero_le 1
    · intro hnodup
      exact ⟨hok, fun addr haddr => List.count_eq_one_of_mem hnodup ((hmem addr).mpr haddr)⟩
  · refine iff_of_false ?_ hrepeats.not_nodup
    rintro ⟨⟨_, hok⟩, _⟩
    cases hok

def loopback : SocketAddr := ⟨.v4 0x7f000001, 2800⟩

def loopback6 : SocketAddr := ⟨.v6 1, 2800⟩

theorem lookup_step {host : String} {number : Nat} {α : Type} {next : Ans (.lookupHost host number) → Io α}
    {addrs tried : List SocketAddr} {a : α} (h : Runs startup (next (Except.ok addrs)) ⟨answers, tried⟩ a s') :
    Runs startup (.call (.lookupHost host number) next) ⟨addrs :: answers, tried⟩ a s' := by
  have hanswer : startup.answers (.lookupHost host number) ⟨addrs :: answers, tried⟩ (.ok addrs) ⟨answers, tried⟩ :=
    rfl
  exact runs_step _ _ hanswer h

theorem loopbacks_run :
    Runs startup (ProxyServer.bind (.new literalGlob headerPort []) headerPort ["127.0.0.1", "localhost"])
      ⟨[[loopback6]], []⟩ (.ok ⟨.new literalGlob headerPort [], [loopback, loopback6]⟩)
      ⟨[], [loopback, loopback6]⟩ := by
  refine runs_step (.listen loopback) (.ok ()) rfl ?_
  refine lookup_step ?_
  refine runs_step (.listen loopback6) (.ok ()) rfl ?_
  refine runs_step (.localAddr loopback) (.ok loopback) rfl ?_
  refine runs_step (.localAddr loopback6) (.ok loopback6) rfl ?_
  exact .pure rfl

theorem bind_listens_once_loopbacks :
    ((∃ server, (.ok ⟨.new literalGlob headerPort [], [loopback, loopback6]⟩ :
          Except ProxyError (ProxyServer literalGlob)) = .ok server) ∧
        ∀ addr ∈ (resolutions headerPort ["127.0.0.1", "localhost"] [[loopback6]]).flatten,
          [loopback, loopback6].count addr = 1) ↔
      Apart (resolutions headerPort ["127.0.0.1", "localhost"] [[loopback6]]) := by
  refine bind_listens_once ?_ loopbacks_run
  intro addrs haddrs
  rw [List.mem_singleton.mp haddrs]
  exact List.cons_ne_nil _ _

/-- A second entry that resolves to the first one's address stops the startup,
and so does one entry that resolves to an address, another and the first again. -/
theorem repeated_address_refused :
    (∃ e, Runs startup (ProxyServer.bind (.new literalGlob headerPort []) headerPort ["127.0.0.1", "localhost"])
      ⟨[[loopback]], []⟩ (.error e) ⟨[], [loopback, loopback]⟩) ∧
    (∃ e, Runs startup (ProxyServer.bind (.new literalGlob headerPort []) headerPort ["localhost"])
      ⟨[[loopback, loopback6, loopback]], []⟩ (.error e) ⟨[], [loopback, loopback6, loopback]⟩) ∧
    [loopback, loopback].count loopback ≠ 1 ∧ [loopback, loopback6, loopback].count loopback ≠ 1 := by
  refine ⟨⟨.listen loopback ⟨.other, "Address already in use"⟩, ?_⟩,
    ⟨.listen loopback ⟨.other, "Address already in use"⟩, ?_⟩, by decide, by decide⟩
  · refine runs_step (.listen loopback) (.ok ()) rfl ?_
    refine lookup_step ?_
    refine runs_step (.listen loopback) (.error ⟨.other, "Address already in use"⟩) ⟨rfl, List.mem_cons_self⟩ ?_
    exact .pure rfl
  · refine lookup_step ?_
    refine runs_step (.listen loopback) (.ok ()) rfl ?_
    refine runs_step (.listen loopback6) (.ok ()) rfl ?_
    refine runs_step (.listen loopback) (.error ⟨.other, "Address already in use"⟩) ⟨rfl, List.mem_cons_self⟩ ?_
    exact .pure rfl

end LocalDevProxy.ListenOnce
