import LocalDevProxy.Routes

namespace LocalDevProxy.RouteResolution

open Lib.Fallible Text Paths Config Placeholders Routes

section

variable (cwd : Option Path) (env : EnvLookup) (base : Option Path) (service : ServiceDef)

/-- A variable of a service: the environment is asked first, then the service's own table. -/
def HasValue (var raw : String) : Prop :=
  env var = some raw ∨ env var = none ∧ Environment.lookup service.env var = some raw

def Unset (var : String) : Prop := env var = none ∧ Environment.lookup service.env var = none

/-- A route's target by itself, whatever other routes have claimed. -/
inductive Resolves : RouteTarget → ResolvedTarget → Prop
  | port {host port} : Resolves (.port host port) (.tcp host port)
  | portEnv {host var raw port} (h : HasValue env service var raw)
      (hport : parseI64 (trim raw) = some (port.number : Int)) :
      Resolves (.portEnv host var) (.tcp host port)
  | socket {raw} : Resolves (.socket raw) (.unix (resolveSocketPath cwd raw base))
  | socketEnv {var raw} (h : HasValue env service var raw) (hne : raw ≠ "") :
      Resolves (.socketEnv var) (.unix (resolveSocketPath cwd raw base))

inductive Fault : RouteTarget → ConfigError → Prop
  | portUnset {host var} (h : Unset env service var) :
      Fault (.portEnv host var) ⟨"Missing required port variable: " ++ var⟩
  | portText {host var raw} (h : HasValue env service var raw) (hn : parseI64 (trim raw) = none) :
      Fault (.portEnv host var) ⟨var ++ " must be an integer, got: " ++ debugStr raw⟩
  | portRange {host var raw n} (h : HasValue env service var raw) (hn : parseI64 (trim raw) = some n)
      (hout : ¬ (1 ≤ n ∧ n ≤ 65535)) :
      Fault (.portEnv host var) ⟨var ++ " must be in range 1-65535, got: " ++ toString n⟩
  | socketUnset {var} (h : Unset env service var) :
      Fault (.socketEnv var) ⟨"Missing required socket variable: " ++ var⟩
  | socketEmpty {var} (h : HasValue env service var "") :
      Fault (.socketEnv var) ⟨var ++ " must be a non-empty socket path"⟩

def ownTarget : RouteTarget → Except ConfigError ResolvedTarget
  | .socket raw => .ok (.unix (resolveSocketPath cwd raw base))
  | .socketEnv var => do
      let raw ← requireSocketPath (serviceValue service env var) var
      .ok (.unix (resolveSocketPath cwd raw base))
  | .port host port => .ok (.tcp host port)
  | .portEnv host var => do
      let port ← requirePort (serviceValue service env var) var
      .ok (.tcp host port)

end

/-- Two targets collide on a port, whatever the hosts, or on a path. -/
def Collide : ResolvedTarget → ResolvedTarget → Prop
  | .tcp _ port, .tcp _ port' => port = port'
  | .unix buf, .unix buf' => buf.path = buf'.path
  | _, _ => False

def collision (target : ResolvedTarget) (owner id : String) : ConfigError :=
  match target with
  | .tcp _ port => ⟨"Port " ++ decimal port.number ++ " used by both " ++ owner ++ " and " ++ id⟩
  | .unix buf => ⟨"Socket " ++ debugStr buf.text ++ " used by both " ++ owner ++ " and " ++ id⟩

def owner (seen : Seen) : ResolvedTarget → Option String
  | .tcp _ port => seen.portOwner port
  | .unix buf => seen.socketOwner buf.path

def add (seen : Seen) (target : ResolvedTarget) (id : String) : Seen :=
  match target with
  | .tcp _ port => { seen with ports := (port, id) :: seen.ports }
  | .unix buf => { seen with sockets := (buf.path, id) :: seen.sockets }

def claim (seen : Seen) (target : ResolvedTarget) (id : String) : Except ConfigError Seen :=
  match owner seen target with
  | some holder => .error (collision target holder id)
  | none => .ok (add seen target id)

variable {cwd : Option Path} {env : EnvLookup} {base : Option Path} {service : ServiceDef}

theorem serviceValue_some {var raw : String} :
    serviceValue service env var = some raw ↔ HasValue env service var raw := by
  simp [serviceValue, HasValue, Option.or_eq_some_iff]

theorem serviceValue_none {var : String} :
    serviceValue service env var = none ↔ Unset env service var := by
  simp [serviceValue, Unset, Option.or_eq_none_iff]

theorem Collide.symm {a b : ResolvedTarget} (h : Collide a b) : Collide b a := by
  cases a <;> cases b <;> simp_all [Collide]

theorem Collide.trans {a b c : ResolvedTarget} (h : Collide a b) (h' : Collide b c) : Collide a c := by
  cases a <;> cases b <;> cases c <;> simp_all [Collide]

theorem resolveTarget_eq (seen : Seen) (route : ServiceRoute) :
    resolveTarget cwd env base seen service route = (do
      let target ← ownTarget cwd env base service route.target
      let seen ← claim seen target route.id
      .ok (target, seen)) := by
  have hport : ∀ host port, claim seen (.tcp host port) route.id = claimPort seen port route.id := by
    intro host port
    rfl
  have hsocket : ∀ buf, claim seen (.unix buf) route.id = claimSocket seen buf route.id := by
    intro buf
    rfl
  unfold resolveTarget ownTarget
  cases route.target with
  | port host port => exact congrArg (· >>= _) (hport host port).symm
  | socket raw => exact congrArg (· >>= _) (hsocket _).symm
  | portEnv host var =>
      cases h : requirePort (serviceValue service env var) var with
      | error err => simp only [h]; rfl
      | ok port => simp only [h]; rfl
  | socketEnv var =>
      cases h : requireSocketPath (serviceValue service env var) var with
      | error err => simp only [h]; rfl
      | ok raw => simp only [h]; rfl

theorem requirePort_ok {value : Option String} {key : String} {port : Port} :
    requirePort value key = .ok port ↔
      ∃ raw, value = some raw ∧ parseI64 (trim raw) = some (port.number : Int) := by
  unfold requirePort
  cases value with
  | none => simp
  | some raw =>
      cases hn : parseI64 (trim raw) with
      | none => simp [hn]
      | some n =>
          cases hp : Port.ofInt n with
          | none =>
              have hne : n ≠ port.number := fun he => by
                rw [portOfInt_some.mpr he] at hp
                cases hp
              simp [hn, hp, hne]
          | some p =>
              have hpn := portOfInt_some.mp hp
              subst hpn
              simp only [hn, hp, Except.ok.injEq, Option.some.injEq, exists_eq_left', Int.natCast_inj]
              constructor
              · rintro rfl
                rfl
              · intro he
                rcases p with ⟨p, _⟩
                rcases port with ⟨q, _⟩
                cases he
                rfl

theorem ownTarget_ok {route : RouteTarget} {target : ResolvedTarget} :
    ownTarget cwd env base service route = .ok target ↔ Resolves cwd env base service route target := by
  constructor
  · intro h
    cases route with
    | port host port =>
        cases h
        exact .port
    | socket raw =>
        cases h
        exact .socket
    | portEnv host var =>
        obtain ⟨port, hport, h⟩ := bind_eq_ok.mp h
        obtain ⟨raw, hv, hp⟩ := requirePort_ok.mp hport
        cases h
        exact .portEnv (serviceValue_some.mp hv) hp
    | socketEnv var =>
        obtain ⟨raw, hraw, h⟩ := bind_eq_ok.mp h
        cases h
        unfold requireSocketPath at hraw
        split at hraw
        · cases hraw
        · rename_i path hv
          split at hraw
          · cases hraw
          · rename_i hne
            cases hraw
            exact .socketEnv (serviceValue_some.mp hv) hne
  · intro h
    cases h with
    | port => rfl
    | socket => rfl
    | portEnv h hport =>
        rw [ownTarget, requirePort_ok.mpr ⟨_, serviceValue_some.mpr h, hport⟩]
        rfl
    | socketEnv h hne =>
        rw [ownTarget, serviceValue_some.mpr h, requireSocketPath, if_neg hne]
        rfl

theorem ownTarget_error {route : RouteTarget} {err : ConfigError} :
    ownTarget cwd env base service route = .error err ↔ Fault env service route err := by
  constructor
  · intro h
    cases route with
    | port host port => cases h
    | socket raw => cases h
    | portEnv host var =>
        rcases bind_eq_error.mp h with h | ⟨_, _, h⟩
        · unfold requirePort at h
          split at h
          · rename_i hv
            cases h
            exact .portUnset (serviceValue_none.mp hv)
          · rename_i raw hv
            have hv := serviceValue_some.mp hv
            split at h
            · rename_i hn
              cases h
              exact .portText hv hn
            · rename_i n hn
              split at h
              · cases h
              · rename_i hp
                cases h
                exact .portRange hv hn (portOfInt_none.mp hp)
        · cases h
    | socketEnv var =>
        rcases bind_eq_error.mp h with h | ⟨_, _, h⟩
        · unfold requireSocketPath at h
          split at h
          · rename_i hv
            cases h
            exact .socketUnset (serviceValue_none.mp hv)
          · rename_i raw hv
            split at h
            · rename_i hempty
              subst hempty
              cases h
              exact .socketEmpty (serviceValue_some.mp hv)
            · cases h
        · cases h
  · intro h
    cases h with
    | portUnset h =>
        rw [ownTarget, serviceValue_none.mpr h]
        rfl
    | portText h hn =>
        rw [ownTarget, serviceValue_some.mpr h]
        simp only [requirePort, hn]
        rfl
    | portRange h hn hout =>
        rw [ownTarget, serviceValue_some.mpr h]
        simp only [requirePort, hn, portOfInt_none.mpr hout]
        rfl
    | socketUnset h =>
        rw [ownTarget, serviceValue_none.mpr h]
        rfl
    | socketEmpty h =>
        rw [ownTarget, serviceValue_some.mpr h]
        rfl

def Free (earlier : List ResolvedRoute) (target : ResolvedTarget) : Prop :=
  ∀ r ∈ earlier, ¬ Collide r.target target

/-- The maps hold exactly the owners among the earlier routes. -/
def Owned (seen : Seen) (earlier : List ResolvedRoute) : Prop :=
  ∀ target id, owner seen target = some id ↔ ∃ r ∈ earlier, r.id = id ∧ Collide r.target target

theorem Owned.free {seen : Seen} {earlier : List ResolvedRoute} (h : Owned seen earlier)
    {target : ResolvedTarget} : owner seen target = none ↔ Free earlier target := by
  rw [Option.eq_none_iff_forall_ne_some]
  constructor
  · intro hnone r hr hc
    exact hnone r.id ((h target r.id).mpr ⟨r, hr, rfl, hc⟩)
  · intro hfree id ho
    obtain ⟨r, hr, _, hc⟩ := (h target id).mp ho
    exact hfree r hr hc

theorem owner_add_self {seen : Seen} {target target' : ResolvedTarget} {id : String}
    (h : Collide target target') : owner (add seen target id) target' = some id := by
  cases target <;> cases target' <;>
    simp_all [Collide, owner, add, Seen.portOwner, Seen.socketOwner]

theorem owner_add_of_not {seen : Seen} {target target' : ResolvedTarget} {id : String}
    (h : ¬ Collide target target') : owner (add seen target id) target' = owner seen target' := by
  cases target <;> cases target' <;>
    simp_all [Collide, owner, add, Seen.portOwner, Seen.socketOwner]

theorem owned_nil : Owned ⟨[], []⟩ [] := by
  intro target id
  cases target <;> simp [owner, Seen.portOwner, Seen.socketOwner]

theorem Owned.add {seen : Seen} {earlier : List ResolvedRoute} (h : Owned seen earlier)
    {route : ResolvedRoute} (hfree : Free earlier route.target) :
    Owned (add seen route.target route.id) (earlier ++ [route]) := by
  intro target id
  by_cases hc : Collide route.target target
  · rw [owner_add_self hc]
    constructor
    · rintro ⟨⟩
      exact ⟨route, by simp, rfl, hc⟩
    · rintro ⟨r, hr, rfl, hcr⟩
      rcases List.mem_append.mp hr with hr | hr
      · exact absurd (hcr.trans hc.symm) (hfree r hr)
      · rw [List.mem_singleton.mp hr]
  · rw [owner_add_of_not hc, h target id]
    constructor
    · rintro ⟨r, hr, hid, hcr⟩
      exact ⟨r, List.mem_append_left _ hr, hid, hcr⟩
    · rintro ⟨r, hr, hid, hcr⟩
      rcases List.mem_append.mp hr with hr | hr
      · exact ⟨r, hr, hid, hcr⟩
      · rw [List.mem_singleton.mp hr] at hcr
        exact absurd hcr hc

section

variable (cwd : Option Path) (env : EnvLookup) (base : Option Path)

/-- A resolved route has the id and hosts of the declared one, and the target it stands for. -/
def Gives (entry : ServiceDef × ServiceRoute) (r : ResolvedRoute) : Prop :=
  r.id = entry.2.id ∧ r.hostPatterns = entry.2.hosts ∧
    Resolves cwd env base entry.1 entry.2.target r.target

/-- The error of a route that comes after others: its own, or the collision with one of them. -/
inductive Refused (earlier : List ResolvedRoute) (entry : ServiceDef × ServiceRoute) : ConfigError → Prop
  | fault {err} (h : Fault env entry.1 entry.2.target err) : Refused earlier entry err
  | collides {target r} (h : Resolves cwd env base entry.1 entry.2.target target) (hr : r ∈ earlier)
      (hc : Collide r.target target) : Refused earlier entry (collision target r.id entry.2.id)

end

def Apart (routes : List ResolvedRoute) : Prop :=
  routes.Pairwise fun a b => ¬ Collide a.target b.target

theorem apart_concat {earlier : List ResolvedRoute} {r : ResolvedRoute} :
    Apart (earlier ++ [r]) ↔ Apart earlier ∧ Free earlier r.target := by
  simp [Apart, Free, List.pairwise_append]

variable {seen seen' : Seen} {earlier resolved : List ResolvedRoute} {err : ConfigError}

theorem resolveTarget_ok (h : Owned seen earlier) {route : ServiceRoute} {target : ResolvedTarget} :
    resolveTarget cwd env base seen service route = .ok (target, seen') ↔
      Resolves cwd env base service route.target target ∧ Free earlier target ∧
        seen' = add seen target route.id := by
  rw [resolveTarget_eq, bind_eq_ok]
  constructor
  · rintro ⟨own, hown, hclaim⟩
    obtain ⟨after, hclaim, he⟩ := bind_eq_ok.mp hclaim
    cases he
    unfold claim at hclaim
    split at hclaim
    · cases hclaim
    · rename_i hnone
      cases hclaim
      exact ⟨ownTarget_ok.mp hown, h.free.mp hnone, rfl⟩
  · rintro ⟨hown, hfree, rfl⟩
    refine ⟨target, ownTarget_ok.mpr hown, ?_⟩
    rw [claim, h.free.mpr hfree]
    rfl

/-- One pass of the loop that succeeds keeps the maps in step with the result. -/
theorem resolveTarget_gives (h : Owned seen earlier) {route : ServiceRoute} {target : ResolvedTarget}
    (hstep : resolveTarget cwd env base seen service route = .ok (target, seen')) :
    Gives cwd env base (service, route) ⟨route.id, route.hosts, target⟩ ∧ Free earlier target ∧
      Owned seen' (earlier ++ [⟨route.id, route.hosts, target⟩]) := by
  obtain ⟨hown, hfree, rfl⟩ := (resolveTarget_ok h).mp hstep
  let r : ResolvedRoute := ⟨route.id, route.hosts, target⟩
  have howned : Owned (add seen r.target r.id) (earlier ++ [r]) := h.add hfree
  exact ⟨⟨rfl, rfl, hown⟩, hfree, howned⟩

theorem Gives.eta {route : ServiceRoute} {r : ResolvedRoute}
    (hg : Gives cwd env base (service, route) r) : ⟨route.id, route.hosts, r.target⟩ = r := by
  obtain ⟨hid, hhosts, _⟩ := hg
  rw [← hid, ← hhosts]

theorem Gives.resolveTarget (h : Owned seen earlier) {route : ServiceRoute} {r : ResolvedRoute}
    (hg : Gives cwd env base (service, route) r) (hfree : Free earlier r.target) :
    ∃ after, resolveTarget cwd env base seen service route = .ok (r.target, after) ∧
      Owned after (earlier ++ [r]) := by
  have howned := h.add hfree
  rw [hg.1] at howned
  exact ⟨_, (resolveTarget_ok h).mpr ⟨hg.2.2, hfree, rfl⟩, howned⟩

theorem resolveTarget_error (h : Owned seen earlier) {route : ServiceRoute} :
    resolveTarget cwd env base seen service route = .error err ↔
      Refused cwd env base earlier (service, route) err := by
  rw [resolveTarget_eq, bind_eq_error]
  constructor
  · rintro (hown | ⟨own, hown, hclaim⟩)
    · exact .fault (ownTarget_error.mp hown)
    · rcases bind_eq_error.mp hclaim with hclaim | ⟨_, _, he⟩
      · unfold claim at hclaim
        split at hclaim
        · rename_i holder hholder
          cases hclaim
          obtain ⟨r, hr, rfl, hc⟩ := (h own holder).mp hholder
          exact .collides (ownTarget_ok.mp hown) hr hc
        · cases hclaim
      · cases he
  · intro hrefused
    cases hrefused with
    | fault hfault => exact .inl (ownTarget_error.mpr hfault)
    | collides hown hr hc =>
        refine .inr ⟨_, ownTarget_ok.mpr hown, ?_⟩
        rw [claim, (h _ _).mpr ⟨_, hr, rfl, hc⟩]
        rfl

theorem resolveFrom_ok {entries : List (ServiceDef × ServiceRoute)} (h : Owned seen earlier)
    (hapart : Apart earlier) : resolveFrom cwd env base seen entries = .ok resolved ↔
      List.Forall₂ (Gives cwd env base) entries resolved ∧ Apart (earlier ++ resolved) := by
  induction entries generalizing seen earlier resolved with
  | nil =>
      constructor
      · rintro ⟨⟩
        exact ⟨.nil, by rwa [List.append_nil]⟩
      · rintro ⟨⟨⟩, _⟩
        rfl
  | cons entry entries ih =>
      rcases entry with ⟨service, route⟩
      rw [resolveFrom, bind_eq_ok]
      constructor
      · rintro ⟨⟨target, after⟩, hstep, hrest⟩
        obtain ⟨hgives, hfree, hafter⟩ := resolveTarget_gives h hstep
        obtain ⟨rest, hresolved, he⟩ := bind_eq_ok.mp hrest
        obtain ⟨hall, happ⟩ := (ih hafter (apart_concat.mpr ⟨hapart, hfree⟩)).mp hresolved
        cases he
        exact ⟨.cons hgives hall, by rwa [List.append_cons]⟩
      · rintro ⟨hall, happ⟩
        cases hall with
        | @cons _ r _ rest hgives hall =>
            rw [List.append_cons] at happ
            have hfirst := apart_concat.mp (List.pairwise_append.mp happ).1
            obtain ⟨after, hstep, hafter⟩ := hgives.resolveTarget h hfirst.2
            refine ⟨(r.target, after), hstep, bind_eq_ok.mpr ⟨rest, ?_, ?_⟩⟩
            · exact (ih hafter (apart_concat.mpr hfirst)).mpr ⟨hall, happ⟩
            · rw [hgives.eta]

/-- The first entry that is refused comes after entries that all resolve apart. -/
theorem resolveFrom_error {entries : List (ServiceDef × ServiceRoute)} (h : Owned seen earlier)
    (hapart : Apart earlier) : resolveFrom cwd env base seen entries = .error err ↔
      ∃ before entry after found, entries = before ++ entry :: after ∧
        List.Forall₂ (Gives cwd env base) before found ∧ Apart (earlier ++ found) ∧
        Refused cwd env base (earlier ++ found) entry err := by
  induction entries generalizing seen earlier with
  | nil =>
      constructor
      · rintro ⟨⟩
      · rintro ⟨before, entry, after, found, he, _⟩
        simp at he
  | cons entry entries ih =>
      rcases entry with ⟨service, route⟩
      rw [resolveFrom, bind_eq_error]
      constructor
      · rintro (hstep | ⟨⟨target, after⟩, hstep, hrest⟩)
        · refine ⟨[], _, entries, [], rfl, .nil, ?_, ?_⟩
          · rwa [List.append_nil]
          · rw [List.append_nil]
            exact (resolveTarget_error h).mp hstep
        · obtain ⟨hgives, hfree, hafter⟩ := resolveTarget_gives h hstep
          rcases bind_eq_error.mp hrest with hrest | ⟨_, _, he⟩
          · obtain ⟨before, entry, after, found, rfl, hall, happ, hrefused⟩ :=
              (ih hafter (apart_concat.mpr ⟨hapart, hfree⟩)).mp hrest
            rw [← List.append_cons] at happ hrefused
            exact ⟨(service, route) :: before, entry, after, _ :: found, rfl,
              .cons hgives hall, happ, hrefused⟩
          · cases he
      · rintro ⟨before, entry, after, found, he, hall, happ, hrefused⟩
        cases hall with
        | nil =>
            obtain ⟨rfl, rfl⟩ := List.cons.inj he
            rw [List.append_nil] at hrefused
            exact .inl ((resolveTarget_error h).mpr hrefused)
        | @cons _ r before found hgives hall =>
            obtain ⟨rfl, rfl⟩ := List.cons.inj he
            rw [List.append_cons] at happ hrefused
            have hfirst := apart_concat.mp (List.pairwise_append.mp happ).1
            obtain ⟨after, hstep, hafter⟩ := hgives.resolveTarget h hfirst.2
            refine .inr ⟨(r.target, after), hstep, bind_eq_error.mpr (.inl ?_)⟩
            exact (ih hafter (apart_concat.mpr hfirst)).mpr
              ⟨before, entry, _, found, rfl, hall, happ, hrefused⟩

section

variable (cwd : Option Path) (env : EnvLookup) (base : Option Path)

/-- Every entry resolves, to routes of which no two share a port or a path. -/
def AllResolve (entries : List (ServiceDef × ServiceRoute)) (resolved : List ResolvedRoute) : Prop :=
  List.Forall₂ (Gives cwd env base) entries resolved ∧ Apart resolved

/-- Route resolution succeeds exactly when every enabled route resolves and no two
collide; otherwise the first route that does neither is reported; and services
that are disabled have no part in it. -/
theorem resolveRoutes_exact (manifest : Manifest) :
    (∀ resolved, resolveRoutes cwd manifest env base = .ok resolved ↔
      AllResolve cwd env base (enabledRoutes manifest) resolved) ∧
    (∀ err, resolveRoutes cwd manifest env base = .error err ↔
      ∃ before entry after found, enabledRoutes manifest = before ++ entry :: after ∧
        AllResolve cwd env base before found ∧ Refused cwd env base found entry err) ∧
    ∀ manifest' : Manifest, manifest'.services.filter (fun service => !service.disabled) =
        manifest.services.filter (fun service => !service.disabled) →
      resolveRoutes cwd manifest' env base = resolveRoutes cwd manifest env base := by
  refine ⟨?_, ?_, ?_⟩
  · intro resolved
    exact resolveFrom_ok owned_nil .nil
  · intro err
    rw [resolveRoutes, resolveFrom_error owned_nil .nil]
    simp only [List.nil_append, AllResolve, and_assoc]
  · intro manifest' h
    rw [resolveRoutes, resolveRoutes, enabledRoutes, enabledRoutes, h]

end

def portService (name : String) (disabled : Bool) : ServiceDef :=
  ⟨name, none, [], [⟨name, [name ++ ".localhost"], .port defaultTargetHost headerPort⟩], disabled, true⟩

/-- A disabled service may stand in the way of none, though it names the same port. -/
theorem resolveRoutes_exact_disabled :
    resolveRoutes none (headedManifest [portService "a" false, portService "b" true]) (fun _ => none) none =
      resolveRoutes none (headedManifest [portService "a" false]) (fun _ => none) none :=
  (resolveRoutes_exact none (fun _ => none) none (headedManifest [portService "a" false])).2.2
    (headedManifest [portService "a" false, portService "b" true]) rfl

end LocalDevProxy.RouteResolution
