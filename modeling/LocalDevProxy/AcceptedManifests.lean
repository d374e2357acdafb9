import LocalDevProxy.Config

namespace LocalDevProxy.AcceptedManifests

open Lib.Fallible Toml Config

theorem distinct_find {key : String} {value : Value} {entries : Table}
    (h : Value.distinctKeys.distinctEntries entries) (hv : getKey entries key = some value) :
    value.distinctKeys := by
  induction entries with
  | nil => cases hv
  | cons entry entries ih =>
      obtain ⟨k, v⟩ := entry
      by_cases hk : k = key
      · have hv' : v = value := by simpa [getKey, hk] using hv
        exact hv' ▸ h.1
      · have hrest : getKey entries key = some value := by simpa [getKey, hk] using hv
        exact ih h.2 hrest

theorem parseService_name {name : String} {raw : Value} {service : ServiceDef}
    (h : parseService name raw = .ok service) :
    service.name = name ∧ validName name ∧ name ∉ reservedServiceNames := by
  unfold parseService at h
  obtain ⟨_, hvalid, h⟩ := bind_eq_ok.mp h
  obtain ⟨_, hreserved, h⟩ := bind_eq_ok.mp h
  have hname : service.name = name := by
    cases raw with
    | table raw =>
        obtain ⟨_, _, h⟩ := bind_eq_ok.mp h
        obtain ⟨_, _, h⟩ := bind_eq_ok.mp h
        obtain ⟨_, _, h⟩ := bind_eq_ok.mp h
        obtain ⟨_, _, h⟩ := bind_eq_ok.mp h
        obtain ⟨_, _, h⟩ := bind_eq_ok.mp h
        obtain ⟨_, _, h⟩ := bind_eq_ok.mp h
        obtain ⟨_, _, h⟩ := bind_eq_ok.mp h
        cases h
        rfl
    | _ => cases h
  exact ⟨hname, check_eq_ok.mp hvalid, by simpa using check_eq_ok.mp hreserved⟩

theorem services_names {entries : Table} {services : List ServiceDef}
    (h : List.Forall₂ (fun entry service => parseService entry.1 entry.2 = .ok service) entries services) :
    services.map ServiceDef.name = entries.map Prod.fst ∧
      ∀ service ∈ services, validName service.name ∧ service.name ∉ reservedServiceNames := by
  induction h with
  | nil => exact ⟨rfl, fun _ hs => absurd hs List.not_mem_nil⟩
  | cons hs _ ih =>
      obtain ⟨hname, hvalid, hreserved⟩ := parseService_name hs
      refine ⟨by rw [List.map_cons, List.map_cons, hname, ih.1], ?_⟩
      rintro service (_ | ⟨_, hmem⟩)
      · exact hname ▸ ⟨hvalid, hreserved⟩
      · exact ih.2 service hmem

theorem parseServices_names {data : Table} {services : List ServiceDef}
    (hdistinct : (Value.table data).distinctKeys) (h : parseServices data = .ok services) :
    (services.map ServiceDef.name).Nodup ∧
      ∀ service ∈ services, validName service.name ∧ service.name ∉ reservedServiceNames := by
  unfold parseServices at h
  split at h
  · cases h
  · rename_i entries _ hentries
    obtain ⟨hnames, hall⟩ := services_names (collect_eq_ok.mp h)
    exact ⟨hnames ▸ (distinct_find hdistinct.2 hentries).1, hall⟩
  · cases h

/-- An accepted manifest names its services apart, with allowed and unreserved names. -/
theorem parseManifest_names {toml : Reader} {text : String} {manifest : Manifest}
    (h : parseManifest toml text = .ok manifest) :
    (manifest.services.map ServiceDef.name).Nodup ∧
      ∀ service ∈ manifest.services, validName service.name ∧ service.name ∉ reservedServiceNames := by
  unfold parseManifest at h
  split at h
  · rename_i data hdata
    obtain ⟨_, _, h⟩ := bind_eq_ok.mp h
    obtain ⟨_, _, h⟩ := bind_eq_ok.mp h
    obtain ⟨_, _, h⟩ := bind_eq_ok.mp h
    obtain ⟨_, _, h⟩ := bind_eq_ok.mp h
    obtain ⟨_, _, h⟩ := bind_eq_ok.mp h
    obtain ⟨services, hservices, h⟩ := bind_eq_ok.mp h
    cases h
    exact parseServices_names (toml.distinct hdata) hservices
  · cases h

end LocalDevProxy.AcceptedManifests
