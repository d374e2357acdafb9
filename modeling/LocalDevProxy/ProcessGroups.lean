import LocalDevProxy.Process

namespace LocalDevProxy.ProcessGroups

open Lib.Interaction Os

/-- After the last request to stop, the group was killed or was seen empty. -/
def answered : List Event → Prop
  | [] => False
  | .signalled .term :: _ => False
  | .signalled .kill :: _ => True
  | .emptyObserved :: _ => True
  | .exitObserved :: earlier => answered earlier

def Settled (g : Group) : Prop := ¬ g.HasLive ∧ answered g.history

/-- Nothing of the group runs, and its leader was waited for or asked to stop. -/
def Accounted (g : Group) : Prop :=
  ¬ g.HasLive ∧ (.exitObserved ∈ g.history ∨ .signalled .term ∈ g.history)

inductive Touch : Call → Nat → (Group → Group) → Prop
  | poll (site : Site) (child : Child) (status : ExitStatus) :
      Touch (.tryWait site child) child.id (fun g => g.reap status)
  | wait (child : Child) (status : ExitStatus) :
      Touch (.wait child) child.id (fun g => g.reap status)
  | kill (child : Child) : Touch (.kill child) child.id Group.killLeader
  | signal (pgid : Nat) (signal : Signal) :
      Touch (.killpg pgid signal) pgid (fun g => g.receive signal)
  | empty (pgid : Nat) : Touch (.probeGroup pgid) pgid (fun g => g.record .emptyObserved)

theorem not_hasLive {g : Group} (hl : g.leader ≠ .alive) (hm : g.members = 0) : ¬ g.HasLive := by
  rintro (h | h)
  · exact hl h
  · omega

theorem not_hasLive_iff (g : Group) : ¬ g.HasLive ↔ g.leader ≠ .alive ∧ g.members = 0 := by
  simp [Group.HasLive]

namespace Touch

variable {c : Call} {id : Nat} {f : Group → Group}

theorem owner (hf : Touch c id f) (g : Group) : (f g).owner = g.owner := by
  cases hf with
  | poll site child status => rfl
  | wait child status => rfl
  | kill child => rfl
  | signal pgid signal => cases signal <;> rfl
  | empty pgid => rfl

theorem dead (hf : Touch c id f) {g : Group} (hg : ¬ g.HasLive) : ¬ (f g).HasLive := by
  obtain ⟨hl, hm⟩ := (not_hasLive_iff g).mp hg
  cases hf with
  | poll site child status => exact not_hasLive (by simp [Group.reap, Group.record]) hm
  | wait child status => exact not_hasLive (by simp [Group.reap, Group.record]) hm
  | kill child => exact not_hasLive (by simp [Group.killLeader, hl]) hm
  | signal pgid signal =>
      cases signal with
      | term => exact not_hasLive hl hm
      | kill => exact not_hasLive (by simp [Group.receive, Group.record, Group.killLeader, hl]) rfl
  | empty pgid => exact not_hasLive hl hm

theorem history_subset (hf : Touch c id f) (g : Group) : g.history ⊆ (f g).history := by
  cases hf with
  | poll site child status => exact List.subset_cons_self _ _
  | wait child status => exact List.subset_cons_self _ _
  | kill child => exact List.Subset.refl _
  | signal pgid signal => cases signal <;> exact List.subset_cons_self _ _
  | empty pgid => exact List.subset_cons_self _ _

/-- Only another request to stop can unsettle a group. -/
theorem settled (hf : Touch c id f) (hc : c ≠ .killpg id .term) {g : Group} (hg : Settled g) :
    Settled (f g) := by
  refine ⟨hf.dead hg.1, ?_⟩
  cases hf with
  | poll site child status => exact hg.2
  | wait child status => exact hg.2
  | kill child => exact hg.2
  | signal pgid signal =>
      cases signal with
      | term => exact absurd rfl hc
      | kill => trivial
  | empty pgid => trivial

end Touch

/-- What a call does to the groups: nothing, one touch of one group, or a new group. -/
theorem answers_groups {c : Call} {w w' : World} {b : Ans c} (h : answers c w b w') :
    w'.groups = w.groups ∨ (∃ id f, Touch c id f ∧ w' = w.modify id f) ∨
      ∃ owner command env cwd, ∃ child : Child, c = .spawn owner command env cwd ∧
        w.groups child.id = none ∧ w' = w.insert child.id ⟨owner, .alive, 0, []⟩ := by
  unfold answers at h
  split at h
  case h_1 => exact .inl (by rw [h.1])
  case h_2 => exact .inr (.inl ⟨_, _, .poll _ _ _, h.2⟩)
  case h_4 => exact .inr (.inl ⟨_, _, .wait _ _, h.2⟩)
  case h_6 => exact .inr (.inl ⟨_, _, .kill _, h⟩)
  case h_7 => exact .inr (.inl ⟨_, _, .signal _ _, h⟩)
  case h_8 => exact .inr (.inl ⟨_, _, .empty _, h.2⟩)
  case h_9 => exact .inr (.inr ⟨_, _, _, _, _, rfl, h.1, h.2⟩)
  case h_22 => rcases h with rfl | ⟨n, rfl⟩ <;> exact .inl rfl
  case h_18 => obtain ⟨n, rfl⟩ := h; exact .inl rfl
  all_goals first
    | exact .inl (by rw [h])
    | exact .inl (by rw [h.2])

theorem step_record {g h : Group} (hs : Group.Step g h) : h.owner = g.owner ∧ h.history = g.history := by
  cases hs <;> exact ⟨rfl, rfl⟩

theorem not_step_of_dead {g h : Group} (hg : ¬ g.HasLive) : ¬ Group.Step g h := by
  intro hs
  cases hs with
  | leaderExit _ hl => exact hg (.inl hl)
  | memberExit n hn => exact hg (.inr (by omega))
  | fork hl => exact hg hl

theorem steps_record {g h : Group} (hs : Relation.ReflTransGen Group.Step g h) :
    h.owner = g.owner ∧ h.history = g.history ∧ (¬ g.HasLive → h = g) := by
  induction hs with
  | refl => exact ⟨rfl, rfl, fun _ => rfl⟩
  | tail _ hstep ih =>
      obtain ⟨ho, hh, hd⟩ := ih
      obtain ⟨ho', hh'⟩ := step_record hstep
      refine ⟨ho'.trans ho, hh'.trans hh, ?_⟩
      intro hg
      rw [hd hg] at hstep
      exact absurd hstep (not_step_of_dead hg)

variable {shared : Bool} {u v w w' : World} {α : Type}

theorem drift_some (h : (machine shared).drift u v) {id : Nat} {g : Group} (hg : u.groups id = some g) :
    ∃ g', v.groups id = some g' ∧ g'.owner = g.owner ∧ g'.history = g.history ∧
      (¬ g.HasLive → g' = g) := by
  have he := h.1 id
  rw [hg] at he
  cases hv : v.groups id with
  | none =>
      rw [hv] at he
      exact he.elim
  | some g' =>
      rw [hv] at he
      exact ⟨g', rfl, steps_record he⟩

theorem drift_none (h : (machine shared).drift u v) {id : Nat} (hg : u.groups id = none) :
    v.groups id = none := by
  have he := h.1 id
  rw [hg] at he
  cases hv : v.groups id with
  | none => rfl
  | some g' =>
      rw [hv] at he
      exact he.elim

theorem modify_groups_self (w : World) (id : Nat) (f : Group → Group) :
    (w.modify id f).groups id = (w.groups id).map f := by
  simp [World.modify]

theorem modify_groups_of_ne (w : World) {id id' : Nat} (f : Group → Group) (h : id' ≠ id) :
    (w.modify id f).groups id' = w.groups id' := by
  simp [World.modify, h]

theorem insert_groups_self (w : World) (id : Nat) (g : Group) :
    (w.insert id g).groups id = some g := by
  simp [World.insert]

theorem insert_groups_of_ne (w : World) {id id' : Nat} (g : Group) (h : id' ≠ id) :
    (w.insert id g).groups id' = w.groups id' := by
  simp [World.insert, h]

theorem touched_groups {f : Group → Group} {id : Nat} {g : Group} (w : World) (id' : Nat)
    (hg : w.groups id = some g) :
    (w.modify id' f).groups id = some (f g) ∧ id = id' ∨
      (w.modify id' f).groups id = some g ∧ id ≠ id' := by
  by_cases h : id = id'
  · subst h
    exact .inl ⟨by rw [modify_groups_self, hg, Option.map_some], rfl⟩
  · exact .inr ⟨by rw [modify_groups_of_ne w f h, hg], h⟩

/-- What was true of a group's past stays true, and a dead group stays dead. -/
structure Ages (g g' : Group) : Prop where
  owner : g'.owner = g.owner
  history : g.history ⊆ g'.history
  dead : ¬ g.HasLive → ¬ g'.HasLive

theorem Ages.refl (g : Group) : Ages g g := ⟨rfl, List.Subset.refl _, fun h => h⟩

theorem Ages.trans {g₁ g₂ g₃ : Group} (h : Ages g₁ g₂) (h' : Ages g₂ g₃) : Ages g₁ g₃ :=
  ⟨h'.owner.trans h.owner, List.Subset.trans h.history h'.history, fun hg => h'.dead (h.dead hg)⟩

theorem Ages.accounted {g g' : Group} (h : Ages g g') (hg : Accounted g) : Accounted g' :=
  ⟨h.dead hg.1, hg.2.imp (fun hm => h.history hm) (fun hm => h.history hm)⟩

theorem Touch.ages {c : Call} {id : Nat} {f : Group → Group} (hf : Touch c id f) (g : Group) :
    Ages g (f g) :=
  ⟨hf.owner g, hf.history_subset g, hf.dead⟩

def Persists (u v : World) : Prop :=
  ∀ id g, u.groups id = some g → ∃ g', v.groups id = some g' ∧ Ages g g'

def Spawnless (u v : World) : Prop := ∀ id, u.groups id = none → v.groups id = none

theorem Persists.trans {x : World} (huv : Persists u v) (hvx : Persists v x) : Persists u x := by
  intro id g hg
  obtain ⟨g₁, hg₁, ha₁⟩ := huv id g hg
  obtain ⟨g₂, hg₂, ha₂⟩ := hvx id g₁ hg₁
  exact ⟨g₂, hg₂, ha₁.trans ha₂⟩

theorem Persists.isSome (h : Persists u v) {id : Nat} (hex : (u.groups id).isSome) :
    (v.groups id).isSome := by
  obtain ⟨g, hg⟩ := Option.isSome_iff_exists.mp hex
  obtain ⟨g', hg', _⟩ := h id g hg
  exact Option.isSome_iff_exists.mpr ⟨g', hg'⟩

theorem persists_drift (h : (machine shared).drift u v) : Persists u v := by
  intro id g hg
  obtain ⟨g', hg', ho, hh, hd⟩ := drift_some h hg
  exact ⟨g', hg', ho, by rw [hh]; exact List.Subset.refl _, fun hdead => by rwa [hd hdead]⟩

theorem persists_answers {c : Call} {b : Ans c} (h : answers c u b v) : Persists u v := by
  intro id g hg
  rcases answers_groups h with he | ⟨id', f, hf, rfl⟩ | ⟨_, _, _, _, child, _, hn, rfl⟩
  · exact ⟨g, he ▸ hg, .refl g⟩
  · rcases touched_groups (f := f) u id' hg with ⟨h', _⟩ | ⟨h', _⟩
    · exact ⟨f g, h', hf.ages g⟩
    · exact ⟨g, h', .refl g⟩
  · have hne : id ≠ child.id := by
      rintro rfl
      rw [hn] at hg
      cases hg
    exact ⟨g, by rw [insert_groups_of_ne u _ hne, hg], .refl g⟩

theorem runs_persists {p : Io α} {a : α} (h : Runs (machine shared) p w a w') : Persists w w' :=
  h.frame (Prog.only_of_forall (fun _ => trivial) p) Persists.trans persists_drift
    (fun _ hc => persists_answers hc)

def IsSpawn : Call → Prop
  | .spawn _ _ _ _ => True
  | _ => False

theorem spawnless_answers {c : Call} {b : Ans c} (hc : ¬ IsSpawn c) (h : answers c u b v) :
    Spawnless u v := by
  intro id hg
  rcases answers_groups h with he | ⟨id', f, _, rfl⟩ | ⟨_, _, _, _, _, rfl, _, _⟩
  · rw [he, hg]
  · by_cases hid : id = id'
    · rw [hid, modify_groups_self, ← hid, hg, Option.map_none]
    · rw [modify_groups_of_ne u f hid, hg]
  · exact absurd trivial hc

theorem runs_spawnless {p : Io α} {a : α} (hp : p.Only (fun c : Call => ¬ IsSpawn c))
    (h : Runs (machine shared) p w a w') : Spawnless w w' :=
  h.frame hp (fun huv hvx id hg => hvx id (huv id hg)) (fun hd _ hg => drift_none hd hg)
    (fun hc ha => spawnless_answers hc ha)

/-- The exit of the leader was seen, or the group was asked to stop. -/
def ObservedAt (w : World) (id : Nat) : Prop :=
  ∃ g, w.groups id = some g ∧ (.exitObserved ∈ g.history ∨ .signalled .term ∈ g.history)

def AccountedAt (w : World) (id : Nat) : Prop := ∃ g, w.groups id = some g ∧ Accounted g

theorem ObservedAt.persists {id : Nat} (ho : ObservedAt u id) (h : Persists u v) :
    ObservedAt v id := by
  obtain ⟨g, hg, hm⟩ := ho
  obtain ⟨g', hg', ha⟩ := h id g hg
  exact ⟨g', hg', hm.imp (fun hm => ha.history hm) (fun hm => ha.history hm)⟩

theorem AccountedAt.persists {id : Nat} (ho : AccountedAt u id) (h : Persists u v) :
    AccountedAt v id := by
  obtain ⟨g, hg, hacc⟩ := ho
  obtain ⟨g', hg', ha⟩ := h id g hg
  exact ⟨g', hg', ha.accounted hacc⟩

def SettledAt (w : World) (id : Nat) : Prop := ∃ g, w.groups id = some g ∧ Settled g

theorem SettledAt.accounted {id : Nat} (hs : SettledAt w id) (ho : ObservedAt w id) :
    AccountedAt w id := by
  obtain ⟨g, hg, hset⟩ := hs
  obtain ⟨g', hg', hm⟩ := ho
  rw [hg] at hg'
  cases hg'
  exact ⟨g, hg, hset.1, hm⟩

theorem SettledAt.drift {id : Nat} (hs : SettledAt u id) (h : (machine shared).drift u v) :
    SettledAt v id := by
  obtain ⟨g, hg, hd, ha⟩ := hs
  obtain ⟨g', hg', _, _, he⟩ := drift_some h hg
  exact ⟨g', hg', he hd ▸ ⟨hd, ha⟩⟩

theorem SettledAt.answers {id : Nat} (hs : SettledAt u id) {c : Call} {b : Ans c}
    (hc : c ≠ .killpg id .term) (h : answers c u b v) : SettledAt v id := by
  obtain ⟨g, hg, hset⟩ := hs
  rcases answers_groups h with he | ⟨id', f, hf, rfl⟩ | ⟨_, _, _, _, child, _, hn, rfl⟩
  · exact ⟨g, he ▸ hg, hset⟩
  · rcases touched_groups (f := f) u id' hg with ⟨h', rfl⟩ | ⟨h', _⟩
    · exact ⟨f g, h', hf.settled hc hset⟩
    · exact ⟨g, h', hset⟩
  · have hne : id ≠ child.id := by
      rintro rfl
      rw [hn] at hg
      cases hg
    exact ⟨g, by rw [insert_groups_of_ne u _ hne, hg], hset⟩

theorem SettledAt.runs {id : Nat} (hs : SettledAt w id) {p : Io α} {a : α}
    (hp : p.Only (fun c : Call => c ≠ .killpg id .term)) (h : Runs (machine shared) p w a w') :
    SettledAt w' id :=
  h.frame (R := fun u v => SettledAt u id → SettledAt v id) hp (fun huv hvx hs => hvx (huv hs))
    (fun hd hs => hs.drift hd) (fun hc ha hs => hs.answers hc ha) hs

end LocalDevProxy.ProcessGroups
