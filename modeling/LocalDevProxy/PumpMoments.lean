import LocalDevProxy.LogMoments
import LocalDevProxy.LogPump

namespace LocalDevProxy.PumpMoments

open Lib.Interaction Lib.Moments Paths Os LogRotation RotatingLogWriter LogFamilies LogSlots LogContent FileOwners
  LogMoments LogPump

/-- The pump, with others at work on the files, but not on those of its log, of which none that
is there is taken for missing. -/
def pumpApart (path : Path) : Machine pumpSys PumpWorld where
  answers := fun c w b w' => pumpAnswers c w b w' ∧ ofSystem checksRight c b
  drift := fun w w' => (apart path).drift w.system w'.system ∧ FlagMoves w w'
  drift_refl := fun _ => ⟨(apart path).drift_refl _, .inl ⟨rfl, rfl⟩⟩
  drift_trans := fun h h' => ⟨(apart path).drift_trans h.1 h'.1, h.2.trans h'.2⟩

variable {path : Path} {limits : LogLimits} {all chunk : List UInt8} {pump : Pump} {source : List ReadOutcome}
  {w : PumpWorld}

theorem system_stable {P : World → Prop} (hp : Stable (apart path) P) : Stable (pumpApart path) fun w => P w.system :=
  fun h hd => hp h hd.1

theorem answers_apart {c : Call} {b : Ans c} {u v : PumpWorld} (h : (pumpApart path).answers (.system c) u b v) :
    (apart path).answers c u.system b v.system :=
  ⟨h.1.1, h.2⟩

def Off (pump : Pump) (w : PumpWorld) : Prop := pump.writeEnabled = false ∨ w.discard = true

theorem off_stable : Stable (pumpApart path) fun w => Off pump w := by
  rintro u v (hoff | hset) hd
  · exact .inl hoff
  · rcases hd.2 with ⟨hsame, _⟩ | ⟨hunset, _⟩
    · exact .inr (hsame.trans hset)
    · rw [hset] at hunset
      cases hunset

theorem writeChunk_off (hoff : Off pump w) (h : Follows path limits all w.system.disk) :
    Throughout (pumpApart path) (fun v => Follows path limits all v.system.disk) (fun pump' v => Off pump' v)
      (writeChunk pump chunk) w := by
  have hfollows : Stable (pumpApart path) fun v => Follows path limits all v.system.disk := system_stable follows_stable
  unfold writeChunk
  split
  · rename_i henabled
    refine throughout_bind (Q := fun set v => set = true ∧ Off pump v) ?_ ?_
    · refine throughout_perform hfollows off_stable (fun _ => stable_and (stable_const _) off_stable) ?_ h hoff
      rintro u set v hu hoff ⟨⟨rfl, rfl⟩, _⟩
      exact ⟨hu, hoff.resolve_left (by simp [henabled]), hoff⟩
    · rintro set u hu ⟨rfl, hoff⟩
      exact throughout_pure hfollows off_stable hu hoff
  · exact throughout_pure hfollows off_stable h hoff

/-- How the pump is left after a chunk: with all of it on disk, or with some of it and off. -/
def Chunked (path : Path) (limits : LogLimits) (all chunk : List UInt8) (pump : Pump) (w : PumpWorld) : Prop :=
  (Follows path limits (all ++ chunk) w.system.disk ∧ Ready path limits (all ++ chunk) pump.writer w.system.disk) ∨
    (Underway path limits all chunk w.system.disk ∧ Off pump w)

theorem chunked_stable : Stable (pumpApart path) fun v => Chunked path limits all chunk pump v := by
  rintro u v (⟨h, hready⟩ | ⟨h, hoff⟩) hd
  · exact .inl ⟨system_stable follows_stable h hd, system_stable ready_stable hready hd⟩
  · exact .inr ⟨system_stable underway_stable h hd, off_stable hoff hd⟩

theorem writeChunk_throughout (hname : path.fileName.isSome) (hcount : 1 ≤ limits.backupCount)
    (hready : Ready path limits all pump.writer w.system.disk) (h : Follows path limits all w.system.disk) :
    Throughout (pumpApart path) (fun v => Underway path limits all chunk v.system.disk)
      (fun pump' v => Chunked path limits all chunk pump' v) (writeChunk pump chunk) w := by
  have hunderway : Stable (pumpApart path) fun v => Underway path limits all chunk v.system.disk :=
    system_stable underway_stable
  have hkept : Stable (pumpApart path) fun v =>
      Follows path limits all v.system.disk ∧ Ready path limits all pump.writer v.system.disk :=
    stable_and (system_stable follows_stable) (system_stable ready_stable)
  unfold writeChunk
  split
  · refine throughout_bind (Q := fun set v => (set = true → Off pump v) ∧
      Follows path limits all v.system.disk ∧ Ready path limits all pump.writer v.system.disk) ?_ ?_
    · refine throughout_perform hunderway hkept (fun _ => stable_and (stable_imp off_stable) hkept) ?_ h.underway
        ⟨h, hready⟩
      rintro u set v hu hlog ⟨⟨rfl, rfl⟩, _⟩
      exact ⟨hu, fun hset => .inr hset, hlog⟩
    · rintro set u hu ⟨hset, hfollows, hready⟩
      split
      · rename_i hdiscard
        exact throughout_pure hunderway chunked_stable hu (.inr ⟨hu, hset hdiscard⟩)
      · have hwrite : Throughout (pumpApart path) (fun v => Underway path limits all chunk v.system.disk)
            (fun r v => Added path limits all chunk r v.system.disk) (onSystem (pump.writer.writeBytes chunk)) u :=
          throughout_lift PumpWorld.system And.left answers_apart (writeBytes_throughout hname hcount hready hfollows)
        refine throughout_bind hwrite ?_
        rintro ⟨writer, r⟩ v hv ⟨part, hpart, hwhole, hwrote, hready⟩
        cases r with
        | error err => exact throughout_pure hunderway chunked_stable hv (.inr ⟨hv, .inl rfl⟩)
        | ok _ =>
            obtain rfl := hwhole rfl
            exact throughout_pure hunderway chunked_stable hv (.inl ⟨hwrote, hready⟩)
  · rename_i hdisabled
    exact throughout_pure hunderway chunked_stable h.underway
      (.inr ⟨h.underway, .inl (Bool.eq_false_iff.mpr hdisabled)⟩)

theorem drain_off (hoff : Off pump w) (h : Follows path limits all w.system.disk) :
    Throughout (pumpApart path) (fun v => Follows path limits all v.system.disk) (fun r v => Off r.1 v)
      (drain source pump) w := by
  have hfollows : Stable (pumpApart path) fun v => Follows path limits all v.system.disk := system_stable follows_stable
  induction source generalizing pump w with
  | nil => exact throughout_pure hfollows off_stable h hoff
  | cons o source ih =>
      cases o with
      | read bytes =>
          rw [drain]
          split
          · exact throughout_pure hfollows off_stable h hoff
          · exact throughout_bind (writeChunk_off hoff h) fun _ _ hu hoff => ih hoff hu
      | interrupted => exact ih hoff h
      | failed err => exact throughout_pure hfollows off_stable h hoff

/-- How the pump ends: what it has read is on disk, all of it unless it is off. -/
def Pumped (path : Path) (limits : LogLimits) (all : List UInt8) (source : List ReadOutcome)
    (r : Pump × List ReadOutcome) (w : PumpWorld) : Prop :=
  Off r.1 w ∨ ∃ consumed, source = consumed ++ r.2 ∧ Follows path limits (all ++ bytesRead consumed) w.system.disk

theorem pumped_stable {r : Pump × List ReadOutcome} :
    Stable (pumpApart path) fun v => Pumped path limits all source r v := by
  rintro u v (hoff | ⟨consumed, hsource, h⟩) hd
  · exact .inl (off_stable hoff hd)
  · exact .inr ⟨consumed, hsource, system_stable follows_stable h hd⟩

theorem stopped_throughout (consumed : List ReadOutcome) {left : List ReadOutcome} (hnone : bytesRead consumed = [])
    (h : Follows path limits all w.system.disk) :
    Throughout (pumpApart path) (fun v => Underway path limits all (bytesRead (consumed ++ left)) v.system.disk)
      (fun r v => Pumped path limits all (consumed ++ left) r v) (return (pump, left)) w := by
  refine throughout_pure (system_stable underway_stable) pumped_stable h.underway (.inr ⟨consumed, rfl, ?_⟩)
  rwa [hnone, List.append_nil]

theorem drain_throughout (hname : path.fileName.isSome) (hcount : 1 ≤ limits.backupCount)
    (hready : Ready path limits all pump.writer w.system.disk) (h : Follows path limits all w.system.disk) :
    Throughout (pumpApart path) (fun v => Underway path limits all (bytesRead source) v.system.disk)
      (fun r v => Pumped path limits all source r v) (drain source pump) w := by
  induction source generalizing pump all w with
  | nil => exact stopped_throughout [] rfl h
  | cons o source ih =>
      cases o with
      | read bytes =>
          rw [drain]
          split
          · rename_i hempty
            obtain rfl := List.isEmpty_iff.mp hempty
            exact stopped_throughout [.read []] rfl h
          · have hall : bytesRead (.read bytes :: source) = bytes ++ bytesRead source := rfl
            have hchunk : Throughout (pumpApart path)
                (fun v => Underway path limits all (bytesRead (.read bytes :: source)) v.system.disk)
                (fun pump' v => Chunked path limits all bytes pump' v) (writeChunk pump bytes) w :=
              (writeChunk_throughout hname hcount hready h).mono (fun _ hv => hv.mono (List.prefix_append _ _))
                fun _ _ _ hq => hq
            refine throughout_bind hchunk ?_
            rintro pump' u _ (⟨hu, hready⟩ | ⟨⟨part, hpart, hu⟩, hoff⟩)
            · refine (ih hready hu).mono (fun _ hv => ?_) (fun _ _ _ hq => ?_)
              · rw [hall]
                exact hv.after
              · rcases hq with hoff | ⟨consumed, rfl, hv⟩
                · exact .inl hoff
                · refine .inr ⟨.read bytes :: consumed, rfl, ?_⟩
                  rwa [List.append_assoc] at hv
            · refine (drain_off hoff hu).mono (fun _ hv => ?_) (fun _ _ _ hoff => .inl hoff)
              exact ⟨part, hpart.trans (List.prefix_append _ _), hv⟩
      | interrupted =>
          refine (ih hready h).mono (fun _ hv => hv) (fun _ _ _ hq => ?_)
          rcases hq with hoff | ⟨consumed, rfl, hv⟩
          · exact .inl hoff
          · exact .inr ⟨.interrupted :: consumed, rfl, hv⟩
      | failed err => exact stopped_throughout [.failed err] rfl h

/-- At every moment of a pump, whatever fails and whenever it is told to discard, as long as no
file that is there is taken for missing, its log is the end of what it was and of what a service
has said from the beginning on; and where the pump ends with nothing failed and nothing discarded,
that is all it has read. -/
theorem output_survives {w w₀ : World} {log : RotatingLogWriter} {discard : Bool} {history : List LogPump.Event}
    (hname : path.fileName.isSome) (hr : Reserved (InFamily path) w.disk)
    (hopen : Runs (apart path) (openWriter path limits) w (.ok log) w₀) :
    (∀ v, Visits (pumpApart path) (pumpLogStream source log) ⟨w₀, discard, history⟩ v →
      ∃ part, part <+: bytesRead source ∧
        Follows path limits (readingOf limits.backupCount path w.disk ++ part) v.system.disk) ∧
    ∀ pump left v, Runs (pumpApart path) (pumpLogStream source log) ⟨w₀, discard, history⟩ (pump, left) v →
      pump.writeEnabled = true → v.discard = false → ∃ consumed, source = consumed ++ left ∧
        Follows path limits (readingOf limits.backupCount path w.disk ++ bytesRead consumed) v.system.disk := by
  have hbefore : Follows path limits (readingOf limits.backupCount path w.disk) w.disk :=
    ⟨hr, List.suffix_refl _, fun _ => rfl⟩
  obtain ⟨hfollows, hopened⟩ := (openWriter_throughout hbefore).runs hopen
  obtain ⟨hcount, hopened⟩ := hopened log rfl
  have hpump : Throughout (pumpApart path)
      (fun v => Underway path limits (readingOf limits.backupCount path w.disk) (bytesRead source) v.system.disk)
      (fun r v => Pumped path limits (readingOf limits.backupCount path w.disk) source r v)
      (pumpLogStream source log) ⟨w₀, discard, history⟩ := drain_throughout hname hcount hopened.ready hfollows
  refine ⟨fun v hv => hpump.visits hv, fun pump left v hrun henabled hunset => ?_⟩
  refine (hpump.runs hrun).2.resolve_left ?_
  rintro (hdisabled | hset)
  · rw [henabled] at hdisabled
    cases hdisabled
  · rw [hunset] at hset
    cases hset

theorem pumpAnswer_sound (c : PumpCall) (w : PumpWorld) (_ : True) :
    (pumpApart path).answers c w (pumpAnswer (fun _ => false) c w).1 (pumpAnswer (fun _ => false) c w).2 := by
  cases c with
  | system c =>
      exact ⟨⟨Steady.answer_sound _ c w.system, rfl, rfl⟩, Steady.answer_right (fun _ => rfl) c w.system⟩
  | loadDiscard => exact ⟨⟨rfl, rfl⟩, trivial⟩

def calmDriver (path : Path) : Driver (pumpApart path) where
  inside := fun _ => True
  answer := pumpAnswer fun _ => false
  sound := pumpAnswer_sound
  stays := fun _ _ _ => trivial

def said : (Pump × List ReadOutcome) × PumpWorld :=
  (calmDriver samplePath).run (pumpLogStream hello openedLog) ⟨openedWorld, false, []⟩

theorem output_survives_hello : ∃ consumed, hello = consumed ++ [.read [63]] ∧
    Follows samplePath ⟨2, 1⟩ (readingOf 1 samplePath emptyWorld.disk ++ bytesRead consumed) said.2.system.disk := by
  have hreserved : Reserved (InFamily samplePath) emptyWorld.disk := ⟨nofun, nofun⟩
  have hrun : Runs (pumpApart samplePath) (pumpLogStream hello openedLog) ⟨openedWorld, false, []⟩ (said.1.1, said.1.2)
      said.2 := ((calmDriver samplePath).runs (pumpLogStream hello openedLog) trivial).1
  exact (output_survives (by decide) hreserved sample_opened).2 _ _ _ hrun rfl rfl

end LocalDevProxy.PumpMoments
