import ZephyrDB.Ts.Holdings

/-!
The buffers of the streams hold whole records, of the size that the slot's
records have, in every run in which no record is counted at another size and no
format takes effect over records of another.
-/

set_option autoImplicit false

namespace ZephyrDB.Ts

open Lib

def Mark.loosens : Mark → Bool
  | .misfit | .mixed => true
  | _ => false

def Trail.Tight (t : Trail) : Prop := ∀ k ∈ t.marks, k.loosens = false

theorem Trail.Tight.earlier {t u : Trail} (h : u.Tight) (hgrows : t.marks <:+ u.marks) : t.Tight := by
  intro k hk
  exact h k (hgrows.subset hk)

theorem Trail.Tight.not_mem {t : Trail} (h : t.Tight) {k : Mark} (hk : k.loosens = true) : k ∉ t.marks := by
  intro hmem
  rw [h k hmem] at hk
  cases hk

theorem yields_bind_tight {ε α β : Type} {m : Trail.TrailM SlotSt ε α} {f : α → Trail.TrailM SlotSt ε β}
    {s : Noted SlotSt Trail} {P : α → Noted SlotSt Trail → Prop} {Q : β → Noted SlotSt Trail → Prop}
    {E : ε → Noted SlotSt Trail → Prop} (hm : Yields m s (fun x t => t.notes.Tight → P x t) fun r t => t.notes.Tight → E r t)
    (hgrows : ∀ x, Always Trail.SlotTells (f x))
    (hf : ∀ x t, P x t → Yields (f x) t (fun y u => u.notes.Tight → Q y u) fun r u => u.notes.Tight → E r u) :
    Yields (m >>= f) s (fun y u => u.notes.Tight → Q y u) fun r u => u.notes.Tight → E r u := by
  apply yields_bind hm
  intro x t ht
  by_cases htight : t.notes.Tight
  · exact hf x t (ht htight)
  · have hloose : ∀ {u : Noted SlotSt Trail}, Trail.SlotTells t u → ¬ u.notes.Tight := by
      intro u hu htight'
      exact htight (htight'.earlier hu.grows.marks)
    apply ((hgrows x).yields t).imp
    · intro _ u hu htight'
      exact absurd htight' (hloose hu)
    · intro _ u hu htight'
      exact absurd htight' (hloose hu)

structure SlotPacks (cfg : Cfg) (s t : Noted SlotSt Trail) : Prop where
  grows : Trail.Grows s.notes t.notes
  packed : t.notes.Tight → s.st.slot.Packed cfg → t.st.slot.Packed cfg

section Slot
variable {cfg : Cfg} {ε α : Type}

theorem slotPacks_chains (cfg : Cfg) : Chains (SlotPacks cfg) where
  refl _ := ⟨.refl _, fun _ h => h⟩
  trans h k := ⟨h.grows.trans k.grows, fun htight hs => k.packed htight (h.packed (htight.earlier k.grows.marks) hs)⟩

theorem packs_updSlot {f : StreamCtx → StreamCtx} (h : ∀ slot, slot.Packed cfg → (f slot).Packed cfg) :
    Always (SlotPacks cfg) (silent (updSlot f) : Trail.TrailM SlotSt ε Unit) := fun s => ⟨.refl _, fun _ hs => h s.st.slot hs⟩

theorem packs_getSlot : Always (SlotPacks cfg) (silent getSlot : Trail.TrailM SlotSt ε StreamCtx) :=
  fun s => (slotPacks_chains cfg).refl s

theorem packs_onSys {m : Trail.TrailM Sys ε α} (hm : Always Trail.EnvTells m) : Always (SlotPacks cfg) (Trail.onSys m) := by
  intro s
  have hgrows := (hm ⟨s.st.env, s.notes⟩).grows
  unfold Keeps Trail.onSys noting
  rw [post_zoom]
  exact ⟨hgrows, fun _ hs => hs⟩

theorem packs_quietSys (m : EStateM ε Sys α) : Always (SlotPacks cfg) (silent (onSys m) : Trail.TrailM SlotSt ε α) := by
  intro s
  unfold Keeps silent onSys
  rw [post_zoom, post_zoom]
  exact ⟨.refl _, fun _ hs => hs⟩

theorem packs_leaveWhen (c : SlotSt → Bool) (k : Mark) :
    Always (SlotPacks cfg) (Trail.leaveWhen c k : Trail.TrailM SlotSt ε Unit) := by
  intro s
  apply Yields.post (Q := SlotPacks cfg s)
  apply (Trail.yields_leaveWhen s).imp
  · intro _ t ⟨hst, hgrows, _⟩
    exact ⟨hgrows, fun _ hs => hst ▸ hs⟩
  · intro _ _ h
    exact h

theorem packs_orLeave {m : Trail.TrailM SlotSt ε α} (c : SlotSt → Bool) (k : Mark) (hm : Always (SlotPacks cfg) m) :
    Always (SlotPacks cfg) (Trail.orLeave c k m) := by
  intro s
  apply Yields.post (Q := SlotPacks cfg s)
  apply (Trail.yields_orLeave (hm.yields s)).imp
  · intro _ _ h
    exact h
  · intro _ u ⟨t, ht, hst, hgrows, _⟩
    refine ⟨ht.grows.trans hgrows, ?_⟩
    intro htight hs
    rw [hst]
    exact ht.packed (htight.earlier hgrows.marks) hs

theorem packs_storeRecord (raw : Bytes) (recSize : Nat) :
    Always (SlotPacks cfg) (Trail.storeRecord cfg raw recSize : Trail.TrailM SlotSt ε Unit) := by
  intro s
  apply Yields.post (Q := SlotPacks cfg s)
  apply (Trail.yields_marked _ s).imp ?_ (fun _ _ h => h)
  intro _ t ⟨hst, hgrows, hmark⟩
  refine ⟨hgrows, ?_⟩
  intro htight hs
  have hwhole : Trail.takesWhole cfg raw recSize s.st.slot = true := by simpa using hmark (htight.not_mem rfl)
  rw [hst]
  exact packed_store hs hwhole

theorem packed_setFormat {slot : StreamCtx} (h : slot.Packed cfg) {version : Nat} {baseTsMs : UInt64}
    (hagrees : Trail.agreesWith cfg slot (slot.setFormat version baseTsMs) = true) :
    (slot.setFormat version baseTsMs).Packed cfg := by
  simp only [Trail.agreesWith, decide_eq_true_eq] at hagrees
  rcases hagrees with hempty | ⟨hsize, _, _⟩
  · exact packed_empty hempty
  · refine ⟨?_, h.room⟩
    rw [hsize]
    exact h.whole

theorem packs_learnFormat (version : Nat) (baseTsMs : UInt64) :
    Always (SlotPacks cfg) (Trail.learnFormat cfg version baseTsMs : Trail.TrailM SlotSt ε Unit) := by
  intro s
  apply Yields.post (Q := SlotPacks cfg s)
  apply (Trail.yields_marked _ s).imp ?_ (fun _ _ h => h)
  intro _ t ⟨hst, hgrows, hmark⟩
  refine ⟨hgrows, ?_⟩
  intro htight hs
  have hagrees : Trail.agreesWith cfg s.st.slot (s.st.slot.setFormat version baseTsMs) = true := by
    simpa using hmark (htight.not_mem rfl)
  rw [hst]
  exact packed_setFormat hs hagrees

theorem packs_learnNewest (name : Bytes) (lowest highest : Nat) :
    Always (SlotPacks cfg) (Trail.learnNewest cfg name lowest highest) := by
  have hR := slotPacks_chains cfg
  apply always_bind hR (packs_updSlot ?_)
  swap
  · intro _ h
    exact ⟨h.whole, h.room⟩
  intro _
  apply always_bind hR (always_rethrow hR _)
  intro path
  apply always_bind hR (packs_onSys (Trail.tells_ensureHeaderEx _ _ _))
  intro vb
  apply always_bind hR (packs_learnFormat _ _)
  intro _
  apply always_bind hR (packs_quietSys _)
  intro size
  apply always_bind hR (packs_leaveWhen _ _)
  intro _
  exact packs_updSlot fun _ h => ⟨h.whole, h.room⟩

theorem packs_scanSegments : Always (SlotPacks cfg) (Trail.scanSegments cfg) := by
  have hR := slotPacks_chains cfg
  apply always_bind hR packs_getSlot
  intro slot
  apply always_ite (always_pure hR _)
  apply always_guard hR
  apply always_bind hR (packs_quietSys _)
  intro entries
  apply always_ite ?_ (packs_learnNewest _ _ _)
  apply always_bind hR (packs_onSys (Trail.tells_adoptLegacy _))
  intro _
  exact packs_learnNewest _ _ _

theorem packs_startSegment (baseTsMs : UInt64) : Always (SlotPacks cfg) (Trail.startSegment cfg baseTsMs) := by
  have hR := slotPacks_chains cfg
  apply always_bind hR (packs_updSlot ?_)
  swap
  · intro _ h
    exact ⟨h.whole, h.room⟩
  intro _
  apply always_bind hR packs_getSlot
  intro slot
  apply always_bind hR (packs_orLeave _ _ (always_rethrow hR _))
  intro path
  have hheader : Always Trail.EnvTells (Trail.ensureHeaderEx cfg slot.name path baseTsMs) := Trail.tells_ensureHeaderEx _ _ _
  apply always_bind hR (packs_orLeave _ _ (packs_onSys (always_adaptExcept _ hheader)))
  intro vb
  apply always_bind hR (packs_leaveWhen _ _)
  intro _
  apply always_bind hR (packs_learnFormat _ _)
  intro _
  apply always_ite ?_ (always_pure hR _)
  apply always_zoom (fun s => sheds_discardSegments _ s)
  intro s t h
  refine ⟨.refl _, ?_⟩
  intro _ hs
  rw [← h.slot] at hs
  exact ⟨hs.whole, hs.room⟩

theorem packs_activePath : Always (SlotPacks cfg) (Trail.activePath cfg) :=
  Trail.always_activePath (slotPacks_chains cfg) packs_getSlot packs_scanSegments

theorem packs_writeBuffer (buf : Bytes) (used : Nat) : Always (SlotPacks cfg) (Trail.writeBuffer cfg buf used) := by
  have hR := slotPacks_chains cfg
  apply always_bind hR packs_activePath
  intro path
  apply always_bind hR (packs_quietSys _)
  intro _
  apply always_bind hR (always_get hR)
  intro s
  apply always_bind hR (packs_orLeave _ _ (packs_quietSys _))
  intro wr
  apply always_ite
  · apply always_bind hR (packs_leaveWhen _ _)
    intro _
    exact fun s => hR.refl s
  · apply always_bind hR (packs_orLeave _ _ (packs_quietSys _))
    intro _
    exact packs_updSlot fun _ _ => packed_empty rfl

theorem packs_slotLaw : Trail.SlotLaw cfg (SlotPacks cfg) where
  chains := slotPacks_chains cfg
  getSlot := packs_getSlot
  store := packs_storeRecord
  start := packs_startSegment
  write := packs_writeBuffer

end Slot

def App.Packed (cfg : Cfg) (a : App) : Prop := ∀ i, (a.slotAt i).Packed cfg

def Packs (cfg : Cfg) (s t : Noted App Trail) : Prop :=
  s.notes.marks <:+ t.notes.marks ∧ (t.notes.Tight → s.st.Packed cfg → t.st.Packed cfg)

section Instance
variable {cfg : Cfg} {a b : App} {ε α : Type}

theorem packs_chains (cfg : Cfg) : Chains (Packs cfg) where
  refl _ := ⟨List.suffix_rfl, fun _ h => h⟩
  trans h k := ⟨h.1.trans k.1, fun htight hs => k.2 htight (h.2 (htight.earlier k.1) hs)⟩

theorem App.Packed.empty (h : a.tsCtx = none) : a.Packed cfg := by
  intro i
  rw [slotAt_zero h]
  exact packed_empty rfl

theorem App.Packed.congr (ha : a.Packed cfg) (hslots : ∀ i, b.slotAt i = a.slotAt i) : b.Packed cfg := by
  intro i
  rw [hslots]
  exact ha i

theorem App.Packed.setSlot (ha : a.Packed cfg) (i : Nat) {slot : StreamCtx} (h : slot.Packed cfg) :
    (a.setSlot i slot).Packed cfg := by
  by_cases hi : HasSlot a i
  · intro j
    rw [slotAt_setSlot hi]
    split
    · exact h
    · exact ha j
  · rw [setSlot_beyond hi]
    exact ha

theorem packs_onSlot {m : Trail.TrailM SlotSt ε α} {i : Nat} {s : Noted App Trail} (hm : Always (SlotPacks cfg) m) :
    Keeps (Packs cfg) (Trail.onSlot cfg i m) s := by
  have h := hm ⟨⟨s.st.slotAt i, s.st.env⟩, { s.notes with others := s.st.others cfg i }⟩
  unfold Keeps at h
  unfold Keeps Trail.onSlot
  rw [post_zoom]
  generalize post m _ = t at h ⊢
  refine ⟨h.grows.marks, ?_⟩
  intro htight ha
  exact (ha.setSlot i (h.packed htight (ha i))).congr fun _ => rfl

theorem packed_slotClaim (name : Bytes) : Always (Preserves (App.Packed cfg)) (slotClaim cfg name) := by
  have hR := preserves_chains (App.Packed cfg)
  intro a
  apply keeps_get_bind
  cases a.slotFind name with
  | some i =>
    intro ha
    exact ha.setSlot i ⟨(ha i).whole, (ha i).room⟩
  | none =>
    dsimp only
    cases a.tsCtx.bind fun ctx => ctx.streams.findIdx? fun slot => !slot.inUse with
    | none => exact keeps_throw hR _ a
    | some i =>
      apply keeps_bind hR
      · intro ha
        exact ha.setSlot i (packed_empty rfl)
      intro _ b _
      have hcall : Always (App.Calm cfg) (onEnv (orFail .ERR_BUSY call) : AppM Status Unit) :=
        calm_onEnv (always_adaptExcept _ calm_call)
      apply keeps_bind hR (fun hb => hb.congr (hcall b).slots)
      intro _ c _ hc
      exact hc.setSlot i (packed_empty rfl)

theorem packed_slotRelease (i : Nat) : Always (Preserves (App.Packed cfg)) (slotRelease i) := by
  intro a ha
  show App.Packed cfg (if (a.slotAt i).openCount > 1 then _ else _)
  split
  · exact ha.setSlot i ⟨(ha i).whole, (ha i).room⟩
  · exact ha.setSlot i (packed_empty rfl)

theorem packs_quiet {m : AppM ε α} (hm : Always (Preserves (App.Packed cfg)) m) :
    Always (Packs cfg) (silent m : Trail.TrailM App ε α) := always_zoom hm fun _ _ h => ⟨List.suffix_rfl, fun _ => h⟩

theorem packs_leave (k : Mark) : Always (Packs cfg) (Trail.leave k : Trail.TrailM App ε Unit) :=
  fun _ => ⟨List.suffix_cons _ _, fun _ h => h⟩

theorem packs_law : Trail.Law cfg Trail.EnvTells (SlotPacks cfg) (Packs cfg) where
  chains := packs_chains cfg
  onEnv h := ⟨h.grows.marks, fun _ ha => ha.congr fun _ => rfl⟩
  onSlot _ := packs_onSlot
  calm h := ⟨List.suffix_rfl, fun _ ha => ha.congr h.slots⟩
  stats _ := packs_quiet fun _ ha => ha.congr fun _ => rfl
  lock h := ⟨(List.suffix_cons _ _).trans (h.1.trans (List.suffix_cons _ _)), fun htight ha =>
    h.2 (fun k hk => htight k (.tail _ hk)) ha⟩
  overCap := packs_leave _
  undrained := packs_leave _
  failed := by
    apply always_bind (packs_chains cfg) (packs_leave _)
    intro _ s
    exact ⟨List.suffix_cons _ _, fun _ ha => ha.congr fun _ => rfl⟩
  record := Trail.tells_recordDecodeAs
  header _ := Trail.tells_ensureStreamHeader
  recover := Trail.tells_recoverFile cfg
  activePath := packs_activePath
  scan := packs_scanSegments
  flush := packs_slotLaw.flush
  append := packs_slotLaw.append
  batch := packs_slotLaw.batch
  claim name := packs_quiet (packed_slotClaim name)
  release i := packs_quiet (packed_slotRelease i)

end Instance

namespace Host
variable {cfg : Cfg} {cap : AggCap}

/-- No record of the call is counted at another size, and no format takes effect over records of another. -/
def Neat (cfg : Cfg) (cap : AggCap) (w : Host) (call : HostCall) : Prop :=
  ∀ k ∈ (w.step cfg cap call).marks, k.loosens = false

instance (cfg : Cfg) (cap : AggCap) (w : Host) (call : HostCall) : Decidable (Neat cfg cap w call) :=
  inferInstanceAs (Decidable (∀ k ∈ _, _))

theorem packed_step {w : Host} {call : HostCall} (hw : w.app.Packed cfg) (hneat : w.Neat cfg cap call) :
    (w.step cfg cap call).host.app.Packed cfg := by
  cases hlife : call.lifecycle with
  | true =>
    cases call with
    | op o => cases o <;> first | exact .empty rfl | cases hlife
    | _ => cases hlife
  | false =>
    obtain ⟨_, h⟩ := Host.step_law packs_law cap w hlife
    exact h.2 hneat hw

theorem buffers_packed {env : Sys} {calls : List HostCall} {w : Host}
    (h : Steps (Guarded (Neat cfg cap) (Moves cfg cap)) (boot env) calls w) : w.app.Packed cfg := by
  apply h.keeps (I := fun w => w.app.Packed cfg) ?_ (.empty rfl)
  intro w call w' hw ⟨hneat, hmove⟩
  rw [hmove]
  exact packed_step hw hneat

end Host

end ZephyrDB.Ts
