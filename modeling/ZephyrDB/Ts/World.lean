import Mathlib.Data.List.GetD
import ZephyrDB.Ts.Store
import ZephyrDB.Ts.AppendSpec

/-!
The instance and its files represent a store: every open slot represents the
log of its stream, and the files of every other stream of the family are those
of its log. What one stream's programs do leaves the others represented.
-/

set_option autoImplicit false

namespace ZephyrDB.Ts

open Lib

/-- Stream names that may share a directory. -/
structure Family (cfg : Cfg) (N : Bytes → Prop) : Prop where
  admissible : ∀ name, N name → Admissible cfg name
  separate : ∀ a b, N a → N b → a ≠ b → Separate cfg a b

theorem Family.singleton {cfg : Cfg} {name : Bytes} (h : Admissible cfg name) :
    Family cfg (fun n => n = name) where
  admissible _ hn := hn ▸ h
  separate _ _ ha hb hne := absurd (ha.trans hb.symm) hne

def slotKey (slot : StreamCtx) : Option (Bytes × Nat) :=
  if slot.inUse then some (slot.name, slot.openCount) else none

def App.table (cfg : Cfg) (a : App) : List (Option (Bytes × Nat)) :=
  match a.tsCtx with
  | some ctx => ctx.streams.map slotKey
  | none => List.replicate cfg.maxStreams none

/-- Streams that may be open without having been scanned are those of `U`. -/
structure World (cfg : Cfg) (N U : Bytes → Prop) (a : App) (A : Store) : Prop where
  clean : a.env.Clean
  running : a.cfgSet = A.running
  table : a.table cfg = A.table
  pending : a.pending = A.pending
  handles : a.handles = A.handles
  bound : ∀ h name, a.handles h = some name → N name
  mine : ∀ i, (a.slotAt i).inUse = true → N (a.slotAt i).name
  rep : ∀ i, (a.slotAt i).inUse = true →
    SlotRep cfg (a.slotAt i).name (A.logs (a.slotAt i).name) ⟨a.slotAt i, a.env⟩
  unique : ∀ i j, (a.slotAt i).inUse = true → (a.slotAt j).inUse = true →
    (a.slotAt i).name = (a.slotAt j).name → i = j
  stored : ∀ name, N name → a.slotFind name = none →
    Stored cfg name (A.logs name) a.env.look ∧ (A.logs name).buf = [] ∧ (A.logs name).past.length < 10000
  informed : cfg.segmented = true → ∀ i, (a.slotAt i).inUse = true →
    (a.slotAt i).segsScanned = true ∨ U (a.slotAt i).name

theorem slotAt_zero {a : App} {i : Nat} (h : a.tsCtx = none) : a.slotAt i = StreamCtx.zero := by
  simp [App.slotAt, h]

theorem slotAt_some {a : App} {ctx : TsCoreCtx} (h : a.tsCtx = some ctx) (i : Nat) :
    a.slotAt i = ctx.streams.getD i StreamCtx.zero := by
  simp [App.slotAt, h]

def HasSlot (a : App) (i : Nat) : Prop := ∃ ctx, a.tsCtx = some ctx ∧ i < ctx.streams.length

theorem hasSlot_of_inUse {a : App} {i : Nat} (h : (a.slotAt i).inUse = true) : HasSlot a i := by
  cases hc : a.tsCtx with
  | none =>
    rw [slotAt_zero hc] at h
    cases h
  | some ctx =>
    refine ⟨ctx, hc, ?_⟩
    by_contra hle
    rw [slotAt_some hc, List.getD_eq_default _ _ (by omega)] at h
    cases h

theorem slotFind_some {a : App} {name : Bytes} {i : Nat} (h : a.slotFind name = some i) :
    (a.slotAt i).inUse = true ∧ (a.slotAt i).name = name := by
  unfold App.slotFind at h
  cases hc : a.tsCtx with
  | none => simp [hc] at h
  | some ctx =>
    rw [hc] at h
    obtain ⟨hlt, hp, _⟩ := List.findIdx?_eq_some_iff_getElem.mp (show ctx.streams.findIdx? _ = some i from h)
    rw [slotAt_some hc, List.getD_eq_getElem _ _ hlt]
    simpa using hp

theorem slotFind_none {a : App} {name : Bytes} :
    a.slotFind name = none ↔ ∀ i, (a.slotAt i).inUse = true → (a.slotAt i).name ≠ name := by
  unfold App.slotFind
  cases hc : a.tsCtx with
  | none =>
    simp only [Option.bind_none, true_iff]
    intro i hi
    rw [slotAt_zero hc] at hi
    cases hi
  | some ctx =>
    simp only [Option.bind_some, List.findIdx?_eq_none_iff, slotAt_some hc]
    constructor
    · intro h i hi heq
      by_cases hlt : i < ctx.streams.length
      · rw [List.getD_eq_getElem _ _ hlt] at hi heq
        have := h _ (List.getElem_mem hlt)
        simp [hi, heq] at this
      · rw [List.getD_eq_default _ _ (by omega)] at hi
        cases hi
    · intro h slot hslot
      obtain ⟨i, hlt, rfl⟩ := List.mem_iff_getElem.mp hslot
      have := h i
      rw [List.getD_eq_getElem _ _ hlt] at this
      by_cases hi : ctx.streams[i].inUse = true
      · simp [this hi]
      · simp [hi]

section World
variable {cfg : Cfg} {N U : Bytes → Prop} {a : App} {A : Store}

theorem World.slotFind_eq (hW : World cfg N U a A) {i : Nat} (hin : (a.slotAt i).inUse = true) :
    a.slotFind (a.slotAt i).name = some i := by
  cases hf : a.slotFind (a.slotAt i).name with
  | none => exact absurd rfl (slotFind_none.mp hf i hin)
  | some j =>
    obtain ⟨hj, hn⟩ := slotFind_some hf
    rw [hW.unique j i hj hin hn]

theorem slotFind_table (cfg : Cfg) (a : App) (name : Bytes) :
    a.slotFind name = (a.table cfg).findIdx? fun key => key.map Prod.fst == some name := by
  unfold App.slotFind App.table
  cases a.tsCtx with
  | none => simp [List.findIdx?_replicate]
  | some ctx =>
    simp only [Option.bind_some, List.findIdx?_map]
    congr 1
    funext slot
    unfold slotKey
    by_cases h : slot.inUse = true <;> simp [h, Function.comp]

theorem World.find_eq (hW : World cfg N U a A) (name : Bytes) : A.find name = a.slotFind name := by
  rw [slotFind_table cfg, hW.table, Store.find]

theorem table_getD (cfg : Cfg) (a : App) (i : Nat) : (a.table cfg).getD i none = slotKey (a.slotAt i) := by
  unfold App.table
  cases hc : a.tsCtx with
  | none =>
    rw [slotAt_zero hc]
    by_cases hi : i < cfg.maxStreams
    · simp [List.getD, hi, slotKey, StreamCtx.zero]
    · simp [List.getD, hi, slotKey, StreamCtx.zero]
  | some ctx =>
    rw [slotAt_some hc]
    by_cases hi : i < ctx.streams.length
    · simp [List.getD, hi]
    · simp [List.getD, hi, slotKey, StreamCtx.zero]

theorem World.users_eq (hW : World cfg N U a A) {i : Nat} (hin : (a.slotAt i).inUse = true) :
    A.users i = (a.slotAt i).openCount := by
  rw [Store.users, ← hW.table, table_getD, slotKey, if_pos hin]
  rfl

end World

theorem owns_segFile (cfg : Cfg) (name : Bytes) (k : Nat) : Owns cfg name (segFile cfg name k) := by
  unfold segFile
  split
  · rename_i hs
    exact owns_segmentPath name k hs
  · exact owns_streamPath cfg name

section Frame
variable {cfg : Cfg} {a b : Bytes} {L : Log} {e e' : Sys}

theorem look_of_within (hw : Within (Owns cfg a) e e') (hsep : Separate cfg a b) {p : Path}
    (hp : Owns cfg b p) : e'.look p = e.look p :=
  hw.lookup p fun ha => ha.disjoint hsep hp

theorem isSome_of_within (hw : Within (Owns cfg a) e e') (hsep : Separate cfg a b)
    (hs : cfg.segmented = true) {p : Path} {v : Nat} (hp : (e'.look p).isSome) (hv : Scans cfg b p v) :
    (e.look p).isSome := by
  have hn : ¬ Owns cfg a p := fun ha => ha.not_scanned hs hsep hv
  rw [← Env.lookup_eq, hw.lookup p hn] at hp
  exact hp

theorem SegFiles.frame (h : SegFiles cfg b L e.look) (hw : Within (Owns cfg a) e e')
    (hsep : Separate cfg a b) : SegFiles cfg b L e'.look where
  file k hlo hhi := (look_of_within hw hsep (owns_segFile cfg b k)).trans (h.file k hlo hhi)
  window hs p v hp hv := h.window hs p v (isSome_of_within hw hsep hs hp hv) hv
  single := h.single

theorem Stored.frame (h : Stored cfg b L e.look) (hw : Within (Owns cfg a) e e')
    (hsep : Separate cfg a b) : Stored cfg b L e'.look := by
  cases h with
  | files hf => exact .files (hf.frame hw hsep)
  | absent hpast hitems hformat hnone hscan =>
    refine .absent hpast hitems hformat ((look_of_within hw hsep (owns_streamPath cfg b)).trans hnone) ?_
    exact fun hs p v hp hv => hscan hs p v (isSome_of_within hw hsep hs hp hv) hv
  | legacy hs hpast hformat hfile hscan =>
    refine .legacy hs hpast hformat ((look_of_within hw hsep (owns_streamPath cfg b)).trans hfile) ?_
    exact fun p v hp hv => hscan p v (isSome_of_within hw hsep hs hp hv) hv

theorem SlotRep.frame {slot : StreamCtx} (h : SlotRep cfg b L ⟨slot, e⟩) (hw : Within (Owns cfg a) e e')
    (hsep : Separate cfg a b) : SlotRep cfg b L ⟨slot, e'⟩ := by
  refine ⟨hw.clean h.clean, h.named, h.bound, h.buffered, ?_⟩
  cases h.known with
  | learned hl hf => exact .learned hl (hf.frame hw hsep)
  | unlearned hs hu hst hbuf => exact .unlearned hs hu (hst.frame hw hsep) hbuf

end Frame

theorem setSlot_beyond {a : App} {i : Nat} {slot : StreamCtx} (hi : ¬ HasSlot a i) : a.setSlot i slot = a := by
  unfold App.setSlot
  cases hc : a.tsCtx with
  | none => rw [Option.map_none, ← hc]
  | some ctx =>
    have hle : ctx.streams.length ≤ i := Nat.not_lt.mp fun h => hi ⟨ctx, hc, h⟩
    rw [Option.map_some, List.set_eq_of_length_le hle, ← hc]

theorem slotAt_setSlot {a : App} {i : Nat} {slot : StreamCtx} (hi : HasSlot a i) (j : Nat) :
    (a.setSlot i slot).slotAt j = if j = i then slot else a.slotAt j := by
  obtain ⟨ctx, hc, hlt⟩ := hi
  by_cases hji : j = i
  · subst hji
    simp [App.slotAt, App.setSlot, hc, List.getD, hlt]
  · have hij : ¬ i = j := fun h => hji h.symm
    simp [App.slotAt, App.setSlot, hc, List.getD, List.getElem?_set_ne hij, hji]

theorem table_setSlot (cfg : Cfg) {a : App} {i : Nat} {slot : StreamCtx} (hi : HasSlot a i) :
    (a.setSlot i slot).table cfg = (a.table cfg).set i (slotKey slot) := by
  obtain ⟨ctx, hc, _⟩ := hi
  simp [App.table, App.setSlot, hc, List.map_set]

theorem pending_setSlot {a : App} {i : Nat} {slot : StreamCtx} (hi : HasSlot a i) :
    (a.setSlot i slot).pending = a.pending := by
  obtain ⟨ctx, hc, _⟩ := hi
  simp [App.pending, App.setSlot, hc]

theorem set_table_self {cfg : Cfg} {a : App} {i : Nat} {slot : StreamCtx} (hin : (a.slotAt i).inUse = true)
    (hn : slot.name = (a.slotAt i).name) (hu : slot.inUse = (a.slotAt i).inUse)
    (ho : slot.openCount = (a.slotAt i).openCount) :
    (a.setSlot i slot).table cfg = a.table cfg := by
  rw [table_setSlot cfg (hasSlot_of_inUse hin)]
  have hkey : slotKey slot = (a.table cfg).getD i none := by
    rw [table_getD]
    simp [slotKey, hn, hu, ho]
  obtain ⟨ctx, hc, hlt⟩ := hasSlot_of_inUse hin
  have hlen : i < (a.table cfg).length := by simpa [App.table, hc] using hlt
  rw [hkey, List.getD_eq_getElem _ _ hlen, List.set_getElem_self]

/-- Two applications that represent the same stores: they differ in the counters, in how many calls
they have made, and in whether a context without open streams has been allocated. -/
structure Alike (cfg : Cfg) (a a' : App) : Prop where
  running : a'.cfgSet = a.cfgSet
  table : a'.table cfg = a.table cfg
  pending : a'.pending = a.pending
  handles : a'.handles = a.handles
  slots : ∀ i, a'.slotAt i = a.slotAt i
  env : Leads a.env a.env.look a'.env

theorem Alike.refl (cfg : Cfg) (a : App) : Alike cfg a a := ⟨rfl, rfl, rfl, rfl, fun _ => rfl, Leads.refl _⟩

theorem Alike.trans {cfg : Cfg} {a b c : App} (h : Alike cfg a b) (k : Alike cfg b c) : Alike cfg a c :=
  ⟨k.running.trans h.running, k.table.trans h.table, k.pending.trans h.pending, k.handles.trans h.handles,
    fun i => (k.slots i).trans (h.slots i), h.env.trans (h.env.look ▸ k.env)⟩

theorem Alike.slotFind {cfg : Cfg} {a b : App} (h : Alike cfg a b) (name : Bytes) :
    b.slotFind name = a.slotFind name := by
  rw [slotFind_table cfg, slotFind_table cfg, h.table]

theorem alike_env {cfg : Cfg} (a : App) {e : Sys} (h : Leads a.env a.env.look e) :
    Alike cfg a { a with env := e } :=
  ⟨rfl, rfl, rfl, rfl, fun _ => rfl, h⟩

theorem SlotRep.congr_env {cfg : Cfg} {name : Bytes} {L : Log} {slot : StreamCtx} {e e' : Sys}
    (h : SlotRep cfg name L ⟨slot, e⟩) (l : Leads e e.look e') : SlotRep cfg name L ⟨slot, e'⟩ := by
  refine ⟨l.clean h.clean, h.named, h.bound, h.buffered, ?_⟩
  cases h.known with
  | learned hl hf => exact .learned hl (show SegFiles cfg name L e'.look by rw [l.look]; exact hf)
  | unlearned hs hu hst hbuf =>
    exact .unlearned hs hu (show Stored cfg name L e'.look by rw [l.look]; exact hst) hbuf

section World
variable {cfg : Cfg} {N U : Bytes → Prop} {a a' : App} {A : Store}

theorem World.alike (hW : World cfg N U a A) (h : Alike cfg a a') : World cfg N U a' A where
  clean := h.env.clean hW.clean
  running := h.running.trans hW.running
  table := h.table.trans hW.table
  pending := h.pending.trans hW.pending
  handles := h.handles.trans hW.handles
  bound k name hk := hW.bound k name (h.handles ▸ hk)
  mine i hi := by rw [h.slots] at hi ⊢; exact hW.mine i hi
  rep i hi := by rw [h.slots] at hi ⊢; exact (hW.rep i hi).congr_env h.env
  unique i j hi hj hn := by rw [h.slots] at hi hj hn; rw [h.slots] at hn; exact hW.unique i j hi hj hn
  stored name hN hf := by rw [h.slotFind] at hf; rw [h.env.look]; exact hW.stored name hN hf
  informed hs i hi := by rw [h.slots] at hi ⊢; exact hW.informed hs i hi

theorem World.onSlot {ε α : Type} (hF : Family cfg N) (hW : World cfg N U a A) {i : Nat} {name : Bytes}
    (hi : a.slotFind name = some i) {m : SlotM ε α} {x : α} {t : SlotSt} {L : Log}
    (hkeep : Keeps (Moves cfg) m ⟨a.slotAt i, a.env⟩) (hrun : m.run ⟨a.slotAt i, a.env⟩ = .ok x t)
    (hrep : SlotRep cfg name L t) :
    ∃ a', (Ts.onSlot i m).run a = .ok x a' ∧ World cfg N U a' (A.setLog name L) ∧
      a'.slotAt i = t.slot ∧ a'.env = t.env ∧ a'.slotFind name = some i := by
  obtain ⟨hin, hname⟩ := slotFind_some hi
  have hmoves : Moves cfg ⟨a.slotAt i, a.env⟩ t := by
    have := hkeep
    rwa [Keeps, post_of_run hrun] at this
  have hN := hname ▸ hW.mine i hin
  have hwithin : Within (Owns cfg name) a.env t.env := hname ▸ hmoves.within
  have hslots : ∀ j, ({ a.setSlot i t.slot with env := t.env } : App).slotAt j =
      if j = i then t.slot else a.slotAt j := slotAt_setSlot (hasSlot_of_inUse hin)
  have htable : ({ a.setSlot i t.slot with env := t.env } : App).table cfg = a.table cfg :=
    set_table_self hin hmoves.name hmoves.inUse hmoves.openCount
  have hnameAt : ∀ j, (({ a.setSlot i t.slot with env := t.env } : App).slotAt j).name = (a.slotAt j).name ∧
      (({ a.setSlot i t.slot with env := t.env } : App).slotAt j).inUse = (a.slotAt j).inUse := by
    intro j
    rw [hslots]
    split
    · rename_i hj
      subst hj
      exact ⟨hmoves.name, hmoves.inUse⟩
    · exact ⟨rfl, rfl⟩
  have hfind : ∀ n, ({ a.setSlot i t.slot with env := t.env } : App).slotFind n = a.slotFind n := by
    intro n
    rw [slotFind_table cfg, slotFind_table cfg, htable]
  have hother : ∀ j, (a.slotAt j).inUse = true → j ≠ i → (a.slotAt j).name ≠ name := by
    intro j hj hne heq
    exact hne (hW.unique j i hj hin (heq.trans hname.symm))
  refine ⟨_, run_zoom hrun, ?_, (hslots i).trans (if_pos rfl), rfl, (hfind name).trans hi⟩
  refine ⟨hrep.clean, hW.running, htable.trans hW.table, ?_, hW.handles, hW.bound, ?_, ?_, ?_, ?_, ?_⟩
  · rw [show (A.setLog name L).pending = A.pending from rfl, ← hW.pending]
    exact pending_setSlot (hasSlot_of_inUse hin)
  · intro j hj
    rw [(hnameAt j).2] at hj
    rw [(hnameAt j).1]
    exact hW.mine j hj
  · intro j hj
    rw [(hnameAt j).1]
    rw [(hnameAt j).2] at hj
    by_cases hji : j = i
    · subst hji
      rw [hslots, if_pos rfl, hname]
      simpa [Store.setLog] using hrep
    · have hne := hother j hj hji
      rw [hslots, if_neg hji]
      simp only [Store.setLog, Function.update_of_ne hne]
      exact (hW.rep j hj).frame hwithin (hF.separate _ _ hN (hW.mine j hj) hne.symm)
  · intro j k hj hk hn
    rw [(hnameAt j).2] at hj
    rw [(hnameAt k).2] at hk
    rw [(hnameAt j).1, (hnameAt k).1] at hn
    exact hW.unique j k hj hk hn
  · intro n hn hf
    rw [hfind] at hf
    have hne : n ≠ name := by
      rintro rfl
      rw [hi] at hf
      cases hf
    simp only [Store.setLog, Function.update_of_ne hne]
    obtain ⟨hst, hrest⟩ := hW.stored n hn hf
    exact ⟨hst.frame hwithin (hF.separate _ _ hN hn hne.symm), hrest⟩
  · intro hs j hj
    rw [(hnameAt j).2] at hj
    rw [(hnameAt j).1, hslots]
    split
    · rename_i hji
      subst hji
      exact (hW.informed hs j hj).imp_left fun h => (hmoves.scanned h).1
    · exact hW.informed hs j hj

theorem World.rep_find (hW : World cfg N U a A) {i : Nat} {name : Bytes} (hi : a.slotFind name = some i) :
    SlotRep cfg name (A.logs name) ⟨a.slotAt i, a.env⟩ := by
  obtain ⟨hin, hname⟩ := slotFind_some hi
  have := hW.rep i hin
  rwa [hname] at this

end World

end ZephyrDB.Ts
