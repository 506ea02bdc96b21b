import ZephyrDB.Ts.Reopen
import ZephyrDB.Ts.Told
import ZephyrDB.Ts.TrailErasure

/-!
The cached size of the newest segment against its file: where the two may part,
and that they agree in every run in which none of that happens.
-/

set_option autoImplicit false

namespace ZephyrDB.Ts

open Lib

def headerFormat (bs : Bytes) : Nat × UInt64 :=
  (field bs 4 2, if field bs 4 2 = STREAM_VERSION_V2 then UInt64.ofNat (field bs 12 8) else 0)

/-- The slot's count and its format are those of a file with these bytes. -/
structure StreamCtx.Describes (slot : StreamCtx) (bs : Bytes) : Prop where
  size : bs.length = slot.segHdrSize + slot.curSegBytes
  format : headerFormat bs = (slot.segVersion, slot.segBaseTsMs)
  hdrSize : slot.segHdrSize = hdrSizeFor slot.segVersion
  recSize : slot.segRecSize = recSizeFor slot.segVersion

/-- A slot whose segments are scanned describes the file it appends to. -/
def StreamCtx.Counts (cfg : Cfg) (slot : StreamCtx) (look : Path → Option Bytes) : Prop :=
  slot.segsScanned = true → ∃ bs, look (slot.activeFile cfg) = some bs ∧ slot.Describes bs

/-- Every slot does. -/
def App.Counts (cfg : Cfg) (a : App) : Prop := ∀ i, (a.slotAt i).Counts cfg a.env.look

def Mark.mishap : Mark → Bool
  | .uncounted | .unsized | .unstarted | .occupied | .cut | .rewritten | .robbed => true
  | _ => false

def Trail.Fine (t : Trail) : Prop := ∀ k ∈ t.marks, k.mishap = false

section Format

theorem hdrSizeV1_le_for (version : Nat) : hdrSizeV1 ≤ hdrSizeFor version := by
  unfold hdrSizeFor
  split <;> decide

theorem headerFormat_append {bs : Bytes} (h : hdrSizeFor (field bs 4 2) ≤ bs.length) (more : Bytes) :
    headerFormat (bs ++ more) = headerFormat bs := by
  have hv1 : 16 ≤ bs.length := (hdrSizeV1_le_for _).trans h
  have hversion : field (bs ++ more) 4 2 = field bs 4 2 := field_front (by omega)
  unfold headerFormat
  rw [hversion]
  by_cases hv2 : field bs 4 2 = STREAM_VERSION_V2
  · rw [hdrSizeFor, if_pos hv2] at h
    rw [if_pos hv2, if_pos hv2, field_front (show 12 + 8 ≤ bs.length by unfold hdrSizeV2 at h; omega)]
  · rw [if_neg hv2, if_neg hv2]

theorem headerFormat_take {bs : Bytes} {n : Nat} (h : hdrSizeFor (field (bs.take n) 4 2) ≤ (bs.take n).length) :
    headerFormat bs = headerFormat (bs.take n) := by
  conv_lhs => rw [← List.take_append_drop n bs]
  exact headerFormat_append h _

theorem newHeader_format (cfg : Cfg) (name : Bytes) (baseTsMs : UInt64) :
    hdrSizeFor (newHeader cfg name baseTsMs).2.1 = (newHeader cfg name baseTsMs).1.length ∧
      headerFormat (newHeader cfg name baseTsMs).1 = (newHeader cfg name baseTsMs).2 := by
  unfold newHeader headerFormat
  split
  · have hversion := streamHeaderV2_version name [] baseTsMs
    have hbase := streamHeaderV2_base name [] baseTsMs
    rw [List.append_nil] at hversion hbase
    rw [streamHeaderV2Encode_length, hversion, if_pos rfl, hbase]
    exact ⟨rfl, rfl⟩
  · have hversion := streamHeader_version name []
    rw [List.append_nil] at hversion
    rw [streamHeaderEncode_length, hversion, if_neg (by decide)]
    exact ⟨rfl, rfl⟩

theorem StreamCtx.Describes.append {slot : StreamCtx} {bs : Bytes} (h : slot.Describes bs) (more : Bytes) (used : Nat) :
    StreamCtx.Describes { slot with curSegBytes := slot.curSegBytes + more.length, ingestUsed := used } (bs ++ more) := by
  have hversion : field bs 4 2 = slot.segVersion := congrArg Prod.fst h.format
  have hle : hdrSizeFor (field bs 4 2) ≤ bs.length := by
    rw [hversion, ← h.hdrSize, h.size]
    exact Nat.le_add_right _ _
  refine ⟨?_, (headerFormat_append hle more).trans h.format, h.hdrSize, h.recSize⟩
  rw [List.length_append, h.size, Nat.add_assoc]

end Format

theorem fsRead_front (path : Path) (len : Nat) (e : Sys) :
    Yields (fsRead path 0 len) e (fun raw t => (∃ n, raw = (e.contents path).take n) ∧ t.look = e.look)
      fun _ t => t.look = e.look := by
  unfold Yields EStateM.run fsRead
  cases e.fault with
  | none => exact ⟨⟨len, by simp [slice]⟩, rfl⟩
  | short n => exact ⟨⟨min n len, by simp [slice]⟩, rfl⟩
  | fail err n => exact rfl

theorem streamHeaderV2Decode_base (raw name : Bytes) (e : Sys) :
    Yields (streamHeaderV2Decode raw name) e (fun base _ => base = UInt64.ofNat (field raw 12 8)) fun _ _ => True := by
  have hcorrupt {m : EStateM Status Sys Unit} {g : Unit → Zdb UInt64} (t : Sys) :
      Yields (m >>= fun _ => throw Status.ERR_CORRUPT >>= g) t (fun base _ => base = UInt64.ofNat (field raw 12 8))
        fun _ _ => True := yields_bind (yields_any m t) fun _ _ _ => trivial
  unfold streamHeaderV2Decode
  dsimp only
  split
  · exact hcorrupt e
  · split
    · apply yields_bind (yields_any _ e)
      intro _ t _
      exact hcorrupt t
    · split
      · exact hcorrupt e
      · exact rfl

theorem yields_io {α : Type} {m : Rc α} {e : Sys} {P : α → Sys → Prop} {E : Errno → Sys → Prop} (h : Yields m e P E) :
    Yields (toStatus m) e P fun _ _ => True :=
  yields_adaptExcept _ (h.imp (fun _ _ h => h) fun _ _ _ => trivial)

structure HeaderAt (path : Path) (format : Nat × UInt64) (e : Sys) (bs : Bytes) : Prop where
  look : e.look path = some bs
  size : hdrSizeFor format.1 ≤ bs.length
  format : headerFormat bs = format

theorem HeaderAt.of_front {path : Path} {e : Sys} {bs : Bytes} {n : Nat} (hlook : e.look path = some bs)
    (hsize : hdrSizeFor (field (bs.take n) 4 2) ≤ (bs.take n).length) : HeaderAt path (headerFormat (bs.take n)) e bs :=
  ⟨hlook, hsize.trans (List.length_take_le' n bs), headerFormat_take hsize⟩

/-- What `zdb_ts_ensure_header_ex` reports is the format of the file's header. -/
theorem ensureHeaderEx_format (cfg : Cfg) (name path : Bytes) (baseTsMs : UInt64) (e : Sys) :
    Yields (ensureHeaderEx cfg name path baseTsMs) e (fun vb t => ∃ bs, HeaderAt path vb t bs) fun _ _ => True := by
  apply yields_bind (yields_io (fsOpen_create_yields e path))
  intro _ t hopen
  have hheld : t.look path = some (e.contents path) := by rw [hopen.2.look, Function.update_self]
  have hcontents : t.contents path = e.contents path := by rw [Env.contents_eq, hheld, Option.getD_some]
  apply yields_bind (yields_io (fsRead_front path hdrSizeV2 t))
  rintro raw u ⟨⟨n, hraw⟩, hread⟩
  rw [hcontents] at hraw
  have hheld : u.look path = some (e.contents path) := by rw [hread, hheld]
  dsimp only
  split
  · -- Nothing was read: the header goes over the front of whatever the file holds.
    obtain ⟨hsize, hformat⟩ := newHeader_format cfg name baseTsMs
    generalize newHeader cfg name baseTsMs = new at hsize hformat ⊢
    obtain ⟨hdr, version, baseTs⟩ := new
    dsimp only at hsize hformat ⊢
    apply yields_bind (yields_io (call_yields u))
    intro _ v hcall
    have hheld : v.look path = some (e.contents path) := by rw [hcall.2.look, hheld]
    apply yields_bind (yields_io (fsWrite_yields v hheld 0 hdr))
    intro wr w hwrite
    apply yields_guard (fun _ => trivial)
    intro hwr
    apply yields_pure
    have hwrite := hwrite.2.2.look
    rw [not_not.mp hwr, List.take_length] at hwrite
    have hbytes : writeAt (e.contents path) 0 hdr = hdr ++ (e.contents path).drop hdr.length := by simp [writeAt]
    have hversion : field hdr 4 2 = version := congrArg Prod.fst hformat
    refine ⟨hdr ++ (e.contents path).drop hdr.length, ?_, ?_, ?_⟩
    · rw [hwrite, Function.update_self, hbytes]
    · rw [hsize, List.length_append]
      exact Nat.le_add_right _ _
    · rw [headerFormat_append (by rw [hversion, hsize]), hformat]
  · split
    · exact trivial
    · rename_i hv1
      have hfront {format : Nat × UInt64} {v : Sys} (hw : Within (fun _ => False) u v) (hformat : headerFormat raw = format)
          (hsize : hdrSizeFor (field raw 4 2) ≤ raw.length) : ∃ bs, HeaderAt path format v bs := by
        refine ⟨e.contents path, ?_⟩
        rw [← hformat, hraw]
        exact .of_front (by rw [(leads_of_within hw).look, hheld]) (hraw ▸ hsize)
      split
      · rename_i hversion
        apply yields_guard (fun _ => trivial)
        intro hv2
        have hdecode := (streamHeaderV2Decode_base raw name u).and
          ((show Always (Within fun _ => False) _ from keeps_streamHeaderV2Decode raw name).yields u)
        apply yields_bind (hdecode.imp (fun _ _ h => h) fun _ _ _ => trivial)
        rintro baseTs v ⟨rfl, hw⟩
        refine yields_pure (hfront hw ?_ ?_)
        · rw [headerFormat, if_pos hversion, hversion]
        · rw [hversion]
          exact Nat.not_lt.mp hv2
      · rename_i hversion
        have hdecode := (show Always (Within fun _ => False) _ from keeps_streamHeaderDecode raw name).yields u
        apply yields_bind (hdecode.imp (fun _ _ h => h) fun _ _ _ => trivial)
        intro _ v hw
        refine yields_pure (hfront hw ?_ ?_)
        · rw [headerFormat, if_neg hversion]
        · rw [hdrSizeFor, if_neg hversion]
          exact Nat.not_lt.mp hv1

structure Touches (P : Path → Prop) (s t : Noted Sys Trail) : Prop where
  within : Within P s.st t.st
  grows : Trail.Grows s.notes t.notes

theorem touches_chains (P : Path → Prop) : Chains (Touches P) where
  refl s := ⟨(within_chains P).refl s.st, .refl _⟩
  trans h k := ⟨(within_chains P).trans h.within k.within, h.grows.trans k.grows⟩

theorem ensureHeaderEx_touches (cfg : Cfg) (name path : Bytes) (baseTsMs : UInt64) (s : Noted Sys Trail) :
    Yields (Trail.ensureHeaderEx cfg name path baseTsMs) s
      (fun vb t => Touches (· = path) s t ∧ ∃ bs, HeaderAt path vb t.st bs) fun _ t => Touches (· = path) s t := by
  have hwithin : Always (Within (· = path)) (ensureHeaderEx cfg name path baseTsMs) :=
    keeps_ensureHeaderEx (P := (· = path)) cfg name rfl baseTsMs
  have hgrows : Always Trail.EnvTells (Trail.ensureHeaderEx cfg name path baseTsMs) := Trail.tells_ensureHeaderEx name path baseTsMs
  have hplain := (ensureHeaderEx_format cfg name path baseTsMs s.st).and (hwithin.yields s.st)
  refine ((yields_of_carries (Trail.plain_ensureHeaderEx name path baseTsMs) hplain).and (hgrows.yields s)).imp ?_ ?_
  · exact fun vb t h => ⟨⟨h.1.2, h.2.grows⟩, h.1.1⟩
  · exact fun _ t h => ⟨h.1.2, h.2.grows⟩

namespace Trail

theorem Fine.earlier {t u : Trail} (h : u.Fine) (hgrows : t.marks <:+ u.marks) : t.Fine := fun k hk => h k (hgrows.subset hk)

theorem grows_leaveWhen {σ : Type} (c : σ → Bool) (k : Mark) (t : Noted σ Trail) :
    let u := if c t.st then { t with notes := t.notes.add k } else t
    u.st = t.st ∧ Grows t.notes u.notes ∧ (k ∉ u.notes.marks → c t.st = false) := by
  dsimp only
  split
  · exact ⟨rfl, grows_add k _, fun hnone => absurd (.head _) hnone⟩
  · exact ⟨rfl, .refl _, fun _ => Bool.eq_false_iff.mpr ‹_›⟩

theorem yields_leaveWhen {σ ε : Type} {c : σ → Bool} {k : Mark} (s : Noted σ Trail) {E : ε → Noted σ Trail → Prop} :
    Yields (leaveWhen c k) s
      (fun _ t => t.st = s.st ∧ Grows s.notes t.notes ∧ (k ∉ t.notes.marks → c s.st = false)) E := grows_leaveWhen c k s

theorem yields_orLeave {σ ε α : Type} {c : σ → Bool} {k : Mark} {m : TrailM σ ε α} {s : Noted σ Trail}
    {P : α → Noted σ Trail → Prop} {E : ε → Noted σ Trail → Prop} (h : Yields m s P E) :
    Yields (orLeave c k m) s P fun r u =>
      ∃ t, E r t ∧ u.st = t.st ∧ Grows t.notes u.notes ∧ (k ∉ u.notes.marks → c t.st = false) :=
  yields_orUndo (h.imp (fun _ _ h => h) fun _ t h => ⟨t, h, grows_leaveWhen c k t⟩)

theorem yields_marked {ε : Type} {c : SlotSt → Bool} {k : Mark} (f : StreamCtx → StreamCtx) (s : Noted SlotSt Trail)
    {E : ε → Noted SlotSt Trail → Prop} : Yields (do
      leaveWhen c k
      silent (updSlot f) : TrailM SlotSt ε Unit) s
      (fun _ t => t.st = ⟨f s.st.slot, s.st.env⟩ ∧ Grows s.notes t.notes ∧ (k ∉ t.notes.marks → c s.st = false)) E := by
  apply yields_bind (yields_leaveWhen s)
  intro _ t ht
  refine yields_of_run rfl ⟨?_, ht.2.1, ht.2.2⟩
  rw [← ht.1]

theorem Fine.not_mem {t : Trail} (h : t.Fine) {k : Mark} (hk : k.mishap = true) : k ∉ t.marks := fun hmem => by
  rw [h k hmem] at hk
  cases hk

end Trail

structure Unrobbed (p : Path) (s t : Noted Sys Trail) : Prop where
  grows : Trail.Grows s.notes t.notes
  kept : t.notes.Fine → ∀ q ∈ s.notes.others, q ≠ p → t.st.look q = s.st.look q

theorem unrobbed_chains (p : Path) : Chains (Unrobbed p) where
  refl _ := ⟨.refl _, fun _ _ _ _ => rfl⟩
  trans h k := by
    refine ⟨h.grows.trans k.grows, fun hfine q hq hne => ?_⟩
    exact (k.kept hfine q (h.grows.others ▸ hq) hne).trans (h.kept (hfine.earlier k.grows.marks) q hq hne)

theorem unrobbed_adoptLegacy (cfg : Cfg) (name : Bytes) :
    Always (Unrobbed (segmentPath cfg name 0)) (Trail.adoptLegacy cfg name) := fun s => by
  have hR := unrobbed_chains (segmentPath cfg name 0)
  apply keeps_bind hR (keeps_rethrow hR _ s)
  intro legacy t _
  apply keeps_bind hR (keeps_rethrow hR _ t)
  intro seg u hseg
  have hseg := segmentPath_of_run hseg
  have hstat : Always (Unrobbed (segmentPath cfg name 0)) (silent (attempt (fsStat legacy)) : Trail.TrailM Sys Status _) :=
    always_zoom (fun e => keeps_fsStat legacy e) fun s t h => ⟨.refl _, fun _ q _ _ => congrFun (leads_of_within h).look q⟩
  apply keeps_bind hR (hstat u)
  intro info v _
  cases info with
  | error _ => exact keeps_pure hR _ v
  | ok _ =>
    have hplain : Yields (toStatus (fsRename legacy seg)) v.st
        (fun _ e => ∃ bs, e.look = Function.update (Function.update v.st.look legacy none) seg (some bs))
        fun _ e => e.look = v.st.look :=
      yields_adaptExcept _ ((fsRename_yields v.st legacy seg).imp (fun _ _ ⟨_, bs, _, h⟩ => ⟨bs, h.look⟩) fun _ _ h => h.2.look)
    refine Yields.post (Q := Unrobbed _ v) (yields_bind ((yields_silent hplain).imp (fun _ _ h => h) fun _ w hw => ?_) ?_)
    · exact ⟨hw.2 ▸ .refl _, fun _ q _ _ => congrFun hw.1 q⟩
    · rintro _ w ⟨⟨bs, hlook⟩, hnotes⟩
      have hkept {q : Path} (hq : q ≠ legacy) (hne : q ≠ segmentPath cfg name 0) : w.st.look q = v.st.look q := by
        rw [hlook, hseg, Function.update_of_ne hne, Function.update_of_ne hq]
      show Unrobbed _ v { w with notes := if legacy ∈ w.notes.others then w.notes.add .robbed else w.notes }
      rw [hnotes]
      split
      · exact ⟨Trail.grows_add _ _, fun hfine => absurd (hfine .robbed (.head _)) (by decide)⟩
      · rename_i hfree
        exact ⟨.refl _, fun _ q hq hne => hkept (fun heq => hfree (heq ▸ hq)) hne⟩

/-- Who the stream is stays, and so do, as long as no mishap is marked, the segments that the others append to. -/
structure Respects (cfg : Cfg) (s t : Noted SlotSt Trail) : Prop where
  name : t.st.slot.name = s.st.slot.name
  inUse : t.st.slot.inUse = s.st.slot.inUse
  grows : Trail.Grows s.notes t.notes
  others : t.notes.Fine → ∀ name seq bs, name ≠ s.st.slot.name → segmentPath cfg name seq ∈ s.notes.others →
    s.st.env.look (segmentPath cfg name seq) = some bs → t.st.env.look (segmentPath cfg name seq) = some bs

structure SlotTallies (cfg : Cfg) (s t : Noted SlotSt Trail) : Prop extends Respects cfg s t where
  counts : t.notes.Fine → s.st.slot.Counts cfg s.st.env.look → t.st.slot.Counts cfg t.st.env.look

theorem segmentPath_ne {cfg : Cfg} {a b : Bytes} (h : a ≠ b) (i j : Nat) : segmentPath cfg a i ≠ segmentPath cfg b j :=
  fun heq => h (segmentEntry_eq_segmentEntry (tsPath_injective heq)).1

def OwnSegment (cfg : Cfg) (name : Bytes) (p : Path) : Prop := ∃ seq, p = segmentPath cfg name seq

section Slot
variable {cfg : Cfg} {s t : Noted SlotSt Trail}

theorem respects_chains (cfg : Cfg) : Chains (Respects cfg) where
  refl _ := ⟨rfl, rfl, .refl _, fun _ _ _ _ _ _ h => h⟩
  trans h k := by
    refine ⟨k.name.trans h.name, k.inUse.trans h.inUse, h.grows.trans k.grows, fun hfine name seq bs hne hmem hbs => ?_⟩
    apply k.others hfine name seq bs (h.name ▸ hne) (h.grows.others ▸ hmem)
    exact h.others (hfine.earlier k.grows.marks) name seq bs hne hmem hbs

theorem slotTallies_chains (cfg : Cfg) : Chains (SlotTallies cfg) where
  refl s := ⟨(respects_chains cfg).refl s, fun _ h => h⟩
  trans h k := ⟨(respects_chains cfg).trans h.toRespects k.toRespects, fun hfine hs =>
    k.counts hfine (h.counts (hfine.earlier k.grows.marks) hs)⟩

theorem Respects.unscanned (h : Respects cfg s t) (hun : t.st.slot.segsScanned = false) : SlotTallies cfg s t :=
  ⟨h, fun _ _ hs => by rw [hun] at hs; cases hs⟩

theorem Respects.of_touches {t : Noted Sys Trail} {slot : StreamCtx}
    (h : Touches (OwnSegment cfg s.st.slot.name) ⟨s.st.env, s.notes⟩ t) (hn : slot.name = s.st.slot.name)
    (hu : slot.inUse = s.st.slot.inUse) : Respects cfg s ⟨⟨slot, t.st⟩, t.notes⟩ := by
  refine ⟨hn, hu, h.grows, fun _ name seq bs hne _ hbs => (h.within.lookup _ ?_).trans hbs⟩
  rintro ⟨seq', heq⟩
  exact segmentPath_ne hne _ _ heq

theorem respects_updSlot {ε : Type} {f : StreamCtx → StreamCtx} (hn : ∀ x, (f x).name = x.name)
    (hu : ∀ x, (f x).inUse = x.inUse) : Always (Respects cfg) (silent (updSlot f) : Trail.TrailM SlotSt ε Unit) :=
  fun _ => ⟨hn _, hu _, .refl _, fun _ _ _ _ _ _ h => h⟩

theorem tallies_store {ε : Type} (raw : Bytes) (recSize : Nat) :
    Always (SlotTallies cfg) (Trail.storeRecord cfg raw recSize : Trail.TrailM SlotSt ε Unit) := fun s => by
  refine Yields.post (Q := SlotTallies cfg s) ((Trail.yields_marked _ s).imp (fun _ t ht => ?_) fun _ _ h => h)
  obtain ⟨st, notes⟩ := t
  obtain ⟨rfl, hgrows, -⟩ := ht
  refine ⟨⟨rfl, rfl, hgrows, fun _ _ _ _ _ _ h => h⟩, fun _ hs hscan => ?_⟩
  obtain ⟨bs, hlook, hd⟩ := hs hscan
  exact ⟨bs, hlook, hd.size, hd.format, hd.hdrSize, hd.recSize⟩

theorem tallies_calm {ε α : Type} {m : EStateM ε Sys α} (hm : Always (Calm cfg) m) :
    Always (SlotTallies cfg) (silent (onSys m) : Trail.TrailM SlotSt ε α) := fun s => by
  unfold Keeps silent onSys
  rw [post_zoom, post_zoom]
  have hcalm := hm s.st.env
  refine ⟨⟨rfl, rfl, .refl _, fun _ name seq bs _ _ => hcalm.segments name seq bs⟩, fun _ hs hscan => ?_⟩
  obtain ⟨bs, hlook, hd⟩ := hs hscan
  exact ⟨bs, hcalm.segments _ _ _ hlook, hd⟩

theorem tallies_getSlot {ε : Type} : Always (SlotTallies cfg) (silent getSlot : Trail.TrailM SlotSt ε StreamCtx) :=
  fun s => (slotTallies_chains cfg).refl s

theorem respects_adoptLegacy (s : Noted SlotSt Trail) :
    Keeps (fun s t => Respects cfg s t ∧ t.st.slot = s.st.slot) (Trail.onSys (Trail.adoptLegacy cfg s.st.slot.name)) s := by
  have h := unrobbed_adoptLegacy cfg s.st.slot.name ⟨s.st.env, s.notes⟩
  unfold Keeps Trail.onSys noting
  rw [post_zoom]
  refine ⟨⟨rfl, rfl, h.grows, fun hfine name seq bs hne hmem hbs => ?_⟩, rfl⟩
  exact (h.kept hfine _ hmem (segmentPath_ne hne _ _)).trans hbs

theorem run_silent_getSlot {ε : Type} (s : Noted SlotSt Trail) :
    (silent getSlot : Trail.TrailM SlotSt ε StreamCtx).run s = .ok s.st.slot s := rfl

theorem run_silent_updSlot {ε : Type} (f : StreamCtx → StreamCtx) (s : Noted SlotSt Trail) :
    (silent (updSlot f) : Trail.TrailM SlotSt ε Unit).run s = .ok () ⟨⟨f s.st.slot, s.st.env⟩, s.notes⟩ := rfl

theorem run_silent_onSys {ε ε' α : Type} (m : EStateM ε Sys α) (s : Noted SlotSt Trail) :
    (silent (onSys (attempt m)) : Trail.TrailM SlotSt ε' (Except ε α)).run s =
      .ok (outcome m s.st.env) ⟨⟨s.st.slot, post m s.st.env⟩, s.notes⟩ := run_zoom (run_zoom (run_attempt m s.st.env))

theorem yields_silent_onSys {ε α : Type} {m : EStateM ε Sys α} {s : Noted SlotSt Trail} {P : α → Sys → Prop}
    {E : ε → Sys → Prop} (h : Yields m s.st.env P E) : Yields (silent (onSys m) : Trail.TrailM SlotSt ε α) s
      (fun a t => ∃ e, t = ⟨⟨s.st.slot, e⟩, s.notes⟩ ∧ P a e) fun r t => ∃ e, t = ⟨⟨s.st.slot, e⟩, s.notes⟩ ∧ E r e :=
  yields_zoom (yields_zoom (h.imp (fun _ e h => ⟨e, rfl, h⟩) fun _ e h => ⟨e, rfl, h⟩))

theorem yields_header {ε : Type} {m : Trail.TrailM Sys ε (Nat × UInt64)} {seq : Nat} {s : Noted SlotSt Trail}
    (h : Yields m ⟨s.st.env, s.notes⟩
      (fun vb t => Touches (· = segmentPath cfg s.st.slot.name seq) ⟨s.st.env, s.notes⟩ t ∧
        ∃ bs, HeaderAt (segmentPath cfg s.st.slot.name seq) vb t.st bs)
      fun _ t => Touches (· = segmentPath cfg s.st.slot.name seq) ⟨s.st.env, s.notes⟩ t) :
    Yields (Trail.onSys m) s
      (fun vb t => t.st.slot = s.st.slot ∧ Touches (OwnSegment cfg s.st.slot.name) ⟨s.st.env, s.notes⟩ ⟨t.st.env, t.notes⟩ ∧
        ∃ bs, HeaderAt (segmentPath cfg s.st.slot.name seq) vb t.st.env bs)
      fun _ t => t.st.slot = s.st.slot ∧
        Touches (OwnSegment cfg s.st.slot.name) ⟨s.st.env, s.notes⟩ ⟨t.st.env, t.notes⟩ := by
  have hown {t : Noted Sys Trail} (h : Touches (· = segmentPath cfg s.st.slot.name seq) ⟨s.st.env, s.notes⟩ t) :
      Touches (OwnSegment cfg s.st.slot.name) ⟨s.st.env, s.notes⟩ t :=
    ⟨h.within.mono fun _ hp => ⟨seq, hp⟩, h.grows⟩
  refine yields_zoom (h.imp ?_ ?_)
  · exact fun vb t h => ⟨rfl, hown h.1, h.2⟩
  · exact fun _ t h => ⟨rfl, hown h⟩

theorem tallies_learnNewest {s : Noted SlotSt Trail} (hun : s.st.slot.segsScanned = false) (lowest highest : Nat) :
    Keeps (SlotTallies cfg) (Trail.learnNewest cfg s.st.slot.name lowest highest) s := by
  have hR := slotTallies_chains cfg
  have hupd : Always (Respects cfg) (silent (updSlot fun s => { s with oldestSeg := lowest, curSeg := highest }) :
      Trail.TrailM SlotSt Status Unit) := respects_updSlot (fun _ => rfl) fun _ => rfl
  apply keeps_bind hR ((hupd s).unscanned hun)
  intro _ t ht
  obtain ⟨hname, hcur, hun⟩ :
      t.st.slot.name = s.st.slot.name ∧ t.st.slot.curSeg = highest ∧ t.st.slot.segsScanned = false := by
    cases ht
    exact ⟨rfl, rfl, hun⟩
  rw [← hname]
  apply keeps_bind hR (keeps_rethrow hR _ t)
  intro path u hpath
  obtain rfl := (run_rethrow.mp hpath).2
  obtain rfl := segmentPath_of_run hpath
  refine Yields.post (Q := SlotTallies cfg t) (yields_bind
    ((yields_header (ensureHeaderEx_touches _ _ _ _ _)).imp (fun _ _ h => h) ?_) ?_)
  · rintro _ u ⟨hslot, htouch⟩
    exact (Respects.of_touches htouch (congrArg _ hslot) (congrArg _ hslot)).unscanned (hslot ▸ hun)
  rintro ⟨version, baseTs⟩ u ⟨hslot, htouch, bs, hheader⟩
  apply yields_bind (Trail.yields_marked _ u)
  intro _ v hv
  obtain ⟨st, notes₁⟩ := v
  obtain ⟨rfl, hmarked, -⟩ := hv
  apply yields_then (run_silent_onSys _ _)
  dsimp only
  set path := segmentPath cfg t.st.slot.name highest with hp
  have hlook := (leads_of_within (keeps_fsStat path u.st.env)).look
  have hstat : ∀ n, outcome (fsStat path) u.st.env = .ok n → n = bs.length := fun n hn => by
    rw [((fsStat_yields u.st.env path).run_ok (run_of_outcome hn)).1, Env.contents_eq, hheader.look, Option.getD_some]
  have hwithin := keeps_fsStat (P := OwnSegment cfg t.st.slot.name) path u.st.env
  unfold Keeps at hwithin
  generalize outcome (fsStat path) u.st.env = size at hstat ⊢
  generalize post (fsStat path) u.st.env = e at hlook hwithin ⊢
  apply yields_bind (Trail.yields_leaveWhen _)
  intro _ v hv
  obtain ⟨st, notes⟩ := v
  obtain ⟨rfl, hgrows, hfine⟩ := hv
  refine yields_of_run (run_silent_updSlot _ _) ⟨?_, fun hn _ _ => ⟨bs, ?_, ?_⟩⟩
  · refine .of_touches (t := ⟨e, notes⟩) ((touches_chains _).trans htouch ⟨hwithin, hmarked.trans hgrows⟩) ?_ ?_
    · exact (congrArg StreamCtx.name hslot : u.st.slot.name = t.st.slot.name)
    · exact (congrArg StreamCtx.inUse hslot : u.st.slot.inUse = t.st.slot.inUse)
  · show e.look (segmentPath cfg u.st.slot.name u.st.slot.curSeg) = some bs
    rw [hslot, hcur, hlook, hheader.look]
  · refine ⟨?_, hheader.format, rfl, rfl⟩
    show bs.length = hdrSizeFor version + (size.toOption.getD 0 - hdrSizeFor version)
    have hsize : hdrSizeFor version ≤ bs.length := hheader.size
    cases size with
    | ok n =>
      rw [hstat n rfl]
      exact (Nat.add_sub_cancel' hsize).symm
    | error _ =>
      have hnone := hfine (hn.not_mem rfl)
      have hcontents : e.contents path = bs := by rw [Env.contents_eq, hlook, hheader.look, Option.getD_some]
      simp [Except.isOk, Except.toBool, hcontents] at hnone
      simp [Except.toOption, hnone]

theorem keeps_slot {ε α : Type} {R : Noted SlotSt Trail → Noted SlotSt Trail → Prop} {f : StreamCtx → Trail.TrailM SlotSt ε α}
    {s : Noted SlotSt Trail} (h : Keeps R (f s.st.slot) s) : Keeps R (silent getSlot >>= f) s := h

theorem tallies_scanSegments (cfg : Cfg) : Always (SlotTallies cfg) (Trail.scanSegments cfg) := fun s => by
  have hR := slotTallies_chains cfg
  apply keeps_slot
  split
  · exact keeps_pure hR () s
  rename_i hun
  have hun : s.st.slot.segsScanned = false := by simpa using hun
  dsimp only
  split
  · apply keeps_bind hR (keeps_throw hR _ s)
    intro _ _ h
    exact by cases h
  apply keeps_bind hR (tallies_calm (always_attempt (calm_fsList _)) s)
  intro entries t ht
  have hslot : t.st.slot = s.st.slot := by
    cases ht
    rfl
  rw [← hslot] at hun ⊢
  split
  · obtain ⟨hrespects, hsame⟩ := @respects_adoptLegacy cfg t
    apply keeps_bind hR (hrespects.unscanned ((congrArg StreamCtx.segsScanned hsame).trans hun))
    intro _ u hu
    rw [post_of_run hu] at hsame
    rw [← hsame] at hun ⊢
    exact tallies_learnNewest hun 0 0
  · exact tallies_learnNewest hun _ _

structure Sheds (cfg : Cfg) (s t : SlotSt) : Prop where
  slot : { t.slot with oldestSeg := s.slot.oldestSeg } = s.slot
  oldest : s.slot.oldestSeg ≤ t.slot.oldestSeg
  newest : t.slot.oldestSeg = s.slot.oldestSeg ∨ t.slot.oldestSeg ≤ s.slot.curSeg
  within : Within (fun p => ∃ seq, s.slot.oldestSeg ≤ seq ∧ seq < t.slot.oldestSeg ∧ p = segmentPath cfg s.slot.name seq)
    s.env t.env

theorem Sheds.name {s t : SlotSt} (h : Sheds cfg s t) : t.slot.name = s.slot.name := (congrArg StreamCtx.name h.slot :)

theorem Sheds.curSeg {s t : SlotSt} (h : Sheds cfg s t) : t.slot.curSeg = s.slot.curSeg := (congrArg StreamCtx.curSeg h.slot :)

theorem Sheds.look {s t : SlotSt} (h : Sheds cfg s t) {k : Nat} (hk : t.slot.oldestSeg ≤ k) :
    t.env.look (segmentPath cfg s.slot.name k) = s.env.look (segmentPath cfg s.slot.name k) := by
  apply h.within.lookup
  rintro ⟨seq, _, hlt, heq⟩
  have hsame := segmentPath_injective heq
  omega

theorem Sheds.active {s t : SlotSt} (h : Sheds cfg s t) {k : Nat} (hk : s.slot.curSeg ≤ k) :
    t.env.look (segmentPath cfg s.slot.name k) = s.env.look (segmentPath cfg s.slot.name k) := by
  apply h.within.lookup
  rintro ⟨seq, hle, hlt, heq⟩
  have hsame := segmentPath_injective heq
  have hnewest := h.newest
  omega

theorem Sheds.counts {s t : SlotSt} (h : Sheds cfg s t) (hs : s.slot.Counts cfg s.env.look) :
    t.slot.Counts cfg t.env.look := fun hscan => by
  obtain ⟨bs, hlook, hd⟩ := hs ((congrArg StreamCtx.segsScanned h.slot :).symm.trans hscan)
  have hactive : t.slot.activeFile cfg = s.slot.activeFile cfg := by rw [StreamCtx.activeFile, h.name, h.curSeg]; rfl
  rw [← h.slot] at hd
  refine ⟨bs, ?_, hd.size, hd.format, hd.hdrSize, hd.recSize⟩
  rw [hactive, ← hlook]
  exact h.active (Nat.le_refl _)

theorem sheds_chains (cfg : Cfg) : Chains (Sheds cfg) where
  refl s := ⟨rfl, Nat.le_refl _, .inl rfl, (within_chains _).refl _⟩
  trans {a b c} h k := by
    have hnewest := h.newest
    have knewest := k.newest
    have hoverlap := h.oldest
    have koverlap := k.oldest
    rw [h.curSeg] at knewest
    refine ⟨?_, hoverlap.trans koverlap, by omega, (within_chains _).trans (h.within.mono ?_) (k.within.mono ?_)⟩
    · rw [← h.slot, ← k.slot]
    · rintro p ⟨seq, hle, hlt, hp⟩
      exact ⟨seq, hle, by omega, hp⟩
    · rintro p ⟨seq, hle, hlt, hp⟩
      exact ⟨seq, by omega, hlt, h.name ▸ hp⟩

theorem within_spent {P : Path → Prop} {e e' : Sys} (h : Spent e e.look e') : Within P e e' :=
  ⟨fun p _ => congrFun h.look p, h.faults, h.shared, h.written⟩

theorem unlinkIfPresent_within (path : Path) (e : Sys) :
    Yields (unlinkIfPresent path) e (fun _ t => Within (· = path) e t) fun _ t => Within (fun _ => False) e t := by
  have hunlink : Yields (fsUnlink path) e (fun _ t => Within (· = path) e t) fun _ t => Within (fun _ => False) e t :=
    (fsUnlink_yields e path).imp (fun _ _ h => h.2.2.toLeads.within rfl) fun _ _ h => within_spent h.2
  apply yields_bind (yields_attempt hunlink)
  intro r t h
  cases r with
  | ok _ => exact yields_pure h
  | error err =>
    have hstill : Within (fun _ => False) e t := h
    have hgone : Within (· = path) e t := hstill.mono fun _ => False.elim
    cases err <;> first | exact yields_pure hgone | exact yields_throw h

theorem discardSegment_within (cfg : Cfg) (path : Path) (e : Sys) :
    Yields (discardSegment cfg path) e (fun _ t => Within (· = path) e t) fun _ t => Within (fun _ => False) e t := by
  unfold discardSegment
  split
  · have hstat : Yields (fsStat path) e (fun _ t => Within (fun _ => False) e t) fun _ t => Within (fun _ => False) e t :=
      (fsStat_yields e path).imp (fun _ _ h => within_spent h.2) fun _ _ h => within_spent h.2
    apply yields_bind (yields_attempt hstat)
    intro r t h
    have hstill : Within (fun _ => False) e t := by cases r <;> exact h
    refine (unlinkIfPresent_within path t).imp (fun _ u hu => ?_) fun _ u hu => (within_chains _).trans hstill hu
    exact (within_chains _).trans (hstill.mono fun _ => False.elim) hu
  · exact unlinkIfPresent_within path e

theorem sheds_discardSegments (n : Nat) : Always (Sheds cfg) (discardSegments cfg n) := by
  have hR := sheds_chains cfg
  induction n with
  | zero => exact always_pure hR ()
  | succ n ih =>
    intro s
    unfold discardSegments
    apply keeps_getSlot_bind
    split
    · rename_i hmany
      apply keeps_bind hR (keeps_rethrow hR _ s)
      intro path t hpath
      obtain rfl := (run_rethrow.mp hpath).2
      obtain rfl : path = segmentPath cfg s.slot.name s.slot.oldestSeg := buildEntryPath_ok (run_rethrow.mp hpath).1
      have hold : s.slot.oldestSeg < s.slot.curSeg := by
        have := cfg.two_le_maxSegments
        omega
      have hgone := discardSegment_within cfg (segmentPath cfg s.slot.name s.slot.oldestSeg) s.env
      cases hrun : (discardSegment cfg (segmentPath cfg s.slot.name s.slot.oldestSeg)).run s.env with
      | error r e =>
        have hkept := hgone.run_error hrun
        have hfails : (onSys (discardSegment cfg (segmentPath cfg s.slot.name s.slot.oldestSeg))).run s =
          .error r ⟨s.slot, e⟩ := run_zoom_error hrun
        unfold Keeps
        rw [post_of_error (run_fails hfails)]
        exact ⟨rfl, Nat.le_refl _, .inl rfl, hkept.mono fun _ => False.elim⟩
      | ok x e =>
        have hremoved := hgone.run_ok hrun
        have hgoes : (onSys (discardSegment cfg (segmentPath cfg s.slot.name s.slot.oldestSeg))).run s =
          .ok x ⟨s.slot, e⟩ := run_onSys hrun
        unfold Keeps
        rw [post_then hgoes, post_then (run_updSlot _ _)]
        have hstep : Sheds cfg s ⟨{ s.slot with oldestSeg := s.slot.oldestSeg + 1 }, e⟩ := by
          refine ⟨rfl, Nat.le_succ _, .inr hold, hremoved.mono ?_⟩
          intro p hp
          exact ⟨s.slot.oldestSeg, Nat.le_refl _, Nat.lt_succ_self _, hp⟩
        exact hR.trans hstep (ih _)
    · exact keeps_pure hR () s

def Starts (cfg : Cfg) (s t : Noted SlotSt Trail) : Prop :=
  Respects cfg s t ∧ (t.notes.Fine → t.st.slot.Counts cfg t.st.env.look)

theorem starts_openSegment (baseTsMs : UInt64) {s : Noted SlotSt Trail} (hbytes : s.st.slot.curSegBytes = 0) :
    Keeps (Starts cfg) (Trail.openSegment cfg baseTsMs) s := by
  have hR := respects_chains cfg
  have hstop {t u : Noted SlotSt Trail} (h : Respects cfg s t) (hst : u.st = t.st) (hgrows : Trail.Grows t.notes u.notes)
      (hfine : u.notes.Fine → true = false) : Starts cfg s u :=
    ⟨⟨hst ▸ h.name, hst ▸ h.inUse, h.grows.trans hgrows, fun hf => nomatch hfine hf⟩, fun hf => nomatch hfine hf⟩
  refine Yields.post (Q := Starts cfg s) (yields_then (run_silent_getSlot s) ?_)
  dsimp only
  have hpath : Yields (rethrow (buildSegmentPath cfg s.st.slot.name s.st.slot.curSeg) : Trail.TrailM SlotSt Errno Path) s
      (fun path t => path = segmentPath cfg s.st.slot.name s.st.slot.curSeg ∧ s = t) fun _ t => s = t := by
    apply yields_rethrow
    cases hbuild : buildSegmentPath cfg s.st.slot.name s.st.slot.curSeg with
    | ok path => exact ⟨buildEntryPath_ok hbuild, rfl⟩
    | error _ => exact rfl
  refine yields_bind ((Trail.yields_orLeave hpath).imp (fun _ _ h => h) ?_) ?_
  · rintro _ u ⟨_, rfl, hst, hgrows, hfine⟩
    exact hstop (hR.refl _) hst hgrows fun hf => hfine (hf.not_mem rfl)
  rintro _ _ ⟨rfl, rfl⟩
  set path := segmentPath cfg s.st.slot.name s.st.slot.curSeg with hp
  have hheader : Yields (orFail Errno.EIO (Trail.ensureHeaderEx cfg s.st.slot.name path baseTsMs)) ⟨s.st.env, s.notes⟩
      (fun vb t => Touches (· = path) ⟨s.st.env, s.notes⟩ t ∧ ∃ bs, HeaderAt path vb t.st bs)
      fun _ t => Touches (· = path) ⟨s.st.env, s.notes⟩ t := yields_adaptExcept _ (ensureHeaderEx_touches cfg _ _ _ _)
  refine yields_bind ((Trail.yields_orLeave (yields_header hheader)).imp (fun _ _ h => h) ?_) ?_
  · rintro _ u ⟨t, ⟨hslot, htouch⟩, hst, hgrows, hfine⟩
    exact hstop (t := t) (.of_touches htouch (congrArg _ hslot) (congrArg _ hslot)) hst hgrows fun hf => hfine (hf.not_mem rfl)
  rintro ⟨version, baseTs⟩ t ⟨hslot, htouch, bs, hheader⟩
  apply yields_bind (Trail.yields_leaveWhen t)
  intro _ u hu
  obtain ⟨st, notes₁⟩ := u
  obtain ⟨rfl, hgrows, hfine⟩ := hu
  apply yields_bind (Trail.yields_marked _ _)
  intro _ v hmarked
  obtain ⟨st, notes⟩ := v
  obtain ⟨rfl, hmarked, -⟩ := hmarked
  set v : Noted SlotSt Trail := ⟨⟨t.st.slot.setFormat version baseTs, t.st.env⟩, notes⟩ with hv
  have hcounts : notes.Fine → v.st.slot.Counts cfg v.st.env.look := fun hf _ => by
    refine ⟨bs, ?_, ?_, hheader.format, rfl, rfl⟩
    · show t.st.env.look (segmentPath cfg t.st.slot.name t.st.slot.curSeg) = some bs
      rw [hslot, hheader.look]
    · have hcontents : t.st.env.contents path = bs := by rw [Env.contents_eq, hheader.look, Option.getD_some]
      have hsize : bs.length = hdrSizeFor version := by
        simpa [hcontents] using hfine ((hf.earlier hmarked.marks).not_mem rfl)
      show bs.length = hdrSizeFor version + t.st.slot.curSegBytes
      rw [hslot, hbytes, hsize, Nat.add_zero]
  have hrespects : Respects cfg s v := by
    refine .of_touches (t := ⟨t.st.env, notes⟩) ((touches_chains _).trans htouch ⟨(within_chains _).refl _, hgrows.trans hmarked⟩) ?_ ?_
    · exact (congrArg StreamCtx.name hslot : t.st.slot.name = s.st.slot.name)
    · exact (congrArg StreamCtx.inUse hslot : t.st.slot.inUse = s.st.slot.inUse)
  have hstarted {w : Noted SlotSt Trail} (hshed : Sheds cfg v.st w.st) (hnotes : w.notes = v.notes) : Starts cfg s w := by
    obtain ⟨st, _⟩ := w
    obtain rfl := hnotes
    refine ⟨hR.trans hrespects ?_, fun hf => hshed.counts (hcounts hf)⟩
    exact .of_touches (t := ⟨st.env, v.notes⟩) ⟨hshed.within.mono fun _ ⟨seq, _, _, hp⟩ => ⟨seq, hp⟩, .refl _⟩ hshed.name
      (congrArg StreamCtx.inUse hshed.slot :)
  split
  · have hshed := (@sheds_discardSegments cfg (s.st.slot.curSeg - s.st.slot.oldestSeg + 1)).yields v.st
    exact (yields_silent hshed).imp (fun _ _ h => hstarted h.1 h.2) fun _ _ h => hstarted h.1 h.2
  · exact yields_pure (hstarted ((sheds_chains cfg).refl _) rfl)

theorem tallies_startSegment (baseTsMs : UInt64) : Always (SlotTallies cfg) (Trail.startSegment cfg baseTsMs) := fun s => by
  have hupd : Always (Respects cfg) (silent (updSlot fun s => { s with curSeg := s.curSeg + 1, curSegBytes := 0 }) :
      Trail.TrailM SlotSt Errno Unit) := respects_updSlot (fun _ => rfl) fun _ => rfl
  have hrun := run_silent_updSlot (ε := Errno) (fun s => { s with curSeg := s.curSeg + 1, curSegBytes := 0 }) s
  have hstart := @starts_openSegment cfg baseTsMs ⟨⟨{ s.st.slot with curSeg := s.st.slot.curSeg + 1, curSegBytes := 0 },
    s.st.env⟩, s.notes⟩ rfl
  unfold Keeps at hstart ⊢
  unfold Trail.startSegment
  rw [post_then hrun]
  exact ⟨(respects_chains cfg).trans (hupd s) hstart.1, fun hfine _ => hstart.2 hfine⟩

theorem tallies_activePath (cfg : Cfg) : Always (SlotTallies cfg) (Trail.activePath cfg) :=
  Trail.always_activePath (slotTallies_chains cfg) tallies_getSlot (tallies_scanSegments cfg)

theorem activePath_active (hs : cfg.segmented = true) {path : Path} (h : (Trail.activePath cfg).run s = .ok path t) :
    path = t.st.slot.activeFile cfg := by
  unfold Trail.activePath at h
  rw [if_pos hs] at h
  obtain ⟨_, u, -, h⟩ := of_run_bind h
  obtain ⟨slot, v, hslot, h⟩ := of_run_bind h
  cases hslot
  obtain ⟨hpath, rfl⟩ := run_rethrow.mp h
  exact buildEntryPath_ok hpath

theorem tallies_unchanged {u w : Noted SlotSt Trail} {e : Sys} {path : Path} {held bs : Bytes}
    (hheld : u.st.env.look path = some held) (hown : OwnSegment cfg u.st.slot.name path)
    (hleads : Leads u.st.env (Function.update u.st.env.look path (some bs)) e) (hst : w.st = ⟨u.st.slot, e⟩)
    (hgrows : Trail.Grows u.notes w.notes) (hfine : w.notes.Fine → Trail.changed path held e = false) :
    SlotTallies cfg u w := by
  obtain ⟨_, notes⟩ := w
  obtain rfl := hst
  refine ⟨.of_touches (t := ⟨e, notes⟩) ⟨hleads.within hown, hgrows⟩ rfl rfl, fun hf hcounts => ?_⟩
  have hsame : bs = held := by
    have h := hfine hf
    rw [Trail.changed, Env.contents_eq, hleads.look, Function.update_self, Option.getD_some] at h
    simpa using h
  have hlook : e.look = u.st.env.look := by rw [hleads.look, hsame, Function.update_eq_self_iff, hheld]
  show u.st.slot.Counts cfg e.look
  rwa [hlook]

theorem tallies_writeBuffer (hs : cfg.segmented = true) (buf : Bytes) (used : Nat) :
    Always (SlotTallies cfg) (Trail.writeBuffer cfg buf used) := fun s => by
  have hR := slotTallies_chains cfg
  apply keeps_bind hR (tallies_activePath cfg s)
  intro path t hpath
  have hactive := activePath_active hs hpath
  apply keeps_bind hR (tallies_calm (calm_fsOpen_create path) t)
  intro _ u hu
  obtain ⟨e, rfl, _, hopen⟩ := (yields_silent_onSys (fsOpen_create_yields t.st.env path)).run_ok hu
  apply keeps_get_bind
  dsimp only
  set held := e.contents path with hheld
  have hlook : e.look path = some held := by
    rw [hheld, Env.contents_eq, hopen.look, Function.update_self, Option.getD_some]
  have hown : OwnSegment cfg t.st.slot.name path := ⟨_, hactive⟩
  refine Yields.post (Q := SlotTallies cfg _) ?_
  have happend := yields_silent_onSys (s := ⟨⟨t.st.slot, e⟩, t.notes⟩) (fsAppend_yields e hlook (buf.take used))
  refine yields_bind ((Trail.yields_orLeave happend).imp (fun _ _ h => h) ?_) ?_
  · rintro _ w ⟨_, ⟨e', rfl, n, _, hspent⟩, hst, hgrows, hfine⟩
    exact tallies_unchanged hlook hown hspent.toLeads hst hgrows fun hf => hfine (hf.not_mem rfl)
  rintro wr _ ⟨e', rfl, _, hle, hspent⟩
  dsimp only
  split
  · refine yields_bind (Trail.yields_leaveWhen _) fun _ w ⟨hst, hgrows, hfine⟩ => ?_
    exact tallies_unchanged hlook hown hspent.toLeads hst hgrows fun hf => hfine (hf.not_mem rfl)
  rename_i hwr
  obtain rfl := not_not.mp hwr
  have hcalled {e'' : Sys} (h : Spent e' e'.look e'') : Leads e (Function.update e.look path (some (held ++ (buf.take wr).take wr))) e'' :=
    hspent.look ▸ hspent.toLeads.trans h.toLeads
  have hcall := yields_silent_onSys (s := ⟨⟨t.st.slot, e'⟩, t.notes⟩) (call_yields e')
  refine yields_bind ((Trail.yields_orLeave hcall).imp (fun _ _ h => h) ?_) ?_
  · rintro _ w ⟨_, ⟨e'', rfl, _, hspent⟩, hst, hgrows, hfine⟩
    exact tallies_unchanged hlook hown (hcalled hspent) hst hgrows fun hf => hfine (hf.not_mem rfl)
  rintro _ _ ⟨e'', rfl, _, hspent⟩
  have hleads := hcalled hspent
  refine yields_of_run (run_silent_updSlot _ _) ⟨?_, fun _ hcounts hscan => ?_⟩
  · exact .of_touches (t := ⟨e'', t.notes⟩) ⟨hleads.within hown, .refl _⟩ rfl rfl
  obtain ⟨bs, hbs, hd⟩ := hcounts hscan
  have hbs : bs = held := by
    rw [← hactive, hlook] at hbs
    exact (Option.some.inj hbs).symm
  have hlen : (buf.take wr).length = wr := (List.length_take_le wr buf).antisymm hle
  have happended := hd.append (buf.take wr) 0
  rw [hlen, hbs] at happended
  refine ⟨held ++ buf.take wr, ?_, ?_⟩
  · show e''.look (t.st.slot.activeFile cfg) = _
    rw [← hactive, hleads.look, Function.update_self, List.take_take, Nat.min_self]
  · simpa only [if_pos hs] using happended

theorem tallies_slotLaw (hs : cfg.segmented = true) : Trail.SlotLaw cfg (SlotTallies cfg) where
  chains := slotTallies_chains cfg
  getSlot := tallies_getSlot
  store := tallies_store
  start := tallies_startSegment
  write := tallies_writeBuffer hs

end Slot

structure Stands (cfg : Cfg) (s t : Noted Sys Trail) : Prop where
  grows : Trail.Grows s.notes t.notes
  kept : t.notes.Fine → ∀ name seq bs, s.st.look (segmentPath cfg name seq) = some bs →
    t.st.look (segmentPath cfg name seq) = some bs

section Recovery
variable {cfg : Cfg}

theorem stands_chains (cfg : Cfg) : Chains (Stands cfg) where
  refl _ := ⟨.refl _, fun _ _ _ _ h => h⟩
  trans h k := ⟨h.grows.trans k.grows, fun hfine name seq bs hbs =>
    k.kept hfine name seq bs (h.kept (hfine.earlier k.grows.marks) name seq bs hbs)⟩

theorem stands_calm {ε α : Type} {m : EStateM ε Sys α} (hm : Always (Calm cfg) m) :
    Always (Stands cfg) (silent m : Trail.TrailM Sys ε α) :=
  always_zoom hm fun _ _ h => ⟨.refl _, fun _ => h.segments⟩

theorem stands_still {ε α : Type} {m : Trail.TrailM Sys ε α} {m' : EStateM ε Sys α} (hc : Carries Noted.st m m')
    (hw : ∀ e, Keeps (Within fun _ => False) m' e) (hg : Always Trail.EnvTells m) : Always (Stands cfg) m := fun s => by
  refine ⟨(hg s).grows, fun _ name seq bs hbs => ?_⟩
  rw [← (hc s).2, (leads_of_within (hw s.st)).look, hbs]

theorem stands_silent {ε α : Type} {m : EStateM ε Sys α} (hw : ∀ e, Keeps (Within fun _ => False) m e) :
    Always (Stands cfg) (silent m : Trail.TrailM Sys ε α) :=
  always_zoom hw fun _ _ h => ⟨.refl _, fun _ _ _ _ hbs => (h.lookup _ id).trans hbs⟩

theorem stands_healthCheck {ε : Type} : Always (Stands cfg) (Trail.healthCheck : Trail.TrailM Sys ε Unit) :=
  always_bind (stands_chains cfg) (stands_silent keeps_healthCheck) fun _ => fun _ =>
    ⟨Trail.grows_add _ _, fun _ _ _ _ h => h⟩

theorem stands_recordDecodeAs (version : Nat) (baseTsMs : UInt64) (raw : Bytes) :
    Always (Stands cfg) (Trail.recordDecodeAs version baseTsMs raw) :=
  stands_still (Trail.plain_recordDecodeAs _ _ _) (keeps_recordDecodeAs _ _ _) (Trail.tells_recordDecodeAs _ _ _)

theorem stands_streamHeaderDecode (raw name : Bytes) : Always (Stands cfg) (Trail.streamHeaderDecode raw name) :=
  stands_still (Trail.plain_streamHeaderDecode _ _) (keeps_streamHeaderDecode _ _) (Trail.tells_streamHeaderDecode _ _)

theorem stands_recoverWalk (layout : FileLayout) (path : Path) (fuel goodEnd : Nat) :
    Always (Stands cfg) (Trail.recoverWalk layout path fuel goodEnd) :=
  stands_still (Trail.plain_recoverWalk _ _ _ _) (keeps_recoverWalk _ _ _ _) (Trail.tells_recoverWalk _ _ _ _)

theorem stands_cut (path : Path) (len : Nat) :
    Always (Stands cfg) (silent (toStatus (fsTruncate path len)) >>= fun _ => Trail.leave .cut : Trail.TrailM Sys Status Unit) :=
  fun s => by
    have hcut : Yields (toStatus (fsTruncate path len)) s.st (fun _ _ => True) fun _ e => e.look = s.st.look := by
      apply yields_adaptExcept _
      apply yields_bind ((call_yields s.st).imp (fun _ _ _ => trivial) fun _ _ h => h.2.look)
      exact fun _ _ _ => trivial
    refine Yields.post (Q := Stands cfg s) (yields_bind ((yields_silent hcut).imp (fun _ _ h => h) ?_) ?_)
    · rintro _ t ⟨hlook, hnotes⟩
      exact ⟨hnotes ▸ .refl _, fun _ name seq bs hbs => hlook ▸ hbs⟩
    · rintro _ t ⟨_, hnotes⟩
      refine ⟨hnotes ▸ Trail.grows_add .cut t.notes, fun hfine => absurd (hfine .cut (.head _)) (by decide)⟩

theorem fsWrite_unchanged (path : Path) (off : Nat) (bytes : Bytes) :
    Always (fun e e' : Sys => e'.contents path = e.contents path → ∀ q bs, e.look q = some bs → e'.look q = some bs)
      (fsWrite path off bytes) := fun e => by
  have hwithin := keeps_fsWrite (P := (· = path)) rfl off bytes e
  intro hsame q bs hbs
  by_cases hq : q = path
  · subst hq
    have hsome : (post (fsWrite q off bytes) e).look q ≠ none := by
      refine ((fsWrite_yields e hbs off bytes).imp (fun _ t h => ?_) fun _ t ⟨_, _, h⟩ => ?_).post (Q := fun t => t.look q ≠ none)
      · simp [h.2.2.look]
      · simp [h.look]
    obtain ⟨bs', hbs'⟩ := Option.ne_none_iff_exists'.mp hsome
    rw [Env.contents_eq, Env.contents_eq, hbs, hbs', Option.getD_some, Option.getD_some] at hsame
    rw [hbs', hsame]
  · exact (hwithin.lookup q hq).trans hbs

theorem stands_rewrite {α : Type} (path : Path) (hdr : Bytes) {g : Nat → Trail.TrailM Sys Status α}
    (hg : ∀ wr, Always (Stands cfg) (g wr)) (s : Noted Sys Trail) :
    Keeps (Stands cfg) (do
      let wr ← Trail.orLeave (Trail.changed path (s.st.contents path)) .rewritten (silent (toStatus (fsWrite path 0 hdr)))
      Trail.leaveWhen (Trail.changed path (s.st.contents path)) .rewritten
      g wr) s := by
  have hR := stands_chains cfg
  let same (e : Sys) : Prop :=
    e.contents path = s.st.contents path → ∀ q bs, s.st.look q = some bs → e.look q = some bs
  have hplain : Yields (toStatus (fsWrite path 0 hdr)) s.st (fun _ e => same e) fun _ e => same e :=
    (always_adaptExcept statusFromErrno (fsWrite_unchanged path 0 hdr)).yields s.st
  have hwrite := yields_silent hplain
  have hstands {t u : Noted Sys Trail} (h : same t.st ∧ t.notes = s.notes) (hst : u.st = t.st)
      (hgrows : Trail.Grows t.notes u.notes) (hfine : u.notes.Fine → Trail.changed path (s.st.contents path) t.st = false) :
      Stands cfg s u := by
    refine ⟨h.2 ▸ hgrows, fun hf name seq bs hbs => ?_⟩
    rw [hst]
    exact h.1 (by simpa [Trail.changed] using hfine hf) _ bs hbs
  refine Yields.post (Q := Stands cfg s) (yields_bind
    ((Trail.yields_orLeave hwrite).imp (fun _ _ h => h) ?_) ?_)
  · rintro _ u ⟨t, h, hst, hgrows, hfine⟩
    exact hstands h hst hgrows fun hf => hfine (hf.not_mem rfl)
  · intro wr t h
    refine yields_bind (Trail.yields_leaveWhen t) fun _ u ⟨hst, hgrows, hfine⟩ => ?_
    exact ((hg wr).yields u).imp (fun _ _ k => hR.trans (hstands h hst hgrows fun hf => hfine (hf.not_mem rfl)) k)
      fun _ _ k => hR.trans (hstands h hst hgrows fun hf => hfine (hf.not_mem rfl)) k

theorem stands_recoverFile (cfg : Cfg) (name path : Bytes) : Always (Stands cfg) (Trail.recoverFile name path) := by
  have hR := stands_chains cfg
  apply always_bind hR (stands_calm (calm_probeLayout path))
  intro layout
  apply always_bind hR (stands_calm (always_adaptExcept _ (calm_fsOpen_create path)))
  intro _
  refine always_bind hR (stands_calm (always_adaptExcept _ (calm_fsRead _ _ _))) fun hdr => always_ite ?_ (always_guard hR ?_)
  · apply always_bind hR (stands_calm (always_adaptExcept _ calm_call))
    intro _
    refine fun s => keeps_get_bind ?_
    exact stands_rewrite path _ (g := fun wr => if wr ≠ hdrSizeV1 then throw Status.ERR_IO >>= fun _ => pure 0 else pure 0)
      (fun wr => always_guard hR (always_pure hR 0)) s
  apply always_when hR (fun _ => stands_streamHeaderDecode _ _)
  apply always_bind hR (stands_calm (always_adaptExcept _ calm_call))
  intro _
  apply always_bind hR (always_get hR)
  intro s
  apply always_bind hR (stands_recoverWalk _ _ _ _)
  intro ends
  apply always_bind hR (stands_calm (always_adaptExcept _ calm_call))
  intro _
  refine always_ite ?_ (always_pure hR _)
  have hstat : Always (Stands cfg) (silent (statRecoverTruncated (ends.2 - ends.1)) : Trail.TrailM Sys Status Unit) :=
    stands_silent (keeps_updStats _)
  have hcut := always_bind hR (@stands_cut cfg path ends.1) fun _ =>
    always_bind hR hstat fun _ => always_pure hR (ends.2 - ends.1)
  rwa [bind_assoc] at hcut

end Recovery

structure App.Tallied (cfg : Cfg) (a : App) : Prop where
  counts : a.Counts cfg
  scanned : ∀ i, (a.slotAt i).segsScanned = true → (a.slotAt i).inUse = true
  distinct : ∀ i j, (a.slotAt i).inUse = true → (a.slotAt j).inUse = true → (a.slotAt i).name = (a.slotAt j).name → i = j

def Tallies (cfg : Cfg) (s t : Noted App Trail) : Prop :=
  s.notes.marks <:+ t.notes.marks ∧ (t.notes.Fine → s.st.Tallied cfg → t.st.Tallied cfg)

section Instance
variable {cfg : Cfg} {a b : App}

theorem tallies_chains (cfg : Cfg) : Chains (Tallies cfg) where
  refl _ := ⟨List.suffix_rfl, fun _ h => h⟩
  trans h k := ⟨h.1.trans k.1, fun hfine hs => k.2 hfine (h.2 (hfine.earlier k.1) hs)⟩

theorem App.Tallied.empty (h : a.tsCtx = none) : a.Tallied cfg where
  counts i hscan := by
    rw [slotAt_zero h] at hscan
    cases hscan
  scanned i hscan := by
    rw [slotAt_zero h] at hscan
    cases hscan
  distinct i _ hi := by
    rw [slotAt_zero h] at hi
    cases hi

theorem App.Tallied.congr (ha : a.Tallied cfg) (hslots : ∀ i, b.slotAt i = a.slotAt i)
    (hfiles : ∀ name seq bs, a.env.look (segmentPath cfg name seq) = some bs → b.env.look (segmentPath cfg name seq) = some bs) :
    b.Tallied cfg where
  counts i hscan := by
    rw [hslots] at hscan ⊢
    obtain ⟨bs, hlook, hd⟩ := ha.counts i hscan
    exact ⟨bs, hfiles _ _ _ hlook, hd⟩
  scanned i := by
    rw [hslots]
    exact ha.scanned i
  distinct i j := by
    rw [hslots, hslots]
    exact ha.distinct i j

theorem App.Tallied.setSlot {i : Nat} {slot : StreamCtx} (hi : HasSlot a i)
    (hcounts : ∀ j, j ≠ i → (a.slotAt j).Counts cfg a.env.look)
    (hscanned : ∀ j, (a.slotAt j).segsScanned = true → (a.slotAt j).inUse = true)
    (hdistinct : ∀ j k, (a.slotAt j).inUse = true → (a.slotAt k).inUse = true → (a.slotAt j).name = (a.slotAt k).name → j = k)
    (hcount : slot.Counts cfg a.env.look) (hscan : slot.segsScanned = true → slot.inUse = true)
    (hname : slot.inUse = true → ∀ j, j ≠ i → (a.slotAt j).inUse = true → (a.slotAt j).name ≠ slot.name) :
    (a.setSlot i slot).Tallied cfg where
  counts j := by
    rw [slotAt_setSlot hi]
    split
    · exact hcount
    · exact hcounts j ‹_›
  scanned j := by
    rw [slotAt_setSlot hi]
    split
    · exact hscan
    · exact hscanned j
  distinct j k := by
    rw [slotAt_setSlot hi, slotAt_setSlot hi]
    split <;> split
    · exact fun _ _ _ => ‹j = i›.trans ‹k = i›.symm
    · exact fun hj hk heq => absurd heq.symm (hname hj k ‹_› hk)
    · exact fun hj hk heq => absurd heq (hname hk j ‹_› hj)
    · exact hdistinct j k

theorem hasSlot_setSlot {i j : Nat} {slot : StreamCtx} (h : HasSlot a j) : HasSlot (a.setSlot i slot) j := by
  obtain ⟨ctx, hctx, hlt⟩ := h
  exact ⟨{ ctx with streams := ctx.streams.set i slot }, by simp [App.setSlot, hctx], by simpa using hlt⟩

theorem App.Tallied.mem_others (ha : a.Tallied cfg) {i j : Nat} (hj : j ≠ i) (hscan : (a.slotAt j).segsScanned = true) :
    (a.slotAt j).activeFile cfg ∈ a.others cfg i := by
  obtain ⟨ctx, hctx, hlt⟩ := hasSlot_of_inUse (ha.scanned j hscan)
  have hrange : j ∈ (List.range ((a.tsCtx.map (·.streams.length)).getD 0)).filter (· != i) := by
    simpa [hctx] using ⟨hlt, hj⟩
  unfold App.others
  exact List.mem_map.mpr ⟨a.slotAt j, List.mem_filter.mpr ⟨List.mem_map.mpr ⟨j, hrange, rfl⟩, hscan⟩, rfl⟩

theorem tallies_onSlot {ε α : Type} {m : Trail.TrailM SlotSt ε α} {i : Nat} {s : Noted App Trail}
    (hin : (s.st.slotAt i).inUse = true) (hm : Always (SlotTallies cfg) m) : Keeps (Tallies cfg) (Trail.onSlot cfg i m) s := by
  have h := hm ⟨⟨s.st.slotAt i, s.st.env⟩, { s.notes with others := s.st.others cfg i }⟩
  unfold Keeps at h
  unfold Keeps Trail.onSlot
  rw [post_zoom]
  generalize post m _ = t at h ⊢
  refine ⟨h.grows.marks, fun hfine ha => ?_⟩
  have hfine : t.notes.Fine := hfine
  show App.Tallied cfg (App.setSlot { s.st with env := t.st.env } i t.st.slot)
  refine .setSlot (hasSlot_of_inUse hin) (fun j hj hscan => ?_) ha.scanned ha.distinct (h.counts hfine (ha.counts i))
    (fun _ => h.inUse.trans hin) fun _ j hj hjin heq => hj (ha.distinct j i hjin hin (heq.trans h.name))
  obtain ⟨bs, hlook, hd⟩ := ha.counts j hscan
  have hne : (s.st.slotAt j).name ≠ (s.st.slotAt i).name := fun heq =>
    hj (ha.distinct j i (ha.scanned j hscan) hin heq)
  exact ⟨bs, h.others hfine _ _ bs hne (ha.mem_others hj hscan) hlook, hd⟩

theorem StreamCtx.Counts.opened {slot : StreamCtx} {look : Path → Option Bytes} (h : slot.Counts cfg look) (n : Nat) :
    StreamCtx.Counts cfg { slot with openCount := n } look := fun hscan => by
  obtain ⟨bs, hlook, hd⟩ := h hscan
  exact ⟨bs, hlook, hd.size, hd.format, hd.hdrSize, hd.recSize⟩

theorem App.Tallied.opened (ha : a.Tallied cfg) {i : Nat} (hi : HasSlot a i) (n : Nat) :
    (a.setSlot i { a.slotAt i with openCount := n }).Tallied cfg :=
  .setSlot hi (fun j _ => ha.counts j) ha.scanned ha.distinct ((ha.counts i).opened n) (ha.scanned i)
    fun hin j hj hjin heq => hj (ha.distinct j i hjin hin heq)

theorem tallied_slotClaim (name : Bytes) : Always (Preserves (App.Tallied cfg)) (slotClaim cfg name) := by
  have hR := preserves_chains (App.Tallied cfg)
  refine fun a => keeps_get_bind ?_
  cases hfind : a.slotFind name with
  | some i => exact fun ha => ha.opened (hasSlot_of_inUse (slotFind_some hfind).1) _
  | none =>
    dsimp only
    cases hvac : a.tsCtx.bind fun ctx => ctx.streams.findIdx? fun slot => !slot.inUse with
    | none => exact keeps_throw hR _ a
    | some i =>
      obtain ⟨ctx, hctx, hidx⟩ := Option.bind_eq_some_iff.mp hvac
      obtain ⟨hlt, -⟩ := List.findIdx?_eq_some_iff_getElem.mp hidx
      have hi : HasSlot a i := ⟨ctx, hctx, hlt⟩
      refine keeps_bind hR ?_ fun _ b hb => ?_
      · exact fun ha => .setSlot hi (fun j _ => ha.counts j) ha.scanned ha.distinct nofun nofun nofun
      have hcall : Always (App.Calm cfg) (onEnv (orFail .ERR_BUSY call) : AppM Status Unit) :=
        calm_onEnv (always_adaptExcept _ calm_call)
      apply keeps_bind hR (fun hb => hb.congr (hcall b).slots (hcall b).env.segments)
      intro _ c hc
      have hslots : ∀ j, c.slotAt j = b.slotAt j := post_of_run hc ▸ (hcall b).slots
      have hfree : ∀ j, j ≠ i → (c.slotAt j).inUse = true → (c.slotAt j).name ≠ name := fun j hj => by
        cases hb
        rw [hslots, slotAt_setSlot hi, if_neg hj]
        exact slotFind_none.mp hfind j
      have hi : HasSlot c i := by
        obtain ⟨_, -, rfl⟩ := of_run_zoom hc
        cases hb
        exact hasSlot_setSlot hi
      exact fun hc => .setSlot hi (fun j _ => hc.counts j) hc.scanned hc.distinct nofun nofun fun _ => hfree

theorem tallied_slotRelease (i : Nat) : Always (Preserves (App.Tallied cfg)) (slotRelease i) := fun a ha => by
  show App.Tallied cfg (if (a.slotAt i).openCount > 1 then _ else _)
  by_cases hi : HasSlot a i
  · split
    · exact ha.opened hi _
    · exact .setSlot hi (fun j _ => ha.counts j) ha.scanned ha.distinct nofun nofun nofun
  · rw [setSlot_beyond hi, setSlot_beyond hi, ite_self]
    exact ha

theorem tallies_quiet {ε α : Type} {m : AppM ε α} (hm : Always (Preserves (App.Tallied cfg)) m) :
    Always (Tallies cfg) (silent m : Trail.TrailM App ε α) := always_zoom hm fun _ _ h => ⟨List.suffix_rfl, fun _ => h⟩

theorem tallies_leave {ε : Type} (k : Mark) : Always (Tallies cfg) (Trail.leave k : Trail.TrailM App ε Unit) :=
  fun _ => ⟨List.suffix_cons _ _, fun _ h => h⟩

theorem tallies_inEnv {ε α : Type} {m : Trail.TrailM Sys ε α} (hm : Always (Stands cfg) m) :
    Always (Tallies cfg) (Trail.onEnv m) :=
  always_zoom hm fun _ _ h => ⟨h.grows.marks, fun hfine ha => ha.congr (fun _ => rfl) (h.kept hfine)⟩

theorem tallies_law (hs : cfg.segmented = true) : Trail.Law cfg (Stands cfg) (SlotTallies cfg) (Tallies cfg) where
  chains := tallies_chains cfg
  onEnv h := ⟨h.grows.marks, fun hfine ha => ha.congr (fun _ => rfl) (h.kept hfine)⟩
  onSlot := tallies_onSlot
  calm h := ⟨List.suffix_rfl, fun _ ha => ha.congr h.slots h.env.segments⟩
  stats _ := tallies_quiet fun _ ha => ha.congr (fun _ => rfl) fun _ _ _ h => h
  lock h := ⟨(List.suffix_cons _ _).trans (h.1.trans (List.suffix_cons _ _)), fun hfine ha =>
    h.2 (fun k hk => hfine k (.tail _ hk)) ha⟩
  overCap := tallies_leave _
  undrained := tallies_leave _
  failed := always_bind (tallies_chains cfg) (tallies_leave _) fun _ => tallies_inEnv stands_healthCheck
  record := stands_recordDecodeAs
  header h := by rw [hs] at h; cases h
  recover := stands_recoverFile cfg
  activePath := tallies_activePath cfg
  scan := tallies_scanSegments cfg
  flush := (tallies_slotLaw hs).flush
  append := (tallies_slotLaw hs).append
  batch := (tallies_slotLaw hs).batch
  claim name := tallies_quiet (tallied_slotClaim name)
  release i := tallies_quiet (tallied_slotRelease i)

end Instance

namespace Host

def Moves (cfg : Cfg) (cap : AggCap) (w : Host) (call : HostCall) (w' : Host) : Prop := w' = (w.step cfg cap call).host

/-- The call comes to nothing that parts a count from its file. -/
def Careful (cfg : Cfg) (cap : AggCap) (w : Host) (call : HostCall) : Prop :=
  ∀ k ∈ (w.step cfg cap call).marks, k.mishap = false

instance (cfg : Cfg) (cap : AggCap) (w : Host) (call : HostCall) : Decidable (Careful cfg cap w call) :=
  inferInstanceAs (Decidable (∀ k ∈ _, _))

variable {cfg : Cfg} {cap : AggCap}

theorem tallied_step (hs : cfg.segmented = true) {w : Host} {call : HostCall} (hw : w.app.Tallied cfg)
    (hcareful : w.Careful cfg cap call) : (w.step cfg cap call).host.app.Tallied cfg := by
  cases hlife : call.lifecycle with
  | true =>
    cases call with
    | op o => cases o <;> first | exact .empty rfl | cases hlife
    | _ => cases hlife
  | false =>
    obtain ⟨_, h⟩ := Host.step_law (tallies_law hs) cap w hlife
    exact h.2 hcareful hw

/-- In a run in which nothing parts a count from its file, every count is the size of its file, and goes with
the format that the file's header states. -/
theorem segment_bytes_exact {env : Sys} {calls : List HostCall} {w : Host} (hs : cfg.segmented = true)
    (h : Steps (Guarded (Careful cfg cap) (Moves cfg cap)) (boot env) calls w) : w.app.Counts cfg := by
  have hkeeps : w.app.Tallied cfg := by
    refine h.keeps (I := fun w => w.app.Tallied cfg) (fun w call w' hw hgo => ?_) (.empty rfl)
    obtain ⟨hcareful, rfl⟩ := hgo
    exact tallied_step hs hw hcareful
  exact hkeeps.counts

/-- A stream takes in more than a segment holds, is read, and is opened again and appended to after a restart. -/
def rolledRun : List HostCall :=
  [.op (.open 0 [65]), .op (.batch 0 ((List.range 12).map fun n => ⟨UInt64.ofNat n, 7⟩)),
    .op (.cursor 0 Window.all none true 40), .op .deinit, .op .init, .op (.open 0 [65]), .op (.append 0 ⟨5, 7⟩),
    .op (.flushSync 0)]

theorem rolled_segment_exact : ∃ w, Steps (Guarded (Careful (Cfg.small true false true 64) ⟨1, by decide⟩)
    (Moves (Cfg.small true false true 64) ⟨1, by decide⟩)) (boot (Sys.blank fun _ => false)) rolledRun w ∧
      w.app.Counts (Cfg.small true false true 64) ∧ (w.app.slotAt 0).segsScanned = true ∧
      (w.app.slotAt 0).curSeg = 1 ∧ (w.app.slotAt 0).curSegBytes = 28 := by
  have hrun : ∃ w, Steps (Guarded (Careful (Cfg.small true false true 64) ⟨1, by decide⟩)
      (Moves (Cfg.small true false true 64) ⟨1, by decide⟩)) (boot (Sys.blank fun _ => false)) rolledRun w ∧
        (w.app.slotAt 0).segsScanned = true ∧ (w.app.slotAt 0).curSeg = 1 ∧ (w.app.slotAt 0).curSegBytes = 28 := by
    refine ⟨_, .cons ⟨?_, rfl⟩ (.cons ⟨?_, rfl⟩ (.cons ⟨?_, rfl⟩ (.cons ⟨?_, rfl⟩ (.cons ⟨?_, rfl⟩ (.cons ⟨?_, rfl⟩
      (.cons ⟨?_, rfl⟩ (.single ⟨?_, rfl⟩))))))), ?_, ?_, ?_⟩
    all_goals decide +kernel
  obtain ⟨w, h, hscan, hseg, hbytes⟩ := hrun
  exact ⟨w, h, segment_bytes_exact rfl h, hscan, hseg, hbytes⟩

/-- A file system on which the first segment of stream `A` ends in five bytes of a torn record. -/
def torn (cfg : Cfg) : Sys :=
  { Sys.blank (fun _ => false) with
    files := [(⟨segmentPath cfg [65] 0, streamHeaderEncode [65] ++ (recordEncode ⟨5, 7⟩ ++ [1, 2, 3, 4, 5])⟩ :
      (_ : Path) × Bytes)].toAList }

/-- The open succeeds, its recovery pass cuts the five bytes off, and they are counted on. -/
theorem recovered_segment_overcounted : ∃ w, Steps (Moves (Cfg.small true false true 64) ⟨1, by decide⟩)
    (boot (torn (Cfg.small true false true 64))) [.op (.open 0 [65])] w ∧
      ((boot (torn (Cfg.small true false true 64))).step (Cfg.small true false true 64) ⟨1, by decide⟩
        (.op (.open 0 [65]))).status = .OK ∧ ¬ w.app.Counts (Cfg.small true false true 64) := by
  have hrun : ∃ w, Steps (Moves (Cfg.small true false true 64) ⟨1, by decide⟩) (boot (torn (Cfg.small true false true 64)))
      [.op (.open 0 [65])] w ∧ (w.app.slotAt 0).segsScanned = true ∧
        (w.app.slotAt 0).segHdrSize + (w.app.slotAt 0).curSegBytes = 49 ∧
        (w.app.env.look ((w.app.slotAt 0).activeFile (Cfg.small true false true 64))).map List.length = some 44 :=
    ⟨_, .single rfl, by decide +kernel, by decide +kernel, by decide +kernel⟩
  obtain ⟨w, h, hscan, hbytes, hfile⟩ := hrun
  refine ⟨w, h, by decide +kernel, fun hcounts => ?_⟩
  obtain ⟨bs, hlook, hd⟩ := hcounts 0 hscan
  have hsize := hd.size
  rw [hlook] at hfile
  rw [hbytes, Option.some.inj hfile] at hsize
  cases hsize

end Host

end ZephyrDB.Ts
