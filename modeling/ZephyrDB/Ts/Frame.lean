import ZephyrDB.Ts.Stream

/-!
What the programs on one slot leave alone, whatever fails on the way: every
file that is not the stream's own, and the slot's identity. A scanned slot's
newest segment number never goes down, and buffered bytes only leave the
buffer by being written to a file of the stream.
-/

set_option autoImplicit false

namespace ZephyrDB.Ts

open Lib

section Sys
variable {P : Path → Prop}

theorem within_side (e : Sys) (d : Diag) : Within P e { e with side := d } :=
  ⟨fun _ _ => rfl, rfl, rfl, List.suffix_rfl⟩

theorem keeps_updStats {ε : Type} (f : TsStats → TsStats) (e : Sys) :
    Keeps (Within P) (updStats f : EStateM ε Sys Unit) e :=
  within_side e _

theorem keeps_healthCheck {ε : Type} (e : Sys) : Keeps (Within P) (healthCheck : EStateM ε Sys Unit) e := by
  apply keeps_modify
  split
  · exact within_side e _
  · exact (within_chains P).refl e

theorem keeps_toStatus {σ α : Type} {R : σ → σ → Prop} {m : EStateM Errno σ α} {s : σ}
    (h : Keeps R m s) : Keeps R (toStatus m) s :=
  keeps_adaptExcept _ h

theorem keeps_orFail {ε ε' σ α : Type} {R : σ → σ → Prop} {m : EStateM ε σ α} {s : σ} (r : ε')
    (h : Keeps R m s) : Keeps R (orFail r m) s :=
  keeps_adaptExcept _ h

theorem keeps_recordDecode (raw : Bytes) (e : Sys) : Keeps (Within P) (recordDecode raw) e := by
  unfold recordDecode
  dsimp only
  repeat' first
    | split
    | exact keeps_pure (within_chains P) _ _
    | exact keeps_throw (within_chains P) _ _
    | exact keeps_updStats _ _
    | exact keeps_healthCheck _
    | refine keeps_bind (within_chains P) ?_ fun _ _ _ => ?_

theorem keeps_recordDecodeAs (version : Nat) (baseTsMs : UInt64) (raw : Bytes) (e : Sys) :
    Keeps (Within P) (recordDecodeAs version baseTsMs raw) e := by
  unfold recordDecodeAs
  dsimp only
  repeat' first
    | split
    | exact keeps_recordDecode raw _
    | exact keeps_pure (within_chains P) _ _
    | exact keeps_throw (within_chains P) _ _
    | exact keeps_updStats _ _
    | exact keeps_healthCheck _
    | refine keeps_bind (within_chains P) ?_ fun _ _ _ => ?_

theorem keeps_streamHeaderDecode (raw name : Bytes) (e : Sys) :
    Keeps (Within P) (streamHeaderDecode raw name) e := by
  unfold streamHeaderDecode
  dsimp only
  repeat' first
    | split
    | exact keeps_pure (within_chains P) _ _
    | exact keeps_throw (within_chains P) _ _
    | exact keeps_updStats _ _
    | refine keeps_bind (within_chains P) ?_ fun _ _ _ => ?_

theorem keeps_streamHeaderV2Decode (raw name : Bytes) (e : Sys) :
    Keeps (Within P) (streamHeaderV2Decode raw name) e := by
  unfold streamHeaderV2Decode
  dsimp only
  repeat' first
    | split
    | exact keeps_pure (within_chains P) _ _
    | exact keeps_throw (within_chains P) _ _
    | exact keeps_updStats _ _
    | refine keeps_bind (within_chains P) ?_ fun _ _ _ => ?_

theorem keeps_cursorLearnLayout (path : Path) (e : Sys) :
    Keeps (Within P) (cursorLearnLayout path) e := by
  apply keeps_bind (within_chains P) (keeps_toStatus (keeps_fsOpen_read path e))
  intro _ t _
  apply keeps_bind (within_chains P) (keeps_attempt (keeps_fsRead path 0 _ t))
  intro r u _
  repeat' first
    | split
    | exact keeps_pure (within_chains P) _ _
    | exact keeps_throw (within_chains P) _ _

theorem keeps_ensureHeaderEx (cfg : Cfg) (name : Bytes) {path : Path} (hp : P path)
    (baseTsMs : UInt64) (e : Sys) : Keeps (Within P) (ensureHeaderEx cfg name path baseTsMs) e := by
  apply keeps_bind (within_chains P) (keeps_toStatus (keeps_fsOpen hp _ _ e))
  intro _ t _
  apply keeps_bind (within_chains P) (keeps_toStatus (keeps_fsRead path 0 _ t))
  intro raw u _
  dsimp only
  repeat' first
    | split
    | exact keeps_pure (within_chains P) _ _
    | exact keeps_throw (within_chains P) _ _
    | exact keeps_toStatus (keeps_call _)
    | exact keeps_toStatus (keeps_fsWrite hp _ _ _)
    | exact keeps_streamHeaderDecode _ _ _
    | exact keeps_streamHeaderV2Decode _ _ _
    | refine keeps_bind (within_chains P) ?_ fun _ _ _ => ?_

theorem keeps_unlinkIfPresent {path : Path} (hp : P path) (e : Sys) :
    Keeps (Within P) (unlinkIfPresent path) e := by
  apply keeps_bind (within_chains P) (keeps_attempt (keeps_fsUnlink hp e))
  intro r t _
  split
  · exact keeps_pure (within_chains P) _ _
  · exact keeps_pure (within_chains P) _ _
  · exact keeps_throw (within_chains P) _ _

theorem keeps_discardSegment (cfg : Cfg) {path : Path} (hp : P path) (e : Sys) :
    Keeps (Within P) (discardSegment cfg path) e := by
  unfold discardSegment
  split
  · apply keeps_bind (within_chains P) (keeps_attempt (keeps_fsStat path e))
    intro _ t _
    exact keeps_unlinkIfPresent hp t
  · exact keeps_unlinkIfPresent hp e

end Sys

theorem buildEntryPath_ok {cfg : Cfg} {name entry : Bytes} {p : Path}
    (h : buildEntryPath cfg name entry = .ok p) : p = tsPath cfg entry := by
  unfold buildEntryPath at h
  split at h
  · cases h
  · split at h
    · cases h
    · exact (Except.ok.inj h).symm

theorem mapError_ok {ε ε' α : Type} {f : ε → ε'} {x : Except ε α} {a : α}
    (h : x.mapError f = .ok a) : x = .ok a := by
  cases x with
  | ok b => simpa [Except.mapError] using h
  | error r => cases h

theorem owns_segmentPath {cfg : Cfg} (name : Bytes) (seq : Nat) (hs : cfg.segmented = true) :
    Owns cfg name (segmentPath cfg name seq) :=
  ⟨_, .segment seq hs, rfl⟩

theorem owns_streamPath (cfg : Cfg) (name : Bytes) : Owns cfg name (streamPath cfg name) :=
  ⟨_, .stream, rfl⟩

theorem keeps_adoptLegacy {cfg : Cfg} (hs : cfg.segmented = true) (name : Bytes) (e : Sys) :
    Keeps (Within (Owns cfg name)) (adoptLegacy cfg name) e := by
  have hR := within_chains (κ := Diag) (Owns cfg name)
  apply keeps_bind hR (keeps_rethrow hR _ e)
  intro p t hp
  apply keeps_bind hR (keeps_rethrow hR _ t)
  intro q u hq
  apply keeps_bind hR (keeps_attempt (keeps_fsStat p u))
  intro r v _
  split
  · have hp' := buildEntryPath_ok (mapError_ok (run_rethrow.mp hp).1)
    have hq' := buildEntryPath_ok (mapError_ok (run_rethrow.mp hq).1)
    subst hp' hq'
    exact keeps_toStatus (keeps_fsRename (owns_streamPath cfg name) (owns_segmentPath name 0 hs) v)
  · exact keeps_pure hR _ v

/-- The used part of the ingest buffer. -/
def StreamCtx.pendingBytes (slot : StreamCtx) : Bytes := (slot.ingestBuf.getD []).take slot.ingestUsed

def Landed (cfg : Cfg) (name : Bytes) (bs : Bytes) (e e' : Sys) : Prop :=
  ∃ new p more, e'.written = new ++ e.written ∧ Owns cfg name p ∧ (p, bs ++ more) ∈ new

theorem Landed.later {cfg : Cfg} {name bs : Bytes} {e e' e'' : Sys} (h : Landed cfg name bs e e')
    (k : e'.written <:+ e''.written) : Landed cfg name bs e e'' := by
  obtain ⟨new, p, more, hw, hp, hm⟩ := h
  obtain ⟨new', hw'⟩ := k
  refine ⟨new' ++ new, p, more, ?_, hp, List.mem_append_right _ hm⟩
  rw [← hw', hw, List.append_assoc]

theorem Landed.earlier {cfg : Cfg} {name bs bs' : Bytes} {e e' e'' : Sys} (h : Landed cfg name bs' e' e'')
    (hbs : bs <+: bs') (k : e.written <:+ e'.written) : Landed cfg name bs e e'' := by
  obtain ⟨new, p, more, hw, hp, hm⟩ := h
  obtain ⟨new', hw'⟩ := k
  obtain ⟨rest, rfl⟩ := hbs
  refine ⟨new ++ new', p, rest ++ more, ?_, hp, List.mem_append_left _ ?_⟩
  · rw [hw, ← hw', List.append_assoc]
  · rwa [← List.append_assoc]

/-- What one run of a program on a slot leaves alone. -/
structure Stays (cfg : Cfg) (s t : SlotSt) : Prop where
  name : t.slot.name = s.slot.name
  inUse : t.slot.inUse = s.slot.inUse
  openCount : t.slot.openCount = s.slot.openCount
  capacity : t.slot.ingestCapacity = s.slot.ingestCapacity
  within : Within (Owns cfg s.slot.name) s.env t.env
  pending : s.slot.pendingBytes <+: t.slot.pendingBytes ∨
    Landed cfg s.slot.name s.slot.pendingBytes s.env t.env

/-- A scanned slot stays scanned and moves to higher segment numbers only. -/
structure Moves (cfg : Cfg) (s t : SlotSt) : Prop extends Stays cfg s t where
  scanned : s.slot.segsScanned = true → t.slot.segsScanned = true ∧ s.slot.curSeg ≤ t.slot.curSeg

theorem stays_chains (cfg : Cfg) : Chains (Stays cfg) where
  refl _ := ⟨rfl, rfl, rfl, rfl, (within_chains _).refl _, .inl List.prefix_rfl⟩
  trans {a b c} h k := by
    refine ⟨k.name.trans h.name, k.inUse.trans h.inUse, k.openCount.trans h.openCount,
      k.capacity.trans h.capacity, ?_, ?_⟩
    · have hw := k.within
      rw [h.name] at hw
      exact (within_chains _).trans h.within hw
    · rcases h.pending with hb | hl
      · rcases k.pending with kb | kl
        · exact .inl (hb.trans kb)
        · rw [h.name] at kl
          exact .inr (kl.earlier hb h.within.written)
      · exact .inr (hl.later k.within.written)

theorem moves_chains (cfg : Cfg) : Chains (Moves cfg) where
  refl s := ⟨(stays_chains cfg).refl s, fun h => ⟨h, Nat.le_refl _⟩⟩
  trans h k := by
    refine ⟨(stays_chains cfg).trans h.toStays k.toStays, fun hs => ?_⟩
    obtain ⟨hb, hle⟩ := h.scanned hs
    obtain ⟨hc, hle'⟩ := k.scanned hb
    exact ⟨hc, hle.trans hle'⟩

theorem run_getSlot {ε : Type} (s : SlotSt) : (getSlot (ε := ε)).run s = .ok s.slot s := rfl

theorem run_updSlot {ε : Type} (f : StreamCtx → StreamCtx) (s : SlotSt) :
    (updSlot (ε := ε) f).run s = .ok () ⟨f s.slot, s.env⟩ := rfl

theorem keeps_getSlot_bind {ε α : Type} {R : SlotSt → SlotSt → Prop} {f : StreamCtx → SlotM ε α}
    {s : SlotSt} (h : Keeps R (f s.slot) s) : Keeps R (getSlot >>= f) s := h

theorem run_of_onSys {ε α : Type} {m : EStateM ε Sys α} {s t : SlotSt} {a : α}
    (h : (onSys m).run s = .ok a t) : ∃ e, m.run s.env = .ok a e ∧ t = ⟨s.slot, e⟩ := by
  cases hm : m.run s.env with
  | ok b e =>
    rw [onSys, run_zoom hm] at h
    cases h
    exact ⟨e, rfl, rfl⟩
  | error r e =>
    rw [onSys, run_zoom_error hm] at h
    cases h

theorem stays_onSys {cfg : Cfg} {ε α : Type} {m : EStateM ε Sys α} {s : SlotSt}
    (h : Keeps (Within (Owns cfg s.slot.name)) m s.env) : Keeps (Stays cfg) (onSys m) s := by
  unfold Keeps onSys
  rw [post_zoom]
  exact ⟨rfl, rfl, rfl, rfl, h, .inl List.prefix_rfl⟩

theorem moves_onSys {cfg : Cfg} {ε α : Type} {m : EStateM ε Sys α} {s : SlotSt}
    (h : Keeps (Within (Owns cfg s.slot.name)) m s.env) : Keeps (Moves cfg) (onSys m) s := by
  refine ⟨stays_onSys h, ?_⟩
  unfold onSys
  rw [post_zoom]
  exact fun h => ⟨h, Nat.le_refl _⟩

theorem stays_updSlot {cfg : Cfg} {ε : Type} {f : StreamCtx → StreamCtx} {s : SlotSt}
    (hn : (f s.slot).name = s.slot.name) (hu : (f s.slot).inUse = s.slot.inUse)
    (ho : (f s.slot).openCount = s.slot.openCount)
    (hc : (f s.slot).ingestCapacity = s.slot.ingestCapacity)
    (hb : s.slot.pendingBytes <+: (f s.slot).pendingBytes) :
    Keeps (Stays cfg) (updSlot (ε := ε) f) s :=
  ⟨hn, hu, ho, hc, (within_chains _).refl _, .inl hb⟩

theorem moves_updSlot {cfg : Cfg} {ε : Type} {f : StreamCtx → StreamCtx} {s : SlotSt}
    (hn : (f s.slot).name = s.slot.name) (hu : (f s.slot).inUse = s.slot.inUse)
    (ho : (f s.slot).openCount = s.slot.openCount)
    (hc : (f s.slot).ingestCapacity = s.slot.ingestCapacity)
    (hb : s.slot.pendingBytes <+: (f s.slot).pendingBytes)
    (hs : (f s.slot).segsScanned = s.slot.segsScanned) (hle : s.slot.curSeg ≤ (f s.slot).curSeg) :
    Keeps (Moves cfg) (updSlot (ε := ε) f) s :=
  ⟨stays_updSlot hn hu ho hc hb, fun h => ⟨hs.trans h, hle⟩⟩

theorem segmentPath_of_run {cfg : Cfg} {name : Bytes} {seq : Nat} {p : Path} {ε σ : Type} {f : Errno → ε}
    {s t : σ} (h : (rethrow ((buildSegmentPath cfg name seq).mapError f) : EStateM ε σ Path).run s = .ok p t) :
    p = segmentPath cfg name seq :=
  buildEntryPath_ok (mapError_ok (run_rethrow.mp h).1)

theorem keeps_learnNewest {cfg : Cfg} (hs : cfg.segmented = true) (lowest highest : Nat) (s : SlotSt) :
    Keeps (Stays cfg) (learnNewest cfg s.slot.name lowest highest) s := by
  have hR := stays_chains cfg
  apply keeps_seq hR (stays_updSlot rfl rfl rfl rfl List.prefix_rfl)
  intro _ t _ ht
  apply keeps_seq hR (keeps_rethrow hR _ _)
  intro segPath u hp hu
  have hens : Keeps (Stays cfg) (onSys (ensureHeaderEx cfg s.slot.name segPath 0)) u := by
    rw [segmentPath_of_run hp, ← ht.name, ← hu.name]
    exact stays_onSys (keeps_ensureHeaderEx cfg _ (owns_segmentPath _ highest hs) 0 _)
  apply keeps_bind hR hens
  intro vb v _
  apply keeps_bind hR (stays_updSlot rfl rfl rfl rfl List.prefix_rfl)
  intro _ w _
  apply keeps_bind hR (stays_onSys (keeps_attempt (keeps_fsStat _ _)))
  intro size x _
  exact stays_updSlot rfl rfl rfl rfl List.prefix_rfl

theorem keeps_scanSegments {cfg : Cfg} (hs : cfg.segmented = true) (s : SlotSt) :
    Keeps (Moves cfg) (scanSegments cfg) s := by
  have hR := stays_chains cfg
  apply keeps_getSlot_bind
  split
  · exact keeps_pure (moves_chains cfg) _ s
  · rename_i hscan
    refine ⟨?_, fun h => absurd h hscan⟩
    dsimp only
    split
    · apply keeps_bind hR (keeps_throw hR _ s)
      intro _ _ h
      exact by cases h
    apply keeps_seq hR (stays_onSys (keeps_attempt (keeps_fsList _ _)))
    intro entries t _ ht
    rw [← ht.name]
    split
    · apply keeps_seq hR (stays_onSys (keeps_adoptLegacy hs _ _))
      intro _ u _ hu
      rw [← hu.name]
      exact keeps_learnNewest hs 0 0 u
    · exact keeps_learnNewest hs _ _ t

theorem keeps_discardSegments {cfg : Cfg} (hs : cfg.segmented = true) (n : Nat) (s : SlotSt) :
    Keeps (Moves cfg) (discardSegments cfg n) s := by
  have hR := moves_chains cfg
  induction n generalizing s with
  | zero => exact keeps_pure hR _ s
  | succ n ih =>
    unfold discardSegments
    apply keeps_getSlot_bind
    split
    · apply keeps_seq hR (keeps_rethrow hR _ s)
      intro p t hp ht
      have hpath : p = segmentPath cfg s.slot.name s.slot.oldestSeg :=
        buildEntryPath_ok (run_rethrow.mp hp).1
      have hown : Owns cfg t.slot.name p := by
        rw [hpath, ht.name]
        exact owns_segmentPath _ _ hs
      apply keeps_bind hR (moves_onSys (keeps_discardSegment cfg hown _))
      intro _ u _
      apply keeps_bind hR (moves_updSlot rfl rfl rfl rfl List.prefix_rfl rfl (Nat.le_refl _))
      intro _ v _
      exact ih v
    · exact keeps_pure hR _ s

theorem keeps_openSegment {cfg : Cfg} (hs : cfg.segmented = true) (baseTsMs : UInt64) (s : SlotSt) :
    Keeps (Moves cfg) (openSegment cfg baseTsMs) s := by
  have hR := moves_chains cfg
  apply keeps_getSlot_bind
  apply keeps_seq hR (keeps_rethrow hR _ s)
  intro p t hp ht
  have hpath : p = segmentPath cfg s.slot.name s.slot.curSeg := buildEntryPath_ok (run_rethrow.mp hp).1
  have hown : Owns cfg t.slot.name p := by
    rw [hpath, ht.name]
    exact owns_segmentPath _ _ hs
  apply keeps_bind hR (moves_onSys (keeps_orFail _ (keeps_ensureHeaderEx cfg _ hown _ _)))
  intro vb u _
  apply keeps_bind hR (moves_updSlot rfl rfl rfl rfl List.prefix_rfl rfl (Nat.le_refl _))
  intro _ v _
  split
  · exact keeps_discardSegments hs _ v
  · exact keeps_pure hR _ v

theorem keeps_startSegment {cfg : Cfg} (hs : cfg.segmented = true) (baseTsMs : UInt64) (s : SlotSt) :
    Keeps (Moves cfg) (startSegment cfg baseTsMs) s :=
  keeps_bind (moves_chains cfg) (moves_updSlot rfl rfl rfl rfl List.prefix_rfl rfl (Nat.le_succ _))
    fun _ t _ => keeps_openSegment hs baseTsMs t

theorem keeps_rollSegmentIfFull {cfg : Cfg} (hs : cfg.segmented = true) (s : SlotSt) :
    Keeps (Moves cfg) (rollSegmentIfFull cfg) s := by
  apply keeps_getSlot_bind
  split
  · exact keeps_startSegment hs _ s
  · exact keeps_pure (moves_chains cfg) _ s

theorem keeps_activePath (cfg : Cfg) (s : SlotSt) : Keeps (Moves cfg) (activePath cfg) s := by
  have hR := moves_chains cfg
  unfold activePath
  split
  · rename_i hs
    apply keeps_bind hR (keeps_orFail _ (keeps_scanSegments hs s))
    intro _ t _
    exact keeps_getSlot_bind (keeps_rethrow hR _ t)
  · exact keeps_getSlot_bind (keeps_rethrow hR _ s)

theorem owns_activePath {cfg : Cfg} {s t : SlotSt} {p : Path} (h : (activePath cfg).run s = .ok p t) :
    Owns cfg t.slot.name p := by
  unfold activePath at h
  split at h
  · rename_i hs
    rw [EStateM.run_bind] at h
    cases hscan : (orFail Errno.EIO (scanSegments cfg)).run s with
    | ok _ u =>
      rw [hscan] at h
      obtain ⟨hp, rfl⟩ := run_rethrow.mp h
      rw [buildEntryPath_ok hp]
      exact owns_segmentPath _ _ hs
    | error r u =>
      rw [hscan] at h
      cases h
  · obtain ⟨hp, rfl⟩ := run_rethrow.mp h
    rw [buildEntryPath_ok hp]
    exact owns_streamPath cfg _

structure Untouched (s t : SlotSt) : Prop where
  buf : t.slot.ingestBuf = s.slot.ingestBuf
  used : t.slot.ingestUsed = s.slot.ingestUsed

theorem untouched_chains : Chains Untouched where
  refl _ := ⟨rfl, rfl⟩
  trans h k := ⟨k.buf.trans h.buf, k.used.trans h.used⟩

theorem untouched_onSys {ε α : Type} (m : EStateM ε Sys α) (s : SlotSt) : Keeps Untouched (onSys m) s := by
  unfold Keeps onSys
  rw [post_zoom]
  exact ⟨rfl, rfl⟩

theorem untouched_learnNewest (cfg : Cfg) (name : Bytes) (lowest highest : Nat) (s : SlotSt) :
    Keeps Untouched (learnNewest cfg name lowest highest) s := by
  have hR := untouched_chains
  apply keeps_bind hR ⟨rfl, rfl⟩
  intro _ t _
  apply keeps_bind hR (keeps_rethrow hR _ t)
  intro segPath u _
  apply keeps_bind hR (untouched_onSys _ u)
  intro vb v _
  apply keeps_bind hR ⟨rfl, rfl⟩
  intro _ w _
  apply keeps_bind hR (untouched_onSys _ w)
  intro size x _
  exact ⟨rfl, rfl⟩

theorem untouched_scanSegments (cfg : Cfg) (s : SlotSt) : Keeps Untouched (scanSegments cfg) s := by
  have hR := untouched_chains
  apply keeps_getSlot_bind
  split
  · exact keeps_pure hR _ s
  · dsimp only
    split
    · apply keeps_bind hR (keeps_throw hR _ s)
      intro _ _ h
      exact by cases h
    apply keeps_bind hR (untouched_onSys _ s)
    intro entries t _
    split
    · apply keeps_bind hR (untouched_onSys _ t)
      intro _ u _
      exact untouched_learnNewest cfg _ 0 0 u
    · exact untouched_learnNewest cfg _ _ _ t

theorem untouched_activePath (cfg : Cfg) (s : SlotSt) : Keeps Untouched (activePath cfg) s := by
  have hR := untouched_chains
  unfold activePath
  split
  · apply keeps_bind hR (keeps_orFail _ (untouched_scanSegments cfg s))
    intro _ t _
    exact keeps_getSlot_bind (keeps_rethrow hR _ t)
  · exact keeps_getSlot_bind (keeps_rethrow hR _ s)

theorem written_of_fsAppend {p : Path} {bs : Bytes} {n : Nat} {e e' : Sys}
    (h : (fsAppend p bs).run e = .ok n e') (hn : bs.length ≤ n) : e'.written = (p, bs) :: e.written := by
  have hm : ∀ (e : Sys) (f : Bytes → Bytes), (e.modify p f).written = e.written := by
    intro e f
    unfold Env.modify
    split <;> rfl
  change fsWrite p _ bs e = _ at h
  unfold fsWrite at h
  split at h
  · cases h
    exact congrArg _ (hm _ _)
  · rename_i k _
    cases h
    have hk : bs.take k = bs := List.take_of_length_le (by omega)
    show (p, bs.take k) :: _ = _
    rw [hk, hm]
    rfl
  · cases h

theorem keeps_writeBuffer (cfg : Cfg) {buf : Bytes} {used : Nat} {s : SlotSt}
    (hbuf : s.slot.ingestBuf = some buf) (hused : s.slot.ingestUsed = used) :
    Keeps (Moves cfg) (writeBuffer cfg buf used) s := by
  have hR := moves_chains cfg
  apply keeps_bind hR (keeps_activePath cfg s)
  intro p t hp
  have hown := owns_activePath hp
  have hsame : Untouched s t := by
    rw [← post_of_run hp]
    exact untouched_activePath cfg s
  apply keeps_seq hR (moves_onSys (keeps_fsOpen hown _ _ _))
  intro _ u hu hmu
  have hslot : u.slot = t.slot := by
    rw [← post_of_run hu, onSys, post_zoom]
  rw [← hmu.name] at hown
  have hpend : u.slot.pendingBytes = buf.take used := by
    rw [StreamCtx.pendingBytes, hslot, hsame.buf, hsame.used, hbuf, hused]
    rfl
  have happ : Keeps (Moves cfg) (onSys (fsAppend p (buf.take used))) u := moves_onSys (keeps_fsAppend hown _ _)
  cases hrun : (onSys (fsAppend p (buf.take used)) : SlotM Errno Nat).run u with
  | error r v =>
    unfold Keeps post at happ ⊢
    rw [EStateM.run_bind, hrun]
    rwa [hrun] at happ
  | ok wr v =>
    have hv : Moves cfg u v := by rwa [Keeps, post_of_run hrun] at happ
    unfold Keeps
    rw [post_then hrun]
    dsimp only
    by_cases hwr : wr = used
    · rw [if_neg (not_not.mpr hwr)]
      have hland : Landed cfg u.slot.name u.slot.pendingBytes u.env v.env := by
        refine ⟨[(p, buf.take used)], p, [], ?_, hown, ?_⟩
        · have hle : (buf.take used).length ≤ wr := by
            rw [hwr]
            exact List.length_take_le used buf
          obtain ⟨e', he', rfl⟩ := run_of_onSys hrun
          exact written_of_fsAppend he' hle
        · rw [hpend, List.append_nil]
          exact List.mem_singleton_self _
      have hcall : Keeps (Moves cfg) (onSys call : SlotM Errno Unit) v := moves_onSys (keeps_call _)
      cases hc : (onSys call : SlotM Errno Unit).run v with
      | error r w =>
        have hw : Moves cfg v w := by rwa [Keeps, post, hc] at hcall
        unfold post
        rw [EStateM.run_bind, hc]
        exact hR.trans hv hw
      | ok _ w =>
        have hw : Moves cfg v w := by rwa [Keeps, post_of_run hc] at hcall
        have h := hR.trans hv hw
        rw [post_then hc]
        exact ⟨⟨h.name, h.inUse, h.openCount, h.capacity, h.within, .inr (hland.later hw.within.written)⟩, h.scanned⟩
    · rw [if_pos hwr]
      exact hv

theorem keeps_flushBufferLocked (cfg : Cfg) (s : SlotSt) :
    Keeps (Moves cfg) (flushBufferLocked cfg) s := by
  have hR := moves_chains cfg
  apply keeps_getSlot_bind
  dsimp only
  split
  · apply keeps_bind hR (keeps_throw hR _ s)
    intro _ _ h
    exact by cases h
  · split
    · exact keeps_throw hR _ s
    · rename_i buf hbuf
      split
      · apply keeps_bind hR (keeps_writeBuffer cfg hbuf rfl)
        intro _ t _
        split
        · rename_i hs
          exact keeps_rollSegmentIfFull hs t
        · exact keeps_pure hR _ t
      · exact keeps_pure hR _ s

theorem pendingBytes_store (slot : StreamCtx) (raw : Bytes) (recSize : Nat) :
    slot.pendingBytes <+: (slot.store raw recSize).pendingBytes := by
  unfold StreamCtx.pendingBytes StreamCtx.store
  cases slot.ingestBuf with
  | none => simp
  | some b =>
    show b.take slot.ingestUsed <+: ((writeAt b slot.ingestUsed raw).take b.length).take _
    rw [List.prefix_take_iff, List.prefix_take_iff, List.length_take]
    refine ⟨⟨?_, Nat.min_le_right _ _⟩, (Nat.min_le_left _ _).trans (Nat.le_add_right _ _)⟩
    rw [writeAt, List.append_assoc]
    exact List.prefix_append _ _

theorem moves_store (cfg : Cfg) {ε : Type} (raw : Bytes) (recSize : Nat) (s : SlotSt) :
    Keeps (Moves cfg) (updSlot (ε := ε) fun slot => slot.store raw recSize) s :=
  moves_updSlot rfl rfl rfl rfl (pendingBytes_store s.slot raw recSize) rfl (Nat.le_refl _)

theorem keeps_rebaseRecord (cfg : Cfg) (sample : Sample) (s : SlotSt) :
    Keeps (Moves cfg) (rebaseRecord cfg sample) s := by
  have hR := moves_chains cfg
  unfold rebaseRecord
  dsimp only
  split
  · apply keeps_bind hR (keeps_throw hR _ s)
    intro _ _ h
    exact by cases h
  · rename_i hs
    have hs : cfg.segmented = true := by simpa using hs
    apply keeps_bind hR (keeps_toStatus (keeps_flushBufferLocked cfg s))
    intro _ t _
    apply keeps_bind hR (keeps_toStatus (keeps_startSegment hs _ t))
    intro _ u _
    apply keeps_getSlot_bind
    split
    · exact keeps_throw hR _ u
    · apply keeps_bind hR (moves_store cfg _ _ u)
      intro _ v _
      exact keeps_pure hR _ v

theorem keeps_encodeRecord (cfg : Cfg) (sample : Sample) (recSize : Nat) (s : SlotSt) :
    Keeps (Moves cfg) (encodeRecord cfg sample recSize) s := by
  have hR := moves_chains cfg
  apply keeps_getSlot_bind
  split
  · apply keeps_bind hR (moves_store cfg _ _ s)
    intro _ u _
    exact keeps_pure hR _ u
  · exact keeps_rebaseRecord cfg sample s

theorem keeps_appendRecord (cfg : Cfg) (sample : Sample) (s : SlotSt) :
    Keeps (Moves cfg) (appendRecord cfg sample) s := by
  have hR := moves_chains cfg
  apply keeps_getSlot_bind
  dsimp only
  split
  · apply keeps_bind hR (keeps_throw hR _ s)
    intro _ _ h
    exact by cases h
  · split
    · apply keeps_bind hR (keeps_toStatus (keeps_flushBufferLocked cfg s))
      intro _ t _
      exact keeps_encodeRecord cfg sample _ t
    · exact keeps_encodeRecord cfg sample _ s

theorem keeps_appendRecords (cfg : Cfg) (samples : List Sample) (s : SlotSt) :
    Keeps (Moves cfg) (appendRecords cfg samples) s := by
  have hR := moves_chains cfg
  induction samples generalizing s with
  | nil => exact keeps_pure hR _ s
  | cons sample samples ih =>
    apply keeps_bind hR (keeps_appendRecord cfg sample s)
    intro _ t _
    exact ih t

end ZephyrDB.Ts
