import Mathlib.Tactic.IntervalCases
import ZephyrDB.Ts.World
import ZephyrDB.Ts.Tail
import ZephyrDB.Ts.Accounts

/-!
The flush drain keeps streams apart. A stream whose file cannot be opened or
written keeps its buffer, whatever the others do; the others are written to
their own segments; and the event tells the first failure and the bytes that
were written.
-/

set_option autoImplicit false

namespace ZephyrDB.Ts.Eventing

open Lib

/-- The file `zdb_ts_active_path` names for a scanned slot. -/
def activeFile (cfg : Cfg) (slot : StreamCtx) : Except Errno Path :=
  if cfg.segmented then buildSegmentPath cfg slot.name slot.curSeg else buildPath cfg slot.name

/-- A slot that need not be scanned first. -/
def Scanned (cfg : Cfg) (slot : StreamCtx) : Prop := cfg.segmented = true → slot.segsScanned = true

theorem run_activePath {cfg : Cfg} {s : SlotSt} (hs : Scanned cfg s.slot) :
    (activePath cfg).run s = (rethrow (activeFile cfg s.slot) : Ts.SlotM Errno Path).run s := by
  unfold activePath activeFile
  split
  · rename_i hseg
    have hscan : (orFail Errno.EIO (scanSegments cfg)).run s = .ok () s := by
      apply run_adapt
      unfold scanSegments
      apply run_then (run_getSlot s)
      rw [if_pos (hs hseg)]
      rfl
    rw [run_then hscan (run_then (run_getSlot s) rfl)]
  · exact run_then (run_getSlot s) rfl

/-- The failure that keeps a flush from writing anything, when there is one: the slot has no file, the open
fails, or the write moves no byte. -/
def refusal (cfg : Cfg) (slot : StreamCtx) (e : Sys) : Option Errno :=
  match activeFile cfg slot with
  | .error err => some err
  | .ok _ =>
    match e.fault with
    | .fail err _ => some err
    | _ =>
      match e.next.fault with
      | .fail err 0 => some err
      | .short 0 => some Errno.EIO
      | _ => none

/-- Opening a file with `FS_O_CREATE` may leave an empty one where there was none. -/
def OpenedOnly (cfg : Cfg) (slot : StreamCtx) (e e' : Sys) : Prop :=
  e'.look = e.look ∨ ∃ p, activeFile cfg slot = .ok p ∧ e.look p = none ∧ e'.look = Function.update e.look p (some [])

theorem openedOnly_create {cfg : Cfg} {slot : StreamCtx} {e e' : Sys} {p : Path} (hp : activeFile cfg slot = .ok p)
    (h : e'.look = Function.update e.look p (some (e.contents p))) : OpenedOnly cfg slot e e' := by
  cases hl : e.look p with
  | none =>
    rw [Env.contents_eq, hl] at h
    exact .inr ⟨p, hp, hl, h⟩
  | some bs =>
    refine .inl (h.trans ?_)
    rw [Env.contents_eq, hl, Option.getD_some, Function.update_eq_self_iff, hl]

theorem refusal_cases {cfg : Cfg} {slot : StreamCtx} {e : Sys} {err : Errno} {p : Path}
    (hp : activeFile cfg slot = .ok p) (h : refusal cfg slot e = some err) :
    (∃ n, e.fault = .fail err n) ∨
      (¬ e.fault.Fails ∧ (e.next.fault = .fail err 0 ∨ (e.next.fault = .short 0 ∧ err = Errno.EIO))) := by
  unfold refusal at h
  rw [hp] at h
  dsimp only at h
  split at h
  · rename_i err' n hf
    exact .inl ⟨n, Option.some.inj h ▸ hf⟩
  · rename_i hnofail
    refine .inr ⟨fun ⟨err', n, hf⟩ => hnofail err' n hf, ?_⟩
    split at h
    · rename_i err' hf
      exact .inl (Option.some.inj h ▸ hf)
    · rename_i hf
      exact .inr ⟨hf, (Option.some.inj h).symm⟩
    · cases h

theorem writeBuffer_refused {cfg : Cfg} {s : SlotSt} {err : Errno} (hs : Scanned cfg s.slot) (buf : Bytes) {used : Nat}
    (hused : used ≠ 0) (h : refusal cfg s.slot s.env = some err) : Yields (writeBuffer cfg buf used) s
    (fun _ _ => False) fun r t => r = err ∧ t.slot = s.slot ∧ OpenedOnly cfg s.slot s.env t.env := by
  have hpath := run_activePath hs
  cases hfile : activeFile cfg s.slot with
  | error r =>
    unfold refusal at h
    rw [hfile] at h hpath
    exact yields_fails hpath ⟨Option.some.inj h, rfl, .inl rfl⟩
  | ok p =>
    rw [hfile] at hpath
    apply yields_then hpath
    have hcases := refusal_cases hfile h
    refine yields_bind (P := fun _ t => t.slot = s.slot ∧ ¬ s.env.fault.Fails ∧
      Spent s.env (Function.update s.env.look p (some (s.env.contents p))) t.env)
      (yields_zoom ((fsOpen_create_yields s.env p).imp (fun _ _ h => ⟨rfl, h⟩) fun r e ⟨⟨n, hf⟩, hspent⟩ =>
        ⟨?_, rfl, .inl hspent.look⟩)) fun _ t ⟨hslot, hopen, hspent⟩ => ?_
    · rcases hcases with ⟨n', hf'⟩ | ⟨hno, _⟩
      · rw [hf] at hf'
        exact (Fault.fail.inj hf').1
      · exact absurd ⟨r, n, hf⟩ hno
    · have hlook : t.env.look p = some (s.env.contents p) := by rw [hspent.look, Function.update_self]
      have hfault : t.env.fault = s.env.next.fault := by
        unfold Env.fault
        rw [hspent.faults, hspent.tick]
        rfl
      have hopened : ∀ {e : Sys}, Spent t.env t.env.look e → OpenedOnly cfg s.slot s.env e := fun hs =>
        openedOnly_create hfile (hs.look.trans hspent.look)
      rcases hcases with ⟨n, hf⟩ | ⟨_, hidle⟩
      · exact absurd ⟨err, n, hf⟩ hopen
      · rw [← hfault] at hidle
        have happend := fsAppend_idle t.env hlook (buf.take used) (hidle.imp (fun hf => ⟨err, hf⟩) And.left)
        refine yields_bind (P := fun w u => w = 0 ∧ t.env.fault = .short 0 ∧ u.slot = s.slot ∧
          OpenedOnly cfg s.slot s.env u.env) (yields_zoom (happend.imp
            (fun w e ⟨hw, hf, hsp⟩ => ⟨hw, hf, hslot, hopened hsp⟩)
            fun r e ⟨hf, hsp⟩ => ⟨?_, hslot, hopened hsp⟩)) fun w u ⟨hw, hf, hu, hsp⟩ => ?_
        · rcases hidle with hf' | ⟨hf', _⟩
          · rw [hf] at hf'
            exact (Fault.fail.inj hf').1
          · rw [hf] at hf'
            cases hf'
        · refine yields_guard (fun _ => ⟨?_, hu, hsp⟩) fun hne => absurd (hw ▸ Ne.symm hused) hne
          rcases hidle with hf' | ⟨_, herr⟩
          · rw [hf] at hf'
            cases hf'
          · exact herr.symm

theorem writeBuffer_written {cfg : Cfg} {s : SlotSt} (hs : Scanned cfg s.slot) (buf : Bytes) (used : Nat) :
    Yields (writeBuffer cfg buf used) s (fun _ t => ∃ p, activeFile cfg s.slot = .ok p ∧
        t.env.look p = some (s.env.contents p ++ buf.take used) ∧ Within (· = p) s.env t.env ∧
        t.slot = { s.slot with
          curSegBytes := if cfg.segmented then s.slot.curSegBytes + used else s.slot.curSegBytes
          ingestUsed := 0 }) fun _ _ => True := by
  have hpath := run_activePath hs
  cases hfile : activeFile cfg s.slot with
  | error r =>
    rw [hfile] at hpath
    exact yields_fails hpath trivial
  | ok p =>
    rw [hfile] at hpath
    apply yields_then hpath
    have hchains := within_chains (κ := Diag) (· = p)
    refine yields_bind (P := fun _ t => t.slot = s.slot ∧ t.env.look p = some (s.env.contents p) ∧
      Within (· = p) s.env t.env) (yields_zoom ?_) fun _ t ⟨hslot, hlook, hwithin⟩ => ?_
    · have hkeeps : Yields (fsOpen p true false) s.env (fun _ e => Within (· = p) s.env e) fun _ _ => True :=
        (Always.yields (R := Within (· = p)) (fun e => keeps_fsOpen (P := (· = p)) rfl true false e) s.env).imp (fun _ _ h => h)
          fun _ _ _ => trivial
      have hopen := (fsOpen_create_yields s.env p).imp (fun _ _ h => h.2.look) fun _ _ _ => trivial
      exact (hkeeps.and hopen).imp (fun _ e ⟨hw, hl⟩ => ⟨rfl, by rw [hl, Function.update_self], hw⟩)
        fun _ _ _ => trivial
    refine yields_bind (P := fun w u => u.slot = s.slot ∧ w ≤ (buf.take used).length ∧
      u.env.look p = some (s.env.contents p ++ (buf.take used).take w) ∧ Within (· = p) s.env u.env)
      (yields_zoom ?_) fun w u ⟨hslot', hw, hlook', hwithin'⟩ => ?_
    · have hkeeps : Yields (fsAppend p (buf.take used)) t.env (fun _ e => Within (· = p) t.env e) fun _ _ => True :=
        (Always.yields (R := Within (· = p)) (fun e => keeps_fsAppend (P := (· = p)) rfl (buf.take used) e) t.env).imp
          (fun _ _ h => h) fun _ _ _ => trivial
      have happend := (fsAppend_yields t.env hlook (buf.take used)).imp (fun _ _ h => h) fun _ _ _ => trivial
      exact (hkeeps.and happend).imp
        (fun w e ⟨hk, _, hle, hsp⟩ => ⟨hslot, hle, by rw [hsp.look, Function.update_self], hchains.trans hwithin hk⟩)
        fun _ _ _ => trivial
    apply yields_guard (fun _ => trivial)
    intro hwrote
    have hall : (buf.take used).take w = buf.take used :=
      List.take_of_length_le (Nat.le_trans (List.length_take_le _ _) (Nat.le_of_eq (not_not.mp hwrote).symm))
    rw [hall] at hlook'
    refine yields_bind (P := fun _ v => v.slot = s.slot ∧ v.env.look = u.env.look ∧ Within (· = p) s.env v.env)
      (yields_zoom ?_) fun _ v ⟨hslot'', hlook'', hwithin''⟩ => ?_
    · have hkeeps : Yields (call (κ := Diag)) u.env (fun _ e => Within (· = p) u.env e) fun _ _ => True :=
        (Always.yields (R := Within (· = p)) (fun e => keeps_call e) u.env).imp (fun _ _ h => h) fun _ _ _ => trivial
      have hcall := (call_yields u.env).imp (fun _ _ h => h.2.look) fun _ _ _ => trivial
      exact (hkeeps.and hcall).imp (fun _ e ⟨hk, hl⟩ => ⟨hslot', hl, hchains.trans hwithin' hk⟩) fun _ _ _ => trivial
    · refine ⟨p, rfl, ?_, hwithin'', ?_⟩
      · show v.env.look p = _
        rw [hlook'', hlook']
      · exact congrArg (fun slot : StreamCtx => { slot with
          curSegBytes := if cfg.segmented then slot.curSegBytes + used else slot.curSegBytes
          ingestUsed := 0 }) hslot''

/-- What a roll leaves alone: the slot's identity, its buffer, every file of another stream, and one file of its
own. -/
structure Rolled (cfg : Cfg) (p : Path) (s t : Noted SlotSt SlotNotes) : Prop where
  name : t.st.slot.name = s.st.slot.name
  inUse : t.st.slot.inUse = s.st.slot.inUse
  used : t.st.slot.ingestUsed = s.st.slot.ingestUsed
  within : Within (fun q => Owns cfg s.st.slot.name q ∧ q ≠ p) s.st.env t.st.env

theorem rolled_chains (cfg : Cfg) (p : Path) : Chains (Rolled cfg p) where
  refl _ := ⟨rfl, rfl, rfl, (within_chains _).refl _⟩
  trans h k := by
    have hk := k.within
    rw [h.name] at hk
    exact ⟨k.name.trans h.name, k.inUse.trans h.inUse, k.used.trans h.used, (within_chains _).trans h.within hk⟩

structure Trimmed (cfg : Cfg) (p : Path) (s t : Noted SlotSt SlotNotes) : Prop extends Rolled cfg p s t where
  cur : t.st.slot.curSeg = s.st.slot.curSeg

theorem trimmed_chains (cfg : Cfg) (p : Path) : Chains (Trimmed cfg p) where
  refl s := ⟨(rolled_chains cfg p).refl s, rfl⟩
  trans h k := ⟨(rolled_chains cfg p).trans h.toRolled k.toRolled, k.cur.trans h.cur⟩

theorem trimmed_onSys {cfg : Cfg} {p : Path} {ε α : Type} {m : EStateM ε Sys α} {s : Noted SlotSt SlotNotes}
    (h : Keeps (Within fun q => Owns cfg s.st.slot.name q ∧ q ≠ p) m s.st.env) :
    Keeps (Trimmed cfg p) (silent (onSys m) : SlotM ε α) s := by
  unfold Keeps silent onSys
  rw [post_zoom, post_zoom]
  exact ⟨⟨rfl, rfl, rfl, h⟩, rfl⟩

theorem trimmed_updSlot {cfg : Cfg} {p : Path} {ε : Type} {f : StreamCtx → StreamCtx} {s : Noted SlotSt SlotNotes}
    (hn : (f s.st.slot).name = s.st.slot.name) (hi : (f s.st.slot).inUse = s.st.slot.inUse)
    (hu : (f s.st.slot).ingestUsed = s.st.slot.ingestUsed) (hc : (f s.st.slot).curSeg = s.st.slot.curSeg) :
    Keeps (Trimmed cfg p) (silent (updSlot f) : SlotM ε Unit) s :=
  ⟨⟨hn, hi, hu, (within_chains _).refl _⟩, hc⟩

theorem keeps_silent_getSlot {ε α : Type} {R : Noted SlotSt SlotNotes → Noted SlotSt SlotNotes → Prop}
    {f : StreamCtx → SlotM ε α} {s : Noted SlotSt SlotNotes} (h : Keeps R (f s.st.slot) s) :
    Keeps R (silent getSlot >>= f) s := h

theorem trimmed_note {cfg : Cfg} {p : Path} {ε : Type} (f : SlotNotes → SlotNotes) (s : Noted SlotSt SlotNotes) :
    Keeps (Trimmed cfg p) (note f : SlotM ε Unit) s :=
  ⟨⟨rfl, rfl, rfl, (within_chains _).refl _⟩, rfl⟩

theorem trimmed_discardFile {cfg : Cfg} {p q : Path} {s : Noted SlotSt SlotNotes} (hq : Owns cfg s.st.slot.name q)
    (hne : q ≠ p) : Keeps (Trimmed cfg p) (discardFile q) s := by
  have hR := trimmed_chains cfg p
  apply keeps_get_bind
  apply keeps_seq hR (trimmed_onSys (keeps_attempt (keeps_fsStat q _)))
  intro info t _ ht
  apply keeps_seq hR (trimmed_note _ t)
  intro _ u _ hu
  have hown : Owns cfg u.st.slot.name q := by rwa [hu.name, ht.name]
  apply keeps_bind hR (trimmed_onSys (keeps_attempt (keeps_fsUnlink ⟨hown, hne⟩ _)))
  intro rc v _
  apply keeps_bind hR (trimmed_note _ v)
  intro _ w _
  exact keeps_rethrow hR _ w

theorem trimmed_discardSegments {cfg : Cfg} (hs : cfg.segmented = true) {name : Bytes} {c : Nat} (n : Nat)
    {s : Noted SlotSt SlotNotes} (hname : s.st.slot.name = name) (hcur : s.st.slot.curSeg = c + 1) :
    Keeps (Trimmed cfg (segmentPath cfg name c)) (discardSegments cfg n) s := by
  have hR := trimmed_chains cfg (segmentPath cfg name c)
  induction n generalizing s with
  | zero => exact keeps_pure hR () s
  | succ n ih =>
    unfold discardSegments
    apply keeps_silent_getSlot
    split
    · rename_i hmany
      apply keeps_seq hR (keeps_rethrow hR _ s)
      intro q t hq ht
      have hpath : q = segmentPath cfg s.st.slot.name s.st.slot.oldestSeg := buildEntryPath_ok (run_rethrow.mp hq).1
      have hown : Owns cfg t.st.slot.name q := by
        rw [hpath, ht.name]
        exact owns_segmentPath _ _ hs
      have hne : q ≠ segmentPath cfg name c := by
        have htwo := cfg.two_le_maxSegments
        rw [hpath, hname]
        intro heq
        have hold := segmentPath_injective heq
        omega
      apply keeps_seq hR (trimmed_discardFile hown hne)
      intro _ u _ hu
      apply keeps_seq hR (trimmed_updSlot rfl rfl rfl rfl)
      intro _ v _ hv
      exact ih (hv.name.trans (hu.name.trans (ht.name.trans hname))) (hv.cur.trans (hu.cur.trans (ht.cur.trans hcur)))
    · exact keeps_pure hR () s

theorem rolled_startSegment {cfg : Cfg} (hs : cfg.segmented = true) (baseTsMs : UInt64) (s : Noted SlotSt SlotNotes) :
    Keeps (Rolled cfg (segmentPath cfg s.st.slot.name s.st.slot.curSeg)) (startSegment cfg baseTsMs) s := by
  set p := segmentPath cfg s.st.slot.name s.st.slot.curSeg with hp
  have hR := trimmed_chains cfg p
  have hupd : Keeps (Rolled cfg p)
      (silent (updSlot fun s => { s with curSeg := s.curSeg + 1, curSegBytes := 0 }) : SlotM Errno Unit) s :=
    ⟨rfl, rfl, rfl, (within_chains _).refl _⟩
  apply keeps_bind (rolled_chains cfg p) hupd
  intro _ t ht
  have hname : t.st.slot.name = s.st.slot.name := by
    cases ht
    rfl
  have hcur : t.st.slot.curSeg = s.st.slot.curSeg + 1 := by
    cases ht
    rfl
  suffices h : Keeps (Trimmed cfg p) (openSegment cfg baseTsMs) t from h.toRolled
  apply keeps_silent_getSlot
  apply keeps_seq hR (keeps_rethrow hR _ t)
  intro q u hq hu
  have hpath : q = segmentPath cfg t.st.slot.name t.st.slot.curSeg := buildEntryPath_ok (run_rethrow.mp hq).1
  have hown : Owns cfg u.st.slot.name q := by
    rw [hpath, hu.name]
    exact owns_segmentPath _ _ hs
  have hne : q ≠ p := by
    rw [hpath, hp, hname, hcur]
    intro heq
    have := segmentPath_injective heq
    omega
  apply keeps_seq hR (trimmed_onSys (keeps_orFail _ (keeps_ensureHeaderEx cfg _ ⟨hown, hne⟩ _ _)))
  intro vb v _ hv
  apply keeps_seq hR (trimmed_updSlot rfl rfl rfl rfl)
  intro _ w _ hw
  split
  · exact trimmed_discardSegments hs _ (hw.name.trans (hv.name.trans (hu.name.trans hname)))
      (hw.cur.trans (hv.cur.trans (hu.cur.trans hcur)))
  · exact keeps_pure hR () w

theorem flushBufferLocked_refused {cfg : Cfg} {s : Noted SlotSt SlotNotes} {err : Errno}
    (hin : s.st.slot.inUse = true) (hused : s.st.slot.ingestUsed ≠ 0) (hbuf : s.st.slot.ingestBuf ≠ none)
    (hscan : Scanned cfg s.st.slot) (h : refusal cfg s.st.slot s.st.env = some err) :
    Yields (flushBufferLocked cfg) s (fun _ _ => False) fun r t =>
      r = err ∧ t.st.slot = s.st.slot ∧ OpenedOnly cfg s.st.slot s.st.env t.st.env := by
  have hslot : (silent getSlot : SlotM Errno StreamCtx).run s = .ok s.st.slot s := rfl
  refine yields_then hslot (yields_guard (fun hno => by rw [hin] at hno; cases hno) fun _ => ?_)
  split
  · rename_i hnone
    exact absurd hnone hbuf
  · rename_i buf _
    rw [if_pos hused]
    refine yields_bind (P := fun _ _ => False) (yields_zoom ?_) fun _ _ hfalse => hfalse.elim
    exact writeBuffer_refused hscan buf hused h

theorem flushBufferLocked_written {cfg : Cfg} {s : Noted SlotSt SlotNotes} (hused : s.st.slot.ingestUsed ≠ 0)
    (hscan : Scanned cfg s.st.slot) : Yields (flushBufferLocked cfg) s
    (fun _ t => t.st.slot.ingestUsed = 0 ∧ t.st.slot.name = s.st.slot.name ∧ t.st.slot.inUse = s.st.slot.inUse ∧
      Within (Owns cfg s.st.slot.name) s.st.env t.st.env ∧
      ∃ p, activeFile cfg s.st.slot = .ok p ∧
        t.st.env.look p = some (s.st.env.contents p ++ s.st.slot.pendingBytes)) fun _ _ => True := by
  have hslot : (silent getSlot : SlotM Errno StreamCtx).run s = .ok s.st.slot s := rfl
  apply yields_then hslot
  apply yields_guard (fun _ => trivial)
  intro _
  split
  · exact yields_throw trivial
  · rename_i buf hbuf
    rw [if_pos hused]
    have hpending : s.st.slot.pendingBytes = buf.take s.st.slot.ingestUsed := by
      unfold StreamCtx.pendingBytes
      rw [hbuf]
      rfl
    have hwrite := writeBuffer_written hscan buf s.st.slot.ingestUsed
    refine yields_bind (P := fun _ t => ∃ p, activeFile cfg s.st.slot = .ok p ∧
        t.st.env.look p = some (s.st.env.contents p ++ s.st.slot.pendingBytes) ∧ Within (· = p) s.st.env t.st.env ∧
        t.st.slot = { s.st.slot with
          curSegBytes := if cfg.segmented then s.st.slot.curSegBytes + s.st.slot.ingestUsed else s.st.slot.curSegBytes
          ingestUsed := 0 })
      (yields_zoom (hwrite.imp (fun _ t h => by rw [hpending]; exact h) fun _ _ _ => trivial)) fun _ t ht => ?_
    obtain ⟨p, hp, hlook, hwithin, hslot'⟩ := ht
    have hname : t.st.slot.name = s.st.slot.name := by rw [hslot']
    have hown : Owns cfg s.st.slot.name p := by
      unfold activeFile at hp
      split at hp
      · rename_i hseg
        rw [buildEntryPath_ok hp]
        exact owns_segmentPath _ _ hseg
      · rw [buildEntryPath_ok hp]
        exact owns_streamPath cfg _
    have hwithin' : Within (Owns cfg s.st.slot.name) s.st.env t.st.env := hwithin.mono fun q hq => hq ▸ hown
    have hdone : ∀ v, Rolled cfg p t v → v.st.slot.ingestUsed = 0 ∧ v.st.slot.name = s.st.slot.name ∧
        v.st.slot.inUse = s.st.slot.inUse ∧ Within (Owns cfg s.st.slot.name) s.st.env v.st.env ∧
        ∃ p, activeFile cfg s.st.slot = .ok p ∧
          v.st.env.look p = some (s.st.env.contents p ++ s.st.slot.pendingBytes) := by
      intro v hv
      have hroll := hv.within
      rw [hname] at hroll
      refine ⟨hv.used.trans (by rw [hslot']), hv.name.trans hname, hv.inUse.trans (by rw [hslot']),
        (within_chains _).trans hwithin' (hroll.mono fun q hq => hq.1), p, hp, ?_⟩
      exact (hroll.lookup p fun hq => hq.2 rfl).trans hlook
    apply yields_then rfl
    set u : Noted SlotSt SlotNotes := { t with notes := _ } with hu
    have htu : Rolled cfg p t u := ⟨rfl, rfl, rfl, (within_chains _).refl _⟩
    split
    · rename_i hseg
      have hpath : p = segmentPath cfg u.st.slot.name u.st.slot.curSeg := by
        unfold activeFile at hp
        rw [if_pos hseg] at hp
        show p = segmentPath cfg t.st.slot.name t.st.slot.curSeg
        rw [hslot', buildEntryPath_ok hp]
        rfl
      have hroll : Keeps (Rolled cfg p) (rollSegmentIfFull cfg) u := by
        apply keeps_silent_getSlot
        split
        · rw [hpath]
          exact rolled_startSegment hseg _ u
        · exact keeps_pure (rolled_chains cfg p) () u
      unfold Keeps post at hroll
      unfold Yields
      cases hrun : (rollSegmentIfFull cfg).run u with
      | ok _ v =>
        rw [hrun] at hroll
        exact hdone v ((rolled_chains cfg p).trans htu hroll)
      | error _ v => trivial
    · exact yields_pure (hdone u htu)

/-- The drain has something to write for the slot. -/
def dirty (a : App) (i : Nat) : Bool := (a.slotAt i).inUse && (a.slotAt i).ingestUsed != 0

/-- No file belongs to two of the streams that hold buffered records. -/
def NoClash (cfg : Cfg) (a : App) (is : List Nat) : Prop :=
  ∀ i ∈ is, ∀ j ∈ is, i ≠ j → dirty a i = true → dirty a j = true →
    ∀ p, Owns cfg (a.slotAt i).name p → ¬ Owns cfg (a.slotAt j).name p

/-- When the drain gets to a slot of the subset, given with its error, storage refuses the flush; a slot outside
is flushed and rolled without a failure. -/
def Foreseen (cfg : Cfg) (fails : Nat → Option Errno) : List Nat → Noted App Books → Prop
  | [], _ => True
  | i :: rest, s =>
    (dirty s.st i = true → match fails i with
      | some err => refusal cfg (s.st.slotAt i) s.st.env = some err
      | none => outcome (onSlot i (flushBufferLocked cfg)) s = .ok ()) ∧
    Foreseen cfg fails rest (post (flushSlot cfg i .none) s)

/-- What a drain of these slots does to each stream's buffer and files. -/
structure Isolated (cfg : Cfg) (fails : Nat → Option Errno) (is : List Nat) (a b : App) : Prop where
  written : ∀ i ∈ is, dirty a i = true → fails i = none → (b.slotAt i).ingestUsed = 0 ∧
    ∃ p, activeFile cfg (a.slotAt i) = .ok p ∧
      b.env.look p = some (a.env.contents p ++ (a.slotAt i).pendingBytes)
  kept : ∀ i ∈ is, dirty a i = true → fails i ≠ none → b.slotAt i = a.slotAt i ∧
    ∀ q, Owns cfg (a.slotAt i).name q → b.env.look q = a.env.look q ∨
      (activeFile cfg (a.slotAt i) = .ok q ∧ a.env.look q = none ∧ b.env.look q = some [])
  other : ∀ i, ¬ (i ∈ is ∧ dirty a i = true) → b.slotAt i = a.slotAt i
  files : ∀ q, (∀ i ∈ is, dirty a i = true → ¬ Owns cfg (a.slotAt i).name q) → b.env.look q = a.env.look q

/-- The sum of the buffers that are written. -/
def writtenBytes (fails : Nat → Option Errno) (a : App) (is : List Nat) : Nat :=
  ((is.filter fun i => dirty a i && (fails i).isNone).map fun i => (a.slotAt i).ingestUsed).sum

/-- The failure of the first stream that fails. -/
def firstFailure (fails : Nat → Option Errno) (a : App) (is : List Nat) : Option Errno :=
  (is.filter (dirty a)).findSome? fails

theorem dirty_iff {a : App} {i : Nat} : dirty a i = true ↔ (a.slotAt i).inUse = true ∧ (a.slotAt i).ingestUsed ≠ 0 := by
  unfold dirty
  simp

theorem owns_activeFile {cfg : Cfg} {slot : StreamCtx} {p : Path} (h : activeFile cfg slot = .ok p) :
    Owns cfg slot.name p := by
  unfold activeFile at h
  split at h
  · rename_i hseg
    rw [buildEntryPath_ok h]
    exact owns_segmentPath _ _ hseg
  · rw [buildEntryPath_ok h]
    exact owns_streamPath cfg _

theorem post_flushSlot (cfg : Cfg) (i : Nat) (d d' : Drained) (s : Noted App Books) :
    post (flushSlot cfg i d) s = post (flushSlot cfg i d') s := by
  unfold flushSlot
  rw [post_get_bind, post_get_bind]
  dsimp only
  split
  · rw [post_then (run_attempt _ s), post_then (run_attempt _ s)]
    cases outcome (onSlot i (flushBufferLocked cfg)) s <;> rfl
  · rfl

section Round
variable {cfg : Cfg} {fails : Nat → Option Errno} {s : Noted App Books} {i : Nat}

theorem flushSlot_clean (d : Drained) (h : dirty s.st i = false) : (flushSlot cfg i d).run s = .ok d s := by
  unfold flushSlot
  unfold dirty at h
  refine run_then rfl ?_
  dsimp only
  rw [if_neg (by rw [h]; decide)]
  rfl

theorem flushSlot_run (d : Drained) (hi : dirty s.st i = true) {r : Except Errno Unit} {t : Noted App Books}
    (h : (attempt (onSlot i (flushBufferLocked cfg)) : AppM Status (Except Errno Unit)).run s = .ok r t) :
    (flushSlot cfg i d).run s = match (motive := Except Errno Unit → _) r with
      | .error err => .ok (d.fail err) t
      | .ok _ => .ok (d.flush (s.st.slotAt i).ingestUsed (s.st.slotAt i).name)
          { t with notes := t.notes.clearFlush i } := by
  unfold flushSlot
  unfold dirty at hi
  refine run_then rfl ?_
  dsimp only
  rw [if_pos hi]
  apply run_then h
  cases r <;> rfl

theorem flushSlot_refused (d : Drained) {err : Errno} (hi : dirty s.st i = true) (hbuf : (s.st.slotAt i).ingestBuf ≠ none)
    (hscan : Scanned cfg (s.st.slotAt i)) (h : refusal cfg (s.st.slotAt i) s.st.env = some err) :
    ∃ t, (flushSlot cfg i d).run s = .ok (d.fail err) t ∧ (∀ j, t.st.slotAt j = s.st.slotAt j) ∧
      OpenedOnly cfg (s.st.slotAt i) s.st.env t.st.env := by
  obtain ⟨hin, hused⟩ := dirty_iff.mp hi
  have hflush := flushBufferLocked_refused (s := ⟨⟨s.st.slotAt i, s.st.env⟩, s.notes.page i⟩) hin hused hbuf hscan h
  cases hrun : (flushBufferLocked cfg).run ⟨⟨s.st.slotAt i, s.st.env⟩, s.notes.page i⟩ with
  | ok _ t => exact (hflush.run_ok hrun).elim
  | error r t =>
    obtain ⟨rfl, hslot, hopened⟩ := hflush.run_error hrun
    have hzoom : (onSlot i (flushBufferLocked cfg)).run s = .error r _ := run_zoom_error hrun
    refine ⟨_, flushSlot_run d hi (run_attempt_error hzoom), fun j => ?_, hopened⟩
    show (s.st.setSlot i t.st.slot).slotAt j = _
    rw [show t.st.slot = s.st.slotAt i from hslot, setSlot_self]

theorem flushSlot_written (d : Drained) (hi : dirty s.st i = true) (hscan : Scanned cfg (s.st.slotAt i))
    (h : outcome (onSlot i (flushBufferLocked cfg)) s = .ok ()) :
    ∃ t, (flushSlot cfg i d).run s = .ok (d.flush (s.st.slotAt i).ingestUsed (s.st.slotAt i).name) t ∧
      (∀ j, j ≠ i → t.st.slotAt j = s.st.slotAt j) ∧ (t.st.slotAt i).ingestUsed = 0 ∧
      Within (Owns cfg (s.st.slotAt i).name) s.st.env t.st.env ∧
      ∃ p, activeFile cfg (s.st.slotAt i) = .ok p ∧
        t.st.env.look p = some (s.st.env.contents p ++ (s.st.slotAt i).pendingBytes) := by
  obtain ⟨hin, hused⟩ := dirty_iff.mp hi
  have hrun := run_of_outcome h
  obtain ⟨u, hu, hpost⟩ := of_run_zoom hrun
  obtain ⟨hzero, -, -, hwithin, hfile⟩ :=
    (flushBufferLocked_written (s := ⟨⟨s.st.slotAt i, s.st.env⟩, s.notes.page i⟩) hused hscan).run_ok hu
  have hhas : HasSlot s.st i := hasSlot_of_inUse hin
  rw [hpost] at hrun
  refine ⟨_, flushSlot_run d hi (run_attempt_ok hrun), fun j hj => ?_, ?_, hwithin, hfile⟩
  · show (s.st.setSlot i u.st.slot).slotAt j = _
    rw [slotAt_setSlot hhas, if_neg hj]
  · show ((s.st.setSlot i u.st.slot).slotAt i).ingestUsed = 0
    rw [slotAt_setSlot hhas, if_pos rfl]
    exact hzero

end Round

section Compose
variable {cfg : Cfg} {fails : Nat → Option Errno} {a b c : App} {i : Nat} {rest : List Nat}

theorem dirty_congr {j : Nat} (h : b.slotAt j = a.slotAt j) : dirty b j = dirty a j := by
  unfold dirty
  rw [h]

theorem writtenBytes_congr {is : List Nat} (h : ∀ j ∈ is, b.slotAt j = a.slotAt j) :
    writtenBytes fails b is = writtenBytes fails a is := by
  have hfilter : (is.filter fun j => dirty b j && (fails j).isNone) = is.filter fun j => dirty a j && (fails j).isNone :=
    List.filter_congr fun j hj => by rw [dirty_congr (h j hj)]
  unfold writtenBytes
  rw [hfilter]
  exact congrArg List.sum (List.map_congr_left fun j hj => by rw [h j (List.mem_filter.mp hj).1])

theorem firstFailure_congr {is : List Nat} (h : ∀ j ∈ is, b.slotAt j = a.slotAt j) :
    firstFailure fails b is = firstFailure fails a is := by
  have hfilter : is.filter (dirty b) = is.filter (dirty a) := List.filter_congr fun j hj => dirty_congr (h j hj)
  unfold firstFailure
  rw [hfilter]

theorem writtenBytes_cons (fails : Nat → Option Errno) (a : App) (i : Nat) (rest : List Nat) :
    writtenBytes fails a (i :: rest) = writtenBytes fails a [i] + writtenBytes fails a rest := by
  rw [← List.singleton_append]
  unfold writtenBytes
  rw [List.filter_append, List.map_append, List.sum_append]

theorem firstFailure_cons (fails : Nat → Option Errno) (a : App) (i : Nat) (rest : List Nat) :
    firstFailure fails a (i :: rest) = (firstFailure fails a [i]).or (firstFailure fails a rest) := by
  rw [← List.singleton_append]
  unfold firstFailure
  rw [List.filter_append, List.findSome?_append]

theorem Isolated.cons (hround : Isolated cfg fails [i] a b) (hrest : Isolated cfg fails rest b c) (hi : i ∉ rest)
    (hclash : NoClash cfg a (i :: rest)) : Isolated cfg fails (i :: rest) a c := by
  have hsame : ∀ j ∈ rest, b.slotAt j = a.slotAt j := fun j hj =>
    hround.other j fun ⟨hmem, _⟩ => hi (List.mem_singleton.mp hmem ▸ hj)
  have hlast : c.slotAt i = b.slotAt i := hrest.other i fun ⟨hmem, _⟩ => hi hmem
  -- The rounds to come leave this stream's files alone, and this round left theirs.
  have hlater : ∀ q, dirty a i = true → Owns cfg (a.slotAt i).name q → c.env.look q = b.env.look q := by
    intro q hdirty hown
    apply hrest.files q
    intro j hj hdirtyj
    rw [dirty_congr (hsame j hj)] at hdirtyj
    rw [hsame j hj]
    exact hclash i (by simp) j (by simp [hj]) (fun h => hi (h ▸ hj)) hdirty hdirtyj q hown
  have hearlier : ∀ j ∈ rest, dirty a j = true → ∀ q, Owns cfg (a.slotAt j).name q → b.env.look q = a.env.look q := by
    intro j hj hdirtyj q hown
    apply hround.files q
    intro k hk hdirtyk
    rw [List.mem_singleton.mp hk] at hdirtyk ⊢
    exact hclash j (by simp [hj]) i (by simp) (fun h => hi (h ▸ hj)) hdirtyj hdirtyk q hown
  refine ⟨fun j hj hdirty hnone => ?_, fun j hj hdirty hsome => ?_, fun j hj => ?_, fun q hq => ?_⟩
  · rcases List.mem_cons.mp hj with rfl | hj
    · obtain ⟨hused, p, hp, hlook⟩ := hround.written j (by simp) hdirty hnone
      exact ⟨hlast ▸ hused, p, hp, (hlater p hdirty (owns_activeFile hp)).trans hlook⟩
    · obtain ⟨hused, p, hp, hlook⟩ := hrest.written j hj (by rw [dirty_congr (hsame j hj), hdirty]) hnone
      rw [hsame j hj] at hp hlook
      refine ⟨hused, p, hp, ?_⟩
      rw [hlook, Env.contents_eq, Env.contents_eq, hearlier j hj hdirty p (owns_activeFile hp)]
  · rcases List.mem_cons.mp hj with rfl | hj
    · obtain ⟨hslot, hfiles⟩ := hround.kept j (by simp) hdirty hsome
      refine ⟨hlast.trans hslot, fun q hown => ?_⟩
      rw [hlater q hdirty hown]
      exact hfiles q hown
    · obtain ⟨hslot, hfiles⟩ := hrest.kept j hj (by rw [dirty_congr (hsame j hj), hdirty]) hsome
      rw [hsame j hj] at hslot hfiles
      refine ⟨hslot, fun q hown => ?_⟩
      rw [← hearlier j hj hdirty q hown]
      exact hfiles q hown
  · have hb : b.slotAt j = a.slotAt j := hround.other j fun ⟨hmem, hd⟩ => hj ⟨by simp [List.mem_singleton.mp hmem], hd⟩
    refine (hrest.other j fun ⟨hmem, hd⟩ => ?_).trans hb
    rw [dirty_congr hb] at hd
    exact hj ⟨by simp [hmem], hd⟩
  · have hb : b.env.look q = a.env.look q := hround.files q fun j hj hd =>
      hq j (by simp [List.mem_singleton.mp hj]) hd
    refine (hrest.files q fun j hj hd => ?_).trans hb
    rw [dirty_congr (hsame j hj)] at hd
    rw [hsame j hj]
    exact hq j (by simp [hj]) hd

end Compose

section Rounds
variable {cfg : Cfg} {fails : Nat → Option Errno}

theorem isolated_flushSlot {s : Noted App Books} {i : Nat} (d : Drained)
    (hbuf : dirty s.st i = true → (s.st.slotAt i).ingestBuf ≠ none)
    (hscan : dirty s.st i = true → Scanned cfg (s.st.slotAt i)) {rest : List Nat}
    (hf : Foreseen cfg fails (i :: rest) s) : ∃ d' t, (flushSlot cfg i d).run s = .ok d' t ∧
      Isolated cfg fails [i] s.st t.st ∧ d'.flushedBytes = d.flushedBytes + writtenBytes fails s.st [i] ∧
      d'.firstError = d.firstError.or (firstFailure fails s.st [i]) := by
  cases hdirty : dirty s.st i with
  | false =>
    refine ⟨d, s, flushSlot_clean d hdirty, ⟨?_, ?_, fun _ _ => rfl, fun _ _ => rfl⟩, ?_, ?_⟩
    · intro j hj hd
      rw [List.mem_singleton.mp hj, hdirty] at hd
      cases hd
    · intro j hj hd
      rw [List.mem_singleton.mp hj, hdirty] at hd
      cases hd
    · simp [writtenBytes, hdirty]
    · simp [firstFailure, hdirty]
  | true =>
    have hsays := hf.1 hdirty
    cases hfail : fails i with
    | some err =>
      rw [hfail] at hsays
      obtain ⟨t, hrun, hslots, hopened⟩ := flushSlot_refused d hdirty (hbuf hdirty) (hscan hdirty) hsays
      refine ⟨_, t, hrun, ⟨?_, ?_, fun j _ => hslots j, ?_⟩, ?_, ?_⟩
      · intro j hj _ hnone
        rw [List.mem_singleton.mp hj, hfail] at hnone
        cases hnone
      · intro j hj _ _
        rw [List.mem_singleton.mp hj]
        refine ⟨hslots i, fun q _ => ?_⟩
        rcases hopened with hsame | ⟨p, hp, hnone, hlook⟩
        · exact .inl (congrFun hsame q)
        · by_cases hqp : q = p
          · subst hqp
            exact .inr ⟨hp, hnone, by rw [hlook, Function.update_self]⟩
          · exact .inl (by rw [hlook, Function.update_of_ne hqp])
      · intro q hq
        rcases hopened with hsame | ⟨p, hp, _, hlook⟩
        · exact congrFun hsame q
        · have hqp : q ≠ p := fun h => hq i (by simp) hdirty (h ▸ owns_activeFile hp)
          rw [hlook, Function.update_of_ne hqp]
      · simp [Drained.fail, writtenBytes, hdirty, hfail]
      · simp [Drained.fail, firstFailure, hdirty, hfail]
    | none =>
      rw [hfail] at hsays
      obtain ⟨t, hrun, hother, hused, hwithin, hfile⟩ := flushSlot_written d hdirty (hscan hdirty) hsays
      refine ⟨_, t, hrun, ⟨?_, ?_, ?_, ?_⟩, ?_, ?_⟩
      · intro j hj _ _
        rw [List.mem_singleton.mp hj]
        exact ⟨hused, hfile⟩
      · intro j hj _ hsome
        rw [List.mem_singleton.mp hj] at hsome
        exact absurd hfail hsome
      · intro j hj
        exact hother j fun hji => hj ⟨by simp [hji], by rw [hji, hdirty]⟩
      · intro q hq
        exact hwithin.lookup q (hq i (by simp) hdirty)
      · simp [Drained.flush, writtenBytes, hdirty, hfail]
      · simp [Drained.flush, firstFailure, hdirty, hfail]

theorem isolated_flushSlots (is : List Nat) (hnodup : is.Nodup) {s : Noted App Books} (d : Drained)
    (hbuf : ∀ i ∈ is, dirty s.st i = true → (s.st.slotAt i).ingestBuf ≠ none)
    (hscan : ∀ i ∈ is, dirty s.st i = true → Scanned cfg (s.st.slotAt i)) (hclash : NoClash cfg s.st is)
    (hf : Foreseen cfg fails is s) : ∃ d' t, (flushSlots cfg is d).run s = .ok d' t ∧
      Isolated cfg fails is s.st t.st ∧ d'.flushedBytes = d.flushedBytes + writtenBytes fails s.st is ∧
      d'.firstError = d.firstError.or (firstFailure fails s.st is) := by
  induction is generalizing s d with
  | nil =>
    refine ⟨d, s, rfl, ⟨nofun, nofun, fun _ _ => rfl, fun _ _ => rfl⟩, rfl, ?_⟩
    simp [firstFailure]
  | cons i rest ih =>
    rw [List.forall_mem_cons] at hbuf hscan
    rw [List.nodup_cons] at hnodup
    obtain ⟨d₁, t, hrun, hround, hbytes, herror⟩ := isolated_flushSlot d hbuf.1 hscan.1 hf
    have hsame : ∀ j ∈ rest, t.st.slotAt j = s.st.slotAt j := fun j hj =>
      hround.other j fun ⟨hmem, _⟩ => hnodup.1 (List.mem_singleton.mp hmem ▸ hj)
    have hpost : post (flushSlot cfg i .none) s = t := (post_flushSlot cfg i .none d s).trans (post_of_run hrun)
    obtain ⟨d₂, u, hruns, hrest, hbytes', herror'⟩ := ih hnodup.2 (s := t) d₁
      (fun j hj hd => by rw [dirty_congr (hsame j hj)] at hd; rw [hsame j hj]; exact hbuf.2 j hj hd)
      (fun j hj hd => by rw [dirty_congr (hsame j hj)] at hd; rw [hsame j hj]; exact hscan.2 j hj hd)
      (fun j hj k hk hjk hdj hdk => by
        rw [dirty_congr (hsame j hj)] at hdj
        rw [dirty_congr (hsame k hk)] at hdk
        rw [hsame j hj, hsame k hk]
        exact hclash j (by simp [hj]) k (by simp [hk]) hjk hdj hdk)
      (hpost ▸ hf.2)
    refine ⟨d₂, u, run_then hrun hruns, hround.cons hrest hnodup.1 hclash, ?_, ?_⟩
    · rw [hbytes', hbytes, writtenBytes_congr hsame, Nat.add_assoc, ← writtenBytes_cons]
    · rw [herror', herror, firstFailure_congr hsame, Option.or_assoc, ← firstFailure_cons]

end Rounds

theorem slotAt_setPending (a : App) (pending : Bool) (i : Nat) : (a.setPending pending).slotAt i = a.slotAt i := by
  unfold App.slotAt App.setPending
  cases a.tsCtx <;> rfl

theorem lt_slots_of_dirty {a : App} {i : Nat} (h : dirty a i = true) : i < slots a := by
  obtain ⟨ctx, hc, hlt⟩ := hasSlot_of_inUse (dirty_iff.mp h).1
  unfold slots streamsSize
  rw [hc]
  exact hlt

theorem drain_reports {fails : Nat → Option Errno} {a : App} {is : List Nat} (h : ∃ i ∈ is, dirty a i = true) :
    0 < writtenBytes fails a is ∨ firstFailure fails a is ≠ none := by
  obtain ⟨i, hi, hdirty⟩ := h
  cases hfail : fails i with
  | none =>
    left
    have hmem : i ∈ is.filter fun i => dirty a i && (fails i).isNone :=
      List.mem_filter.mpr ⟨hi, by rw [hdirty, hfail]; rfl⟩
    exact List.sum_pos_iff_exists_pos_nat.mpr
      ⟨_, List.mem_map.mpr ⟨i, hmem, rfl⟩, Nat.pos_of_ne_zero (dirty_iff.mp hdirty).2⟩
  | some err =>
    right
    intro hnone
    unfold firstFailure at hnone
    rw [List.findSome?_eq_none_iff] at hnone
    rw [hnone i (List.mem_filter.mpr ⟨hi, hdirty⟩)] at hfail
    cases hfail

/-- One run of the handler: streams that storage refuses keep their buffers and files, but for an active file
that was missing and may be there, empty; all others are written out; and its event has the first failure and the
bytes written. -/
theorem drain_isolates_failures {cfg : Cfg} {fails : Nat → Option Errno} {s : Noted App Books}
    (hpending : s.st.pending = true)
    (hopen : ∀ i, dirty s.st i = true → (s.st.slotAt i).ingestBuf ≠ none ∧ Scanned cfg (s.st.slotAt i))
    (hclash : NoClash cfg s.st (List.range (slots s.st)))
    (hf : Foreseen cfg fails (List.range (slots s.st)) s) :
    Isolated cfg fails (List.range (slots s.st)) s.st (post (flushWorkHandler cfg) s).st ∧
      ((∃ i, dirty s.st i = true) → ∃ name events, (post (flushWorkHandler cfg) s).notes.events =
        ⟨.FLUSH, name, writtenBytes fails s.st (List.range (slots s.st)), 0,
          ((firstFailure fails s.st (List.range (slots s.st))).map statusFromErrno).getD .OK⟩ :: events) := by
  obtain ⟨d, u, hrun, hiso, hbytes, herror⟩ := isolated_flushSlots (List.range (slots s.st)) List.nodup_range (s := s)
    .none (fun i _ hd => (hopen i hd).1) (fun i _ hd => (hopen i hd).2) hclash hf
  have hpost : post (flushWorkHandler cfg) s =
      ⟨u.st.setPending false, (unlocked ⟨u.st.setPending false, u.notes⟩).notes.report d⟩ := by
    have hbody : post (do
        let d ← flushAllLocked cfg
        silent (modify fun a => a.setPending false)
        unlockCommon
        note (Books.report d) : AppM Status Unit) s = _ := post_then (show (flushAllLocked cfg).run s = _ from hrun)
    unfold flushWorkHandler
    rw [post_get_bind, if_pos hpending, hbody]
    rfl
  rw [hpost]
  have hslot : ∀ i, (u.st.setPending false).slotAt i = u.st.slotAt i := slotAt_setPending u.st false
  refine ⟨⟨?_, ?_, ?_, hiso.files⟩, fun hdirty => ?_⟩
  · intro i hi hd hnone
    rw [hslot]
    exact hiso.written i hi hd hnone
  · intro i hi hd hsome
    rw [hslot]
    exact hiso.kept i hi hd hsome
  · intro i hi
    rw [hslot]
    exact hiso.other i hi
  · obtain ⟨i, hd⟩ := hdirty
    have hreports := @drain_reports fails s.st (List.range (slots s.st)) ⟨i, List.mem_range.mpr (lt_slots_of_dirty hd), hd⟩
    have hstatus : d.status = ((firstFailure fails s.st (List.range (slots s.st))).map statusFromErrno).getD .OK := by
      unfold Drained.status
      rw [herror.trans Option.none_or]
      cases firstFailure fails s.st (List.range (slots s.st)) <;> rfl
    have htotal : d.flushedBytes = writtenBytes fails s.st (List.range (slots s.st)) := hbytes.trans (Nat.zero_add _)
    have hemits : 0 < d.flushedBytes ∨ d.status ≠ .OK := by
      rw [htotal, hstatus]
      apply hreports.imp id
      intro hfails
      obtain ⟨err, herr⟩ := Option.ne_none_iff_exists'.mp hfails
      rw [herr]
      exact statusFromErrno_ne_ok err
    unfold Books.report
    rw [if_pos hemits, hstatus, htotal]
    exact ⟨_, _, rfl⟩

/-- Streams `"A"` and `"B"` with a record buffered in each and a flush queued. -/
def pairBuffered (bad : Nat → Bool) : Noted App Books :=
  run (Cfg.small false false true 64) ⟨App.boot (Sys.blank bad), .blank⟩
    [.open 0 [65], .open 1 [66], .append 0 ⟨5, 7⟩, .append 1 ⟨6, 8⟩, .flushAsync 0]

theorem ok_of_isOk {ε : Type} {x : Except ε Unit} (h : x.isOk = true) : x = .ok () := by
  cases x with
  | ok _ => rfl
  | error r => cases h

/-- The file of `"A"` cannot be opened. -/
theorem second_stream_drained :
    Isolated (Cfg.small false false true 64) (fun i => if i = 0 then some Errno.EIO else none) [0, 1]
      (pairBuffered fun n => n == 29).st
      (post (flushWorkHandler (Cfg.small false false true 64)) (pairBuffered fun n => n == 29)).st ∧
    ∃ name events, (post (flushWorkHandler (Cfg.small false false true 64)) (pairBuffered fun n => n == 29)).notes.events =
      ⟨.FLUSH, name, 28, 0, Status.ERR_IO⟩ :: events := by
  have htwo : slots (pairBuffered fun n => n == 29).st = 2 := by decide +kernel
  have hnames : ((pairBuffered fun n => n == 29).st.slotAt 0).name = [65] ∧
      ((pairBuffered fun n => n == 29).st.slotAt 1).name = [66] := by decide +kernel
  have hsep : Separate (Cfg.small false false true 64) [65] [66] := by decide
  obtain ⟨hiso, hevent⟩ := @drain_isolates_failures (Cfg.small false false true 64)
    (fun i => if i = 0 then some Errno.EIO else none) (pairBuffered fun n => n == 29) (by decide +kernel)
    (fun i hi => by
      have hlt := lt_slots_of_dirty hi
      rw [htwo] at hlt
      interval_cases i <;> exact ⟨by decide +kernel, nofun⟩)
    (by
      rw [htwo]
      intro i hi j hj hij _ _ p hown hown'
      rw [List.mem_range] at hi hj
      interval_cases i <;> interval_cases j
      · exact hij rfl
      · rw [hnames.1] at hown
        rw [hnames.2] at hown'
        exact Owns.disjoint hsep hown hown'
      · rw [hnames.2] at hown
        rw [hnames.1] at hown'
        exact Owns.disjoint hsep hown' hown
      · exact hij rfl)
    (by
      rw [htwo]
      refine ⟨fun _ => ?_, fun _ => ok_of_isOk (by decide +kernel), trivial⟩
      show refusal _ _ _ = some Errno.EIO
      decide +kernel)
  have hbytes : writtenBytes (fun i => if i = 0 then some Errno.EIO else none) (pairBuffered fun n => n == 29).st
      [0, 1] = 28 := by decide +kernel
  have hfirst : firstFailure (fun i => if i = 0 then some Errno.EIO else none) (pairBuffered fun n => n == 29).st
      [0, 1] = some Errno.EIO := by decide +kernel
  rw [htwo, show List.range 2 = [0, 1] from rfl] at hiso hevent
  rw [hbytes, hfirst] at hevent
  exact ⟨hiso, hevent ⟨0, by decide +kernel⟩⟩

/-- The roll after the batch failed, so that the active segment is missing when the drain opens it, and the write
fails: the segment is there afterwards, empty. -/
theorem refused_stream_gets_file :
    let cfg := Cfg.small true false true 280
    let s := run cfg ⟨twoSegments fun n => n == 18 || n == 21, .blank⟩
      [.open 0 [65], .batch 0 twelve, .append 0 ⟨20, 0⟩, .flushAsync 0]
    s.st.pending = true ∧ dirty s.st 0 = true ∧ (s.st.slotAt 0).segsScanned = true ∧
      refusal cfg (s.st.slotAt 0) s.st.env = some Errno.EIO ∧ (activeFile cfg (s.st.slotAt 0)).toOption = some (segmentPath cfg [65] 2) ∧
      s.st.env.look (segmentPath cfg [65] 2) = none ∧
      (post (flushWorkHandler cfg) s).st.env.look (segmentPath cfg [65] 2) = some [] := by
  decide +kernel

end ZephyrDB.Ts.Eventing
