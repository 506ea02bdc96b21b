import ZephyrDB.Lib.Drive
import ZephyrDB.Lib.Transition
import ZephyrDB.Ts.Lifetime
import ZephyrDB.Ts.Salvage

/-!
The consumed watermark as a register. The file is rewritten whole, and what it
is rewritten with is committed by the close: here the calls on it run on a drive
that keeps new contents aside until then, next to the instance they belong to.
-/

set_option autoImplicit false

namespace ZephyrDB.Ts

open Lib

/-- An instance, and the drive its watermark files are on. -/
structure MarkSt where
  app : App
  drive : Drive

abbrev MarkM (ε α : Type) := EStateM ε MarkSt α

def onInstance {ε α : Type} (m : AppM ε α) : MarkM ε α := zoom MarkSt.app (fun s a => { s with app := a }) m

def onDrive {ε α : Type} (m : DriveM ε α) : MarkM ε α := zoom MarkSt.drive (fun s d => { s with drive := d }) m

/-- The checks of `zdb_ts_watermark_set`, and the path it goes on with. -/
def setPath (cfg : Cfg) (h : Nat) : AppM Status Path := do
  let a ← get
  match a.handles h with
  | none => throw .ERR_INVAL
  | some name =>
    if !a.cfgSet then throw .ERR_INVAL
    tsCtxGetOrAlloc cfg .ERR_NOMEM
    toStatus (ensureStreamDir cfg)
    rethrow ((buildWatermarkPath cfg name).mapError statusFromErrno)

/-- The checks of `zdb_ts_watermark_get` and `zdb_ts_watermark_clear`, and their path. -/
def markPath (cfg : Cfg) (h : Nat) : AppM Status Path := do
  let a ← get
  match a.handles h with
  | none => throw .ERR_INVAL
  | some name =>
    if !a.cfgSet then throw .ERR_INVAL
    rethrow ((buildWatermarkPath cfg name).mapError statusFromErrno)

/-- `zdb_ts_watermark_set`: open, write and close; what the close returns is dropped. -/
def watermarkSet (cfg : Cfg) (h : Nat) (consumedTsMs : UInt64) : MarkM Status Unit := do
  let path ← onInstance (setPath cfg h)
  let wr ← onDrive (toStatus (Drive.rewrite path (watermarkEncode consumedTsMs)))
  if wr ≠ wmkSize then throw Status.ERR_IO

def watermarkDecode (raw : Bytes) : Option UInt64 :=
  if raw.length ≠ wmkSize ∨ field raw 0 4 ≠ WMK_MAGIC ∨ field raw 4 2 ≠ WMK_VERSION then none
  else if !crcOk raw 16 then none
  else some (UInt64.ofNat (field raw 8 8))

/-- `zdb_ts_watermark_get`. -/
def watermarkGet (cfg : Cfg) (h : Nat) : MarkM Status UInt64 := do
  let path ← onInstance (markPath cfg h)
  let raw ← onDrive (toStatus (Drive.fetch path wmkSize))
  match watermarkDecode raw with
  | none => throw .ERR_NOT_FOUND
  | some tsMs => return tsMs

/-- `zdb_ts_watermark_clear`: clearing a mark that is not there is no failure. -/
def watermarkClear (cfg : Cfg) (h : Nat) : MarkM Status Unit := do
  let path ← onInstance (markPath cfg h)
  match ← onDrive (attempt (Drive.unlink path)) with
  | .ok _ => return ()
  | .error .ENOENT => return ()
  | .error err => throw (statusFromErrno err)

def MarkOp.handle : MarkOp → Nat
  | .set h _ => h
  | .get h => h
  | .clear h => h

/-- Instance and drive, and beside them what is promised of each stream: `some (some v)` once `v` was set,
`some none` once the mark was cleared; nothing where the last attempt failed or none was made. -/
structure Marks where
  st : MarkSt
  promised : Bytes → Option (Option UInt64)

def Marks.promise (r : Marks) (h : Nat) (outcome : Except Status Unit) (x : Option UInt64) :
    Bytes → Option (Option UInt64) :=
  match r.st.app.handles h with
  | none => r.promised
  | some name =>
    Function.update r.promised name (match outcome with
      | .ok _ => some x
      | .error _ => none)

def Marks.step (cfg : Cfg) (r : Marks) : MarkOp → Marks
  | .set h tsMs => ⟨post (watermarkSet cfg h tsMs) r.st, r.promise h (outcome (watermarkSet cfg h tsMs) r.st) (some tsMs)⟩
  | .clear h => ⟨post (watermarkClear cfg h) r.st, r.promise h (outcome (watermarkClear cfg h) r.st) none⟩
  | .get h => ⟨post (watermarkGet cfg h) r.st, r.promised⟩

/-- A run of the calls, on any streams and with any failures. -/
abbrev Marks.Goes (cfg : Cfg) (r : Marks) (op : MarkOp) (r' : Marks) : Prop := r' = r.step cfg op

/-- Where a set gets as far as a full write, its close does not fail. -/
def MarkSt.Commits (cfg : Cfg) (h : Nat) (s : MarkSt) : Prop :=
  ∀ path a, (setPath cfg h).run s.app = .ok path a → ¬ s.drive.Loses wmkSize

def Marks.Commits (cfg : Cfg) (r : Marks) : MarkOp → Prop
  | .set h _ => r.st.Commits cfg h
  | _ => True

/-- What a get may answer: the value that was set, or no mark once it was cleared. -/
def Marks.Answers (cfg : Cfg) (r : Marks) : Prop :=
  ∀ h name x, r.st.app.handles h = some name → r.promised name = some x →
    (∀ v, outcome (watermarkGet cfg h) r.st = .ok v → x = some v) ∧
      (outcome (watermarkGet cfg h) r.st = .error .ERR_NOT_FOUND → r.st.drive.ReadsWhole wmkSize → x = none)

/-- A call on one stream leaves the watermark of another one alone. -/
def Marks.Isolates (cfg : Cfg) (r : Marks) : Prop :=
  ∀ (op : MarkOp) name path, buildWatermarkPath cfg name = .ok path → r.st.app.handles op.handle ≠ some name →
    (r.step cfg op).st.drive.files path = r.st.drive.files path

section Paths
variable {cfg : Cfg} {h : Nat} {a : App} {path : Path}

theorem buildWatermarkPath_ok {name : Bytes} (hp : buildWatermarkPath cfg name = .ok path) :
    path = tsPath cfg (watermarkEntry name) := by
  unfold buildWatermarkPath buildEntryPath at hp
  split at hp
  · cases hp
  · split at hp
    · cases hp
    · exact (Except.ok.inj hp).symm

theorem watermark_apart {name other : Bytes} {path' : Path} (hp : buildWatermarkPath cfg name = .ok path)
    (hp' : buildWatermarkPath cfg other = .ok path') (hne : name ≠ other) : path ≠ path' := by
  rw [buildWatermarkPath_ok hp, buildWatermarkPath_ok hp']
  intro heq
  exact hne (List.append_cancel_right (tsPath_injective heq))

theorem setPath_yields (cfg : Cfg) (h : Nat) (a : App) : Yields (setPath cfg h) a
    (fun path b => b.handles = a.handles ∧ ∃ name, a.handles h = some name ∧ buildWatermarkPath cfg name = .ok path)
    fun _ b => b.handles = a.handles := by
  apply yields_get_bind
  cases hh : a.handles h with
  | none => exact yields_throw rfl
  | some name =>
    refine yields_guard (fun _ => rfl) fun _ => ?_
    apply yields_bind ((@settles_tsCtxGetOrAlloc cfg _).yields a |>.imp (fun _ _ hb => handles_of_held hb.held) fun _ _ hb => handles_of_held hb.held)
    intro _ b hb
    apply yields_bind (yields_adaptExcept _ ((@settles_ensureStreamDir cfg).yields b |>.imp (fun _ _ hc => (handles_of_held hc.held).trans hb) fun _ _ hc => (handles_of_held hc.held).trans hb))
    intro _ c hc
    apply yields_rethrow
    cases hp : buildWatermarkPath cfg name with
    | error err => exact hc
    | ok path => exact ⟨hc, name, rfl, hp⟩

theorem markPath_yields (cfg : Cfg) (h : Nat) (a : App) : Yields (markPath cfg h) a
    (fun path b => b = a ∧ ∃ name, a.handles h = some name ∧ buildWatermarkPath cfg name = .ok path)
    fun r b => b = a ∧ r ≠ .ERR_NOT_FOUND := by
  apply yields_get_bind
  cases hh : a.handles h with
  | none => exact yields_throw ⟨rfl, by decide⟩
  | some name =>
    apply yields_guard (fun _ => ⟨rfl, by decide⟩)
    intro _
    apply yields_rethrow
    cases hp : buildWatermarkPath cfg name with
    | error err =>
      refine ⟨rfl, ?_⟩
      unfold buildWatermarkPath buildEntryPath at hp
      split at hp
      · cases hp
        decide
      · split at hp
        · cases hp
          decide
        · cases hp
    | ok path => exact ⟨rfl, name, rfl, hp⟩

end Paths

def markAt (d : Drive) (path : Path) : Option UInt64 :=
  (d.files path).bind fun bs => watermarkDecode (slice bs 0 wmkSize)

theorem watermarkEncode_length (tsMs : UInt64) : (watermarkEncode tsMs).length = wmkSize := by
  simp [watermarkEncode, wmkSize]

theorem watermarkDecode_encode (tsMs : UInt64) : watermarkDecode (watermarkEncode tsMs) = some tsMs := by
  have hmagic : field (watermarkEncode tsMs) 0 4 = WMK_MAGIC := by
    rw [watermarkEncode, field_sealed (by simp)]
    exact field_here _ (by decide)
  have hversion : field (watermarkEncode tsMs) 4 2 = WMK_VERSION := by
    rw [watermarkEncode, field_sealed (by simp), field_skip (by simp)]
    exact field_here _ (by decide)
  have hvalue : field (watermarkEncode tsMs) 8 8 = tsMs.toNat := by
    rw [watermarkEncode, field_sealed (by simp), field_skip (by simp), field_skip (by simp), field_skip (by simp)]
    simpa using field_here [] tsMs.toNat_lt
  have hcrc : crcOk (watermarkEncode tsMs) 16 = true := crcOk_sealed (by simp)
  unfold watermarkDecode
  rw [if_neg (by simp [watermarkEncode_length, hmagic, hversion]), hcrc, hvalue]
  simp

structure Spares (cfg : Cfg) (h : Nat) (s t : MarkSt) : Prop where
  handles : t.app.handles = s.app.handles
  faults : t.drive.faults = s.drive.faults
  others : ∀ name path, buildWatermarkPath cfg name = .ok path → s.app.handles h ≠ some name →
    t.drive.files path = s.drive.files path

section Calls
variable {cfg : Cfg} {h : Nat} {s : MarkSt}

theorem spares_path {name : Bytes} {path : Path} (hh : s.app.handles h = some name)
    (hp : buildWatermarkPath cfg name = .ok path) {b : App} (hb : b.handles = s.app.handles) {d : Drive}
    (hd : Drive.Apart path s.drive d) : Spares cfg h s ⟨b, d⟩ := by
  refine ⟨hb, hd.faults, fun other path' hp' hne => hd.files path' ?_⟩
  exact watermark_apart hp' hp fun heq => hne (heq ▸ hh)

theorem spares_app {b : App} (hb : b.handles = s.app.handles) : Spares cfg h s ⟨b, s.drive⟩ :=
  ⟨hb, rfl, fun _ _ _ _ => rfl⟩

theorem watermarkSet_yields (cfg : Cfg) (h : Nat) (v : UInt64) (s : MarkSt) : Yields (watermarkSet cfg h v) s
    (fun _ t => Spares cfg h s t ∧ ∃ name path, s.app.handles h = some name ∧ buildWatermarkPath cfg name = .ok path ∧
      (s.Commits cfg h → markAt t.drive path = some v))
    fun _ t => Spares cfg h s t := by
  have hfront := setPath_yields cfg h s.app
  cases hrun : (setPath cfg h).run s.app with
  | error r b => exact yields_fails (run_zoom_error hrun) (spares_app (hfront.run_error hrun))
  | ok path b =>
    obtain ⟨hb, name, hh, hp⟩ := hfront.run_ok hrun
    apply yields_then (run_zoom hrun)
    have hrewrite := Drive.rewrite_yields s.drive path (watermarkEncode v)
    rw [watermarkEncode_length] at hrewrite
    refine yields_bind (P := fun wr t => Spares cfg h s t ∧ (wr = wmkSize → s.Commits cfg h → markAt t.drive path = some v))
      (yields_zoom (yields_adaptExcept _ (hrewrite.imp (fun wr d hd => ?_) fun _ d hd => spares_path hh hp hb hd)))
      fun wr t ht => ?_
    · refine ⟨spares_path hh hp hb hd.1, fun hwr hcommits => ?_⟩
      rcases hd.2 hwr with ⟨hlost, -⟩ | hfile
      · exact absurd hlost (hcommits path b hrun)
      · show (d.files path).bind _ = _
        rw [hfile, Option.bind_some, ← watermarkEncode_length v, slice_all, watermarkDecode_encode]
    · refine yields_guard (fun _ => ht.1) fun hwr => yields_pure ⟨ht.1, name, path, hh, hp, ht.2 (not_not.mp hwr)⟩

theorem watermarkClear_yields (hc : s.drive.Candid) : Yields (watermarkClear cfg h) s
    (fun _ t => Spares cfg h s t ∧ ∃ name path, s.app.handles h = some name ∧
      buildWatermarkPath cfg name = .ok path ∧ markAt t.drive path = none)
    fun _ t => Spares cfg h s t := by
  have hfront := markPath_yields cfg h s.app
  cases hrun : (markPath cfg h).run s.app with
  | error r b => exact yields_fails (run_zoom_error hrun) (spares_app (congrArg App.handles (hfront.run_error hrun).1))
  | ok path b =>
    obtain ⟨hb, name, hh, hp⟩ := hfront.run_ok hrun
    have hb : b.handles = s.app.handles := congrArg App.handles hb
    apply yields_then (run_zoom hrun)
    refine yields_bind (P := fun r t => Spares cfg h s t ∧ (r = .ok () ∨ r = .error .ENOENT → markAt t.drive path = none))
      (yields_zoom ((yields_attempt (Drive.unlink_yields s.drive path)).imp (fun r d hd => ?_) fun _ _ hno => hno))
      fun r t ht => ?_
    · cases r with
      | ok _ =>
        refine ⟨spares_path hh hp hb hd.apart_update, fun _ => ?_⟩
        show (d.files path).bind _ = none
        rw [hd.files, Function.update_self]
        rfl
      | error err =>
        refine ⟨spares_path hh hp hb (hd.1.apart path), fun herr => ?_⟩
        have hmissing : s.drive.files path = none := by
          rcases hd.2 with ⟨n, hfault⟩ | hmissing
          · rcases herr with herr | herr
            · cases herr
            · cases herr
              exact absurd hfault (hc _ n)
          · exact hmissing
        show (d.files path).bind _ = none
        rw [hd.1.files, hmissing]
        rfl
    · split
      · exact yields_pure ⟨ht.1, name, path, hh, hp, ht.2 (.inl rfl)⟩
      · exact yields_pure ⟨ht.1, name, path, hh, hp, ht.2 (.inr rfl)⟩
      · exact yields_throw ht.1

theorem watermarkGet_yields (hc : s.drive.Candid) : Yields (watermarkGet cfg h) s
    (fun v t => Spares cfg h s t ∧ t.drive.files = s.drive.files ∧ ∃ name path, s.app.handles h = some name ∧
      buildWatermarkPath cfg name = .ok path ∧ markAt s.drive path = some v)
    fun r t => Spares cfg h s t ∧ t.drive.files = s.drive.files ∧
      (r = .ERR_NOT_FOUND → s.drive.ReadsWhole wmkSize → ∃ name path, s.app.handles h = some name ∧
        buildWatermarkPath cfg name = .ok path ∧ markAt s.drive path = none) := by
  have hfront := markPath_yields cfg h s.app
  cases hrun : (markPath cfg h).run s.app with
  | error r b =>
    obtain ⟨hb, hne⟩ := hfront.run_error hrun
    exact yields_fails (run_zoom_error hrun) ⟨spares_app (congrArg App.handles hb), rfl, fun hr => absurd hr hne⟩
  | ok path b =>
    obtain ⟨hb, name, hh, hp⟩ := hfront.run_ok hrun
    have hb : b.handles = s.app.handles := congrArg App.handles hb
    have hspares : ∀ {d : Drive}, d.files = s.drive.files → d.faults = s.drive.faults → Spares cfg h s ⟨b, d⟩ :=
      fun hfiles hfaults => ⟨hb, hfaults, fun _ _ _ _ => by rw [hfiles]⟩
    apply yields_then (run_zoom hrun)
    refine yields_bind (P := fun raw t => Spares cfg h s t ∧ t.drive.files = s.drive.files ∧
        ∃ bs, s.drive.files path = some bs ∧ (s.drive.ReadsWhole wmkSize ∨ raw.length = wmkSize → raw = slice bs 0 wmkSize))
      (yields_zoom (yields_adaptExcept _ ((Drive.fetch_yields s.drive hc path wmkSize).imp (fun raw d hd => ?_)
        fun err d hd => ?_))) fun raw t ⟨ht, hfiles, bs, hbs, hraw⟩ => ?_
    · exact ⟨hspares hd.1 hd.2.1, hd.1, hd.2.2⟩
    · refine ⟨hspares hd.1 hd.2.1, hd.1, fun hr _ => ⟨name, path, hh, hp, ?_⟩⟩
      have herr : err = .ENOENT := by
        cases err <;> first | rfl | cases hr
      unfold markAt
      rw [hd.2.2 herr]
      rfl
    · have hmark : raw = slice bs 0 wmkSize → markAt s.drive path = watermarkDecode raw := by
        rintro rfl
        unfold markAt
        rw [hbs]
        rfl
      split
      · rename_i hnone
        exact yields_throw ⟨ht, hfiles, fun _ hwhole => ⟨name, path, hh, hp, (hmark (hraw (.inl hwhole))).trans hnone⟩⟩
      · rename_i v hsome
        have hlen : raw.length = wmkSize := by
          unfold watermarkDecode at hsome
          by_contra hlen
          rw [if_pos (.inl hlen)] at hsome
          cases hsome
        exact yields_pure ⟨ht, hfiles, name, path, hh, hp, (hmark (hraw (.inr hlen))).trans hsome⟩

end Calls

/-! ### Where nothing fails

On a drive whose calls succeed, what is committed is what the files would hold
if every write were committed at once. -/

section Quiet
variable {cfg : Cfg} {h : Nat} {s : MarkSt}

/-- No call fails, and the drive holds what the instance's file system does. -/
structure MarkSt.Quiet (s : MarkSt) : Prop where
  clean : s.app.env.Clean
  faults : ∀ n, s.drive.faults n = .none
  files : s.drive.files = s.app.env.look

theorem tsWatermarkSet_eq (cfg : Cfg) (h : Nat) (v : UInt64) : tsWatermarkSet cfg h v = (do
    let path ← setPath cfg h
    onEnv (toStatus (fsOpen path true true))
    let wr ← onEnv (toStatus (fsWrite path 0 (watermarkEncode v)))
    if wr ≠ wmkSize then throw Status.ERR_IO) := by
  unfold tsWatermarkSet setPath
  simp only [bind_assoc]
  apply congrArg _
  apply funext
  intro a
  cases a.handles h with
  | none => rfl
  | some name =>
    dsimp only
    split
    · rfl
    · simp only [bind_assoc]

def App.world (a : App) : (Path → Option Bytes) × (Nat → Fault) := (a.env.look, a.env.faults)

theorem still_call : Fixes (fun e : Sys => (e.look, e.faults)) (call : Rc Unit) := fun e => by
  unfold post EStateM.run call
  cases e.fault <;> rfl

theorem setPath_still (cfg : Cfg) (h : Nat) : Fixes App.world (setPath cfg h) := by
  have hctx : Fixes App.world (tsCtxGetOrAlloc cfg .ERR_NOMEM) := by
    apply fixes_bind fixes_get
    intro a
    apply fixes_guard
    split
    · exact fixes_pure _
    · apply fixes_bind (fixes_zoom (fixes_adaptExcept _ still_call) fun _ _ h => h)
      intro _
      apply fixes_modify
      intro _
      exact rfl
  have hdir : Fixes App.world (ensureStreamDir cfg) := by
    have hready : Fixes App.world (modify fun a : App =>
        { a with tsCtx := a.tsCtx.map fun ctx => { ctx with tsDirReady := true } } : AppM Errno Unit) :=
      fixes_modify fun _ => rfl
    refine fixes_bind fixes_get fun a => fixes_ite (fixes_guard (fixes_bind ?_ fun r => ?_)) (fixes_pure _)
    · apply fixes_zoom (fixes_attempt still_call)
      intro _ _ h
      exact h
    · split
      · exact hready
      · apply fixes_bind (fixes_throw _)
        intro _
        exact hready
      · exact hready
  apply fixes_bind fixes_get
  intro a
  split
  · exact fixes_throw _
  · apply fixes_guard
    apply fixes_bind hctx
    intro _
    apply fixes_bind (fixes_adaptExcept _ hdir)
    intro _
    exact fixes_rethrow _

theorem set_committed (cfg : Cfg) (h : Nat) (v : UInt64) (hs : s.Quiet) :
    outcome (watermarkSet cfg h v) s = outcome (tsWatermarkSet cfg h v) s.app ∧
      (post (watermarkSet cfg h v) s).drive.files = (post (tsWatermarkSet cfg h v) s.app).env.look := by
  rw [tsWatermarkSet_eq]
  have hstill := setPath_still cfg h s.app
  cases hrun : (setPath cfg h).run s.app with
  | error r b =>
    rw [show post (setPath cfg h) s.app = b by simp [post, hrun]] at hstill
    have hset : (watermarkSet cfg h v).run s = .error r { s with app := b } := run_fails (run_zoom_error hrun)
    simp only [outcome, post, hset, run_fails hrun]
    exact ⟨trivial, hs.files.trans (congrArg Prod.fst hstill).symm⟩
  | ok path b =>
    rw [post_of_run hrun] at hstill
    have hclean : b.env.Clean := fun n => by
      rw [show b.env.faults = s.app.env.faults from congrArg Prod.snd hstill]
      exact hs.clean n
    obtain ⟨d, hrewrite, hfiles⟩ := Drive.run_rewrite hs.faults path (watermarkEncode v)
    rw [watermarkEncode_length] at hrewrite
    obtain ⟨e₁, hopen, l₁⟩ := fsOpen_truncate hclean path
    obtain ⟨e₂, hwrite, l₂⟩ := fsWrite_ok (l₁.clean hclean) 0 (watermarkEncode v)
      (show e₁.look path = some [] by rw [l₁.look, Function.update_self])
    rw [watermarkEncode_length] at hwrite
    have hset : (watermarkSet cfg h v).run s = .ok () ⟨b, d⟩ := by
      apply run_then (run_zoom hrun)
      apply run_then (run_zoom (run_toStatus hrewrite))
      rw [if_neg (by simp)]
      rfl
    have hold : (setPath cfg h >>= fun path => do
        onEnv (toStatus (fsOpen path true true))
        let wr ← onEnv (toStatus (fsWrite path 0 (watermarkEncode v)))
        if wr ≠ wmkSize then throw Status.ERR_IO).run s.app = .ok () { b with env := e₂ } := by
      apply run_then hrun
      apply run_then (run_onEnv (run_toStatus hopen))
      apply run_then (run_onEnv (run_toStatus hwrite))
      rw [if_neg (by simp)]
      rfl
    rw [outcome_of_run hset, outcome_of_run hold, post_of_run hset, post_of_run hold]
    refine ⟨rfl, ?_⟩
    show d.files = e₂.look
    rw [hfiles, l₂.look, l₁.look, writeAt_nil, Function.update_idem, hs.files, show b.env.look = s.app.env.look from
      congrArg Prod.fst hstill]

theorem tsWatermarkGet_eq (cfg : Cfg) (h : Nat) : tsWatermarkGet cfg h = (do
    let path ← markPath cfg h
    onEnv (toStatus (fsOpen path false false))
    let raw ← onEnv (toStatus (fsRead path 0 wmkSize))
    match watermarkDecode raw with
    | none => throw .ERR_NOT_FOUND
    | some tsMs => return tsMs) := by
  unfold tsWatermarkGet markPath
  simp only [bind_assoc]
  apply congrArg _
  apply funext
  intro a
  cases a.handles h with
  | none => rfl
  | some name =>
    dsimp only
    split
    · rfl
    · apply congrArg _
      apply funext
      intro path
      apply congrArg _
      apply funext
      intro _
      apply congrArg _
      apply funext
      intro raw
      unfold watermarkDecode
      split
      · rfl
      · split <;> rfl

theorem tsWatermarkClear_eq (cfg : Cfg) (h : Nat) : tsWatermarkClear cfg h = (do
    let path ← markPath cfg h
    onEnv (toStatus (unlinkIfPresent path))) := by
  unfold tsWatermarkClear markPath
  simp only [bind_assoc]
  apply congrArg _
  apply funext
  intro a
  cases a.handles h with
  | none => rfl
  | some name =>
    dsimp only
    split <;> rfl

theorem get_committed (cfg : Cfg) (h : Nat) (hs : s.Quiet) :
    outcome (watermarkGet cfg h) s = outcome (tsWatermarkGet cfg h) s.app := by
  rw [tsWatermarkGet_eq]
  cases hrun : (markPath cfg h).run s.app with
  | error r b =>
    have hget : (watermarkGet cfg h).run s = .error r { s with app := b } := run_fails (run_zoom_error hrun)
    simp only [outcome, hget, run_fails hrun]
  | ok path b =>
    obtain ⟨rfl, -⟩ := (markPath_yields cfg h s.app).run_ok hrun
    have hfront : (onInstance (markPath cfg h)).run s = .ok path s := run_zoom hrun
    unfold watermarkGet
    rw [outcome_then hfront, outcome_then hrun]
    rcases Drive.run_fetch hs.faults path wmkSize with ⟨bs, d, hbs, hfetch, -⟩ | ⟨d, hnone, hfetch, -⟩
    · have hlook : s.app.env.look path = some bs := (congrFun hs.files path).symm.trans hbs
      obtain ⟨e₁, hopen, l₁⟩ := fsOpen_existing hs.clean false hlook
      obtain ⟨e₂, hread, -⟩ := fsRead_ok (l₁.clean hs.clean) path 0 wmkSize
      rw [l₁.look, hlook, Option.getD_some] at hread
      have hnew : (onDrive (toStatus (Drive.fetch path wmkSize))).run s = .ok _ { s with drive := d } :=
        run_zoom (run_toStatus hfetch)
      rw [outcome_then hnew, outcome_then (run_onEnv (run_toStatus hopen)), outcome_then (run_onEnv (run_toStatus hread))]
      cases watermarkDecode (slice bs 0 wmkSize) <;> rfl
    · have hlook : s.app.env.look path = none := (congrFun hs.files path).symm.trans hnone
      obtain ⟨e₁, hopen, -⟩ := fsOpen_missing hs.clean false hlook
      have hnew : (onDrive (toStatus (Drive.fetch path wmkSize))).run s = .error .ERR_NOT_FOUND { s with drive := d } :=
        run_zoom_error (run_adapt_error hfetch)
      have hold : (onEnv (toStatus (fsOpen path false false)) : AppM Status Unit).run s.app =
          .error .ERR_NOT_FOUND { s.app with env := e₁ } := run_zoom_error (run_adapt_error hopen)
      simp only [outcome, run_fails hnew, run_fails hold]

theorem clear_committed (cfg : Cfg) (h : Nat) (hs : s.Quiet) :
    outcome (watermarkClear cfg h) s = outcome (tsWatermarkClear cfg h) s.app ∧
      (post (watermarkClear cfg h) s).drive.files = (post (tsWatermarkClear cfg h) s.app).env.look := by
  rw [tsWatermarkClear_eq]
  cases hrun : (markPath cfg h).run s.app with
  | error r b =>
    have hclear : (watermarkClear cfg h).run s = .error r { s with app := b } := run_fails (run_zoom_error hrun)
    have hb : b = s.app := ((markPath_yields cfg h s.app).run_error hrun).1
    simp only [outcome, post, hclear, run_fails hrun]
    exact ⟨trivial, hb ▸ hs.files⟩
  | ok path b =>
    obtain ⟨rfl, -⟩ := (markPath_yields cfg h s.app).run_ok hrun
    have hfront : (onInstance (markPath cfg h)).run s = .ok path s := run_zoom hrun
    unfold watermarkClear
    rw [outcome_then hfront, outcome_then hrun, post_then hfront, post_then hrun]
    rcases Drive.run_unlink hs.faults path with ⟨d, hbs, hunlink, hd⟩ | ⟨d, hnone, hunlink, hd⟩
    · obtain ⟨bs, hlook⟩ := Option.ne_none_iff_exists'.mp (congrFun hs.files path ▸ hbs)
      obtain ⟨e, hold, l⟩ := fsUnlink_existing hs.clean hlook
      have hnew : (onDrive (attempt (Drive.unlink path)) : MarkM Status _).run s = .ok (.ok ()) { s with drive := d } :=
        run_zoom (run_attempt_ok hunlink)
      have hold : (onEnv (toStatus (unlinkIfPresent path)) : AppM Status Unit).run s.app = .ok () { s.app with env := e } :=
        run_onEnv (run_toStatus (run_then (run_attempt_ok hold) rfl))
      rw [outcome_then hnew, outcome_of_run hold, post_then hnew, post_of_run hold]
      refine ⟨rfl, ?_⟩
      show d.files = e.look
      rw [hd, l.look, hs.files]
    · have hlook : s.app.env.look path = none := (congrFun hs.files path).symm.trans hnone
      obtain ⟨e, hold, l⟩ := fsUnlink_missing hs.clean hlook
      have hnew : (onDrive (attempt (Drive.unlink path)) : MarkM Status _).run s =
          .ok (.error .ENOENT) { s with drive := d } := run_zoom (run_attempt_error hunlink)
      have hold : (onEnv (toStatus (unlinkIfPresent path)) : AppM Status Unit).run s.app = .ok () { s.app with env := e } :=
        run_onEnv (run_toStatus (run_then (run_attempt_error hold) rfl))
      rw [outcome_then hnew, outcome_of_run hold, post_then hnew, post_of_run hold]
      refine ⟨rfl, ?_⟩
      show d.files = e.look
      rw [hd, l.look, hs.files]

end Quiet

structure Marks.Kept (cfg : Cfg) (r : Marks) : Prop where
  candid : r.st.drive.Candid
  kept : ∀ name x, r.promised name = some x →
    ∃ path, buildWatermarkPath cfg name = .ok path ∧ markAt r.st.drive path = x

section Run
variable {cfg : Cfg} {r : Marks}

theorem markAt_spared {h : Nat} {s t : MarkSt} (ht : Spares cfg h s t) {name : Bytes} {path : Path}
    (hp : buildWatermarkPath cfg name = .ok path) (hne : s.app.handles h ≠ some name) :
    markAt t.drive path = markAt s.drive path := by
  unfold markAt
  rw [ht.others name path hp hne]

theorem Marks.Kept.attempt {h : Nat} {t : MarkSt} {out : Except Status Unit} {x : Option UInt64} (hr : r.Kept cfg)
    (ht : Spares cfg h r.st t) (hok : out = .ok () → ∃ name path, r.st.app.handles h = some name ∧
      buildWatermarkPath cfg name = .ok path ∧ markAt t.drive path = x) : Marks.Kept cfg ⟨t, r.promise h out x⟩ := by
  refine ⟨fun n k => ?_, fun name y hy => ?_⟩
  · rw [ht.faults]
    exact hr.candid n k
  · unfold Marks.promise at hy
    cases hh : r.st.app.handles h with
    | none =>
      rw [hh] at hy
      obtain ⟨path, hp, hmark⟩ := hr.kept name y hy
      exact ⟨path, hp, (markAt_spared ht hp (by rw [hh]; nofun)).trans hmark⟩
    | some mine =>
      rw [hh] at hy
      dsimp only at hy
      by_cases hname : name = mine
      · subst hname
        rw [Function.update_self] at hy
        cases out with
        | error e => cases hy
        | ok u =>
          cases hy
          obtain ⟨other, path, hother, hp, hmark⟩ := hok rfl
          rw [hh] at hother
          cases hother
          exact ⟨path, hp, hmark⟩
      · rw [Function.update_of_ne hname] at hy
        obtain ⟨path, hp, hmark⟩ := hr.kept name y hy
        refine ⟨path, hp, (markAt_spared ht hp ?_).trans hmark⟩
        rw [hh]
        exact fun heq => hname (Option.some.inj heq).symm

theorem spares_of_yields {ε α : Type} {m : MarkM ε α} {h : Nat} {s : MarkSt} {P : α → MarkSt → Prop}
    {E : ε → MarkSt → Prop} (hm : Yields m s P E) (hp : ∀ a t, P a t → Spares cfg h s t)
    (he : ∀ e t, E e t → Spares cfg h s t) : Spares cfg h s (post m s) :=
  (hm.imp hp he : Yields m s (fun _ t => Spares cfg h s t) fun _ t => Spares cfg h s t).post

theorem Marks.step_spares (hc : r.st.drive.Candid) (op : MarkOp) : Spares cfg op.handle r.st (r.step cfg op).st := by
  cases op with
  | set h v => exact spares_of_yields (watermarkSet_yields cfg h v r.st) (fun _ _ ht => ht.1) fun _ _ ht => ht
  | clear h => exact spares_of_yields (watermarkClear_yields hc) (fun _ _ ht => ht.1) fun _ _ ht => ht
  | get h => exact spares_of_yields (watermarkGet_yields hc) (fun _ _ ht => ht.1) fun _ _ ht => ht.1

theorem Marks.Kept.step (hr : r.Kept cfg) (op : MarkOp) (hcommits : r.Commits cfg op) : (r.step cfg op).Kept cfg := by
  have hspares := @Marks.step_spares cfg r hr.candid op
  cases op with
  | set h v =>
    apply hr.attempt hspares
    intro hok
    obtain ⟨-, name, path, hh, hp, hmark⟩ := (watermarkSet_yields cfg h v r.st).run_ok (run_of_outcome hok)
    exact ⟨name, path, hh, hp, hmark hcommits⟩
  | clear h =>
    apply hr.attempt hspares
    intro hok
    exact ((watermarkClear_yields hr.candid).run_ok (run_of_outcome hok)).2
  | get h =>
    refine ⟨fun n k => ?_, fun name x hx => ?_⟩
    · rw [hspares.faults]
      exact hr.candid n k
    · obtain ⟨path, hp, hmark⟩ := hr.kept name x hx
      refine ⟨path, hp, ?_⟩
      have hfiles : (post (watermarkGet cfg h) r.st).drive.files = r.st.drive.files :=
        ((watermarkGet_yields hr.candid).imp (fun _ _ ht => ht.2.1) fun _ _ ht => ht.2.1 :
          Yields _ _ (fun _ t => t.drive.files = r.st.drive.files) fun _ t => t.drive.files = r.st.drive.files).post
      show markAt (post (watermarkGet cfg h) r.st).drive path = x
      unfold markAt
      rw [hfiles]
      exact hmark

theorem Marks.Kept.answers (hr : r.Kept cfg) : r.Answers cfg := by
  intro h name x hh hx
  obtain ⟨path, hp, hmark⟩ := hr.kept name x hx
  have hsame : ∀ {other path'}, r.st.app.handles h = some other → buildWatermarkPath cfg other = .ok path' →
      markAt r.st.drive path' = x := by
    intro other path' hother hp'
    rw [hh] at hother
    cases hother
    rw [hp] at hp'
    cases hp'
    exact hmark
  refine ⟨fun v hv => ?_, fun hnone hwhole => ?_⟩
  · obtain ⟨-, -, other, path', hother, hp', hmark'⟩ := (watermarkGet_yields hr.candid).run_ok (run_of_outcome hv)
    exact (hsame hother hp').symm.trans hmark'
  · obtain ⟨-, -, hget⟩ := (watermarkGet_yields hr.candid).run_error (run_of_outcome_error hnone)
    obtain ⟨other, path', hother, hp', hmark'⟩ := hget rfl hwhole
    exact (hsame hother hp').symm.trans hmark'

/-- In a run in which no close fails after a full write, a watermark is a register, and each stream has its own. -/
theorem watermark_register {s : MarkSt} {ops : List MarkOp} (hc : s.drive.Candid)
    (hrun : Steps (Guarded (Marks.Commits cfg) (Marks.Goes cfg)) ⟨s, fun _ => none⟩ ops r) :
    r.Answers cfg ∧ r.Isolates cfg := by
  have hkept : r.Kept cfg := by
    refine hrun.keeps (I := Marks.Kept cfg) (fun r op r' hr hgo => ?_) ⟨hc, nofun⟩
    obtain ⟨hcommits, rfl⟩ := hgo
    exact hr.step op hcommits
  exact ⟨hkept.answers, fun op name path hp hne => (Marks.step_spares hkept.candid op).others name path hp hne⟩

end Run

/-- Stream `A` under handle 0, and a drive on which the calls numbered by `bad` fail. -/
def marksOn (bad : Nat → Bool) : MarkSt :=
  ⟨App.holding (Cfg.plain false 0) [], ⟨fun _ => none, [], true, fun n => if bad n then .fail Errno.EIO 0 else .none, 0⟩⟩

theorem marksOn_candid (bad : Nat → Bool) : (marksOn bad).drive.Candid := by
  intro n k
  show (if bad n then Fault.fail Errno.EIO 0 else Fault.none) ≠ _
  split <;> nofun

/-- A mark that is set and cleared, on a drive whose calls succeed. -/
theorem mark_kept : ∃ r, Steps (Marks.Goes (Cfg.plain false 0)) ⟨marksOn fun _ => false, fun _ => none⟩
    [.set 0 5, .clear 0] r ∧ r.Answers (Cfg.plain false 0) ∧ r.Isolates (Cfg.plain false 0) := by
  obtain ⟨r, hrun⟩ : ∃ r, Steps (Guarded (Marks.Commits (Cfg.plain false 0)) (Marks.Goes (Cfg.plain false 0)))
      ⟨marksOn fun _ => false, fun _ => none⟩ [.set 0 5, .clear 0] r := by
    refine ⟨_, .cons ⟨fun _ _ _ hlost => ?_, rfl⟩ (.cons ⟨trivial, rfl⟩ (.nil _))⟩
    obtain ⟨err, n, hfail⟩ := hlost.2.2
    cases hfail
  exact ⟨r, hrun.unguarded, watermark_register (marksOn_candid _) hrun⟩

/-- The close of a second set fails: it is reported to have gone through, and the first mark is still there. -/
theorem mark_lost : ∃ r, Steps (Marks.Goes (Cfg.plain false 0)) ⟨marksOn (· == 5), fun _ => none⟩
    [.set 0 5, .set 0 6] r ∧ (marksOn (· == 5)).drive.Candid ∧ ¬ r.Answers (Cfg.plain false 0) := by
  refine ⟨_, .cons rfl (.single rfl), marksOn_candid _, fun hanswers => ?_⟩
  have hend : ∀ r, r = ((Marks.mk (marksOn (· == 5)) fun _ => none).step (Cfg.plain false 0) (.set 0 5)).step
      (Cfg.plain false 0) (.set 0 6) → r.st.app.handles 0 = some [65] ∧ r.promised [65] = some (some 6) ∧
        outcome (watermarkGet (Cfg.plain false 0) 0) r.st = .ok 5 := by
    rintro r rfl
    decide +kernel
  obtain ⟨hh, hpromised, hget⟩ := hend _ rfl
  cases (hanswers 0 [65] (some 6) hh hpromised).1 5 hget

end ZephyrDB.Ts
