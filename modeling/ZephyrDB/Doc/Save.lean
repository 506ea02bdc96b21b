import ZephyrDB.Doc.Decode

/-!
What a save leaves in the files, whichever of its calls fail.

The calls of a save stand at fixed places in the schedule of faults: two for the
directories, one to open the staging file, one for each piece that has bytes,
one to close it, and then the renames and removals.
-/

set_option autoImplicit false

namespace ZephyrDB.Doc

open Lib

def writeCalls (pieces : List Bytes) : Nat := pieces.countP fun piece => !piece.isEmpty

def FailsAt (e : DocSys) (tick : Nat) : Prop := (e.faults tick).Fails

section Stage
variable {cfg : DocCfg} {doc : Document} {path tmpPath : Path}

theorem writeCalls_zero {pieces : List Bytes} (h : pieces.flatten = []) : writeCalls pieces = 0 := by
  induction pieces with
  | nil => rfl
  | cons piece pieces ih =>
    rw [List.flatten_cons, List.append_eq_nil_iff] at h
    simpa [writeCalls, h.1] using ih h.2

theorem failsAt_of_faults {e e' : DocSys} (h : e'.faults = e.faults) (tick : Nat) :
    FailsAt e' tick ↔ FailsAt e tick := by
  unfold FailsAt
  rw [h]

def PieceMoved (faults : Nat → Fault) (tick : Nat) (piece : Bytes) : Prop :=
  faults tick = .none ∨ ∃ n, faults tick = .short n ∧ piece.length ≤ n

def AllMoved (faults : Nat → Fault) (tick : Nat) : List Bytes → Prop
  | [] => True
  | piece :: pieces =>
    if piece.isEmpty then AllMoved faults tick pieces
    else PieceMoved faults tick piece ∧ AllMoved faults (tick + 1) pieces

def LastFails (faults : Nat → Fault) (tick : Nat) : List Bytes → Prop
  | [] => False
  | piece :: pieces =>
    if piece.isEmpty then LastFails faults tick pieces
    else (PieceMoved faults tick piece ∧ LastFails faults (tick + 1) pieces) ∨
      (pieces.flatten = [] ∧ ∃ err n, faults tick = .fail err n ∧ piece.length ≤ n)

theorem AllMoved.not_lastFails {faults : Nat → Fault} {tick : Nat} {pieces : List Bytes}
    (h : AllMoved faults tick pieces) : ¬ LastFails faults tick pieces := by
  induction pieces generalizing tick with
  | nil => exact id
  | cons piece pieces ih =>
    unfold AllMoved at h
    unfold LastFails
    split at h
    · rename_i hempty
      rw [if_pos hempty]
      exact ih h
    · rename_i hempty
      rw [if_neg hempty]
      obtain ⟨hmoved, hrest⟩ := h
      intro hlast
      rcases hlast with ⟨-, hlast⟩ | ⟨-, err, n, hfail, -⟩
      · exact ih hrest hlast
      · rcases hmoved with hnone | ⟨k, hshort, -⟩
        · rw [hnone] at hfail
          cases hfail
        · rw [hshort] at hfail
          cases hfail

theorem not_pieceMoved_of_fail {faults : Nat → Fault} {tick : Nat} {err : Errno} {n : Nat} {piece : Bytes}
    (h : faults tick = .fail err n) : ¬ PieceMoved faults tick piece := by
  intro hmoved
  rcases hmoved with hnone | ⟨k, hshort, -⟩
  · rw [h] at hnone
    cases hnone
  · rw [h] at hshort
    cases hshort

/-- Pieces written from the end of a file on. When the run fails with all of them in the file, it was
the last write that reported the failure. -/
theorem writePieces_yields (pieces : List Bytes) {e : DocSys} {old : Bytes} (h : e.look path = some old) :
    Yields (writePieces path old.length pieces) e
      (fun _ e' => AllMoved e.faults e.tick pieces ∧
        Leads e (Function.update e.look path (some (old ++ pieces.flatten))) e' ∧
        e'.tick = e.tick + writeCalls pieces)
      fun _ e' => ¬ AllMoved e.faults e.tick pieces ∧ ∃ part, part <+: pieces.flatten ∧
        Leads e (Function.update e.look path (some (old ++ part))) e' ∧
        (part = pieces.flatten ↔ LastFails e.faults e.tick pieces) ∧
        (part = pieces.flatten → e'.tick = e.tick + writeCalls pieces) := by
  induction pieces generalizing e old with
  | nil =>
    refine yields_pure ⟨trivial, ?_, rfl⟩
    rw [List.flatten_nil, List.append_nil, ← h, Function.update_eq_self]
    exact Leads.refl e
  | cons piece pieces ih =>
    unfold writePieces AllMoved LastFails
    split
    · rename_i hempty
      have hnil : piece = [] := List.isEmpty_iff.mp hempty
      subst hnil
      exact ih h
    rename_i hempty
    have hne : piece ≠ [] := by simpa using hempty
    have hlen : 0 < piece.length := List.length_pos_iff.mpr hne
    have hcalls : writeCalls (piece :: pieces) = writeCalls pieces + 1 := by simp [writeCalls, hne]
    -- what a write that moved `n` bytes of the piece has left of the whole text
    have hpart : ∀ n, piece.take n = (piece :: pieces).flatten ↔ piece.length ≤ n ∧ pieces.flatten = [] := by
      intro n
      rw [List.flatten_cons]
      constructor
      · intro hall
        have := congrArg List.length hall
        rw [List.length_append, List.length_take] at this
        exact ⟨by omega, List.length_eq_zero_iff.mp (by omega)⟩
      · rintro ⟨hle, hrest⟩
        rw [List.take_of_length_le hle, hrest, List.append_nil]
    refine yields_bind (yields_adaptExcept statusFromErrno ((fsWrite_moves e h old.length piece).imp
      (fun _ _ hw => hw) fun err e' hw => ?_)) fun wr e' hw => ?_
    · obtain ⟨n, hf, hs⟩ := hw
      rw [writeAt_end] at hs
      have hf : e.faults e.tick = .fail err n := hf
      refine ⟨fun hall => not_pieceMoved_of_fail hf hall.1, piece.take n,
        (List.take_prefix n piece).trans (List.prefix_append _ _), hs.toLeads, ?_, fun hall => ?_⟩
      · rw [hpart]
        constructor
        · rintro ⟨hle, hrest⟩
          exact .inr ⟨hrest, err, n, hf, hle⟩
        · intro hlast
          rcases hlast with ⟨hmoved, -⟩ | ⟨hrest, err', n', hf', hle⟩
          · exact absurd hmoved (not_pieceMoved_of_fail hf)
          · rw [hf] at hf'
            cases hf'
            exact ⟨hle, hrest⟩
      · rw [hs.tick, hcalls, writeCalls_zero ((hpart n).mp hall).2]
    obtain ⟨hwr, hs⟩ := hw
    rw [writeAt_end] at hs
    have hmoved : PieceMoved e.faults e.tick piece ↔ wr = piece.length := by
      rcases hwr with ⟨hf, rfl⟩ | ⟨n, hf, rfl⟩
      · exact iff_of_true (.inl hf) rfl
      · constructor
        · intro hm
          rcases hm with hf' | ⟨k, hf', hle⟩
          · rw [show e.faults e.tick = _ from hf] at hf'
            cases hf'
          · rw [show e.faults e.tick = _ from hf] at hf'
            cases hf'
            exact Nat.min_eq_right hle
        · intro hmin
          exact .inr ⟨n, hf, by omega⟩
    have hnofail : ¬ e.fault.Fails := by
      rcases hwr with ⟨hf, -⟩ | ⟨n, hf, -⟩ <;> simp [hf, Fault.Fails]
    have hle : wr ≤ piece.length := by
      rcases hwr with ⟨-, rfl⟩ | ⟨n, -, rfl⟩
      · exact Nat.le_refl _
      · exact Nat.min_le_right _ _
    split
    · rename_i hshort
      have hnone : piece.take wr ≠ (piece :: pieces).flatten := fun hall => by
        have := ((hpart wr).mp hall).1
        omega
      refine yields_throw ⟨fun hall => hshort (hmoved.mp hall.1), piece.take wr,
        (List.take_prefix wr piece).trans (List.prefix_append _ _), hs.toLeads, ?_, fun hall => absurd hall hnone⟩
      apply iff_of_false hnone
      intro hlast
      rcases hlast with ⟨hm, -⟩ | ⟨-, err, n, hf, -⟩
      · exact hshort (hmoved.mp hm)
      · exact hnofail ⟨err, n, hf⟩
    · rename_i hfull
      have hfull : wr = piece.length := not_not.mp hfull
      have hm := hmoved.mpr hfull
      subst hfull
      rw [List.take_length] at hs
      have hl : e'.look path = some (old ++ piece) := by rw [hs.look, Function.update_self]
      have hleads : ∀ {text e''}, Leads e' (Function.update e'.look path (some (old ++ piece ++ text))) e'' →
          Leads e (Function.update e.look path (some (old ++ (piece ++ text)))) e'' := fun hl => by
        rw [hs.look, Function.update_idem, List.append_assoc] at hl
        exact hs.toLeads.trans hl
      have hrest := ih hl
      rw [hs.faults, hs.tick] at hrest
      rw [← List.length_append]
      refine hrest.imp ?_ ?_
      · rintro _ e'' ⟨hall, hl, ht⟩
        refine ⟨⟨hm, hall⟩, hleads hl, ?_⟩
        rw [ht, hcalls]
        omega
      · rintro _ e'' ⟨hall, part, hpart', hl, hwhole, htick⟩
        refine ⟨fun h => hall h.2, piece ++ part, ?_, hleads hl, ?_, fun heq => ?_⟩
        · exact List.prefix_append_right_inj piece |>.mpr hpart'
        · rw [List.flatten_cons, List.append_cancel_left_eq, hwhole]
          constructor
          · exact fun hlast => .inl ⟨hm, hlast⟩
          · intro hlast
            rcases hlast with hlast | ⟨-, err, n, hf, -⟩
            · exact hlast.2
            · exact absurd ⟨err, n, hf⟩ hnofail
        · rw [htick (List.append_cancel_left heq), hcalls]
          omega

structure Discards (path : Path) (e : DocSys) (left : Option Bytes) (e' : DocSys) : Prop where
  leads : Leads e (Function.update e.look path left) e'
  left : (left = none ∧ ¬ FailsAt e e.tick) ∨ (left = e.look path ∧ FailsAt e e.tick)

theorem unlink_discards {ε : Type} (path : Path) (e : DocSys) (E : ε → DocSys → Prop) :
    Yields (attempt (fsUnlink path)) e
      (fun _ e' => (∃ left, Discards path e left e') ∧ e'.tick = e.tick + 1) E := by
  refine (yields_attempt (fsUnlink_yields e path)).imp (fun x e' hx => ?_) fun _ _ h => h
  cases x with
  | ok _ =>
    obtain ⟨hf, -, hs⟩ := hx
    exact ⟨⟨none, hs.toLeads, .inl ⟨rfl, hf⟩⟩, hs.tick⟩
  | error err =>
    obtain ⟨hf, hs⟩ := hx
    have hsame : Leads e (Function.update e.look path (e.look path)) e' := by
      rw [Function.update_eq_self]
      exact hs.toLeads
    refine ⟨⟨e.look path, hsame, ?_⟩, hs.tick⟩
    rcases hf with ⟨n, hf⟩ | ⟨hf, hmiss, -⟩
    · exact .inr ⟨rfl, err, n, hf⟩
    · exact .inl ⟨hmiss, hf⟩

theorem discard_yields {ε : Type} (e : DocSys) (r : ε) :
    Yields (attempt (fsUnlink path) >>= fun _ => throw r : EStateM ε DocSys Unit) e (fun _ _ => False)
      fun _ e' => ∃ left, Discards path e left e' :=
  yields_bind (unlink_discards path e _) fun _ _ h => yields_throw h.1

/-- The last call that writes to the staging file, when the first call of the staging is at `tick`. -/
def lastWrite (pieces : List Bytes) (tick : Nat) : Nat := tick + writeCalls pieces

/-- A staging that fails leaves the whole file: the last write reported a failure, or the close did, and the
removal of the file after it failed too. -/
def StagedWhole (pieces : List Bytes) (e : DocSys) (tick : Nat) : Prop :=
  (LastFails e.faults (tick + 1) pieces ∨
      AllMoved e.faults (tick + 1) pieces ∧ FailsAt e (lastWrite pieces tick + 1)) ∧
    FailsAt e (lastWrite pieces tick + 2)

def StagedWell (pieces : List Bytes) (e : DocSys) (tick : Nat) : Prop :=
  AllMoved e.faults (tick + 1) pieces ∧ ¬ FailsAt e (lastWrite pieces tick + 1)

theorem StagedWell.not_whole {pieces : List Bytes} {e : DocSys} {tick : Nat} (h : StagedWell pieces e tick) :
    ¬ StagedWhole pieces e tick := by
  intro hwhole
  rcases hwhole.1 with hlast | ⟨-, hclose⟩
  · exact h.1.not_lastFails hlast
  · exact h.2 hclose

structure Staged (pieces : List Bytes) (tmpPath : Path) (e : DocSys) (left : Option Bytes) (e' : DocSys) : Prop where
  opened : ¬ FailsAt e e.tick
  failed : ¬ StagedWell pieces e e.tick
  leads : Leads e (Function.update e.look tmpPath left) e'
  part : ∀ part, left = some part → part <+: pieces.flatten
  whole : left = some pieces.flatten ↔ StagedWhole pieces e e.tick

theorem staged_of_discards {pieces : List Bytes} {e e₁ e' : DocSys} {part : Bytes} {left : Option Bytes}
    (hopened : ¬ FailsAt e e.tick) (hfailed : ¬ StagedWell pieces e e.tick)
    (h : Leads e (Function.update e.look tmpPath (some part)) e₁) (hpart : part <+: pieces.flatten)
    (hwhole : part = pieces.flatten ↔ LastFails e.faults (e.tick + 1) pieces ∨
      AllMoved e.faults (e.tick + 1) pieces ∧ FailsAt e (lastWrite pieces e.tick + 1))
    (htick : part = pieces.flatten → e₁.tick = lastWrite pieces e.tick + 2)
    (hd : Discards tmpPath e₁ left e') : Staged pieces tmpPath e left e' := by
  have hl : e₁.look tmpPath = some part := by rw [h.look, Function.update_self]
  have hleads := h.trans hd.leads
  rw [h.look, Function.update_idem] at hleads
  have hfails : part = pieces.flatten → (FailsAt e₁ e₁.tick ↔ FailsAt e (lastWrite pieces e.tick + 2)) := fun heq => by
    rw [htick heq]
    exact failsAt_of_faults h.faults _
  rcases hd.left with ⟨rfl, hgone⟩ | ⟨hsame, hfail⟩
  · refine ⟨hopened, hfailed, hleads, nofun, ?_⟩
    apply iff_of_false nofun
    intro hw
    have heq := hwhole.mpr hw.1
    exact hgone ((hfails heq).mpr hw.2)
  · rw [hl] at hsame
    subst hsame
    refine ⟨hopened, hfailed, hleads, fun part' heq => Option.some.inj heq ▸ hpart, ?_⟩
    constructor
    · intro heq
      have heq := Option.some.inj heq
      exact ⟨hwhole.mp heq, (hfails heq).mp hfail⟩
    · intro hw
      rw [hwhole.mpr hw.1]

theorem stageFile_yields (pieces : List Bytes) (tmpPath : Path) (e : DocSys) :
    Yields (stageFile tmpPath pieces) e
      (fun _ e' => (Leads e (Function.update e.look tmpPath (some pieces.flatten)) e' ∧
        e'.tick = lastWrite pieces e.tick + 2) ∧ ¬ FailsAt e e.tick ∧ StagedWell pieces e e.tick)
      fun _ e' => (Leads e e.look e' ∧ FailsAt e e.tick) ∨ ∃ left, Staged pieces tmpPath e left e' := by
  unfold stageFile
  refine yields_bind (yields_adaptExcept statusFromErrno ((fsOpen_truncate_yields e tmpPath).imp (fun _ _ h => h)
    fun err _ h => .inl ⟨h.2.toLeads, err, h.1⟩)) fun _ e₁ ⟨hopened, hs₁⟩ => ?_
  have hl₁ : e₁.look tmpPath = some [] := by rw [hs₁.look, Function.update_self]
  have hupdate : ∀ f, Function.update e₁.look tmpPath f = Function.update e.look tmpPath f := fun f => by
    rw [hs₁.look, Function.update_idem]
  have hlast : e.tick + 1 + writeCalls pieces = lastWrite pieces e.tick + 1 := by
    unfold lastWrite
    omega
  have hwrites := writePieces_yields pieces hl₁
  rw [hs₁.faults, hs₁.tick, hlast] at hwrites
  apply yields_bind (yields_attempt hwrites)
  intro x e₂ hx
  cases x with
  | error ret =>
    obtain ⟨hall, part, hpart, hl₂, hwhole, htick⟩ := hx
    rw [List.nil_append, hupdate] at hl₂
    apply yields_bind (yields_attempt (call_yields e₂))
    intro x e₃ hx
    have hs₃ : Spent e₂ e₂.look e₃ := by
      cases x with
      | ok _ => exact hx.2
      | error _ => exact hx.2
    have h₃ : Leads e (Function.update e.look tmpPath (some part)) e₃ := by
      have := (hs₁.toLeads.trans hl₂).trans hs₃.toLeads
      rwa [hl₂.look] at this
    have hor : part = pieces.flatten ↔ LastFails e.faults (e.tick + 1) pieces ∨
        AllMoved e.faults (e.tick + 1) pieces ∧ FailsAt e (lastWrite pieces e.tick + 1) :=
      hwhole.trans (or_iff_left fun h => hall h.1).symm
    refine (discard_yields e₃ ret).imp (fun _ _ h => h.elim) fun _ e' ⟨left, hd⟩ =>
      .inr ⟨left, staged_of_discards hopened (fun h => hall h.1) h₃ hpart hor (fun heq => ?_) hd⟩
    rw [hs₃.tick, htick heq]
  | ok _ =>
    obtain ⟨hall, hl₂, htick₂⟩ := hx
    rw [List.nil_append, hupdate] at hl₂
    have hclose : FailsAt e₂ e₂.tick ↔ FailsAt e (lastWrite pieces e.tick + 1) := by
      rw [htick₂]
      exact failsAt_of_faults (hl₂.faults.trans hs₁.faults) _
    apply yields_bind (yields_attempt (call_yields e₂))
    intro x e₃ hx
    have hs₃ : Spent e₂ e₂.look e₃ := by
      cases x with
      | ok _ => exact hx.2
      | error _ => exact hx.2
    have h₃ : Leads e (Function.update e.look tmpPath (some pieces.flatten)) e₃ := by
      have := (hs₁.toLeads.trans hl₂).trans hs₃.toLeads
      rwa [hl₂.look] at this
    have htick₃ : e₃.tick = lastWrite pieces e.tick + 2 := by rw [hs₃.tick, htick₂]
    cases x with
    | ok _ => exact yields_pure ⟨⟨h₃, htick₃⟩, hopened, hall, fun h => hx.1 (hclose.mpr h)⟩
    | error rc =>
      obtain ⟨⟨n, hf⟩, -⟩ := hx
      have hfails := hclose.mp ⟨rc, n, hf⟩
      exact (discard_yields e₃ _).imp (fun _ _ h => h.elim) fun _ e' ⟨left, hd⟩ =>
        .inr ⟨left, staged_of_discards hopened (fun h => h.2 hfails) h₃ List.prefix_rfl
          (iff_of_true rfl (.inr ⟨hall, hfails⟩)) (fun _ => htick₃) hd⟩

def Refused (cfg : DocCfg) (faults : Nat → Fault) (live : Option Bytes) (tick : Nat) : Prop :=
  (∃ n, faults tick = .fail .EEXIST n) ∨
    (¬ (faults tick).Fails ∧ cfg.renameReplaces = false ∧ live ≠ none)

structure Displaces (cfg : DocCfg) (faults : Nat → Fault) (live : Option Bytes) (tick : Nat) : Prop where
  refused : Refused cfg faults live tick
  stood : live ≠ none
  removed : ¬ (faults (tick + 1)).Fails
  retried : (faults (tick + 2)).Fails

def Lingers (cfg : DocCfg) (faults : Nat → Fault) (live : Option Bytes) (tick : Nat) : Prop :=
  (Refused cfg faults live tick ∧ (faults (tick + 3)).Fails) ∨
    (¬ Refused cfg faults live tick ∧ (faults (tick + 1)).Fails)

structure Unreplaced (cfg : DocCfg) (path : Path) (e : DocSys) (live : Option Bytes) (e' : DocSys) : Prop where
  leads : Leads e (Function.update e.look path live) e'
  live : (live = e.look path ∧ ¬ Displaces cfg e.faults (e.look path) e.tick) ∨
    (live = none ∧ Displaces cfg e.faults (e.look path) e.tick)
  tick : (Refused cfg e.faults (e.look path) e.tick ∧ e'.tick = e.tick + 3) ∨
    (¬ Refused cfg e.faults (e.look path) e.tick ∧ e'.tick = e.tick + 1)

theorem replaceFile_yields {e : DocSys} {text : Bytes} (hne : tmpPath ≠ path) (hl : e.look tmpPath = some text) :
    Yields (replaceFile cfg tmpPath path) e
      (fun _ e' => Leads e (Function.update (Function.update e.look tmpPath none) path (some text)) e')
      fun _ e' => ∃ live, Unreplaced cfg path e live e' := by
  unfold replaceFile
  apply yields_bind (yields_attempt (fsMove_yields e cfg.renameReplaces tmpPath path))
  intro x e₁ hx
  have hsame : Function.update e.look path (e.look path) = e.look := Function.update_eq_self _ _
  cases x with
  | ok _ =>
    obtain ⟨-, text', htext, hs⟩ := hx
    rw [hl] at htext
    cases htext
    exact yields_pure hs.toLeads
  | error err =>
    obtain ⟨hwhy, hs₁⟩ := hx
    by_cases hexist : err = .EEXIST
    · subst hexist
      have hrefused : Refused cfg e.faults (e.look path) e.tick := by
        rcases hwhy with hf | ⟨hmiss, -⟩ | ⟨hf, hrep, hlive, -⟩
        · exact .inl hf
        · rw [hl] at hmiss
          cases hmiss
        · exact .inr ⟨hf, hrep, hlive⟩
      have hfails₁ : e₁.fault.Fails ↔ (e.faults (e.tick + 1)).Fails := by
        unfold Env.fault
        rw [hs₁.faults, hs₁.tick]
      apply yields_bind (yields_attempt (fsUnlink_yields e₁ path))
      intro x e₂ hx
      cases x with
      | error rc =>
        have h₂ : Leads e e.look e₂ := by
          have := hs₁.toLeads.trans hx.2.toLeads
          rwa [hs₁.look] at this
        have ht₂ : e₂.tick = e.tick + 2 := by rw [hx.2.tick, hs₁.tick]
        have hstays : ¬ Displaces cfg e.faults (e.look path) e.tick := by
          intro hdis
          rcases hx.1 with ⟨n, hf⟩ | ⟨-, hmiss, -⟩
          · exact hdis.removed (hfails₁.mp ⟨rc, n, hf⟩)
          · rw [hs₁.look] at hmiss
            exact hdis.stood hmiss
        refine (fsMove_yields e₂ cfg.renameReplaces tmpPath path).imp (fun _ e' ⟨_, text', htext, hs⟩ => ?_)
          fun _ e' ⟨_, hs⟩ => ⟨e.look path, ?_, .inl ⟨rfl, hstays⟩, .inl ⟨hrefused, ?_⟩⟩
        · rw [h₂.look, hl] at htext
          cases htext
          rw [h₂.look] at hs
          exact h₂.trans hs.toLeads
        · have := h₂.trans hs.toLeads
          rwa [h₂.look, ← hsame] at this
        · rw [hs.tick, ht₂]
      | ok _ =>
        obtain ⟨hunlinked, hstood, hs₂⟩ := hx
        rw [hs₁.look] at hstood
        have h₂ : Leads e (Function.update e.look path none) e₂ := by
          have := hs₁.toLeads.trans hs₂.toLeads
          rwa [hs₁.look] at this
        have ht₂ : e₂.tick = e.tick + 2 := by rw [hs₂.tick, hs₁.tick]
        have htmp : e₂.look tmpPath = some text := by rw [h₂.look, Function.update_of_ne hne, hl]
        refine (fsMove_yields e₂ cfg.renameReplaces tmpPath path).imp (fun _ e' ⟨_, text', htext, hs⟩ => ?_)
          fun err e' ⟨hwhy, hs⟩ => ⟨none, ?_, .inr ⟨rfl, hrefused, hstood, ?_, ?_⟩, .inl ⟨hrefused, ?_⟩⟩
        · rw [htmp] at htext
          cases htext
          have := h₂.trans hs.toLeads
          rwa [h₂.look, Function.update_comm hne.symm, Function.update_idem] at this
        · have := h₂.trans hs.toLeads
          rwa [h₂.look] at this
        · exact fun hf => hunlinked (hfails₁.mpr hf)
        · rcases hwhy with ⟨n, hf⟩ | ⟨hmiss, -⟩ | ⟨-, -, hlive, -⟩
          · refine ⟨err, n, ?_⟩
            unfold Env.fault at hf
            rw [h₂.faults, ht₂] at hf
            exact hf
          · rw [htmp] at hmiss
            cases hmiss
          · rw [h₂.look, Function.update_self] at hlive
            exact absurd rfl hlive
        · rw [hs.tick, ht₂]
    · have hnot : ¬ Refused cfg e.faults (e.look path) e.tick := by
        intro hrefused
        rcases hwhy with ⟨n, hf⟩ | ⟨hmiss, -⟩ | ⟨-, -, -, rfl⟩
        · rcases hrefused with ⟨k, hf'⟩ | ⟨hno, -⟩
          · have := (show e.faults e.tick = _ from hf).symm.trans hf'
            cases this
            exact hexist rfl
          · exact hno ⟨err, n, hf⟩
        · rw [hl] at hmiss
          cases hmiss
        · exact absurd rfl hexist
      have hleads := hs₁.toLeads
      rw [← hsame] at hleads
      have hleft : ∃ live, Unreplaced cfg path e live e₁ :=
        ⟨e.look path, hleads, .inl ⟨rfl, fun hdis => hnot hdis.refused⟩, .inr ⟨hnot, hs₁.tick⟩⟩
      cases err <;> first | exact absurd rfl hexist | exact yields_throw hleft

structure Uncommitted (cfg : DocCfg) (tmpPath path : Path) (text : Bytes) (e : DocSys) (live left : Option Bytes)
    (e' : DocSys) : Prop where
  leads : Leads e (Function.update (Function.update e.look path live) tmpPath left) e'
  live : (live = e.look path ∧ ¬ Displaces cfg e.faults (e.look path) e.tick) ∨
    (live = none ∧ Displaces cfg e.faults (e.look path) e.tick)
  left : (left = none ∧ ¬ Lingers cfg e.faults (e.look path) e.tick) ∨
    (left = some text ∧ Lingers cfg e.faults (e.look path) e.tick)

theorem commitFile_yields {e : DocSys} {text : Bytes} (hne : tmpPath ≠ path) (hl : e.look tmpPath = some text) :
    Yields (commitFile cfg tmpPath path) e
      (fun _ e' => Leads e (Function.update (Function.update e.look tmpPath none) path (some text)) e')
      fun _ e' => ∃ live left, Uncommitted cfg tmpPath path text e live left e' := by
  unfold commitFile
  apply yields_bind (yields_attempt (@replaceFile_yields cfg path tmpPath e text hne hl))
  intro x e₁ hx
  cases x with
  | ok _ => exact yields_pure hx
  | error rc =>
    obtain ⟨live, hun⟩ := hx
    have hl₁ : e₁.look tmpPath = some text := by rw [hun.leads.look, Function.update_of_ne hne, hl]
    have hremoval : FailsAt e₁ e₁.tick ↔ Lingers cfg e.faults (e.look path) e.tick := by
      rw [failsAt_of_faults hun.leads.faults]
      unfold FailsAt Lingers
      rcases hun.tick with ⟨hrefused, ht⟩ | ⟨hrefused, ht⟩ <;> rw [ht] <;> simp [hrefused]
    refine (discard_yields e₁ _).imp (fun _ _ h => h.elim) fun _ e' ⟨left, hd⟩ => ⟨live, left, ?_, hun.live, ?_⟩
    · have := hun.leads.trans hd.leads
      rwa [hun.leads.look] at this
    · rcases hd.left with ⟨h, hf⟩ | ⟨h, hf⟩
      · exact .inl ⟨h, fun hlingers => hf (hremoval.mpr hlingers)⟩
      · exact .inr ⟨h.trans hl₁, hremoval.mp hf⟩

def BlockedAt (e : DocSys) (tick : Nat) : Prop := ∃ err n, e.faults tick = .fail err n ∧ err ≠ .EEXIST

theorem blockedAt_of_faults {e e' : DocSys} (h : e'.faults = e.faults) (tick : Nat) :
    BlockedAt e' tick ↔ BlockedAt e tick := by
  unfold BlockedAt
  rw [h]

theorem ensureDir_yields (e : DocSys) : Yields ensureDir e
    (fun _ e' => (Leads e e.look e' ∧ e'.tick = e.tick + 1) ∧ ¬ BlockedAt e e.tick)
    fun _ e' => Leads e e.look e' ∧ BlockedAt e e.tick := by
  unfold ensureDir
  apply yields_bind (yields_attempt (call_yields e))
  intro x e' hx
  cases x with
  | ok _ =>
    refine yields_pure ⟨⟨hx.2.toLeads, hx.2.tick⟩, ?_⟩
    rintro ⟨err, n, hf, -⟩
    exact hx.1 ⟨err, n, hf⟩
  | error err =>
    obtain ⟨⟨n, hf⟩, hs⟩ := hx
    by_cases hexist : err = .EEXIST
    · subst hexist
      refine yields_pure ⟨⟨hs.toLeads, hs.tick⟩, ?_⟩
      rintro ⟨err, n', hf', hne⟩
      have := hf.symm.trans hf'
      cases this
      exact hne rfl
    · have hblocked : BlockedAt e e.tick := ⟨err, n, hf, hexist⟩
      cases err <;> first | exact absurd rfl hexist | exact yields_throw ⟨hs.toLeads, hblocked⟩

theorem rethrow_yields {ε : Type} {built : Except Errno Path} {e : DocSys} {E : ε → DocSys → Prop}
    {f : Errno → ε} (h : ∀ err, built = .error err → E (f err) e) :
    Yields (EStateM.adaptExcept f (rethrow built) : EStateM ε DocSys Path) e
      (fun path e' => built = .ok path ∧ e = e') E := by
  cases built with
  | ok path => exact ⟨rfl, rfl⟩
  | error err => exact h err rfl

def Dirless (cfg : DocCfg) (collection : CString) (e : DocSys) : Prop :=
  BlockedAt e e.tick ∨ BlockedAt e (e.tick + 1) ∨
    (∃ err, buildRootPath cfg = .error err) ∨ ∃ err, buildCollectionPath cfg collection.val = .error err

theorem ensureDirs_yields (cfg : DocCfg) (collection : CString) (e : DocSys) : Yields (ensureDirs cfg collection) e
    (fun _ e' => (Leads e e.look e' ∧ e'.tick = e.tick + 2) ∧ ¬ Dirless cfg collection e)
    fun _ e' => Leads e e.look e' ∧ Dirless cfg collection e := by
  unfold ensureDirs
  have hpath : ∀ (built : Except Errno Path) (e₁ : DocSys), Leads e e.look e₁ →
      ((∃ err, built = .error err) → Dirless cfg collection e) →
      Yields (rethrow built) e₁ (fun _ e' => e₁ = e' ∧ ¬ ∃ err, built = .error err)
        fun _ e' => Leads e e.look e' ∧ Dirless cfg collection e := fun built e₁ h hwhy => by
    cases built with
    | ok path => exact yields_pure ⟨rfl, nofun⟩
    | error err => exact yields_throw ⟨h, hwhy ⟨err, rfl⟩⟩
  refine yields_bind (hpath _ e (Leads.refl e) fun h => .inr (.inr (.inl h))) fun _ e₁ ⟨he₁, hroot⟩ => ?_
  subst he₁
  refine yields_bind ((ensureDir_yields e).imp (fun _ _ h => h) fun _ _ h => ⟨h.1, .inl h.2⟩)
    fun _ e₁ ⟨⟨h₁, ht₁⟩, hb₁⟩ => ?_
  refine yields_bind (hpath _ e₁ h₁ fun h => .inr (.inr (.inr h))) fun _ e₂ ⟨he₂, hcoll⟩ => ?_
  subst he₂
  have hl : ∀ {e'}, Leads e₁ e₁.look e' → Leads e e.look e' := fun hl => by
    have := h₁.trans hl
    rwa [h₁.look] at this
  have hblocked : BlockedAt e₁ e₁.tick ↔ BlockedAt e (e.tick + 1) := ht₁ ▸ blockedAt_of_faults h₁.faults _
  refine (ensureDir_yields e₁).imp (fun _ e' h => ⟨⟨hl h.1.1, by rw [h.1.2, ht₁]⟩, ?_⟩)
    fun _ _ h => ⟨hl h.1, .inr (.inl (hblocked.mp h.2))⟩
  rintro (hb | hb | hb | hb)
  · exact hb₁ hb
  · exact h.2 (hblocked.mpr hb)
  · exact hroot hb
  · exact hcoll hb

def savePieces (doc : Document) : List Bytes := docHdr doc :: fieldsEmit doc

def saveLastWrite (doc : Document) (e : DocSys) : Nat := lastWrite (savePieces doc) (e.tick + 2)

/-- The save stages its file, the first rename is refused, the live file is removed and the second rename
fails. -/
def Displaced (cfg : DocCfg) (doc : Document) (e : DocSys) (live : Option Bytes) : Prop :=
  StagedWell (savePieces doc) e (e.tick + 2) ∧ Displaces cfg e.faults live (saveLastWrite doc e + 2)

def Outlives (cfg : DocCfg) (doc : Document) (e : DocSys) (live : Option Bytes) : Prop :=
  StagedWhole (savePieces doc) e (e.tick + 2) ∨
    (StagedWell (savePieces doc) e (e.tick + 2) ∧ Lingers cfg e.faults live (saveLastWrite doc e + 2))

structure Unsaved (cfg : DocCfg) (doc : Document) (path tmpPath : Path) (e : DocSys) (live left : Option Bytes)
    (e' : DocSys) : Prop where
  dirs : ¬ Dirless cfg doc.collectionName e
  opened : ¬ FailsAt e (e.tick + 2)
  leads : Leads e (Function.update (Function.update e.look path live) tmpPath left) e'
  live : (live = e.look path ∧ ¬ Displaced cfg doc e (e.look path)) ∨
    (live = none ∧ Displaced cfg doc e (e.look path))
  part : ∀ part, left = some part → part <+: docBytes doc
  whole : left = some (docBytes doc) ↔ Outlives cfg doc e (e.look path)

theorem Unsaved.fate {e e' : DocSys} {live left : Option Bytes} (h : Unsaved cfg doc path tmpPath e live left e') :
    live = e.look path ∨ live = none := h.live.imp And.left And.left

/-- Where the live file is lost and the staged one is not whole, the second rename failed and the removal
after it did not. -/
theorem Unsaved.lost {e e' : DocSys} {live left : Option Bytes} (h : Unsaved cfg doc path tmpPath e live left e')
    (hlive : live ≠ e.look path) (hleft : left ≠ some (docBytes doc)) :
    FailsAt e (saveLastWrite doc e + 4) ∧ ¬ FailsAt e (saveLastWrite doc e + 5) := by
  obtain ⟨-, hwell, hdis⟩ := h.live.resolve_left fun h => hlive h.1
  refine ⟨hdis.retried, fun hf => hleft (h.whole.mpr (.inr ⟨hwell, .inl ⟨hdis.refused, hf⟩⟩))⟩

/-- The save gets as far as opening its staging file. -/
def Stages (cfg : DocCfg) (new : Document) (e : DocSys) : Prop :=
  ¬ Dirless cfg new.collectionName e ∧ ¬ FailsAt e (e.tick + 2)

/-- A document's two paths, when they both fit. -/
structure Paths (cfg : DocCfg) (collectionName documentId : CString) (path tmpPath : Path) : Prop where
  live : buildDocPath cfg collectionName documentId DOC_FILE_EXT = .ok path
  staged : buildDocPath cfg collectionName documentId DOC_TMP_EXT = .ok tmpPath

theorem buildDocPath_eq {collectionName documentId : CString} {ext : Bytes}
    (h : buildDocPath cfg collectionName documentId ext = .ok path) :
    path = docPath cfg collectionName documentId ext := by
  unfold buildDocPath fitPath at h
  split at h
  · cases h
  · exact (Except.ok.inj h).symm

theorem Paths.ne {collectionName documentId : CString} (h : Paths cfg collectionName documentId path tmpPath) :
    tmpPath ≠ path := by
  rw [buildDocPath_eq h.live, buildDocPath_eq h.staged]
  intro heq
  have := congrArg List.length heq
  simp [docPath, DOC_FILE_EXT, DOC_TMP_EXT] at this

theorem saveLocked_yields (cfg : DocCfg) (doc : Document) (e : DocSys) : Yields (saveLocked cfg doc) e
    (fun _ e' => ∃ path tmpPath, Paths cfg doc.collectionName doc.documentId path tmpPath ∧
      Leads e (Function.update (Function.update e.look tmpPath none) path (some (docBytes doc))) e')
    fun _ e' => (Leads e e.look e' ∧
        ∀ path tmpPath, Paths cfg doc.collectionName doc.documentId path tmpPath → ¬ Stages cfg doc e) ∨
      ∃ path tmpPath, Paths cfg doc.collectionName doc.documentId path tmpPath ∧
        ∃ live left, Unsaved cfg doc path tmpPath e live left e' := by
  unfold saveLocked
  refine yields_bind (yields_adaptExcept statusFromErrno ((ensureDirs_yields cfg doc.collectionName e).imp
    (fun _ _ h => h) fun _ _ h => .inl ⟨h.1, fun _ _ _ hst => hst.1 h.2⟩)) fun _ e₁ ⟨⟨h₁, ht₁⟩, hdirs⟩ => ?_
  refine yields_bind (rethrow_yields fun _ herr => .inl ⟨h₁, fun _ _ hpaths => ?_⟩) fun path e₂ ⟨hpath, he₂⟩ => ?_
  · rw [hpaths.live] at herr
    cases herr
  subst he₂
  refine yields_bind (rethrow_yields fun _ herr => .inl ⟨h₁, fun _ _ hpaths => ?_⟩) fun tmpPath e₃ ⟨htmp, he₃⟩ => ?_
  · rw [hpaths.staged] at herr
    cases herr
  subst he₃
  have hpaths : Paths cfg doc.collectionName doc.documentId path tmpPath := ⟨hpath, htmp⟩
  obtain ⟨pieces, hpieces⟩ : ∃ pieces, pieces = savePieces doc := ⟨_, rfl⟩
  have hbytes : docBytes doc = pieces.flatten := by rw [hpieces]; rfl
  have hlast : saveLastWrite doc e = lastWrite pieces (e.tick + 2) := by rw [hpieces]; rfl
  have hf₁ : ∀ tick, FailsAt e₁ tick ↔ FailsAt e tick := failsAt_of_faults h₁.faults
  have hwell₁ : StagedWell pieces e₁ e₁.tick ↔ StagedWell (savePieces doc) e (e.tick + 2) := by
    unfold StagedWell
    rw [h₁.faults, hf₁, ht₁, hpieces]
  have hwhole₁ : StagedWhole pieces e₁ e₁.tick ↔ StagedWhole (savePieces doc) e (e.tick + 2) := by
    unfold StagedWhole
    rw [h₁.faults, hf₁, hf₁, ht₁, hpieces]
  rw [show docHdr doc :: fieldsEmit doc = pieces from hpieces.symm]
  refine yields_bind ((stageFile_yields pieces tmpPath e₁).imp (fun _ _ h => h) fun _ e' hstage => ?_)
    fun _ e₂ ⟨⟨h₂, ht₂⟩, hopened, hwell⟩ => ?_
  · rcases hstage with ⟨hl, hopen⟩ | ⟨left, hstaged⟩
    · have := h₁.trans hl
      rw [h₁.look] at this
      refine .inl ⟨this, fun _ _ _ hst => hst.2 ?_⟩
      rwa [← ht₁, ← hf₁]
    · have hfailed := fun h => hstaged.failed (hwell₁.mpr h)
      refine .inr ⟨path, tmpPath, hpaths, e.look path, left, hdirs, ?_, ?_, .inl ⟨rfl, fun h => hfailed h.1⟩, ?_, ?_⟩
      · rw [← hf₁, ← ht₁]
        exact hstaged.opened
      · have := h₁.trans hstaged.leads
        rwa [h₁.look, ← Function.update_eq_self path e.look] at this
      · rw [hbytes]
        exact hstaged.part
      · rw [hbytes, hstaged.whole, hwhole₁]
        exact (or_iff_left fun h => hfailed h.1).symm
  · have hwell := hwell₁.mp hwell
    have h₁₂ : Leads e (Function.update e.look tmpPath (some pieces.flatten)) e₂ := by
      have := h₁.trans h₂
      rwa [h₁.look] at this
    have htick : e₂.tick = saveLastWrite doc e + 2 := by rw [ht₂, hlast, ht₁]
    have hl₂ : e₂.look tmpPath = some pieces.flatten := by rw [h₁₂.look, Function.update_self]
    have hother : e₂.look path = e.look path := by rw [h₁₂.look, Function.update_of_ne hpaths.ne.symm]
    refine (commitFile_yields hpaths.ne hl₂).imp (fun _ e' hl => ⟨path, tmpPath, hpaths, ?_⟩)
      fun _ e' ⟨live, left, hun⟩ => .inr ⟨path, tmpPath, hpaths, live, left, hdirs, ?_, ?_, ?_, ?_, ?_⟩
    · have := h₁₂.trans hl
      rwa [h₁₂.look, Function.update_idem, ← hbytes] at this
    · rw [← hf₁, ← ht₁]
      exact hopened
    · have := h₁₂.trans hun.leads
      rwa [h₁₂.look, Function.update_comm hpaths.ne, Function.update_idem] at this
    · have hlive := hun.live
      rw [hother, h₁₂.faults, htick] at hlive
      exact hlive.imp (fun h => ⟨h.1, fun hdis => h.2 hdis.2⟩) fun h => ⟨h.1, hwell, h.2⟩
    · intro part hp
      rcases hun.left with ⟨h, -⟩ | ⟨h, -⟩
      · rw [h] at hp
        cases hp
      · rw [h] at hp
        cases hp
        exact hbytes ▸ List.prefix_rfl
    · have hleft := hun.left
      rw [hother, h₁₂.faults, htick] at hleft
      rw [hbytes]
      rcases hleft with ⟨h, hno⟩ | ⟨h, hyes⟩
      · rw [h]
        apply iff_of_false nofun
        intro hout
        rcases hout with hwhole | ⟨-, hlingers⟩
        · exact hwell.not_whole hwhole
        · exact hno hlingers
      · rw [h]
        exact iff_of_true rfl (.inr ⟨hwell, hyes⟩)

/-- The document as `zdb_doc_save` writes it: with the time of the save. -/
def Document.savedAt (doc : Document) (now : UInt64) : Document := { doc with updatedMs := now }

theorem docSave_post (s : DocSt) (hvalid : s.doc.valid = true) :
    (post (docSave cfg) s).env = post (saveLocked cfg (s.doc.savedAt s.env.side)) s.env := by
  have hstep : post (docSave cfg) s =
      post (onEnv (saveLocked cfg (s.doc.savedAt s.env.side))) ⟨s.doc.savedAt s.env.side, s.env⟩ := by
    unfold docSave
    rw [post_get_bind, if_neg (by simp [hvalid])]
    rfl
  rw [hstep]
  unfold onEnv
  rw [post_zoom]

theorem docSave_outcome (s : DocSt) (hvalid : s.doc.valid = true) :
    outcome (docSave cfg) s = outcome (saveLocked cfg (s.doc.savedAt s.env.side)) s.env := by
  have hstep : outcome (docSave cfg) s =
      outcome (onEnv (saveLocked cfg (s.doc.savedAt s.env.side))) ⟨s.doc.savedAt s.env.side, s.env⟩ := by
    unfold docSave
    rw [outcome_get_bind, if_neg (by simp [hvalid])]
    rfl
  rw [hstep]
  unfold onEnv
  rw [outcome_zoom]

/-- A document that was created and then had any fields set, on any systems, by calls that succeeded. -/
inductive Built (cfg : DocCfg) : Document → Prop where
  | create {e e' : DocSys} {collectionName documentId : CString} {doc : Document}
      (run : (docCreate cfg collectionName documentId).run e = .ok doc e') : Built cfg doc
  | set {s t : DocSt} {name : CString} {value : Value} (built : Built cfg s.doc)
      (run : (fieldSet cfg name value).run s = .ok () t) : Built cfg t.doc

theorem Built.tidy {doc : Document} (h : Built cfg doc) : Tidy cfg doc := by
  induction h with
  | create run => exact (docCreate_ok run).1
  | set _ run ih => exact (fieldSet_ok run).tidy ih

theorem Tidy.savedAt {doc : Document} (h : Tidy cfg doc) (now : UInt64) : Tidy cfg (doc.savedAt now) :=
  ⟨h.valid, h.maxFields, h.count, h.distinct, h.admitted, h.keys⟩

theorem Tidy.document {doc : Document} (h : Tidy cfg doc) :
    doc.snapshot.document cfg doc.collectionName doc.documentId = doc := by
  obtain ⟨c, i, fields, maxFields, createdMs, updatedMs, valid⟩ := doc
  cases h.valid
  cases h.maxFields
  rfl

theorem found_live {collectionName documentId : CString} {look : Path → Option Bytes} {text : Bytes}
    (hpath : buildDocPath cfg collectionName documentId DOC_FILE_EXT = .ok path) (hl : look path = some text) :
    found cfg look collectionName documentId = decode cfg text := by
  unfold found
  rw [hpath]
  dsimp only
  rw [hl]

theorem saved_file {s t : DocSt} (hbuilt : Built cfg s.doc) (hsave : (docSave cfg).run s = .ok () t) :
    ∃ path, buildDocPath cfg s.doc.collectionName s.doc.documentId DOC_FILE_EXT = .ok path ∧
    t.env.look path = some (docBytes (s.doc.savedAt s.env.side)) := by
  have hlocked := @docSave_outcome cfg s hbuilt.tidy.valid
  rw [outcome_of_run hsave] at hlocked
  obtain ⟨path, tmpPath, hpaths, hleads⟩ := (saveLocked_yields cfg _ s.env).run_ok (run_of_outcome hlocked.symm)
  rw [← docSave_post s hbuilt.tidy.valid, post_of_run hsave] at hleads
  exact ⟨path, hpaths.live, by rw [hleads.look, Function.update_self]⟩

/-- A document that was saved is opened as it was saved: whatever faults the save met, when it reports
success an open that meets none returns the same names, types and values in the same order, and the
timestamps that were saved. -/
theorem saved_opens {s t : DocSt} (hbuilt : Built cfg s.doc) (hsave : (docSave cfg).run s = .ok () t) {e : DocSys}
    (hclean : e.Clean) (hfiles : e.files = t.env.files) :
    t.doc = { s.doc with updatedMs := s.env.side } ∧
      outcome (docOpen cfg s.doc.collectionName s.doc.documentId) e = .ok t.doc := by
  have htidy := hbuilt.tidy
  have hdoc : t.doc = s.doc.savedAt s.env.side := by
    unfold docSave at hsave
    obtain ⟨_, _, hget, hsave⟩ := of_run_bind hsave
    cases hget
    rw [if_neg (by simp [htidy.valid])] at hsave
    obtain ⟨_, _, hmod, hsave⟩ := of_run_bind hsave
    cases hmod
    obtain ⟨_, _, hget, hsave⟩ := of_run_bind hsave
    cases hget
    obtain ⟨e', -, rfl⟩ := of_run_onEnv hsave
    rfl
  obtain ⟨path, hpath, hfile⟩ := saved_file hbuilt hsave
  have hl : e.look path = some (docBytes (s.doc.savedAt s.env.side)) := by
    rw [show e.look = t.env.look from congrArg Files.look hfiles, hfile]
  refine ⟨hdoc, ?_⟩
  have hsaved := htidy.savedAt s.env.side
  have hfound := found_live hpath hl
  rw [decode_docBytes hsaved] at hfound
  have hopen := @docOpen_outcome cfg e hclean s.doc.collectionName s.doc.documentId
  rw [if_pos htidy.keys] at hopen
  rw [hopen, show found cfg e.look s.doc.collectionName s.doc.documentId = _ from hfound, hdoc]
  exact congrArg Except.ok hsaved.document

end Stage

/-- A configuration with a short mount point. -/
def sampleCfg : DocCfg where
  mountPoint := ⟨[47, 108, 102, 115], by decide⟩
  maxKeyLen := 48
  maxFieldNameLen := 32
  maxFieldNameLen_le := by decide
  maxStringLen := 256
  maxStringLen_le := by decide
  maxBytesLen := 1024
  maxBytesLen_le := by decide
  maxFieldCount := 16
  maxFieldCount_le := by decide
  renameReplaces := true

def sampleName : CString := ⟨[100], by decide⟩

/-- A collection, and in it a document. -/
def sampleCollection : CString := ⟨[99], by decide⟩

/-- A handle for a document that no field has been set in. -/
def freshSt (side : UInt64) : DocSt :=
  ⟨⟨sampleCollection, sampleName, [], 16, side, side, true⟩, { quiet ∅ with side := side }⟩

theorem name_s : (0 : UInt8) ∉ [115] := by decide

theorem name_empty : (0 : UInt8) ∉ [] := by decide

/-- A field is set, and set again with another type; then an empty string. -/
def filledSt : DocSt :=
  post (fieldSet sampleCfg ⟨[115], name_s⟩ (.string (some ⟨[], name_empty⟩)))
    (post (fieldSet sampleCfg sampleName (.double 0x7FF8000000000001))
      (post (fieldSet sampleCfg sampleName (.int64 (-5))) (freshSt 7)))

theorem freshSt_built : Built sampleCfg (freshSt 7).doc :=
  @Built.create sampleCfg { quiet ∅ with side := 7 } _ sampleCollection sampleName _ rfl

theorem filledSt_built : Built sampleCfg filledSt.doc :=
  .set (.set (.set freshSt_built (run_of_outcome rfl)) (run_of_outcome rfl)) (run_of_outcome rfl)

theorem filled_saved : outcome (docSave sampleCfg) filledSt = .ok () := by
  have h : (outcome (docSave sampleCfg) filledSt).toOption = some () := by decide +kernel
  cases ho : outcome (docSave sampleCfg) filledSt with
  | ok _ => rfl
  | error status => rw [ho] at h; cases h

theorem filled_opened :
    outcome (docOpen sampleCfg sampleCollection sampleName) (quiet (post (docSave sampleCfg) filledSt).env.files) =
      .ok (post (docSave sampleCfg) filledSt).doc :=
  (saved_opens filledSt_built (run_of_outcome filled_saved) (quiet_clean _) rfl).2

end ZephyrDB.Doc
