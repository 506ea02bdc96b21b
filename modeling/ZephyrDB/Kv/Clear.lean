import ZephyrDB.Kv.Merge

/-!
The reset of a namespace over any index and any pattern of refused deletes: what
one delete does, that the loop ends, what it leaves, and what the defaults then
make of it.
-/

set_option autoImplicit false

namespace ZephyrDB.Kv

open Lib

variable {cfg : KvCfg}

/-- The entries after `zdb_kv_ctx_track_delete`. -/
def dropped (ns key : CString) (entries : List IndexEntry) : List IndexEntry :=
  match findEntry entries ns key with
  | none => entries
  | some i => entries.eraseIdx i

def NoDelete (s t : KvSt) : Prop := ∀ id, t.flash.made (.delete id) = s.flash.made (.delete id)

theorem noDelete_chains : Chains NoDelete := ⟨fun _ _ => rfl, fun h k id => (k id).trans (h id)⟩

theorem noDelete_storePersisted (s : KvSt) : Keeps NoDelete (storePersisted cfg) s := by
  unfold storePersisted
  split
  · unfold indexStore
    apply keeps_get_bind
    cases s.ctx with
    | none => exact keeps_pure noDelete_chains _ _
    | some entries =>
      refine keeps_bind noDelete_chains (keeps_attempt ?_) fun _ _ _ => keeps_pure noDelete_chains _ _
      unfold Keeps onFlash
      rw [post_zoom]
      exact fun id => IdStore.made_delete_write s.flash _ id _
  · exact keeps_pure noDelete_chains _ _

structure Drops (cfg : KvCfg) (ns key : CString) (s t : KvSt) : Prop where
  ctx : t.ctx = s.ctx.map (dropped ns key)
  confined : Confined (IndexSlot cfg) s t
  deletes : NoDelete s t

theorem drops_trackDelete (ns key : CString) (s : KvSt) : Drops cfg ns key s (post (trackDelete cfg ns key) s) := by
  have hconf : Confined (IndexSlot cfg) s (post (trackDelete cfg ns key) s) := keeps_trackDelete cfg ns key s
  cases hctx : s.ctx with
  | none =>
    have hpost : post (trackDelete cfg ns key) s = s := by
      have hrun := @trackDelete_eq cfg s ns key
      rw [hctx] at hrun
      exact post_of_run hrun
    exact ⟨by rw [hpost, hctx]; rfl, hconf, by rw [hpost]; exact noDelete_chains.refl s⟩
  | some entries =>
    have hpost := @post_trackDelete cfg s entries hctx ns key
    cases hfind : findEntry entries ns key with
    | none =>
      rw [hfind] at hpost
      refine ⟨?_, hconf, by rw [hpost]; exact noDelete_chains.refl s⟩
      rw [hpost, hctx, Option.map_some, dropped, hfind]
    | some i =>
      rw [hfind] at hpost
      refine ⟨?_, hconf, ?_⟩
      · rw [hpost, hctx, Option.map_some, dropped, hfind]
        exact (storePersisted_recorded rfl).ctx
      · rw [hpost]
        exact @noDelete_storePersisted cfg { s with ctx := some (entries.eraseIdx i) }

def DeletesOnce (id : UInt32) (s t : KvSt) : Prop :=
  ∀ j, t.flash.made (.delete j) = s.flash.made (.delete j) + if j = id then 1 else 0

/-- What `zdb_kv_delete` does: it finds no record of the key, or the backend refuses the delete, or the record
and the entry go. -/
inductive Deleting (cfg : KvCfg) (ns key : CString) (s t : KvSt) : Except Status Unit → Prop
  | kept {status : Status} (failed : status ≠ .OK) (ctx : t.ctx = s.ctx) (still : Confined NoSlot s t)
      (deletes : NoDelete s t)
      (missing : s.flash.Answers → status = .ERR_NOT_FOUND → ¬ Held cfg s.flash.cells (ns, key)) :
      Deleting cfg ns key s t (.error status)
  | refused {err : Errno} (held : Held cfg s.flash.cells (ns, key))
      (fault : s.flash.fault (.delete (recordId cfg ns key)) = some err) (ctx : t.ctx = s.ctx)
      (still : Confined NoSlot s t) (deletes : DeletesOnce (recordId cfg ns key) s t) :
      Deleting cfg ns key s t (.error (statusFromErrno err))
  | gone (held : Held cfg s.flash.cells (ns, key)) (fault : s.flash.fault (.delete (recordId cfg ns key)) = none)
      (ctx : t.ctx = s.ctx.map (dropped ns key)) (confined : Confined AnySlot s t)
      (cells : ∀ id, id ≠ indexRecId cfg → t.flash.cells id = Function.update s.flash.cells (recordId cfg ns key) none id)
      (deletes : DeletesOnce (recordId cfg ns key) s t) :
      Deleting cfg ns key s t (.ok ())

theorem held_of_shown {cells : Cells} {ns key : CString} {record : Bytes} {off : Nat}
    (hcell : cells (recordId cfg ns key) = some record)
    (hshown : recordCheck (record.take cfg.blockSize) ns key = .MATCH off) : Held cfg cells (ns, key) := by
  have hmatch : recordCheck record (ns, key).1 (ns, key).2 = .MATCH off := match_of_take hshown
  refine ⟨by rw [(@stored_eq_some cfg cells (ns, key) (record.drop off)).mpr ⟨record, off, hcell, hmatch, rfl⟩]; simp, ?_⟩
  obtain ⟨hrec, -⟩ := recordCheck_match hshown
  have hroom : REC_HDR_SIZE ≤ cfg.blockSize := by
    simp only [isRecord, Bool.and_eq_true, decide_eq_true_eq, List.length_take] at hrec
    omega
  rw [recordCheck_take hroom] at hshown
  split at hshown
  · rename_i hhead
    rwa [(headLen_of_match hmatch).2] at hhead
  · cases hshown

theorem shown_of_held {cells : Cells} {k : NsKey} (h : Held cfg cells k) :
    ∃ record off, cells (recordId cfg k.1 k.2) = some record ∧
      recordCheck (record.take cfg.blockSize) k.1 k.2 = .MATCH off := by
  obtain ⟨value, hvalue⟩ := Option.ne_none_iff_exists'.mp h.1
  obtain ⟨record, off, hcell, hmatch, -⟩ := stored_eq_some.mp hvalue
  have hfits : REC_HDR_SIZE + k.1.val.length + k.2.val.length ≤ cfg.blockSize := h.2
  refine ⟨record, off, hcell, ?_⟩
  rw [recordCheck_take (by omega), (headLen_of_match hmatch).2, if_pos hfits, hmatch]

theorem deletesOnce_count (s : KvSt) (id : UInt32) : DeletesOnce id s (s.counted (.delete id)) := by
  intro j
  by_cases h : j = id
  · subst h
    rw [if_pos rfl]
    exact Function.update_self _ _ _
  · rw [if_neg h]
    exact IdStore.made_count_of_ne s.flash fun heq => h (IdOp.delete.inj heq)

theorem noDelete_read (s : KvSt) (id : UInt32) : NoDelete s (s.counted (.read id)) :=
  fun _ => IdStore.made_count_of_ne s.flash (by simp)

theorem NoDelete.once {id : UInt32} {s t u : KvSt} (h : NoDelete s t) (k : DeletesOnce id t u) : DeletesOnce id s u :=
  fun j => by rw [k j, h j]

theorem DeletesOnce.still {id : UInt32} {s t u : KvSt} (h : DeletesOnce id s t) (k : NoDelete t u) : DeletesOnce id s u :=
  fun j => by rw [k j, h j]

theorem counted_delete_confined (s : KvSt) (id : UInt32) : Confined NoSlot s (s.counted (.delete id)) :=
  ⟨⟨fun _ _ => rfl, fun _ _ => IdStore.made_count_of_ne s.flash (by simp), IdStore.made_le_count s.flash _, rfl, rfl,
    IdStore.remembers_count s.flash _⟩, rfl, rfl⟩

def KvSt.emptied (s : KvSt) (id : UInt32) : KvSt := { s with flash := (s.flash.count (.delete id)).put id none }

theorem emptied_confined (s : KvSt) (id : UInt32) : Confined AnySlot s (s.emptied id) := by
  refine ⟨⟨fun _ h => absurd trivial h, fun _ h => absurd trivial h, IdStore.made_le_count s.flash _, rfl, rfl, ?_⟩, rfl, rfl⟩
  exact IdStore.remembers_put s.flash _ _ _

theorem delete_run (id : UInt32) (s : KvSt) :
    (toStatus (onFlash (IdStore.delete id)) : KvM Status Unit).run s =
      match s.flash.fault (.delete id) with
      | some err => .error (statusFromErrno err) (s.counted (.delete id))
      | none => .ok () (s.emptied id) := by
  have hout : outcome (toStatus (onFlash (IdStore.delete id)) : KvM Status Unit) s =
      (outcome (IdStore.delete id) s.flash).mapError statusFromErrno := by
    unfold toStatus onFlash
    rw [outcome_adaptExcept, outcome_zoom]
  have hpost : post (toStatus (onFlash (IdStore.delete id)) : KvM Status Unit) s =
      { s with flash := post (IdStore.delete id) s.flash } := by
    unfold toStatus onFlash
    rw [post_adaptExcept, post_zoom]
  cases hfault : s.flash.fault (.delete id) with
  | some err =>
    have hrun := IdStore.delete_refused s.flash id hfault
    rw [outcome_of_error hrun] at hout
    rw [post_of_error hrun] at hpost
    rw [run_of_outcome_error hout, hpost, KvSt.counted]
  | none =>
    have hrun := IdStore.delete_accepted s.flash id hfault
    rw [outcome_of_run hrun] at hout
    rw [post_of_run hrun] at hpost
    rw [run_of_outcome hout, hpost, KvSt.emptied]

theorem read_run (id : UInt32) (capacity : Nat) (s : KvSt) :
    (toStatus (onFlash (IdStore.read id capacity)) : KvM Status _).run s =
      match outcome (IdStore.read id capacity) s.flash with
      | .error err => .error (statusFromErrno err) (s.counted (.read id))
      | .ok r => .ok r (s.counted (.read id)) := by
  have hout : outcome (toStatus (onFlash (IdStore.read id capacity)) : KvM Status _) s =
      (outcome (IdStore.read id capacity) s.flash).mapError statusFromErrno := by
    unfold toStatus onFlash
    rw [outcome_adaptExcept, outcome_zoom]
  have hpost : post (toStatus (onFlash (IdStore.read id capacity)) : KvM Status _) s = s.counted (.read id) := by
    unfold toStatus onFlash
    rw [post_adaptExcept, post_zoom, IdStore.post_read]
    rfl
  cases hread : outcome (IdStore.read id capacity) s.flash with
  | error err =>
    rw [hread] at hout
    rw [run_of_outcome_error hout, hpost]
  | ok r =>
    rw [hread] at hout
    rw [run_of_outcome hout, hpost]

theorem deleteLocked_deleting (ns key : CString) (s : KvSt) :
    Deleting cfg ns key s (post (deleteLocked cfg ns key) s) (outcome (deleteLocked cfg ns key) s) := by
  have hstill : Confined NoSlot s (s.counted (.read (recordId cfg ns key))) := counted_read_confined NoSlot s _
  have hdeletes := noDelete_read s (recordId cfg ns key)
  have hread := read_run (recordId cfg ns key) cfg.blockSize s
  cases hgot : outcome (IdStore.read (recordId cfg ns key) cfg.blockSize) s.flash with
  | error err =>
    rw [hgot] at hread
    have hrun : (deleteLocked cfg ns key).run s = _ := run_fails hread
    rw [outcome_of_error hrun, post_of_error hrun]
    refine .kept (statusFromErrno_ne_ok err) rfl hstill hdeletes fun hs _ hheld => ?_
    obtain ⟨record, off, hcell, -⟩ := shown_of_held hheld
    rw [IdStore.outcome_read, hs.read, hcell] at hgot
    cases hgot
  | ok r =>
    rw [hgot] at hread
    obtain ⟨-, -, record, hcell, rfl⟩ := run_read_ok hread
    cases hcheck : recordCheck (record.take cfg.blockSize) ns key with
    | MATCH off =>
      have hheld := held_of_shown hcell hcheck
      have hfound : (deleteLocked cfg ns key).run s =
          (do toStatus (onFlash (IdStore.delete (recordId cfg ns key)))
              trackDelete cfg ns key : KvM Status Unit).run (s.counted (.read (recordId cfg ns key))) := by
        apply run_then hread
        dsimp only
        rw [hcheck]
      have hdelete := delete_run (recordId cfg ns key) (s.counted (.read (recordId cfg ns key)))
      have hsame : (s.counted (.read (recordId cfg ns key))).flash.fault (.delete (recordId cfg ns key)) =
          s.flash.fault (.delete (recordId cfg ns key)) := by
        unfold IdStore.fault
        rw [hdeletes]
        rfl
      have honce := hdeletes.once (deletesOnce_count _ (recordId cfg ns key))
      rw [hsame] at hdelete
      cases hfault : s.flash.fault (.delete (recordId cfg ns key)) with
      | some err =>
        rw [hfault] at hdelete
        have hrun := hfound.trans (run_fails hdelete)
        rw [outcome_of_error hrun, post_of_error hrun]
        exact .refused hheld hfault rfl ((confined_chains NoSlot).trans hstill (counted_delete_confined _ _)) honce
      | none =>
        rw [hfault] at hdelete
        let mid := (s.counted (.read (recordId cfg ns key))).emptied (recordId cfg ns key)
        have hdrops : Drops cfg ns key mid (post (trackDelete cfg ns key) mid) := drops_trackDelete ns key mid
        have hmid : Confined AnySlot s mid :=
          (confined_chains AnySlot).trans (hstill.weaken fun _ hid => hid.elim) (emptied_confined _ _)
        have hlast : Confined AnySlot mid (post (trackDelete cfg ns key) mid) := hdrops.confined.weaken fun _ _ => trivial
        obtain ⟨_, htrack⟩ := trackDelete_total cfg ns key mid
        have hrun := hfound.trans (run_then hdelete htrack)
        rw [outcome_of_run hrun, post_of_run hrun]
        exact .gone hheld hfault hdrops.ctx ((confined_chains AnySlot).trans hmid hlast)
          (fun id hid => hdrops.confined.flash.cells id hid) (honce.still hdrops.deletes)
    | _ =>
      have hrun : (deleteLocked cfg ns key).run s = .error .ERR_NOT_FOUND (s.counted (.read (recordId cfg ns key))) := by
        apply run_then hread
        dsimp only
        rw [hcheck]
        rfl
      rw [outcome_of_error hrun, post_of_error hrun]
      refine .kept (by decide) rfl hstill hdeletes fun _ _ hheld => ?_
      obtain ⟨record', off, hcell', hshown⟩ := shown_of_held hheld
      rw [hcell] at hcell'
      obtain rfl := Option.some.inj hcell'
      rw [hcheck] at hshown
      cases hshown

theorem Deleting.released {ns key : CString} {s t : KvSt} {r : Except Status Unit} (h : Deleting cfg ns key s.hold t r)
    (hio : s.ioFree ≠ 0) : Deleting cfg ns key s t.release r := by
  cases h with
  | kept failed ctx still deletes missing => exact .kept failed ctx (still.released hio) deletes missing
  | refused held fault ctx still deletes => exact .refused held fault ctx (still.released hio) deletes
  | gone held fault ctx confined cells deletes => exact .gone held fault ctx (confined.released hio) cells deletes

theorem kvDelete_deleting (ns key : CString) (s : KvSt) :
    Deleting cfg ns key s (post (kvDelete cfg ns key) s) (outcome (kvDelete cfg ns key) s) := by
  have hrefl := (confined_chains NoSlot).refl s
  by_cases hkey : keyValid cfg key = true
  · have hdef : kvDelete cfg ns key = withBlock (deleteLocked cfg ns key) := by
      simp only [kvDelete, hkey, Bool.not_true, Bool.false_eq_true, if_false]
    rw [hdef]
    by_cases hio : s.ioFree = 0
    · have hrun := @withBlock_none _ s (deleteLocked cfg ns key) hio
      rw [outcome_of_error hrun, post_of_error hrun]
      exact .kept (by decide) rfl hrefl (noDelete_chains.refl s) fun _ h => by cases h
    · rw [outcome_withBlock hio, post_withBlock hio]
      exact (deleteLocked_deleting ns key s.hold).released hio
  · have hdef : kvDelete cfg ns key = throw .ERR_INVAL := by simp [kvDelete, hkey]
    rw [hdef]
    exact .kept (by decide) rfl hrefl (noDelete_chains.refl s) fun _ h => by cases h

section Loop
variable (cfg) (ns : CString)

/-- The loop of `zdb_kv_reset_namespace` as it stands, with no bound on its rounds: from a position and an error it
comes to an end with an error. -/
inductive Loops : Nat → Status → KvSt → Status → KvSt → Prop
  | stop {pos : Nat} {first : Status} {s : KvSt} (none : nextKeyInNs (s.ctx.getD []) ns pos = none) :
      Loops pos first s first s
  | deleted {pos i : Nat} {first last : Status} {s t : KvSt} {e : IndexEntry}
      (found : nextKeyInNs (s.ctx.getD []) ns pos = some i) (entry : (s.ctx.getD [])[i]? = some e)
      (delete : outcome (kvDelete cfg ns e.key) s = .ok ())
      (rest : Loops pos first (post (kvDelete cfg ns e.key) s) last t) : Loops pos first s last t
  | stale {pos i : Nat} {first last : Status} {s t : KvSt} {e : IndexEntry}
      (found : nextKeyInNs (s.ctx.getD []) ns pos = some i) (entry : (s.ctx.getD [])[i]? = some e)
      (delete : outcome (kvDelete cfg ns e.key) s = .error .ERR_NOT_FOUND)
      (rest : Loops pos first (post (trackDelete cfg ns e.key) (post (kvDelete cfg ns e.key) s)) last t) :
      Loops pos first s last t
  | failed {pos i : Nat} {first last status : Status} {s t : KvSt} {e : IndexEntry}
      (found : nextKeyInNs (s.ctx.getD []) ns pos = some i) (entry : (s.ctx.getD [])[i]? = some e)
      (delete : outcome (kvDelete cfg ns e.key) s = .error status) (other : status ≠ .ERR_NOT_FOUND)
      (rest : Loops (i + 1) (firstError first (.error status)) (post (kvDelete cfg ns e.key) s) last t) :
      Loops pos first s last t

end Loop

theorem entry_at {entries : List IndexEntry} {ns : CString} {pos i : Nat} (h : nextKeyInNs entries ns pos = some i) :
    pos ≤ i ∧ i < entries.length ∧ ∃ e, entries[i]? = some e ∧ e.namespaceName = ns := by
  obtain ⟨e, he, hns, -⟩ := ahead_some h
  have hpos : pos ≤ i := by
    obtain ⟨j, -, rfl⟩ := Option.map_eq_some_iff.mp h
    exact Nat.le_add_right pos j
  exact ⟨hpos, (List.getElem?_eq_some_iff.mp he).1, e, he, hns⟩

theorem dropped_length {entries : List IndexEntry} {e : IndexEntry} (he : e ∈ entries) :
    (dropped e.namespaceName e.key entries).length + 1 = entries.length := by
  unfold dropped
  cases hfind : findEntry entries e.namespaceName e.key with
  | none => exact absurd (List.mem_map_of_mem he) (findEntry_none.mp hfind)
  | some i =>
    obtain ⟨hi, -⟩ := findEntry_some hfind
    have hlen := List.length_eraseIdx_of_lt hi
    dsimp only
    omega

theorem resetKeys_stop {ns : CString} {pos : Nat} {s : KvSt} (h : nextKeyInNs (s.ctx.getD []) ns pos = none) (fuel : Nat)
    (first : Status) : (resetKeys cfg ns (fuel + 1) pos first).run s = .ok first s := by
  unfold resetKeys
  refine run_then (a := s) rfl ?_
  dsimp only
  rw [h]
  rfl

theorem resetKeys_round {ns : CString} {pos i : Nat} {s : KvSt} {e : IndexEntry}
    (hfound : nextKeyInNs (s.ctx.getD []) ns pos = some i) (hentry : (s.ctx.getD [])[i]? = some e) (fuel : Nat) (first : Status) :
    (resetKeys cfg ns (fuel + 1) pos first).run s =
      match outcome (kvDelete cfg ns e.key) s with
      | .ok _ => (resetKeys cfg ns fuel pos first).run (post (kvDelete cfg ns e.key) s)
      | .error .ERR_NOT_FOUND =>
        (resetKeys cfg ns fuel pos first).run (post (trackDelete cfg ns e.key) (post (kvDelete cfg ns e.key) s))
      | .error status =>
        (resetKeys cfg ns fuel (i + 1) (firstError first (.error status))).run (post (kvDelete cfg ns e.key) s) := by
  conv_lhs => unfold resetKeys
  refine run_then (a := s) rfl ?_
  dsimp only
  rw [hfound, Option.bind_some, hentry]
  apply run_then (run_attempt _ s)
  cases outcome (kvDelete cfg ns e.key) s with
  | ok u => rfl
  | error status =>
    cases status <;> first
      | rfl
      | exact run_then (trackDelete_total cfg ns e.key _).choose_spec rfl

theorem loops_resetKeys (ns : CString) (fuel : Nat) (pos : Nat) (first : Status) (s : KvSt)
    (hfuel : (s.ctx.getD []).length - pos < fuel) :
    ∃ last t, (resetKeys cfg ns fuel pos first).run s = .ok last t ∧ Loops cfg ns pos first s last t := by
  induction fuel generalizing pos first s with
  | zero => exact absurd hfuel (Nat.not_lt_zero _)
  | succ fuel ih =>
    cases hfound : nextKeyInNs (s.ctx.getD []) ns pos with
    | none => exact ⟨first, s, resetKeys_stop hfound fuel first, .stop hfound⟩
    | some i =>
      obtain ⟨hpos, hlen, e, hentry, hns⟩ := entry_at hfound
      have hround := @resetKeys_round cfg ns pos i s e hfound hentry fuel first
      have hshrinks : (dropped ns e.key (s.ctx.getD [])).length + 1 = (s.ctx.getD []).length := by
        rw [← hns]
        exact dropped_length (List.mem_of_getElem? hentry)
      have hleft : ∀ t : KvSt, t.ctx = s.ctx.map (dropped ns e.key) →
          (t.ctx.getD []).length - pos < fuel := by
        intro t ht
        cases hctx : s.ctx with
        | none =>
          rw [hctx] at hlen
          exact absurd hlen (Nat.not_lt_zero _)
        | some entries =>
          rw [ht, hctx]
          rw [hctx] at hshrinks hfuel hlen
          simp only [Option.map_some, Option.getD_some] at *
          omega
      have hdeleting := @kvDelete_deleting cfg ns e.key s
      have hdrops := @drops_trackDelete cfg ns e.key (post (kvDelete cfg ns e.key) s)
      cases hdelete : outcome (kvDelete cfg ns e.key) s with
      | ok u =>
        rw [hdelete] at hround hdeleting
        cases hdeleting with
        | gone held fault ctx confined cells deletes =>
          obtain ⟨last, t, hrun, hloops⟩ := ih pos first _ (hleft _ ctx)
          exact ⟨last, t, hround.trans hrun, .deleted hfound hentry hdelete hloops⟩
      | error status =>
        rw [hdelete] at hround hdeleting
        have hctx : (post (kvDelete cfg ns e.key) s).ctx = s.ctx := by
          cases hdeleting with
          | kept failed ctx still deletes missing => exact ctx
          | refused held fault ctx still deletes => exact ctx
        by_cases hstale : status = .ERR_NOT_FOUND
        · subst hstale
          obtain ⟨last, t, hrun, hloops⟩ := ih pos first _ (hleft _ (hdrops.ctx.trans (by rw [hctx])))
          exact ⟨last, t, hround.trans hrun, .stale hfound hentry hdelete hloops⟩
        · obtain ⟨last, t, hrun, hloops⟩ := ih (i + 1) (firstError first (.error status)) (post (kvDelete cfg ns e.key) s)
            (by rw [hctx]; omega)
          refine ⟨last, t, hround.trans ?_, .failed hfound hentry hdelete hstale hloops⟩
          rw [← hrun]
          cases status <;> first | rfl | exact absurd rfl hstale

def listings (entries : List IndexEntry) (k : NsKey) : Nat := entries.countP fun e => decide (e.nsKey = k)

def Accepted (cfg : KvCfg) (s : KvSt) (k : NsKey) : Prop :=
  ∃ n < listings (s.ctx.getD []) k, s.flash.faults (.delete (recordId cfg k.1 k.2))
    (s.flash.made (.delete (recordId cfg k.1 k.2)) + n) = none

structure Cleared (cfg : KvCfg) (ns : CString) (s t : KvSt) : Prop where
  confined : Confined AnySlot s t
  ctx : t.ctx = s.ctx.map fun entries => entries.filter fun e => decide (e.namespaceName ≠ ns)
  others : ∀ k, k.1 ≠ ns → stored cfg t.flash.cells k = stored cfg s.flash.cells k
  lacks : ∀ key, ¬ Held cfg s.flash.cells (ns, key) → ¬ Held cfg t.flash.cells (ns, key)
  goes : ∀ key, Accepted cfg s (ns, key) → ¬ Held cfg t.flash.cells (ns, key)
  stays : ∀ key, ¬ Accepted cfg s (ns, key) → Held cfg s.flash.cells (ns, key) →
    stored cfg t.flash.cells (ns, key) = stored cfg s.flash.cells (ns, key)

theorem dropped_split {entries : List IndexEntry} {ns key : CString} (h : (ns, key) ∈ entries.map (·.nsKey)) :
    ∃ before e after, entries = before ++ e :: after ∧ e.nsKey = (ns, key) ∧ dropped ns key entries = before ++ after := by
  unfold dropped
  cases hfind : findEntry entries ns key with
  | none => exact absurd h (findEntry_none.mp hfind)
  | some i =>
    obtain ⟨hi, hkey⟩ := findEntry_some hfind
    refine ⟨entries.take i, entries[i], entries.drop (i + 1), ?_, hkey, List.eraseIdx_eq_take_drop_succ entries i⟩
    rw [← List.drop_eq_getElem_cons hi, List.take_append_drop]

section Dropped
variable {entries : List IndexEntry} {ns key : CString} (h : (ns, key) ∈ entries.map (·.nsKey))
include h

theorem dropped_others : (dropped ns key entries).filter (fun e => decide (e.namespaceName ≠ ns)) =
    entries.filter (fun e => decide (e.namespaceName ≠ ns)) := by
  obtain ⟨before, e, after, hsplit, hkey, hdropped⟩ := dropped_split h
  have hns : e.namespaceName = ns := congrArg Prod.fst hkey
  rw [hdropped, hsplit, List.filter_append, List.filter_append, List.filter_cons_of_neg (by simp [hns])]

theorem listings_dropped (k : NsKey) :
    listings (dropped ns key entries) k + (if k = (ns, key) then 1 else 0) = listings entries k := by
  obtain ⟨before, e, after, hsplit, hkey, hdropped⟩ := dropped_split h
  unfold listings
  rw [hdropped, hsplit, List.countP_append, List.countP_append, List.countP_cons, hkey, Nat.add_assoc]
  congr 2
  by_cases hk : k = (ns, key)
  · rw [if_pos hk, if_pos (by simp [hk])]
  · rw [if_neg hk, if_neg (by simp [Ne.symm hk])]

end Dropped

theorem accepted_along {s u : KvSt} {entries : List IndexEntry} {ns key : CString} (hctx : s.ctx = some entries)
    (hlisted : (ns, key) ∈ entries.map (·.nsKey)) (hdropped : u.ctx = s.ctx.map (dropped ns key))
    (hfaults : u.flash.faults = s.flash.faults) {k : NsKey} (hne : k ≠ (ns, key))
    (hmade : u.flash.made (.delete (recordId cfg k.1 k.2)) = s.flash.made (.delete (recordId cfg k.1 k.2))) :
    Accepted cfg u k ↔ Accepted cfg s k := by
  have hcount := listings_dropped hlisted k
  rw [if_neg hne, Nat.add_zero] at hcount
  unfold Accepted
  rw [hdropped, hctx, hfaults, hmade, Option.map_some, Option.getD_some, Option.getD_some, hcount]

theorem accepted_refused {s u : KvSt} {entries : List IndexEntry} {ns key : CString} {err : Errno}
    (hctx : s.ctx = some entries) (hlisted : (ns, key) ∈ entries.map (·.nsKey))
    (hdropped : u.ctx = s.ctx.map (dropped ns key)) (hfaults : u.flash.faults = s.flash.faults)
    (hfault : s.flash.fault (.delete (recordId cfg ns key)) = some err)
    (hmade : u.flash.made (.delete (recordId cfg ns key)) = s.flash.made (.delete (recordId cfg ns key)) + 1) :
    Accepted cfg u (ns, key) ↔ Accepted cfg s (ns, key) := by
  have hcount := listings_dropped hlisted (ns, key)
  rw [if_pos rfl] at hcount
  unfold Accepted
  rw [hdropped, hctx, hfaults, hmade, Option.map_some, Option.getD_some, Option.getD_some, ← hcount]
  constructor
  · rintro ⟨n, hn, hnone⟩
    refine ⟨n + 1, Nat.succ_lt_succ hn, ?_⟩
    rw [← hnone, Nat.add_assoc, Nat.add_comm 1 n]
  · rintro ⟨n, hn, hnone⟩
    cases n with
    | zero =>
      unfold IdStore.fault at hfault
      rw [Nat.add_zero, hfault] at hnone
      cases hnone
    | succ n =>
      refine ⟨n, Nat.lt_of_succ_lt_succ hn, ?_⟩
      rw [← hnone, Nat.add_assoc, Nat.add_comm 1 n]

theorem stored_gone {cells cells' : Cells} {k : NsKey} (hheld : Held cfg cells k)
    (hcells : ∀ id, id ≠ indexRecId cfg → cells' id = Function.update cells (recordId cfg k.1 k.2) none id) (j : NsKey) :
    stored cfg cells' j = if j = k then none else stored cfg cells j := by
  have hj := hcells _ (recordId_ne_index cfg j.1 j.2)
  by_cases hid : recordId cfg j.1 j.2 = recordId cfg k.1 k.2
  · have hnone : stored cfg cells' j = none := by
      rw [hid, Function.update_self, ← hid] at hj
      unfold stored
      rw [hj]
      rfl
    rw [hnone]
    split
    · rfl
    · rename_i hne
      by_contra hsome
      exact hne (stored_unique hid (Ne.symm hsome) hheld.1)
  · rw [Function.update_of_ne hid] at hj
    rw [stored_congr hj, if_neg]
    rintro rfl
    exact hid rfl

theorem firstError_failed (first : Status) {status : Status} (h : status ≠ .OK) :
    firstError first (.error status) ≠ .OK := by
  cases first <;> first | exact h | exact fun heq => by cases heq

theorem Deleting.failed {ns key : CString} {s t : KvSt} {status : Status} (h : Deleting cfg ns key s t (.error status)) :
    status ≠ .OK := by
  cases h with
  | kept failed ctx still deletes missing => exact failed
  | refused held fault ctx still deletes => exact statusFromErrno_ne_ok _

theorem Loops.ok {ns : CString} {pos : Nat} {first last : Status} {s t : KvSt} (h : Loops cfg ns pos first s last t)
    (hlast : last = .OK) : first = .OK := by
  induction h with
  | stop none => exact hlast
  | deleted found entry delete rest ih => exact ih hlast
  | stale found entry delete rest ih => exact ih hlast
  | @failed pos i first last status s t e found entry delete other rest ih =>
    have hdeleting := @kvDelete_deleting cfg ns e.key s
    rw [delete] at hdeleting
    exact absurd (ih hlast) (firstError_failed first hdeleting.failed)

theorem listings_none {entries : List IndexEntry} {ns : CString} (h : nextKeyInNs entries ns 0 = none) (key : CString) :
    listings entries (ns, key) = 0 := by
  have hnone := ahead_none h
  rw [ahead, List.drop_zero, List.filter_eq_nil_iff] at hnone
  unfold listings
  rw [List.countP_eq_zero]
  intro e he heq
  exact hnone e he (beq_iff_eq.mpr (congrArg Prod.fst (of_decide_eq_true heq)))

theorem filter_none {entries : List IndexEntry} {ns : CString} (h : nextKeyInNs entries ns 0 = none) :
    entries.filter (fun e => decide (e.namespaceName ≠ ns)) = entries := by
  have hnone := ahead_none h
  rw [ahead, List.drop_zero, List.filter_eq_nil_iff] at hnone
  rw [List.filter_eq_self]
  exact fun e he => decide_eq_true fun hns => hnone e he (beq_iff_eq.mpr hns)

theorem Cleared.behind {ns key : CString} {s u t : KvSt} {entries : List IndexEntry} (hctx : s.ctx = some entries)
    (hlisted : (ns, key) ∈ entries.map (·.nsKey)) (hconf : Confined AnySlot s u)
    (hdropped : u.ctx = s.ctx.map (dropped ns key))
    (hother : ∀ k, k ≠ (ns, key) → stored cfg u.flash.cells k = stored cfg s.flash.cells k)
    (hmade : ∀ k, k ≠ (ns, key) → Held cfg s.flash.cells k →
      u.flash.made (.delete (recordId cfg k.1 k.2)) = s.flash.made (.delete (recordId cfg k.1 k.2)))
    (hlacks : ¬ Held cfg s.flash.cells (ns, key) → ¬ Held cfg u.flash.cells (ns, key))
    (hgoes : Accepted cfg s (ns, key) → Accepted cfg u (ns, key) ∨ ¬ Held cfg u.flash.cells (ns, key))
    (hstays : ¬ Accepted cfg s (ns, key) → Held cfg s.flash.cells (ns, key) →
      ¬ Accepted cfg u (ns, key) ∧ stored cfg u.flash.cells (ns, key) = stored cfg s.flash.cells (ns, key))
    (h : Cleared cfg ns u t) : Cleared cfg ns s t := by
  have hheld : ∀ k, k ≠ (ns, key) → (Held cfg u.flash.cells k ↔ Held cfg s.flash.cells k) := fun k hk => by
    unfold Held
    rw [hother k hk]
  have haccepted : ∀ k, k ≠ (ns, key) → Held cfg s.flash.cells k → (Accepted cfg u k ↔ Accepted cfg s k) :=
    fun k hk hs => accepted_along hctx hlisted hdropped hconf.flash.faults hk (hmade k hk hs)
  refine ⟨(confined_chains AnySlot).trans hconf h.confined, ?_, fun k hk => ?_, fun j hj => ?_, fun j hj => ?_, fun j hj hs => ?_⟩
  · rw [h.ctx, hdropped, hctx]
    simp only [Option.map_some]
    rw [dropped_others hlisted]
  · exact (h.others k hk).trans (hother k fun heq => hk (congrArg Prod.fst heq))
  · by_cases hk : (ns, j) = (ns, key)
    · rw [hk] at hj ⊢
      obtain rfl := congrArg Prod.snd hk
      exact h.lacks _ (hlacks hj)
    · exact h.lacks j fun hu => hj ((hheld _ hk).mp hu)
  · by_cases hk : (ns, j) = (ns, key)
    · obtain rfl := congrArg Prod.snd hk
      exact (hgoes hj).elim (h.goes _) (h.lacks _)
    · by_cases hs : Held cfg s.flash.cells (ns, j)
      · exact h.goes j ((haccepted _ hk hs).mpr hj)
      · exact h.lacks j fun hu => hs ((hheld _ hk).mp hu)
  · by_cases hk : (ns, j) = (ns, key)
    · obtain rfl := congrArg Prod.snd hk
      obtain ⟨hu, hsame⟩ := hstays hj hs
      refine (h.stays _ hu ⟨?_, hs.2⟩).trans hsame
      rw [hsame]
      exact hs.1
    · exact (h.stays j (fun hu => hj ((haccepted _ hk hs).mp hu)) ((hheld _ hk).mpr hs)).trans (hother _ hk)

theorem found_listed {s : KvSt} {ns : CString} {pos i : Nat} {e : IndexEntry}
    (hfound : nextKeyInNs (s.ctx.getD []) ns pos = some i) (hentry : (s.ctx.getD [])[i]? = some e) :
    ∃ entries, s.ctx = some entries ∧ (ns, e.key) ∈ entries.map (·.nsKey) := by
  obtain ⟨e', he', hns, -⟩ := ahead_some hfound
  rw [hentry] at he'
  obtain rfl := Option.some.inj he'
  cases hctx : s.ctx with
  | none =>
    rw [hctx] at hentry
    cases hentry
  | some entries =>
    rw [hctx] at hentry
    refine ⟨entries, rfl, ?_⟩
    rw [← hns]
    exact List.mem_map_of_mem (List.mem_of_getElem? hentry)

theorem DeletesOnce.elsewhere {s u : KvSt} {k j : NsKey} (h : DeletesOnce (recordId cfg k.1 k.2) s u)
    (hk : Held cfg s.flash.cells k) (hne : j ≠ k) (hj : Held cfg s.flash.cells j) :
    u.flash.made (.delete (recordId cfg j.1 j.2)) = s.flash.made (.delete (recordId cfg j.1 j.2)) := by
  rw [h, if_neg, Nat.add_zero]
  exact fun hid => hne (stored_unique hid hj.1 hk.1)

section Round
variable {ns key : CString} {s u v t : KvSt} {entries : List IndexEntry} (hctx : s.ctx = some entries)
  (hlisted : (ns, key) ∈ entries.map (·.nsKey))
include hctx hlisted

theorem Deleting.clears {r : Except Status Unit} (hdel : Deleting cfg ns key s u r) (hr : r = .ok ())
    (h : Confined AnySlot s u → Cleared cfg ns u t) : Cleared cfg ns s t := by
  cases hdel with
  | kept failed ctx still deletes missing => cases hr
  | refused held fault ctx still deletes => cases hr
  | gone held fault ctx confined cells deletes =>
    have hvalues := @stored_gone cfg s.flash.cells u.flash.cells (ns, key) held cells
    have hnow : ¬ Held cfg u.flash.cells (ns, key) := fun hu => hu.1 (by rw [hvalues, if_pos rfl])
    refine (h confined).behind hctx hlisted confined ctx (fun k hk => ?_) (fun k hk hheld => ?_)
      (fun _ => hnow) (fun _ => .inr hnow) (fun hnot _ => absurd ?_ hnot)
    · rw [hvalues, if_neg hk]
    · exact @DeletesOnce.elsewhere cfg s u (ns, key) k deletes held hk hheld
    · have hcount := listings_dropped hlisted (ns, key)
      rw [if_pos rfl] at hcount
      refine ⟨0, ?_, fault⟩
      rw [hctx, Option.getD_some, ← hcount]
      exact Nat.succ_pos _

/-- A round that takes the entry for a stale one: there is no record of the key, or the backend has refused the
delete of it as if there were none. -/
theorem Deleting.drops {r : Except Status Unit} (hs : s.flash.Answers) (hdel : Deleting cfg ns key s u r)
    (hr : r = .error .ERR_NOT_FOUND) (hdrops : Drops cfg ns key u v) (h : Confined AnySlot s v → Cleared cfg ns v t) :
    Cleared cfg ns s t := by
  have hstill : Confined NoSlot s u ∧ u.ctx = s.ctx := by
    cases hdel with
    | kept failed ctx still deletes missing => exact ⟨still, ctx⟩
    | refused held fault ctx still deletes => exact ⟨still, ctx⟩
    | gone held fault ctx confined cells deletes => cases hr
  have hconf : Confined (IndexSlot cfg) s v :=
    (confined_chains _).trans (hstill.1.weaken fun _ hid => hid.elim) hdrops.confined
  have hany : Confined AnySlot s v := hconf.weaken fun _ _ => trivial
  have hdropped : v.ctx = s.ctx.map (dropped ns key) := hdrops.ctx.trans (by rw [hstill.2])
  have hlacks : ¬ Held cfg s.flash.cells (ns, key) → ¬ Held cfg v.flash.cells (ns, key) := fun hnot hv =>
    hnot ⟨by rw [← hconf.stored]; exact hv.1, hv.2⟩
  cases hdel with
  | gone held fault ctx confined cells deletes => cases hr
  | kept failed ctx still deletes missing =>
    have hmissing := missing hs (Except.error.inj hr)
    exact (h hany).behind hctx hlisted hany hdropped (fun k _ => hconf.stored k)
      (fun k _ _ => (hdrops.deletes _).trans (deletes _)) hlacks (fun _ => .inr (hlacks hmissing))
      fun _ hheld => absurd hheld hmissing
  | refused held fault ctx still deletes =>
    have honce := deletes.still hdrops.deletes
    have hmade := honce (recordId cfg ns key)
    rw [if_pos rfl] at hmade
    have hacc : Accepted cfg v (ns, key) ↔ Accepted cfg s (ns, key) :=
      accepted_refused hctx hlisted hdropped hconf.flash.faults fault hmade
    exact (h hany).behind hctx hlisted hany hdropped (fun k _ => hconf.stored k)
      (fun k hk hheld => @DeletesOnce.elsewhere cfg s v (ns, key) k honce held hk hheld) hlacks
      (fun ha => .inl (hacc.mpr ha)) fun hnot _ => ⟨fun hv => hnot (hacc.mp hv), hconf.stored _⟩

end Round

theorem loops_cleared {ns : CString} {pos : Nat} {first last : Status} {s t : KvSt}
    (h : Loops cfg ns pos first s last t) (hs : s.flash.Answers) (hpos : pos = 0) (hlast : last = .OK) :
    Cleared cfg ns s t := by
  induction h with
  | @stop pos first s hnone =>
    subst hpos
    refine ⟨(confined_chains AnySlot).refl s, ?_, fun _ _ => rfl, fun _ hlacks => hlacks, fun key hacc => ?_, fun _ _ _ => rfl⟩
    · cases hctx : s.ctx with
      | none => rfl
      | some entries =>
        rw [hctx, Option.getD_some] at hnone
        rw [Option.map_some, filter_none hnone]
    · obtain ⟨n, hn, -⟩ := hacc
      rw [listings_none hnone] at hn
      exact absurd hn (Nat.not_lt_zero n)
  | @deleted pos i first last s t e found entry delete rest ih =>
    obtain ⟨entries, hctx, hlisted⟩ := found_listed found entry
    exact (kvDelete_deleting ns e.key s).clears hctx hlisted delete fun hconf => ih (hconf.flash.answers hs) hpos hlast
  | @stale pos i first last s t e found entry delete rest ih =>
    obtain ⟨entries, hctx, hlisted⟩ := found_listed found entry
    exact (kvDelete_deleting ns e.key s).drops hctx hlisted hs delete (drops_trackDelete ns e.key _) fun hconf =>
      ih (hconf.flash.answers hs) hpos hlast
  | @failed pos i first last status s t e found entry delete other rest ih =>
    have hdeleting := @kvDelete_deleting cfg ns e.key s
    rw [delete] at hdeleting
    exact absurd (rest.ok hlast) (firstError_failed first hdeleting.failed)

section Pass
variable {filter : Option CString}

theorem pass_lacks (ds : List Default) (first : Status) {s : KvSt} (hs : s.flash.Answers) {k : NsKey}
    (hother : ∀ d ∈ ds, ¬ Names filter d k) (hnone : ¬ Held cfg s.flash.cells k) :
    ¬ Held cfg (post (applyDefaults cfg filter ds first) s).flash.cells k := by
  rintro ⟨hsome, hfits⟩
  refine hsome (pass_absent ds first hs (fun d hd k' hk' _ heq => ?_) (by_contra fun h => hnone ⟨h, hfits⟩))
  subst heq
  exact hother d hd hk'

theorem Merging.amends {k : NsKey} {value : Option Bytes} {s u : KvSt} {r : Except Status Unit}
    (m : Merging cfg k value s u r) : Amends cfg k s u := by
  cases m with
  | kept still ctx told held tried => exact fun entries hctx => ⟨entries, ctx.trans hctx, fun e he => .inl he, rfl⟩
  | wrote v given lets blank ok confined amends cells => exact amends

theorem pass_amends (ds : List Default) (first : Status) {s : KvSt} (hs : s.flash.Answers) {entries : List IndexEntry}
    (hctx : s.ctx = some entries) : ∃ entries', (post (applyDefaults cfg filter ds first) s).ctx = some entries' ∧
      (∀ e ∈ entries', e ∈ entries ∨ (∃ d ∈ ds, Names filter d e.nsKey) ∧ e.id = recordId cfg e.namespaceName e.key) ∧
      ∀ p : IndexEntry → Bool, (∀ e, p e = true → ∀ d ∈ ds, ¬ Names filter d e.nsKey) → entries'.filter p = entries.filter p := by
  induction ds generalizing first s entries with
  | nil => exact ⟨entries, hctx, fun e he => .inl he, fun _ _ => rfl⟩
  | cons d ds ih =>
    rw [post_applyDefaults_cons]
    have hu := (applyEntry_confined cfg filter d hs).flash.answers hs
    rcases applyEntry_merging cfg filter d hs with ⟨k, hk, m⟩ | ⟨-, hpost, -, -⟩
    · obtain ⟨mid, hmid, hadded, hkept⟩ := m.amends entries hctx
      obtain ⟨last, hlast, hnew, hrest⟩ := ih (firstError first (outcome (applyEntry cfg filter d) s)) hu hmid
      refine ⟨last, hlast, fun e he => ?_, fun p hp => ?_⟩
      · rcases hnew e he with he | ⟨⟨d', hd', hnames⟩, hid⟩
        · rcases hadded e he with he | ⟨hkey, hid⟩
          · exact .inl he
          · refine .inr ⟨⟨d, List.mem_cons_self, ?_⟩, ?_⟩
            · rw [hkey]
              exact hk
            · rw [hid, ← hkey]
              rfl
        · exact .inr ⟨⟨d', List.mem_cons_of_mem d hd', hnames⟩, hid⟩
      · rw [hrest p fun e he d' hd' => hp e he d' (List.mem_cons_of_mem d hd')]
        -- the entries that `p` keeps are of other keys
        have hthin : ∀ l : List IndexEntry, (l.filter fun e => decide (e.nsKey ≠ k)).filter p = l.filter p := fun l => by
          rw [List.filter_filter]
          apply List.filter_congr
          intro e _
          cases hpe : p e with
          | false => rfl
          | true =>
            rw [Bool.true_and, decide_eq_true_eq]
            rintro rfl
            exact hp e hpe d List.mem_cons_self hk
        rw [← hthin mid, hkept, hthin]
    · rw [hpost] at hu ⊢
      obtain ⟨last, hlast, hnew, hrest⟩ := ih (firstError first (outcome (applyEntry cfg filter d) s)) hu hctx
      refine ⟨last, hlast, fun e he => ?_, fun p hp => hrest p fun e he d' hd' => hp e he d' (List.mem_cons_of_mem d hd')⟩
      exact (hnew e he).imp_right fun ⟨⟨d', hd', hnames⟩, hid⟩ => ⟨⟨d', List.mem_cons_of_mem d hd', hnames⟩, hid⟩

end Pass

def wanted (cfg : KvCfg) (k : NsKey) : Option Bytes :=
  (cfg.defaults.find? fun d => d.namespaceName == some k.1 && d.key == some k.2).bind (·.value)

def shown (cfg : KvCfg) (cells : Cells) (k : NsKey) : Option Bytes :=
  if REC_HDR_SIZE + k.1.val.length + k.2.val.length ≤ cfg.blockSize then stored cfg cells k else none

theorem shown_held {cells : Cells} {k : NsKey} (h : Held cfg cells k) : shown cfg cells k = stored cfg cells k := if_pos h.2

theorem shown_lacks {cells : Cells} {k : NsKey} (h : ¬ Held cfg cells k) : shown cfg cells k = none := by
  unfold shown
  split
  · rename_i hfits
    exact by_contra fun hsome => h ⟨hsome, hfits⟩
  · rfl

def KvSt.indexed (s : KvSt) (cfg : KvCfg) : KvSt := post (ctxGetOrAlloc cfg) s

/-- What is promised of a reset that reports success. -/
structure Afresh (cfg : KvCfg) (ns : CString) (s t : KvSt) : Prop where
  holds : ∀ key, shown cfg t.flash.cells (ns, key) = wanted cfg (ns, key)
  live : ∀ entries, t.ctx = some entries → ∀ e ∈ entries, e.namespaceName = ns → Live cfg t.flash.cells e
  values : ∀ k, k.1 ≠ ns → stored cfg t.flash.cells k = stored cfg s.flash.cells k
  entries : (t.ctx.getD []).filter (fun e => decide (e.namespaceName ≠ ns)) =
    ((s.indexed cfg).ctx.getD []).filter fun e => decide (e.namespaceName ≠ ns)

/-- When a reset does what is promised: each key that has a value is deleted, or has its default already, and no
record with too long a header is in the slot of a default. -/
structure Resettable (cfg : KvCfg) (ns : CString) (s : KvSt) : Prop where
  accepted : ∀ key value, shown cfg s.flash.cells (ns, key) = some value →
    Accepted cfg (s.indexed cfg) (ns, key) ∨ wanted cfg (ns, key) = some value
  apart : ∀ k, k.1 ≠ ns → ¬ Exposes cfg (some ns) cfg.defaults s k

/-- The loop of a reset, as it stands, ends, and the bound on its rounds is no bound. -/
def LoopEnds (cfg : KvCfg) (ns : CString) (s : KvSt) : Prop :=
  ∃ last t, (resetKeys cfg ns (((s.indexed cfg).ctx.getD []).length + 1) 0 .OK).run (s.indexed cfg) = .ok last t ∧
    Loops cfg ns 0 .OK (s.indexed cfg) last t

theorem loop_ends (cfg : KvCfg) (ns : CString) (s : KvSt) : LoopEnds cfg ns s :=
  loops_resetKeys ns _ 0 .OK (s.indexed cfg) (by omega)

def Loaded (s t : KvSt) : Prop := s.ctx ≠ none → t.ctx ≠ none

theorem loaded_chains : Chains Loaded := ⟨fun _ h => h, fun h k hs => k (h hs)⟩

theorem loaded_onFlash {ε α : Type} (m : EStateM ε IdStore α) (s : KvSt) : Keeps Loaded (onFlash m) s := by
  unfold Keeps onFlash
  rw [post_zoom]
  exact fun h => h

theorem loaded_indexStore (s : KvSt) : Keeps Loaded (indexStore cfg) s := by
  unfold indexStore
  apply keeps_get_bind
  cases s.ctx with
  | none => exact keeps_pure loaded_chains _ _
  | some entries =>
    apply keeps_bind loaded_chains (keeps_attempt (loaded_onFlash _ _))
    intro _ _ _
    exact keeps_pure loaded_chains _ _

theorem loaded_loadEntries (ids : List UInt32) (s : KvSt) : Keeps Loaded (loadEntries cfg ids) s := by
  induction ids generalizing s with
  | nil => exact keeps_pure loaded_chains _ _
  | cons id ids ih =>
    apply keeps_bind loaded_chains (keeps_attempt (loaded_onFlash _ _))
    intro r t _
    rcases r with err | ⟨rd, record⟩
    · apply keeps_bind loaded_chains (ih t)
      intro _ _ _
      exact keeps_pure loaded_chains _ _
    · dsimp only
      cases entryOf cfg id rd record with
      | none => exact keeps_bind loaded_chains (ih t) fun _ _ _ => keeps_pure loaded_chains _ _
      | some entry =>
        have hadd : Keeps Loaded (modify fun s => { s with ctx := s.ctx.map (· ++ [entry]) } : KvM Status PUnit) t :=
          fun h heq => h (Option.map_eq_none_iff.mp heq)
        apply keeps_bind loaded_chains hadd
        intro _ u _
        exact ih u

theorem loaded_loadPersisted (s : KvSt) : Keeps Loaded (loadPersisted cfg) s := by
  unfold loadPersisted
  split
  · rw [indexLoad_eq]
    apply keeps_bind loaded_chains (keeps_attempt (loaded_onFlash _ _))
    intro r t _
    rcases r with err | ⟨rd, raw⟩
    · exact keeps_pure loaded_chains _ _
    · dsimp only
      cases indexIds cfg rd raw with
      | none => exact keeps_pure loaded_chains _ _
      | some ids =>
        apply keeps_get_bind
        split
        · obtain ⟨pruned, -, hload⟩ := loadWithBlock_run cfg ids t
          have hback : Loaded t (post (loadEntries cfg ids) t.hold).release := loaded_loadEntries ids t.hold
          unfold Keeps post
          rw [hload]
          cases pruned with
          | true => exact loaded_chains.trans hback (loaded_indexStore _)
          | false => exact hback
        · exact keeps_pure loaded_chains _ _
  · exact keeps_pure loaded_chains _ _

theorem ctxGetOrAlloc_true {s t : KvSt} (h : (ctxGetOrAlloc cfg).run s = .ok true t) :
    t = s.indexed cfg ∧ ∃ entries, t.ctx = some entries := by
  refine ⟨(post_of_run h).symm, Option.ne_none_iff_exists'.mp ?_⟩
  obtain ⟨ctx, ioFree, heapRoom, flash⟩ := s
  cases ctx with
  | some entries =>
    obtain ⟨-, rfl⟩ := EStateM.Result.ok.inj h
    simp
  | none =>
    cases heapRoom with
    | false => cases (EStateM.Result.ok.inj h).1
    | true =>
      obtain ⟨_, hload⟩ := loadPersisted_total cfg ⟨some [], ioFree, true, flash⟩
      have hrun : (ctxGetOrAlloc cfg).run ⟨none, ioFree, true, flash⟩ =
          .ok true (post (loadPersisted cfg) ⟨some [], ioFree, true, flash⟩) :=
        run_then rfl (run_then rfl (run_then hload rfl))
      rw [← (EStateM.Result.ok.inj (hrun.symm.trans h)).2]
      exact @loaded_loadPersisted cfg ⟨some [], ioFree, true, flash⟩ (by simp)

theorem pass_ends {filter : Option CString} (ds : List Default) (first : Status) (s : KvSt) :
    ∃ last, outcome (applyDefaults cfg filter ds first) s = .ok last := by
  induction ds generalizing first s with
  | nil => exact ⟨first, rfl⟩
  | cons d ds ih =>
    rw [outcome_applyDefaults_cons]
    exact ih _ _

theorem first_of_both {filter : Option CString} {first : Status} {m : KvSt}
    (h : firstError first (outcome (kvDefaultsApplyNs cfg filter) m) = .OK) :
    first = .OK ∧ outcome (applyDefaults cfg filter cfg.defaults .OK) m = .ok .OK := by
  obtain ⟨last, hlast⟩ := @pass_ends cfg filter cfg.defaults .OK m
  have hcall : outcome (kvDefaultsApplyNs cfg filter) m = if last = .OK then .ok () else .error last := by
    unfold kvDefaultsApplyNs
    rw [outcome_bind_ok hlast]
    split <;> rfl
  rw [hcall] at h
  rw [hlast]
  by_cases hok : last = .OK
  · rw [if_pos hok] at h
    rw [hok]
    cases first <;> first | exact ⟨rfl, rfl⟩ | cases h
  · rw [if_neg hok] at h
    exact absurd h (firstError_failed first hok)

theorem outcome_kvResetNamespace {ns : CString} {s t m : KvSt} {first : Status}
    (hrun : (ctxGetOrAlloc cfg).run s = .ok true t)
    (hloop : (resetKeys cfg ns ((t.ctx.getD []).length + 1) 0 .OK).run t = .ok first m) :
    outcome (kvResetNamespace cfg ns) s = match firstError first (outcome (kvDefaultsApplyNs cfg (some ns)) m) with
      | .OK => .ok ()
      | status => .error status := by
  unfold kvResetNamespace
  rw [outcome_then hrun]
  simp only [Bool.not_true, Bool.false_eq_true, if_false]
  rw [outcome_get_bind, outcome_then hloop, outcome_then (run_attempt _ _)]
  cases firstError first (outcome (kvDefaultsApplyNs cfg (some ns)) m) <;> rfl

theorem reset_succeeds {ns : CString} {s : KvSt} (hs : s.flash.Answers) (hok : outcome (kvResetNamespace cfg ns) s = .ok ()) :
    ∃ m entries, (s.indexed cfg).ctx = some entries ∧ Cleared cfg ns (s.indexed cfg) m ∧
      outcome (applyDefaults cfg (some ns) cfg.defaults .OK) m = .ok .OK ∧
      post (kvResetNamespace cfg ns) s = post (applyDefaults cfg (some ns) cfg.defaults .OK) m := by
  have hconf : Confined (IndexSlot cfg) s (s.indexed cfg) := keeps_ctxGetOrAlloc cfg s
  obtain ⟨there, t, hthere, hrest⟩ := of_run_bind (run_of_outcome hok)
  cases there with
  | false => cases hrest
  | true =>
    obtain ⟨rfl, entries, hctx⟩ := ctxGetOrAlloc_true hthere
    obtain ⟨first, m, hloop, hloops⟩ := loop_ends cfg ns s
    have hpost := post_kvResetNamespace hthere ns
    have hanswers := hconf.flash.answers hs
    rw [post_of_run hloop, post_kvDefaultsApplyNs] at hpost
    rw [outcome_kvResetNamespace hthere hloop] at hok
    have hfirst : firstError first (outcome (kvDefaultsApplyNs cfg (some ns)) m) = .OK := by
      cases h : firstError first (outcome (kvDefaultsApplyNs cfg (some ns)) m) with
      | OK => rfl
      | _ =>
        rw [h] at hok
        cases hok
    obtain ⟨rfl, hpass⟩ := first_of_both hfirst
    exact ⟨m, entries, hctx, loops_cleared hloops hanswers rfl rfl, hpass, hpost⟩

theorem names_iff {ns : CString} {d : Default} {k : NsKey} :
    Names (some ns) d k ↔ k.1 = ns ∧ d.namespaceName = some k.1 ∧ d.key = some k.2 := by
  unfold Names
  rw [Option.all_some, beq_iff_eq]
  tauto

section Exact
variable {ns : CString} {s m : KvSt} (hs : s.flash.Answers) (hcleared : Cleared cfg ns (s.indexed cfg) m)
  (hpass : outcome (applyDefaults cfg (some ns) cfg.defaults .OK) m = .ok .OK)
include hs hcleared hpass

theorem holds_iff (key : CString) :
    shown cfg (post (applyDefaults cfg (some ns) cfg.defaults .OK) m).flash.cells (ns, key) = wanted cfg (ns, key) ↔
      ∀ value, shown cfg s.flash.cells (ns, key) = some value →
        Accepted cfg (s.indexed cfg) (ns, key) ∨ wanted cfg (ns, key) = some value := by
  have hindexed : Confined (IndexSlot cfg) s (s.indexed cfg) := keeps_ctxGetOrAlloc cfg s
  have hanswers := hcleared.confined.flash.answers (hindexed.flash.answers hs)
  have hsame : shown cfg s.flash.cells (ns, key) = shown cfg (s.indexed cfg).flash.cells (ns, key) := by
    unfold shown
    rw [hindexed.stored]
  rw [hsame]
  by_cases hheld : Held cfg m.flash.cells (ns, key)
  · -- the key has survived the loop, so the table leaves it alone
    have hbefore : Held cfg (s.indexed cfg).flash.cells (ns, key) := by_contra fun hnot => hcleared.lacks key hnot hheld
    have hnot : ¬ Accepted cfg (s.indexed cfg) (ns, key) := fun hacc => hcleared.goes key hacc hheld
    have hkept := @pass_held cfg (some ns) cfg.defaults .OK m hanswers _ hheld
    have hafter : Held cfg (post (applyDefaults cfg (some ns) cfg.defaults .OK) m).flash.cells (ns, key) :=
      ⟨by rw [hkept]; exact hheld.1, hheld.2⟩
    rw [shown_held hafter, hkept, hcleared.stays key hnot hbefore, shown_held hbefore]
    constructor
    · intro heq value hvalue
      exact .inr (heq.symm.trans hvalue)
    · intro h
      obtain ⟨value, hvalue⟩ := Option.ne_none_iff_exists'.mp hbefore.1
      rw [hvalue, (h value hvalue).resolve_left hnot]
  · have hgone : ∀ value, shown cfg (s.indexed cfg).flash.cells (ns, key) = some value →
        Accepted cfg (s.indexed cfg) (ns, key) ∨ wanted cfg (ns, key) = some value := fun value hvalue => by
      refine .inl (by_contra fun hnot => hheld ?_)
      have hbefore : Held cfg (s.indexed cfg).flash.cells (ns, key) := by_contra fun hlacks => by
        rw [shown_lacks hlacks] at hvalue
        cases hvalue
      exact ⟨by rw [hcleared.stays key hnot hbefore]; exact hbefore.1, hbefore.2⟩
    refine iff_of_true ?_ hgone
    unfold wanted
    cases hfind : cfg.defaults.find? fun d => d.namespaceName == some ns && d.key == some key with
    | none =>
      rw [List.find?_eq_none] at hfind
      refine shown_lacks (pass_lacks cfg.defaults .OK hanswers (fun d hd hnames => hfind d hd ?_) hheld)
      obtain ⟨-, hns, hkey⟩ := names_iff.mp hnames
      simp [hns, hkey]
    | some d =>
      obtain ⟨hp, before, after, hsplit, hbefore⟩ := List.find?_eq_some_iff_append.mp hfind
      simp only [Bool.and_eq_true, beq_iff_eq] at hp
      have hnames : Names (some ns) d (ns, key) := names_iff.mpr ⟨rfl, hp.1, hp.2⟩
      have hmem : d ∈ cfg.defaults := by
        rw [hsplit]
        simp
      have hafter := (((pass_succeeds cfg.defaults .OK hanswers hpass).2 d hmem).2.2 _ hnames).2
      rw [shown_held hafter]
      refine pass_first cfg.defaults .OK hanswers hpass hheld hsplit (fun e he hnot => ?_) hnames
      obtain ⟨-, hns, hkey⟩ := names_iff.mp hnot
      have hfalse := hbefore e he
      simp [hns, hkey] at hfalse

omit hpass in
theorem value_kept_iff {k : NsKey} (hk : k.1 ≠ ns) :
    stored cfg (post (applyDefaults cfg (some ns) cfg.defaults .OK) m).flash.cells k = stored cfg s.flash.cells k ↔
      ¬ Exposes cfg (some ns) cfg.defaults s k := by
  have hindexed : Confined (IndexSlot cfg) s (s.indexed cfg) := keeps_ctxGetOrAlloc cfg s
  have hanswers := hcleared.confined.flash.answers (hindexed.flash.answers hs)
  have hio : m.ioFree = s.ioFree := hcleared.confined.ioFree.trans hindexed.ioFree
  have hsame : stored cfg m.flash.cells k = stored cfg s.flash.cells k := (hcleared.others k hk).trans (hindexed.stored k)
  have hexposes : Exposes cfg (some ns) cfg.defaults m k ↔ Exposes cfg (some ns) cfg.defaults s k := by
    unfold Exposes
    rw [hsame]
    apply and_congr_right
    intro _
    apply and_congr_right
    intro _
    apply exists_congr
    intro d
    apply and_congr_right
    intro _
    apply exists_congr
    intro j
    apply exists_congr
    intro v
    apply and_congr_right
    intro _
    apply and_congr_right
    intro _
    apply and_congr_left
    intro _
    exact ⟨fun h => h.along hio, fun h => h.along hio.symm⟩
  rw [← hexposes, ← hsame]
  constructor
  · intro heq h
    rw [pass_exposes cfg.defaults .OK hanswers h] at heq
    exact h.1 heq.symm
  · intro hnot
    by_cases hnone : stored cfg m.flash.cells k = none
    · rw [hnone]
      refine pass_absent cfg.defaults .OK hanswers (fun d _ j hj _ heq => hk ?_) hnone
      rw [heq]
      exact (names_iff.mp hj).1
    · exact pass_present cfg.defaults .OK hanswers hnot hnone

end Exact

/-- The loop of a reset ends, whatever the index holds and whatever the backend refuses. Where reads and writes
succeed, a reset that reports success has done what is promised exactly when each key with a value is deleted once,
or has its default already, and no default takes the slot of another namespace's record. -/
theorem reset_ends_and_exact_iff (cfg : KvCfg) (ns : CString) (s : KvSt) :
    LoopEnds cfg ns s ∧ (s.flash.Answers → outcome (kvResetNamespace cfg ns) s = .ok () →
      (Afresh cfg ns s (post (kvResetNamespace cfg ns) s) ↔ Resettable cfg ns s)) := by
  refine ⟨loop_ends cfg ns s, fun hs hok => ?_⟩
  obtain ⟨m, entries, hctx, hcleared, hpass, hpost⟩ := reset_succeeds hs hok
  have hindexed : Confined (IndexSlot cfg) s (s.indexed cfg) := keeps_ctxGetOrAlloc cfg s
  have hanswers := hcleared.confined.flash.answers (hindexed.flash.answers hs)
  have hmctx := hcleared.ctx
  rw [hctx, Option.map_some] at hmctx
  obtain ⟨last, hlast, hnew, hrest⟩ := @pass_amends cfg (some ns) cfg.defaults .OK m hanswers _ hmctx
  rw [hpost]
  constructor
  · intro h
    exact ⟨fun key => (holds_iff hs hcleared hpass key).mp (h.holds key),
      fun k hk => (value_kept_iff hs hcleared hk).mp (h.values k hk)⟩
  · intro h
    refine ⟨fun key => (holds_iff hs hcleared hpass key).mpr (h.accepted key), fun entries' hctx' e he hns => ?_,
      fun k hk => (value_kept_iff hs hcleared hk).mpr (h.apart k hk), ?_⟩
    · rw [hlast] at hctx'
      obtain rfl := Option.some.inj hctx'
      rcases hnew e he with hold | ⟨⟨d, hd, hnames⟩, hid⟩
      · exact absurd hns (of_decide_eq_true (List.mem_filter.mp hold).2)
      · exact ⟨hid, (((pass_succeeds cfg.defaults .OK hanswers hpass).2 d hd).2.2 _ hnames).2.1⟩
    · rw [hlast, hctx, Option.getD_some, Option.getD_some, hrest, List.filter_filter]
      · exact List.filter_congr fun e _ => Bool.and_self _
      · intro e he d hd hnames
        exact of_decide_eq_true he (names_iff.mp hnames).1

/-- The namespace "n" with the default 1 for "a". -/
def resetCfg : KvCfg :=
  ⟨48, maxKeyLen_default_le, 128, indexMax_default_le, false, false, 64,
    [⟨some ⟨[110], name_n⟩, some ⟨[97], name_a⟩, some [1]⟩]⟩

/-- "a" holds 2 and is indexed, over a backend whose deletes end like this. -/
def changed (delete : Option Errno) : KvSt :=
  ⟨some [⟨nsN, keyA, recordId resetCfg nsN keyA⟩], 2, true,
    ⟨fun id => if id = recordId resetCfg nsN keyA then some (recordBuild nsN keyA [2]) else none,
      fun op _ => match op with
        | .delete _ => delete
        | _ => none, fun _ _ => false, fun _ => 0, []⟩⟩

theorem changed_alone (delete : Option Errno) {k : NsKey} (h : stored resetCfg (changed delete).flash.cells k ≠ none) :
    k = (nsN, keyA) := by
  obtain ⟨value, hvalue⟩ := Option.ne_none_iff_exists'.mp h
  obtain ⟨record, off, hcell, hmatch, -⟩ := stored_eq_some.mp hvalue
  have hrecord : recordBuild nsN keyA [2] = record := by
    change (if _ then _ else _) = _ at hcell
    split at hcell
    · exact Option.some.inj hcell
    · cases hcell
  have hown : recordCheck record (nsN, keyA).1 (nsN, keyA).2 = .MATCH (REC_HDR_SIZE + 2) := by
    rw [← hrecord]
    decide
  exact match_unique hmatch hown

/-- A backend that accepts the delete. -/
theorem changed_value_reset :
    Afresh resetCfg nsN (changed none) (post (kvResetNamespace resetCfg nsN) (changed none)) := by
  refine ((reset_ends_and_exact_iff resetCfg nsN (changed none)).2 (fun _ _ => ⟨rfl, rfl⟩) (by decide +kernel)).mpr
    ⟨fun key value hvalue => .inl ?_, fun k hk h => hk (congrArg Prod.fst (changed_alone none h.1))⟩
  have hkey : (nsN, key) = (nsN, keyA) := changed_alone none fun hnone => by
    rw [shown, hnone] at hvalue
    split at hvalue <;> cases hvalue
  rw [hkey]
  exact ⟨0, by decide, rfl⟩

/-- A backend that refuses the delete as if there were no record: every key with a value is indexed and the reset
reports success, but the value is there still. -/
theorem refused_delete_taken_for_stale :
    (∀ key, stored resetCfg (changed (some .ENOENT)).flash.cells (nsN, key) ≠ none →
        (nsN, key) ∈ ((changed (some .ENOENT)).ctx.getD []).map (·.nsKey)) ∧
      outcome (kvResetNamespace resetCfg nsN) (changed (some .ENOENT)) = .ok () ∧
      ¬ Afresh resetCfg nsN (changed (some .ENOENT)) (post (kvResetNamespace resetCfg nsN) (changed (some .ENOENT))) := by
  refine ⟨fun key hkey => ?_, by decide +kernel, fun h => ?_⟩
  · rw [changed_alone _ hkey]
    decide
  · have hholds := h.holds keyA
    have hstill : shown resetCfg (post (kvResetNamespace resetCfg nsN) (changed (some .ENOENT))).flash.cells (nsN, keyA) =
        some [2] := by decide +kernel
    rw [hstill] at hholds
    exact absurd hholds (by decide)

end ZephyrDB.Kv
