import ZephyrDB.Ts.PoolSpec

/-!
Runs of the calls on cursors. Blocks and open files are those of the live
cursors, after every call, in every run in which no open fails at its rewind;
and an open that does fail there leaves one block too many. With the pool left
out, each program is that of the cursor model.
-/

set_option autoImplicit false

namespace ZephyrDB.Ts

open Lib

namespace Desk

def poolOf (xs : List (Nat × CursorCtx)) : Pool :=
  ⟨↑(xs.map Prod.fst), ↑((xs.filter fun x => x.2.file.isSome).map fun x => Owner.block x.1)⟩

theorem poolOf_insert (xs ys : List (Nat × CursorCtx)) (b : Nat) (c : CursorCtx) :
    poolOf (xs ++ (b, c) :: ys) = (poolOf (xs ++ ys)).holding b c := by
  have hmiddle {α : Type} (f : Nat × CursorCtx → α) (us vs : List (Nat × CursorCtx)) :
      (↑((us ++ (b, c) :: vs).map f) : Multiset α) = f (b, c) ::ₘ ↑((us ++ vs).map f) := by
    rw [Multiset.cons_coe, Multiset.coe_eq_coe]
    exact List.perm_middle.map f
  unfold Pool.holding poolOf
  rw [hmiddle, List.filter_append, List.filter_append, List.filter_cons]
  split
  · rw [hmiddle]
    rfl
  · rfl

/-- The pool holds what the live cursors account for and nothing else. -/
structure Sound (d : Desk) : Prop where
  pool : d.sys.notes = poolOf d.live
  blocks : (d.live.map Prod.fst).Nodup
  headers : ∀ x ∈ d.live, x.2.layout.hdrSize ≤ hdrSizeV2

theorem Sound.settled {d : Desk} (hd : Sound d) : Settled d where
  blocks := by
    rw [hd.pool]
    exact (Multiset.coe_card _).trans (List.length_map _)
  owned := fun f hf => by
    rw [hd.pool] at hf
    obtain ⟨x, hx, rfl⟩ := List.mem_map.mp (Multiset.mem_coe.mp hf)
    exact ⟨x, List.mem_of_mem_filter hx, rfl⟩
  single := fun x _ => by
    rw [hd.pool]
    have hsub : ((d.live.filter fun x => x.2.file.isSome).map Prod.fst).Nodup :=
      hd.blocks.sublist (List.filter_sublist.map Prod.fst)
    have hmap : (d.live.filter fun x => x.2.file.isSome).map (fun x => Owner.block x.1) =
        ((d.live.filter fun x => x.2.file.isSome).map Prod.fst).map Owner.block := by
      rw [List.map_map]
      rfl
    refine Multiset.nodup_iff_count_le_one.mp ?_ (Owner.block x.1)
    show (↑((d.live.filter fun x => x.2.file.isSome).map fun x => Owner.block x.1) : Multiset Owner).Nodup
    rw [hmap, Multiset.coe_nodup]
    exact hsub.map fun _ _ h => Owner.block.inj h

theorem live_at {d : Desk} {k b : Nat} {c : CursorCtx} (hk : d.cursors[k]? = some (some (b, c))) :
    ∃ xs ys, d.live = xs ++ (b, c) :: ys ∧
      ∀ y : Option (Nat × CursorCtx), (d.cursors.set k y).filterMap id = xs ++ (y.toList ++ ys) := by
  obtain ⟨hlt, hget⟩ := List.getElem?_eq_some_iff.mp hk
  refine ⟨(d.cursors.take k).filterMap id, (d.cursors.drop (k + 1)).filterMap id, ?_, fun y => ?_⟩
  · unfold live
    conv_lhs => rw [← List.take_append_drop k d.cursors, List.drop_eq_getElem_cons hlt, hget]
    rw [List.filterMap_append]
    rfl
  · rw [List.set_eq_take_append_cons_drop, if_pos hlt, List.filterMap_append]
    cases y <;> rfl

section Runs
variable {cfg : Cfg} {cap : AggCap} {count : Nat} {d : Desk}

theorem sound_insert {xs ys : List (Nat × CursorCtx)} {b : Nat} {c : CursorCtx} (hlive : d.live = xs ++ (b, c) :: ys)
    (hpool : d.sys.notes = (poolOf (xs ++ ys)).holding b c) (hblocks : ((xs ++ (b, c) :: ys).map Prod.fst).Nodup)
    (hc : c.layout.hdrSize ≤ hdrSizeV2) (hrest : ∀ x ∈ xs ++ ys, x.2.layout.hdrSize ≤ hdrSizeV2) : Sound d where
  pool := by rw [hpool, hlive, poolOf_insert]
  blocks := hlive ▸ hblocks
  headers := fun x hx => by
    rw [hlive, List.mem_append, List.mem_cons] at hx
    rcases hx with hx | rfl | hx
    · exact hrest x (List.mem_append_left ys hx)
    · exact hc
    · exact hrest x (List.mem_append_right xs hx)

theorem Sound.rest {xs ys : List (Nat × CursorCtx)} {x : Nat × CursorCtx} (hd : Sound d) (hlive : d.live = xs ++ x :: ys) :
    ∀ y ∈ xs ++ ys, y.2.layout.hdrSize ≤ hdrSizeV2 := fun y hy => hd.headers y (by
  rw [hlive, List.mem_append, List.mem_cons]
  rcases List.mem_append.mp hy with hy | hy
  · exact .inl hy
  · exact .inr (.inr hy))

theorem sound_next (hd : Sound d) (k : Nat) : Sound (step cfg cap count d (.next k)).2 := by
  unfold step
  dsimp only
  split
  · rename_i b c hk
    obtain ⟨xs, ys, hlive, hset⟩ := live_at hk
    have hnotes : d.sys.notes = (poolOf (xs ++ ys)).holding b c := by rw [hd.pool, hlive, poolOf_insert]
    have hheader : c.layout.hdrSize ≤ hdrSizeV2 := hd.headers (b, c) (by simp [hlive])
    have hholds : Pool.Holds b ((poolOf (xs ++ ys)).withBlock b) ⟨⟨c, d.sys.st⟩, d.sys.notes⟩ := ⟨hnotes, hheader⟩
    have hafter := @Pool.tends_cursorNext cfg b _ _ hholds
    have hblocks := hd.blocks
    rw [hlive, List.map_append, List.map_cons] at hblocks
    refine sound_insert (hset _) hafter.holding ?_ hafter.header (hd.rest hlive)
    rw [List.map_append, List.map_cons]
    exact hblocks
  · exact hd

theorem sound_close (hd : Sound d) (k : Nat) : Sound (step cfg cap count d (.close k)).2 := by
  unfold step
  dsimp only
  split
  · rename_i b c hk
    obtain ⟨xs, ys, hlive, hset⟩ := live_at hk
    have hleft : live ⟨{ d.sys with notes := Pool.cursorClose b c d.sys.notes }, d.cursors.set k none⟩ = xs ++ ys := hset none
    refine ⟨?_, ?_, ?_⟩
    · rw [hleft]
      show Pool.cursorClose b c d.sys.notes = _
      rw [hd.pool, hlive, poolOf_insert, Pool.cursorClose_holding]
    · have hblocks := hd.blocks
      rw [hlive, List.map_append, List.map_cons] at hblocks
      rw [hleft, List.map_append]
      exact hblocks.sublist ((List.sublist_cons_self b _).append_left _)
    · rw [hleft]
      exact hd.rest hlive
  · exact hd

theorem not_settled_of_stranded {t : Noted App Pool} (hd : Sound d) (ht : Pool.Stranded d.sys.notes t) :
    ¬ Settled ⟨t, d.cursors⟩ := fun hset => by
  obtain ⟨x, -, hnotes, -⟩ := ht
  have hcard := hset.blocks
  have htaken : t.notes.taken = x.1 ::ₘ d.sys.notes.taken := by
    rw [hnotes]
    unfold Pool.holding
    split <;> rfl
  have hbefore := hd.settled.blocks
  rw [htaken, Multiset.card_cons, hbefore] at hcard
  exact absurd hcard (Nat.succ_ne_self _)

/-- A call that takes a cursor of its own. -/
def Opens : CursorOp → Prop
  | .open .. | .aggregate .. => True
  | .next _ | .close _ => False

structure Kept (cfg : Cfg) (cap : AggCap) (count : Nat) (d : Desk) (op : CursorOp) : Prop where
  sound : Allows cfg count d op → Sound (step cfg cap count d op).2
  leaks : ¬ Allows cfg count d op → ¬ Settled (step cfg cap count d op).2
  undone : Allows cfg count d op → Opens op → (step cfg cap count d op).1 ≠ .OK →
    (step cfg cap count d op).2.sys.notes = d.sys.notes

theorem sound_of_notes {t : Noted App Pool} (hd : Sound d) (ht : t.notes = d.sys.notes) : Sound ⟨t, d.cursors⟩ :=
  ⟨ht.trans hd.pool, hd.blocks, hd.headers⟩

theorem kept_of_undone {ok : Prop} {t : Noted App Pool} (hd : Sound d) (ht : Pool.Undone ok d.sys.notes t) :
    (ok → Sound ⟨t, d.cursors⟩ ∧ t.notes = d.sys.notes) ∧ (¬ ok → ¬ Settled ⟨t, d.cursors⟩) := by
  rcases ht with ⟨hok, ht⟩ | ⟨hno, ht⟩
  · exact ⟨fun _ => ⟨sound_of_notes hd ht, ht⟩, fun hno => absurd hok hno⟩
  · exact ⟨fun hok => absurd hok hno, fun _ => not_settled_of_stranded hd ht⟩

theorem kept_open (hd : Sound d) (h : Nat) (window : Window) (predicate : Option (Bytes → Bool)) (descending : Bool) :
    Kept cfg cap count d (.open h window predicate descending) := by
  have hopen := @Pool.cursorOpenDir_yields cfg count h window predicate descending d.sys
  cases hm : (Pool.cursorOpenDir cfg count h window predicate descending).run d.sys with
  | ok x t =>
    have hstep : step cfg cap count d (.open h window predicate descending) = (.OK, ⟨t, d.cursors ++ [some x]⟩) := by
      unfold step
      dsimp only
      rw [outcome_of_run hm, post_of_run hm]
    obtain ⟨hrewinds, hfree, hnotes, -, hheader⟩ := hopen.run_ok hm
    have hlive : live ⟨t, d.cursors ++ [some x]⟩ = d.live ++ [x] := List.filterMap_append
    have hsound : Sound ⟨t, d.cursors ++ [some x]⟩ := by
      refine sound_insert hlive ?_ ?_ hheader ?_
      · rw [List.append_nil, ← hd.pool]
        exact hnotes
      · rw [List.map_append]
        refine List.nodup_append.mpr ⟨hd.blocks, List.nodup_singleton _, fun b hb b' hb' hsame => hfree ?_⟩
        rw [List.mem_singleton.mp hb'] at hsame
        rw [hd.pool, ← hsame]
        exact hb
      · rw [List.append_nil]
        exact hd.headers
    refine ⟨fun _ => hstep ▸ hsound, fun hno => absurd hrewinds hno, fun _ _ hfailed => ?_⟩
    rw [hstep] at hfailed
    exact absurd rfl hfailed
  | error rc t =>
    have hstep : step cfg cap count d (.open h window predicate descending) = (rc, ⟨t, d.cursors⟩) := by
      unfold step outcome post
      dsimp only
      rw [hm]
    obtain ⟨hkept, hleaks⟩ := kept_of_undone hd (hopen.run_error hm)
    exact ⟨fun hok => hstep ▸ (hkept hok).1, fun hno => hstep ▸ hleaks hno, fun hok _ _ => hstep ▸ (hkept hok).2⟩

theorem kept_aggregate (hd : Sound d) (h : Nat) (window : Window) (agg : Agg) :
    Kept cfg cap count d (.aggregate h window agg) := by
  have hagg : Pool.Undone (Allows cfg count d (.aggregate h window agg)) d.sys.notes
      (post (Pool.tsQueryAggregate cfg cap count h window agg) d.sys) :=
    ((Pool.tsQueryAggregate_yields d.sys).imp (fun _ _ ht => .inl ht) fun _ _ ht => ht).post
  obtain ⟨hkept, hleaks⟩ := kept_of_undone hd hagg
  exact ⟨fun hok => (hkept hok).1, hleaks, fun hok _ _ => (hkept hok).2⟩

theorem kept (hd : Sound d) (op : CursorOp) : Kept cfg cap count d op := by
  cases op with
  | «open» h window predicate descending => exact kept_open hd h window predicate descending
  | aggregate h window agg => exact kept_aggregate hd h window agg
  | next k => exact ⟨fun _ => sound_next hd k, fun hno => absurd trivial hno, fun _ hopens => hopens.elim⟩
  | close k => exact ⟨fun _ => sound_close hd k, fun hno => absurd trivial hno, fun _ hopens => hopens.elim⟩

theorem sound_start (a : App) : Sound (start a) := ⟨rfl, List.nodup_nil, nofun⟩

theorem sound_run {a : App} {ops : List CursorOp}
    (h : Steps (Guarded (Allows cfg count) (Moves cfg cap count)) (start a) ops d) : Sound d :=
  h.keeps (I := Sound) (fun d op d' hd hmove => by
    obtain ⟨hallows, rfl⟩ := hmove
    exact (kept hd op).sound hallows) (sound_start a)

/-- In every run in which no open fails at its rewind, the blocks allocated and the files open are those
of the live cursors, and an open or an aggregate that fails takes nothing; and it is exactly a failing
rewind that unsettles the desk. -/
theorem cursors_never_leak {a : App} {ops : List CursorOp}
    (h : Steps (Guarded (Allows cfg count) (Moves cfg cap count)) (start a) ops d) :
    Settled d ∧ ∀ op, (Settled (step cfg cap count d op).2 ↔ Allows cfg count d op) ∧
      (Allows cfg count d op → Opens op → (step cfg cap count d op).1 ≠ .OK →
        (step cfg cap count d op).2.sys.notes = d.sys.notes) := by
  have hd := sound_run h
  refine ⟨hd.settled, fun op => ⟨⟨fun hsettled => ?_, fun hallows => ?_⟩, (kept hd op).undone⟩⟩
  · by_contra hno
    exact (kept hd op).leaks hno hsettled
  · exact ((kept hd op).sound hallows).settled

end Runs

/-- Stream `A` with one record, on a file system that fails call number `bad`. -/
def failing (bad : Nat) : App :=
  { App.holding (Cfg.plain false 0) (recordEncode ⟨5, 7⟩) with
    env := { (App.holding (Cfg.plain false 0) (recordEncode ⟨5, 7⟩)).env with
      faults := fun n => if n = bad then .fail Errno.EIO 0 else .none } }

/-- A slab of one block: an open that fails early, one that succeeds, an aggregate that finds no block,
a step and the close. -/
theorem one_block_run : ∃ d,
    Steps (Guarded (Allows (Cfg.plain false 0) 1) (Moves (Cfg.plain false 0) ⟨1, by decide⟩ 1)) (start (failing 4))
      [.open 0 Window.all none true, .open 0 Window.all none false, .aggregate 0 Window.all .SUM, .next 0, .close 0] d ∧
    Settled d ∧ ∀ op, (Settled (step (Cfg.plain false 0) ⟨1, by decide⟩ 1 d op).2 ↔ Allows (Cfg.plain false 0) 1 d op) ∧
      (Allows (Cfg.plain false 0) 1 d op → Opens op → (step (Cfg.plain false 0) ⟨1, by decide⟩ 1 d op).1 ≠ .OK →
        (step (Cfg.plain false 0) ⟨1, by decide⟩ 1 d op).2.sys.notes = d.sys.notes) := by
  have hrun : ∃ d, Steps (Guarded (Allows (Cfg.plain false 0) 1) (Moves (Cfg.plain false 0) ⟨1, by decide⟩ 1))
      (start (failing 4)) [.open 0 Window.all none true, .open 0 Window.all none false, .aggregate 0 Window.all .SUM,
        .next 0, .close 0] d :=
    ⟨_, .cons ⟨by decide +kernel, rfl⟩ (.cons ⟨by decide +kernel, rfl⟩ (.cons ⟨by decide +kernel, rfl⟩
      (.cons ⟨trivial, rfl⟩ (.cons ⟨trivial, rfl⟩ (.nil _)))))⟩
  obtain ⟨d, hrun⟩ := hrun
  exact ⟨d, hrun, cursors_never_leak hrun⟩

/-- The seek an open ends with fails: the open is refused, and a block and a file stay behind. -/
theorem refused_open_leaks : ∃ d,
    Steps (Moves (Cfg.plain false 0) ⟨1, by decide⟩ 1) (start (failing 8)) [.open 0 Window.all none false] d ∧
      (step (Cfg.plain false 0) ⟨1, by decide⟩ 1 (start (failing 8)) (.open 0 Window.all none false)).1 = Status.ERR_IO ∧
      d.live.length = 0 ∧ d.sys.notes.taken.card = 1 ∧ d.sys.notes.files.card = 1 ∧ ¬ Settled d := by
  refine ⟨_, .single rfl, by decide +kernel, by decide +kernel, by decide +kernel, by decide +kernel, fun hsettled => ?_⟩
  exact absurd hsettled.blocks (by decide +kernel)

end Desk

end ZephyrDB.Ts
