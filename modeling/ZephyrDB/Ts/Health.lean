import ZephyrDB.Ts.Told

/-!
The health contract over whole runs: what is found wrong with the stored data
degrades the instance, which stays so until the next `zdb_init` and says so once.
-/

set_option autoImplicit false

namespace ZephyrDB.Ts

open Lib

namespace Watch

/-- The events say what the health has become, but for a change that an unlock will announce. -/
structure Sound (w : Watch) : Prop where
  events : w.events = if w.health = .OK ∨ w.healthEventPending = true then [] else [(.OK, w.health)]
  pending : w.healthEventPending = true → w.locked = true ∧ w.healthPrev = .OK ∧ w.health ≠ .OK

theorem Sound.fresh : Sound fresh := ⟨rfl, nofun⟩

theorem Sound.healthCheck {w : Watch} (h : w.Sound) : w.healthCheck.Sound := by
  unfold Watch.healthCheck
  split
  · exact h
  · rename_i hok
    have hok : w.health = .OK := not_not.mp hok
    have hnone : w.events = [] := by rw [h.events, if_pos (.inl hok)]
    dsimp only
    split
    · rename_i hlocked
      exact ⟨hnone, fun _ => ⟨hlocked, hok, nofun⟩⟩
    · rename_i hlocked
      have hquiet : w.healthEventPending = false :=
        Bool.eq_false_iff.mpr fun hp => hlocked (h.pending hp).1
      refine ⟨?_, fun hp => absurd (h.pending hp).1 hlocked⟩
      show (w.health, Health.DEGRADED) :: w.events = if Health.DEGRADED = .OK ∨ w.healthEventPending = true then [] else _
      rw [hnone, hok, hquiet]
      rfl

theorem Sound.unlock {w : Watch} (h : w.Sound) : w.unlock.Sound := by
  unfold Watch.unlock
  dsimp only
  split
  · rename_i hp
    obtain ⟨-, hprev, hbad⟩ := h.pending hp
    refine ⟨?_, nofun⟩
    show (w.healthPrev, w.health) :: w.events = if w.health = .OK ∨ false = true then [] else [(.OK, w.health)]
    rw [h.events, if_pos (.inr hp), if_neg (by simp [hbad]), hprev]
  · rename_i hp
    exact ⟨h.events, fun hp' => absurd hp' hp⟩

theorem Sound.on {w : Watch} {k : Mark} (h : w.Sound) (hk : k.lifecycle = false) : (w.on k).Sound := by
  cases k with
  | init => cases hk
  | deinit => cases hk
  | locked => exact ⟨h.events, fun hp => ⟨rfl, (h.pending hp).2⟩⟩
  | unlocked => exact h.unlock
  | healthCheck => exact h.healthCheck
  | _ => exact ⟨h.events, h.pending⟩

theorem on_worsens {w : Watch} {k : Mark} (hk : k.lifecycle = false) (h : w.health ≠ .OK) : (w.on k).health ≠ .OK := by
  cases k with
  | init => cases hk
  | deinit => cases hk
  | unlocked => rwa [Watch.on, unlock_health]
  | healthCheck =>
    rw [Watch.on, healthCheck_health, if_neg h]
    exact h
  | _ => exact h

theorem on_found {w : Watch} {k : Mark} (hk : k.lifecycle = false) (h : (w.on k).found = true) :
    w.found = true ∨ k.find = true := by
  cases k with
  | init => cases hk
  | deinit => cases hk
  | unlocked =>
    refine .inl (Eq.trans (Eq.symm ?_) h)
    unfold Watch.on Watch.unlock Watch.emit
    dsimp only
    split <;> rfl
  | healthCheck =>
    refine .inl (Eq.trans (Eq.symm ?_) h)
    unfold Watch.on Watch.healthCheck Watch.emit
    dsimp only
    split
    · rfl
    · split <;> rfl
  | badHeader => exact .inr rfl
  | badRecord => exact .inr rfl
  | recoveryFailed => exact .inr rfl
  | overCap => exact .inr rfl
  | _ => exact .inl h

section Run
variable {w : Watch} {marks : List Mark} (hrun : ∀ k ∈ marks, k.lifecycle = false)
include hrun

theorem Sound.run (h : w.Sound) : (w.run marks).Sound := by
  induction marks with
  | nil => exact h
  | cons k marks ih => exact (ih fun j hj => hrun j (.tail _ hj)).on (hrun k (.head _))

theorem run_worsens (h : w.health ≠ .OK) : (w.run marks).health ≠ .OK := by
  induction marks with
  | nil => exact h
  | cons k marks ih => exact on_worsens (hrun k (.head _)) (ih fun j hj => hrun j (.tail _ hj))

theorem run_checked (h : Mark.healthCheck ∈ marks) : (w.run marks).health ≠ .OK := by
  induction marks with
  | nil => cases h
  | cons k marks ih =>
    have hrest : ∀ j ∈ marks, j.lifecycle = false := fun j hj => hrun j (.tail _ hj)
    rcases List.mem_cons.mp h with rfl | h
    · show (w.run marks).healthCheck.health ≠ .OK
      rw [healthCheck_health]
      split
      · decide
      · assumption
    · exact on_worsens (hrun k (.head _)) (ih hrest h)

theorem run_found (h : (w.run marks).found = true) : w.found = true ∨ ∃ k ∈ marks, k.find = true := by
  induction marks with
  | nil => exact .inl h
  | cons k marks ih =>
    rcases on_found (hrun k (.head _)) h with h | hk
    · rcases ih (fun j hj => hrun j (.tail _ hj)) h with h | ⟨j, hj, hfind⟩
      · exact .inl h
      · exact .inr ⟨j, .tail _ hj, hfind⟩
    · exact .inr ⟨k, .head _, hk⟩

end Run

end Watch

/-- `zdb_health`. -/
def App.zdbHealth (a : App) : Health := if a.cfgSet then a.env.side.health else .FAULT

/-- An instance in a run, and what its health fields and its events have come to. -/
structure Vigil where
  host : Host
  watch : Watch

namespace Vigil

variable {cfg : Cfg} {cap : AggCap}

def health (v : Vigil) : Health := v.host.app.zdbHealth

def step (cfg : Cfg) (cap : AggCap) (v : Vigil) (call : HostCall) : Vigil :=
  ⟨(v.host.step cfg cap call).host, v.watch.run (v.host.step cfg cap call).marks⟩

def Moves (cfg : Cfg) (cap : AggCap) (v : Vigil) (call : HostCall) (v' : Vigil) : Prop := v' = v.step cfg cap call

/-- Right after `zdb_init`, on a file system in any state. -/
def boot (env : Sys) : Vigil := ⟨Host.boot { env with side := ⟨TsStats.zero, .OK⟩ }, .fresh⟩

/-- What was found wrong since `zdb_init` has degraded the health, until the next one, and one event says so. -/
structure Honest (cfg : Cfg) (cap : AggCap) (v : Vigil) : Prop where
  degraded : v.watch.found = true → v.health ≠ .OK
  event : v.watch.events = if v.host.app.env.side.health = .OK then [] else [(.OK, v.host.app.env.side.health)]
  lasting : ∀ call, call ≠ .op .init → v.health ≠ .OK → (v.step cfg cap call).health ≠ .OK

/-- What the call finds wrong with a healthy instance's data without a health check of its own, it finds
along with something that has one. -/
def Reports (cfg : Cfg) (cap : AggCap) (v : Vigil) (call : HostCall) : Prop :=
  ∀ k ∈ (v.host.step cfg cap call).marks, k.find = true → k.checked = false →
    v.host.app.env.side.health ≠ .OK ∨ Mark.healthCheck ∈ (v.host.step cfg cap call).marks

instance (v : Vigil) (call : HostCall) : Decidable (Reports cfg cap v call) :=
  inferInstanceAs (Decidable (∀ k ∈ _, _))

/-- Between calls the watch has the instance's health, nobody holds the lock, and what was found has told. -/
structure Sound (v : Vigil) : Prop where
  watch : v.watch.Sound
  agrees : v.watch.health = v.host.app.env.side.health
  unlocked : v.watch.locked = false
  told : v.watch.found = true → v.watch.health ≠ .OK

theorem Sound.boot (env : Sys) : (boot env).Sound := ⟨.fresh, rfl, rfl, nofun⟩

structure Ran (v : Vigil) (marks : List Mark) (health : Health) : Prop where
  running : ∀ k ∈ marks, k.lifecycle = false
  agrees : (v.watch.run marks).health = health
  unlocked : (v.watch.run marks).locked = false
  reported : ∀ k ∈ marks, k.checked = true → Mark.healthCheck ∈ marks

theorem Sound.ran {v : Vigil} (hv : v.Sound) {call : HostCall} (hcall : call.lifecycle = false) :
    Ran v (v.host.step cfg cap call).marks (v.host.step cfg cap call).host.app.env.side.health := by
  obtain ⟨others, h⟩ := Host.step_law (@Trail.tells_law cfg) cap v.host hcall
  refine ⟨fun k hk => (h.running k hk).elim nofun id, h.health v.watch hv.agrees, h.locked v.watch hv.unlocked, ?_⟩
  exact fun k hk hchecked => h.reported (fun ⟨_, hj, _⟩ => nomatch hj) ⟨k, hk, hchecked⟩

theorem Sound.step {v : Vigil} (hv : v.Sound) {call : HostCall} (hreports : v.Reports cfg cap call) :
    (v.step cfg cap call).Sound := by
  cases hlife : call.lifecycle with
  | true =>
    cases call with
    | op o =>
      cases o with
      | init => exact ⟨.fresh, rfl, rfl, nofun⟩
      | deinit =>
        have hquiet : v.watch.healthEventPending = false := Bool.eq_false_iff.mpr fun hp => by
          have := (hv.watch.pending hp).1
          rw [hv.unlocked] at this
          cases this
        refine ⟨⟨?_, nofun⟩, hv.agrees, hv.unlocked, hv.told⟩
        show v.watch.events = if v.watch.health = .OK ∨ false = true then [] else _
        rw [hv.watch.events, hquiet]
        rfl
      | _ => cases hlife
    | _ => cases hlife
  | false =>
    have hc := @Sound.ran cfg cap v hv call hlife
    refine ⟨hv.watch.run hc.running, hc.agrees, hc.unlocked, fun hfound => ?_⟩
    rcases Watch.run_found hc.running hfound with hbefore | ⟨k, hk, hfind⟩
    · exact Watch.run_worsens hc.running (hv.told hbefore)
    · cases hchecked : k.checked with
      | true => exact Watch.run_checked hc.running (hc.reported k hk hchecked)
      | false =>
        rcases hreports k hk hfind hchecked with hbad | hmark
        · exact Watch.run_worsens hc.running (hv.agrees ▸ hbad)
        · exact Watch.run_checked hc.running hmark

theorem Sound.honest {v : Vigil} (hv : v.Sound) : v.Honest cfg cap where
  degraded hfound := by
    have hbad := hv.told hfound
    rw [hv.agrees] at hbad
    unfold health App.zdbHealth
    split
    · exact hbad
    · decide
  event := by
    have hquiet : ¬ v.watch.healthEventPending = true := fun hp => by
      have := (hv.watch.pending hp).1
      rw [hv.unlocked] at this
      cases this
    rw [hv.watch.events, hv.agrees]
    simp [hquiet]
  lasting call hcall hbad := by
    cases hlife : call.lifecycle with
    | true =>
      cases call with
      | op o =>
        cases o with
        | init => exact absurd rfl hcall
        | deinit => exact nofun
        | _ => cases hlife
      | _ => cases hlife
    | false =>
      obtain ⟨_, hset⟩ := Host.step_law (@Trail.running_law cfg) cap v.host hlife
      have hset : (v.host.step cfg cap call).host.app.cfgSet = v.host.app.cfgSet := hset
      have hc := @Sound.ran cfg cap v hv call hlife
      unfold health App.zdbHealth at hbad ⊢
      show (if (v.host.step cfg cap call).host.app.cfgSet = true then _ else Health.FAULT) ≠ .OK
      rw [hset]
      split
      · rename_i hcfg
        rw [if_pos hcfg] at hbad
        show (v.host.step cfg cap call).host.app.env.side.health ≠ .OK
        rw [← hc.agrees]
        exact Watch.run_worsens hc.running (hv.agrees ▸ hbad)
      · decide

/-- In a run in which no refused header and no cut beyond the cap goes untold, what is found wrong degrades
the health. -/
theorem corruption_degrades {env : Sys} {calls : List HostCall} {v : Vigil}
    (h : Steps (Guarded (Reports cfg cap) (Moves cfg cap)) (boot env) calls v) : v.Honest cfg cap := by
  refine (h.keeps (I := Sound) (fun v call v' hv hgo => ?_) (.boot env)).honest
  obtain ⟨hreports, rfl⟩ := hgo
  exact hv.step hreports

/-- Stream `A` has one record that fails its checksum: the recovery pass of the open cuts it off, and tells. -/
theorem bad_record_told : ∃ v, Steps (Guarded (Reports (Cfg.plain true 0) ⟨1, by decide⟩) (Moves (Cfg.plain true 0) ⟨1, by decide⟩))
    (boot (App.holding (Cfg.plain true 0) (List.replicate 28 0)).env) [.op (.open 0 [65])] v ∧
      v.Honest (Cfg.plain true 0) ⟨1, by decide⟩ ∧ v.watch.found = true := by
  refine ⟨_, .single ⟨by decide +kernel, rfl⟩, ?_, by decide +kernel⟩
  exact corruption_degrades (.single ⟨by decide +kernel, rfl⟩)

/-- A file system on which the file of stream `A` has the header of another stream. -/
def misnamed (cfg : Cfg) : Sys :=
  { Sys.blank (fun _ => false) with
    files := [(⟨streamPath cfg [65], streamHeaderEncode [66]⟩ : (_ : Path) × Bytes)].toAList }

/-- The open is refused as corrupt, and the instance stays healthy. -/
theorem bad_header_untold : ∃ v, Steps (Moves (Cfg.plain false 0) ⟨1, by decide⟩) (boot (misnamed (Cfg.plain false 0)))
    [.op (.open 0 [65])] v ∧ v.watch.found = true ∧ v.health = .OK ∧ ¬ v.Honest (Cfg.plain false 0) ⟨1, by decide⟩ := by
  refine ⟨_, .single rfl, by decide +kernel, by decide +kernel, fun h => ?_⟩
  exact h.degraded (by decide +kernel) (by decide +kernel)

end Vigil

end ZephyrDB.Ts
