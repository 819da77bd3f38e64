import AuraOS.Kernel.Mirror.Integrity
import AuraOS.Kernel.System.Timetable

/-!
# The snapshots of the running system

`menu_run` captures a snapshot in slot 1, and `menu_tick` one for each key `4`, in the slots 2 and 3 in turn.  As
nothing else writes these slots, the snapshot of the start can be restored at any time, and a user snapshot lasts
until as many others were captured as there are slots for them (`snapshots_last`).
-/

namespace AuraOS.Kernel.System

open AuraOS.Lib AuraOS.Kernel AuraOS.Env AuraOS.Modules

variable {H : Type}

/-! ### Keys -/

/-- The key that captures a snapshot. -/
abbrev captureKey : UInt8 := 0x34

/-- The steps of the loop, each with the character that `menu_tick` has read in it, or 0. -/
inductive KeyStep [DecidableEq H] : Sys H → Label H × UInt8 → Sys H → Prop
  | menu {k k' : State H} {s s' : Scheduler.Sched TaskFn} {c : Scheduler.Control} {i : ℕ} {ch : UInt8} {r : Reads}
      {e : Effect H} {acts : List (EventBus.Act H)} :
      Scheduler.Step ⟨k.sched, .loop i⟩ (.call i (some .menuTick)) ⟨s, .body i⟩ →
      menuTick ch r { k with sched := s } = some e → Performs e acts k' →
      Scheduler.Step ⟨k'.sched, .body i⟩ (.ret i) ⟨s', c⟩ →
      KeyStep ⟨k, .loop i⟩ (.ran i .menuTick acts, ch) ⟨{ k' with sched := s' }, c⟩
  | other {s t : Sys H} {l : Label H} : Step s l t → (∀ i acts, l ≠ .ran i .menuTick acts) → KeyStep s (l, 0) t

/-- The snapshots that were captured by a key. -/
def captures (ls : List (Label H × UInt8)) : ℕ := ls.countP fun l => l.2 = captureKey

/-- The slot of user snapshot `n`. -/
def userSlot (n : ℕ) : ℕ := 2 + n % (Mirror.mirrorSlots - 2)

/-- The slot that `menu_tick` captures into next. -/
def State.nextSlot (k : State H) : UInt8 := if Mirror.mirrorSlots ≤ k.snapSlot.toNat then 2 else k.snapSlot

theorem captures_append (ls ls' : List (Label H × UInt8)) : captures (ls ++ ls') = captures ls + captures ls' :=
  List.countP_append

theorem captures_concat (ls : List (Label H × UInt8)) (l : Label H) (c : UInt8) :
    captures (ls ++ [(l, c)]) = if c = captureKey then captures ls + 1 else captures ls := by
  rw [captures_append]
  unfold captures
  rw [List.countP_singleton]
  simp only [decide_eq_true_eq]
  split
  · rfl
  · rfl

theorem userSlot_pos (n : ℕ) : 0 < userSlot n := by
  unfold userSlot
  omega

theorem userSlot_lt (n : ℕ) : userSlot n < Mirror.mirrorSlots := by
  change 2 + n % 2 < 4
  omega

theorem userSlot_succ_ne (n : ℕ) : userSlot (n + 1) ≠ userSlot n := by
  change 2 + (n + 1) % 2 ≠ 2 + n % 2
  omega

section Steps

variable [DecidableEq H] {s t u : Sys H} {l : Label H} {c : UInt8} {k k' : State H} {e : Effect H} {n : ℕ}
  {acts : List (EventBus.Act H)}

/-- Each step is one with some character. -/
theorem step_iff_keyStep : Step s l t ↔ ∃ c, KeyStep s (l, c) t := by
  constructor
  · intro h
    by_cases hmenu : ∃ i acts, l = .ran i .menuTick acts
    · obtain ⟨i, acts, rfl⟩ := hmenu
      cases h with
      | ran hcall hbody hret =>
        cases hbody with
        | menuTick he hperf => exact ⟨_, .menu hcall he hperf hret⟩
    · push Not at hmenu
      exact ⟨0, .other h hmenu⟩
  · rintro ⟨c, h⟩
    cases h with
    | menu hcall he hperf hret => exact Step.ran hcall (Body.menuTick he hperf) hret
    | other h _ => exact h

/-! ### What a step does to the snapshots -/

/-- The slots behind the live one are as they were. -/
structure Keeps (k k' : State H) : Prop where
  snapSlot : k'.snapSlot = k.snapSlot
  snapshots : ∀ j, 0 < j → k'.mirror.snapshots j = k.mirror.snapshots j

/-- One of them was captured into. -/
structure Captures (k k' : State H) : Prop where
  snapSlot : k'.snapSlot = k.nextSlot + 1
  snapshots : ∀ j, 0 < j → j ≠ k.nextSlot.toNat → k'.mirror.snapshots j = k.mirror.snapshots j
  valid : (k'.mirror.snapshots k.nextSlot.toNat).valid = true
  intact : (k'.mirror.snapshots k.nextSlot.toNat).Intact

omit [DecidableEq H] in
theorem Keeps.refl (k : State H) : Keeps k k := ⟨rfl, fun _ _ => rfl⟩

omit [DecidableEq H] in
theorem Keeps.trans {k'' : State H} (h : Keeps k k') (h' : Keeps k' k'') : Keeps k k'' :=
  ⟨h'.snapSlot.trans h.snapSlot, fun j hj => (h'.snapshots j hj).trans (h.snapshots j hj)⟩

omit [DecidableEq H] in
/-- Publishing does not touch the snapshots. -/
theorem Performs.keeps (h : Performs e acts k') : Keeps e.2 k' := by
  cases h with
  | intro _ => exact ⟨rfl, fun _ _ => rfl⟩

omit [DecidableEq H] in
theorem keeps_mirrorSync (r : Reads) (k : State H) : Keeps k (mirrorSync r k).2 := by
  refine ⟨rfl, fun j hj => ?_⟩
  exact Function.update_of_ne (Nat.ne_of_gt hj) _ _

omit [DecidableEq H] in
theorem TickAll.keeps {i : ℕ} (h : TickAll i k acts k') : Keeps k k' := by
  induction h with
  | done k => exact .refl k
  | pass _ _ _ ih => exact ih
  | @tick i f k k₁ k' acts acts' _ _ _ hperf _ ih =>
    have htick : Keeps k (pluginTick f k).2 := by
      unfold pluginTick
      split
      · exact ⟨rfl, fun _ _ => rfl⟩
      · exact .refl k
    exact (htick.trans hperf.keeps).trans ⟨ih.snapSlot, ih.snapshots⟩

omit [DecidableEq H] in
/-- **A capture** writes its slot and the live one. -/
theorem captures_mirrorCapture {slot : UInt8} (hlt : slot.toNat < Mirror.mirrorSlots)
    (label : CStr) (r : Reads) (k : State H) :
    let m := (mirrorCapture slot label r k).2.mirror
    (∀ j, 0 < j → j ≠ slot.toNat → m.snapshots j = k.mirror.snapshots j) ∧
      (m.snapshots slot.toNat).valid = true ∧ (m.snapshots slot.toNat).Intact := by
  unfold mirrorCapture Mirror.mirrorCapture
  rw [if_neg (Nat.not_le.2 hlt)]
  refine ⟨fun j hj hne => ?_, ?_, ?_⟩
  · exact (Function.update_of_ne hne _ _).trans (Function.update_of_ne (Nat.ne_of_gt hj) _ _)
  · unfold Mirror.State.setSlot
    dsimp only
    rw [Function.update_self]
    rfl
  · unfold Mirror.State.setSlot
    dsimp only
    rw [Function.update_self]
    exact Mirror.intact_capturedSnapshot _ _ _

omit [DecidableEq H] in
/-- **`menu_tick`** captures for one key only. -/
theorem menuTick_spec {r : Reads} (hslot : k.nextSlot.toNat = userSlot n) (he : menuTick c r k = some e) :
    c = captureKey ∧ Captures k e.2 ∨ c ≠ captureKey ∧ Keeps k e.2 := by
  unfold menuTick at he
  by_cases hc : c = captureKey
  · rw [if_pos hc] at he
    refine Or.inl ⟨hc, ?_⟩
    have hlt : k.nextSlot.toNat < Mirror.mirrorSlots := hslot ▸ userSlot_lt n
    obtain ⟨h1, h2, h3⟩ := captures_mirrorCapture hlt (ascii "user-snap") r { k with snapSlot := k.nextSlot + 1 }
    obtain rfl := Option.some.inj he
    exact ⟨rfl, h1, h2, h3⟩
  · rw [if_neg hc] at he
    refine Or.inr ⟨hc, ?_⟩
    split at he
    · obtain rfl := Option.some.inj he
      exact ⟨rfl, fun _ _ => rfl⟩
    · split at he
      · cases he
      · obtain rfl := Option.some.inj he
        exact .refl k

/-- **The step lemma.** -/
theorem KeyStep.spec (hslot : s.state.nextSlot.toNat = userSlot n) (h : KeyStep s (l, c) t) :
    c = captureKey ∧ Captures s.state t.state ∨ c ≠ captureKey ∧ Keeps s.state t.state := by
  cases h with
  | @menu k k' s s' c i ch r e acts hcall he hperf hret =>
    have hnext := hperf.keeps
    rcases menuTick_spec (k := { k with sched := s }) hslot he with ⟨hc, h⟩ | ⟨hc, h⟩
    · refine Or.inl ⟨hc, hnext.snapSlot.trans h.snapSlot, fun j hj hne => ?_, ?_, ?_⟩
      · exact (hnext.snapshots j hj).trans (h.snapshots j hj hne)
      · exact (congrArg _ (hnext.snapshots _ (hslot ▸ userSlot_pos n))).trans h.valid
      · have hsame := hnext.snapshots k.nextSlot.toNat (hslot ▸ userSlot_pos n)
        have hintact : (e.2.mirror.snapshots k.nextSlot.toNat).Intact := h.intact
        rw [← hsame] at hintact
        exact hintact
    · exact Or.inr ⟨hc, hnext.snapSlot.trans h.snapSlot, fun j hj => (hnext.snapshots j hj).trans (h.snapshots j hj)⟩
  | other h hne =>
    refine Or.inr ⟨by decide, ?_⟩
    cases h with
    | tick _ => exact ⟨rfl, fun _ _ => rfl⟩
    | pass _ => exact ⟨rfl, fun _ _ => rfl⟩
    | @ran k k' s s' c i fn acts hcall hbody hret =>
      have hkeeps : Keeps k k' := by
        cases hbody with
        | kernelHeartbeat => exact ⟨rfl, fun _ _ => rfl⟩
        | eventbusProcess _ => exact ⟨rfl, fun _ _ => rfl⟩
        | @mirrorSync r _ _ _ h =>
          have hsync := (keeps_mirrorSync r { k with sched := s }).trans h.keeps
          exact ⟨hsync.snapSlot, hsync.snapshots⟩
        | pluginTickAll h => exact ⟨h.keeps.snapSlot, h.keeps.snapshots⟩
        | keyboardPoll => exact ⟨rfl, fun _ _ => rfl⟩
        | menuTick _ _ => exact absurd rfl (hne i acts)
        | serialPoll => exact ⟨rfl, fun _ _ => rfl⟩
      exact ⟨hkeeps.snapSlot, hkeeps.snapshots⟩
    | halt _ _ => exact ⟨rfl, fun _ _ => rfl⟩
    | switch _ hperf => exact ⟨hperf.keeps.snapSlot, hperf.keeps.snapshots⟩

end Steps

/-! ### Runs -/

/-- After `n` user snapshots: which slot is next, and that the snapshots behind the live one are intact. -/
structure Shots (n : ℕ) (k : State H) : Prop where
  next : k.nextSlot.toNat = userSlot n
  intact : ∀ j, 0 < j → j < Mirror.mirrorSlots → (k.mirror.snapshots j).valid = true → (k.mirror.snapshots j).Intact

section Runs

variable {k k' k₀ : State H} {n : ℕ} {boot : List (EventBus.Act H)}

theorem Shots.keep (h : Shots n k) (hk : Keeps k k') : Shots n k' := by
  refine ⟨?_, fun j hj hlt => ?_⟩
  · unfold State.nextSlot
    rw [hk.snapSlot]
    exact h.next
  · rw [hk.snapshots j hj]
    exact h.intact j hj hlt

theorem Shots.capture (h : Shots n k) (hk : Captures k k') : Shots (n + 1) k' := by
  refine ⟨?_, fun j hj hlt hv => ?_⟩
  · have hnat : k'.snapSlot.toNat = 3 + n % 2 := by
      rw [hk.snapSlot, UInt8.toNat_add, h.next]
      change (2 + n % 2 + 1) % 256 = 3 + n % 2
      omega
    unfold State.nextSlot userSlot
    split
    next hfull =>
      have hfull' : 4 ≤ k'.snapSlot.toNat := hfull
      change 2 = 2 + (n + 1) % 2
      omega
    next hroom =>
      have hroom' : ¬4 ≤ k'.snapSlot.toNat := hroom
      change k'.snapSlot.toNat = 2 + (n + 1) % 2
      omega
  · by_cases hne : j = k.nextSlot.toNat
    · rw [hne]
      exact hk.intact
    · rw [hk.snapshots j hj hne] at hv ⊢
      exact h.intact j hj hlt hv

/-- The start captures a snapshot in slot 1. -/
theorem KernelMain.shots (h : KernelMain k₀ boot k) : Shots 0 k ∧ (k.mirror.snapshots 1).valid = true := by
  cases h with
  | @intro now env r k₁ k₂ acts acts' hregister hcapture =>
    have hone : (1 : UInt8).toNat < Mirror.mirrorSlots := by decide
    obtain ⟨hother, hvalid, hintact⟩ := captures_mirrorCapture hone (ascii "boot-snapshot") r { k₁ with env := env }
    have hkeeps := hcapture.keeps
    have hslot := hkeeps.snapshots 1 (by decide)
    rw [show (1 : UInt8).toNat = 1 from rfl] at hother hvalid hintact
    rw [← hslot] at hvalid hintact
    refine ⟨⟨?_, fun j hj hlt hv => ?_⟩, hvalid⟩
    · have hsnap : k.snapSlot = 2 := hkeeps.snapSlot.trans hregister.keeps.snapSlot
      unfold State.nextSlot
      rw [hsnap]
      rfl
    · by_cases h1 : j = 1
      · rw [h1]
        exact hintact
      · -- nothing but slot 1 has been captured into since `mirror_init`
        have hempty := (hkeeps.snapshots j hj).trans ((hother j hj h1).trans (hregister.keeps.snapshots j hj))
        rw [hempty] at hv
        cases hv

variable [DecidableEq H] {s t u : Sys H} {ls pre post : List (Label H × UInt8)} {l : Label H}

theorem Shots.run (h : Run KeyStep s ls t) (hs : Shots n s.state) : Shots (n + captures ls) t.state ∧
    t.state.mirror.snapshots 1 = s.state.mirror.snapshots 1 := by
  have hnil : Shots (n + captures ([] : List (Label H × UInt8))) s.state := hs
  refine h.history (I := fun ls t => Shots (n + captures ls) t.state ∧
    t.state.mirror.snapshots 1 = s.state.mirror.snapshots 1) ⟨hnil, rfl⟩ ?_
  rintro ls t ⟨l, c⟩ u ⟨hI, hboot⟩ hstep
  rw [captures_concat]
  rcases hstep.spec hI.next with ⟨hc, hcap⟩ | ⟨hc, hkeep⟩
  · rw [if_pos hc]
    refine ⟨hI.capture hcap, (hcap.snapshots 1 (by decide) ?_).trans hboot⟩
    rw [hI.next]
    unfold userSlot
    omega
  · rw [if_neg hc]
    exact ⟨hI.keep hkeep, (hkeep.snapshots 1 (by decide)).trans hboot⟩

/-- A snapshot stays until the second capture behind it. -/
theorem Shots.lasts (h : Run KeyStep s ls t) (hs : Shots (n + 1) s.state) (hls : captures ls < 2) :
    t.state.mirror.snapshots (userSlot n) = s.state.mirror.snapshots (userSlot n) := by
  have hnil : Shots (n + 1 + captures ([] : List (Label H × UInt8))) s.state := hs
  refine (h.history (I := fun ls t => Shots (n + 1 + captures ls) t.state ∧ (captures ls < 2 →
    t.state.mirror.snapshots (userSlot n) = s.state.mirror.snapshots (userSlot n))) ⟨hnil, fun _ => rfl⟩ ?_).2 hls
  rintro ls t ⟨l, c⟩ u ⟨hI, hlast⟩ hstep
  rw [captures_concat]
  rcases hstep.spec hI.next with ⟨hc, hcap⟩ | ⟨hc, hkeep⟩
  · rw [if_pos hc]
    refine ⟨hI.capture hcap, fun hlt => ?_⟩
    rw [← hlast (by omega)]
    refine hcap.snapshots _ (userSlot_pos n) ?_
    rw [hI.next, show captures ls = 0 by omega]
    exact (userSlot_succ_ne n).symm
  · rw [if_neg hc]
    exact ⟨hI.keep hkeep, fun hlt => (hkeep.snapshots _ (userSlot_pos n)).trans (hlast hlt)⟩

omit [DecidableEq H] in
/-- A snapshot behind the live one that is in use can be restored. -/
theorem Shots.restore (h : Shots n k) {slot : UInt8} (hpos : 0 < slot.toNat) (hlt : slot.toNat < Mirror.mirrorSlots)
    (hv : (k.mirror.snapshots slot.toNat).valid = true) (env : EnvTable) :
    Mirror.mirrorRestore slot k.mirror env =
      (.ok, some (Mirror.topicMirrorSync, slot.toUInt32 ||| 0x80000000), envInit env) := by
  have hok : Mirror.mirrorVerify slot k.mirror = .ok :=
    (Mirror.mirrorVerify_eq_ok_iff hlt hv).2 (h.intact _ hpos hlt hv)
  unfold Mirror.mirrorRestore
  rw [if_neg (by simp [hv]; omega), if_neg (by simp [hok])]

/-- **Snapshots last**: at each point of every run of the system the snapshot of the start is in slot 1 and can be
restored; and a snapshot that a key has captured is in its slot, and can be restored, until two more were. -/
theorem snapshots_last (hboot : KernelMain k₀ boot k) (h : Run KeyStep ⟨k, .idle⟩ ls t) :
    (t.state.mirror.snapshots 1 = k.mirror.snapshots 1 ∧ ∀ env, Mirror.mirrorRestore 1 t.state.mirror env =
      (.ok, some (Mirror.topicMirrorSync, 0x80000001), envInit env)) ∧
    ∀ pre l post u, ls = pre ++ (l, captureKey) :: post → Run KeyStep ⟨k, .idle⟩ (pre ++ [(l, captureKey)]) u →
      Run KeyStep u post t → captures post < Mirror.mirrorSlots - 2 →
      let slot := userSlot (captures pre)
      t.state.mirror.snapshots slot = u.state.mirror.snapshots slot ∧
        ∀ env, (Mirror.mirrorRestore (.ofNat slot) t.state.mirror env).1 = .ok := by
  obtain ⟨hk, hvalid⟩ := hboot.shots
  obtain ⟨ht, hsame⟩ := hk.run h
  refine ⟨⟨hsame, fun env => ?_⟩, ?_⟩
  · have hpos : 0 < (1 : UInt8).toNat := by decide
    exact ht.restore hpos (by decide) (hsame ▸ hvalid) env
  · rintro pre l post u - hpre hpost hlt slot
    have hu := (hk.run hpre).1
    rw [captures_concat, if_pos rfl] at hu
    obtain ⟨v, hpre', hlast⟩ := Run.append_iff.1 hpre
    obtain ⟨w, hstep, hnil⟩ := Run.cons_iff.1 hlast
    cases hnil with
    | nil =>
      have hv := (hk.run hpre').1
      have hlasts := Shots.lasts (n := captures pre) hpost (by rwa [Nat.zero_add] at hu) hlt
      refine ⟨hlasts, fun env => ?_⟩
      have hnat : (UInt8.ofNat slot).toNat = slot := by
        rw [UInt8.toNat_ofNat']
        exact Nat.mod_eq_of_lt (Nat.lt_trans (userSlot_lt _) (by decide))
      rcases hstep.spec hv.next with ⟨-, hcap⟩ | ⟨hc, -⟩
      · have hcaptured := hcap.valid
        rw [hv.next, Nat.zero_add, ← hlasts] at hcaptured
        rw [ht.restore (by rw [hnat]; exact userSlot_pos _) (by rw [hnat]; exact userSlot_lt _)
          (by rw [hnat]; exact hcaptured) env]
      · exact absurd rfl hc

/-- Each run is one with characters. -/
theorem exists_keyRun {ls : List (Label H)} (h : Run Step s ls t) :
    ∃ ls', ls'.map Prod.fst = ls ∧ Run KeyStep s ls' t := by
  induction h with
  | nil s => exact ⟨[], rfl, Run.nil s⟩
  | @cons s t u l ls hstep _ ih =>
    obtain ⟨c, hkey⟩ := step_iff_keyStep.1 hstep
    obtain ⟨ls', hls, hrun⟩ := ih
    exact ⟨(l, c) :: ls', by rw [List.map_cons, hls], Run.cons hkey hrun⟩

/-- A run without `menu_tick` is one without keys. -/
theorem keyRun_of_calls {ls : List (Label H)} (h : Run Step s ls t) (hcalls : .menuTick ∉ calls ls) :
    Run KeyStep s (ls.map fun l => (l, 0)) t := by
  induction h with
  | nil s => exact Run.nil s
  | @cons s t u l ls hstep _ ih =>
    rw [← List.singleton_append, calls_append, List.mem_append, not_or] at hcalls
    refine Run.cons (.other hstep ?_) (ih hcalls.2)
    rintro i acts rfl
    exact hcalls.1 List.mem_cons_self

omit [DecidableEq H] in
theorem captures_map_zero (ls : List (Label H)) : captures (ls.map fun l => (l, 0)) = 0 := by
  unfold captures
  rw [List.countP_map]
  exact List.countP_eq_zero.2 fun l _ => of_decide_eq_true rfl

/-- The first tick, and the second one up to the slot of `menu_tick`. -/
theorem exists_run_menuSlot (hboot : KernelMain k₀ boot k) :
    ∃ ls k', Run Step ⟨k, .idle⟩ ls ⟨k', .loop 5⟩ ∧ .menuTick ∉ calls ls ∧ Inv ⟨k', .loop 5⟩ ∧
      Timed 2 (due 2 (builtinTasks.take 5)) k'.sched (.loop 5) := by
  have htick₁ : Step ⟨k, .idle⟩ .tick ⟨{ k with sched := Scheduler.startTick k.sched }, .loop 0⟩ := .tick .tick
  have hI₁ := (hboot.spec.1.step htick₁).1
  obtain ⟨mid₁, k₁, hrun₁, hmid₁⟩ := hboot.timed.startTick.exists_run_end hI₁
  have hT₁ := hboot.timed.startTick.within hrun₁ hmid₁
  have hcalls₁ : calls mid₁ = due 1 builtinTasks := hT₁.2.2.2 (Nat.succ_pos 0)
  have htick₂ : Step ⟨k₁, .idle⟩ .tick ⟨{ k₁ with sched := Scheduler.startTick k₁.sched }, .loop 0⟩ := .tick .tick
  have hI₂ := ((hI₁.run hrun₁).1.step htick₂).1
  obtain ⟨mid₂, k₂, hrun₂, hmid₂⟩ := hT₁.startTick.exists_run_loop (m := 5) hI₂ (by decide)
  have hT₂ := hT₁.startTick.within hrun₂ hmid₂
  have hcalls₂ : calls mid₂ = due 2 (builtinTasks.take 5) := hT₂.2.2.2.2.2
  rw [List.nil_append, hcalls₂] at hT₂
  refine ⟨_, k₂, (Run.cons htick₁ hrun₁).append (Run.cons htick₂ hrun₂), ?_, (hI₂.run hrun₂).1, hT₂⟩
  rw [calls_append, calls_cons, calls_cons, hcalls₁, hcalls₂]
  exact show .menuTick ∉ [] ++ due 1 builtinTasks ++ ([] ++ due 2 (builtinTasks.take 5)) by decide

/-- A key is pressed in the second tick. -/
theorem exists_run_capture (hboot : KernelMain k₀ boot k) :
    ∃ pre acts post u t, Run KeyStep ⟨k, .idle⟩ (pre ++ [(.ran 5 .menuTick acts, captureKey)]) u ∧
      Run KeyStep u post t ∧ t.control = .idle ∧ captures pre = 0 ∧ captures post = 0 := by
  obtain ⟨ls, k', hrun, hls, hI, hT⟩ := exists_run_menuSlot hboot
  -- `menu_tick` is due
  have hdue : Scheduler.Due k'.sched 5 := by
    have hlast := hT.2.2.1 5 _ rfl
    rw [if_neg (Nat.lt_irrefl 5)] at hlast
    exact (due_iff hT.1 rfl (by decide) hT.2.1 hlast).2 rfl
  have hfn : (k'.sched.taskTable 5).fn = some .menuTick :=
    congrArg Prod.fst (hT.1.of_some (i := 5) (by decide) rfl).2
  have hcall : Scheduler.Step ⟨k'.sched, .loop 5⟩ (.call 5 (some .menuTick))
      ⟨Scheduler.enterTask k'.sched 5, .body 5⟩ := hfn ▸ Scheduler.Step.call (by decide) hdue
  obtain ⟨e, he⟩ : ∃ e, menuTick captureKey ⟨0, 0, 0⟩ { k' with sched := Scheduler.enterTask k'.sched 5 } =
    some e := ⟨_, if_pos rfl⟩
  obtain ⟨acts, k₁, hperf⟩ := exists_performs e
  have hkey := KeyStep.menu hcall he hperf .ret
  have hstep := step_iff_keyStep.2 ⟨_, hkey⟩
  -- and the tick ends
  have hT₁ := Timed.step (s := ⟨k', .loop 5⟩) hT hstep
  obtain ⟨post, k₂, hpost, hmid⟩ := Timed.exists_run_end hT₁ (hI.step hstep).1
  have hcalls : calls post = [] := by
    have hall := (Timed.within (s := ⟨_, .loop 6⟩) hT₁ hpost hmid).2.2.2 (by decide)
    exact List.append_cancel_left (hall.trans rfl)
  refine ⟨_, acts, _, _, _, (keyRun_of_calls hrun hls).append (Run.cons hkey (Run.nil _)),
    keyRun_of_calls hpost (hcalls ▸ List.not_mem_nil), rfl, captures_map_zero ls, captures_map_zero post⟩

end Runs

/-- A key captures a snapshot in the second tick, and at its end both that one and the one of the start can be
restored. -/
theorem snapshots_last_secondTick : ∃ boot k pre acts post u t, KernelMain zeroState boot k ∧
    Run KeyStep ⟨k, .idle⟩ (pre ++ [(.ran 5 .menuTick acts, captureKey)]) u ∧ Run KeyStep u post t ∧
    t.control = .idle ∧ t.state.mirror.snapshots 2 = u.state.mirror.snapshots 2 ∧
    (∀ env, (Mirror.mirrorRestore 2 t.state.mirror env).1 = .ok) ∧
    ∀ env, (Mirror.mirrorRestore 1 t.state.mirror env).1 = .ok := by
  obtain ⟨boot, k, hboot⟩ := exists_kernelMain zeroState
  obtain ⟨pre, acts, post, u, t, hpre, hpost, hidle, hcap, hcap'⟩ := exists_run_capture hboot
  obtain ⟨⟨-, hfirst⟩, huser⟩ := snapshots_last hboot (hpre.append hpost)
  obtain ⟨hsame, hrestore⟩ := huser pre _ post u (List.append_cons pre _ post).symm hpre hpost
    (hcap' ▸ Nat.two_pos)
  rw [hcap] at hsame hrestore
  exact ⟨boot, k, pre, acts, post, u, t, hboot, hpre, hpost, hidle, hsame, hrestore, fun env => by rw [hfirst env]⟩

end AuraOS.Kernel.System
