import AuraOS.Kernel.Plugin.Rounds
import AuraOS.Kernel.Plugin.Table

/-!
# Faulty plugins

A plugin whose `init` or `tick` fails should be in the state `error`, and not be ticked again until it is
registered anew.  For `init` the manager does that, but after a failed `tick` it only counts the error: the
plugin stays active, and is ticked in the next round (`failingTick_again`).  `Contained` says when a step
does not get into this trouble, and `failures_isolated_iff` that these are the steps that isolate the
faulty plugins.
-/

namespace AuraOS.Kernel.Plugin

open AuraOS.Lib

variable {F : Type}

/-- The number of failures of every slot since its plugin was registered, after one more step. -/
def countFailure (a : Act F) (fs : ℕ → ℕ) : ℕ → ℕ :=
  match a with
  | .register _ _ _ _ (some j) => Function.update fs j 0
  | .ret .activate j r _ _ => if r ≠ .ok then Function.update fs j (fs j + 1) else fs
  | .tickRet j r => if r ≠ .ok then Function.update fs j (fs j + 1) else fs
  | _ => fs

/-- The system, and the failures so far. -/
structure Watched (F : Type) where
  sys : Sys F
  failures : ℕ → ℕ

def Watched.Step (w : Watched F) (a : Act F) (v : Watched F) : Prop :=
  Plugin.Step w.sys a v.sys ∧ v.failures = countFailure a w.failures

/-- The state after `plugin_manager_init`, without any failures. -/
def watch (p₀ : Plugins F) : Watched F := ⟨boot p₀, fun _ => 0⟩

/-- A plugin that has failed is in the state `error`. -/
def Quiet (w : Watched F) : Prop :=
  ∀ i, 0 < w.failures i → w.sys.plugins.state i ≠ .unloaded → w.sys.plugins.state i = .error

/-- The step leaves the plugins that have failed in the state `error`, and ticks none of them. -/
structure Isolated (w : Watched F) (a : Act F) (v : Watched F) : Prop where
  quiet : Quiet v
  tick : ∀ depth i f, a = .tick depth i f → w.failures i = 0

/-- No `tick` fails whose plugin is not in the state `error` already, and no operation finishes for a
plugin that has failed during its own callback. -/
def Contained (w : Watched F) : Act F → Prop
  | .ret .activate i r _ _ => r = .ok → w.failures i = 0
  | .ret .deactivate i _ _ _ => w.failures i = 0
  | .tickRet i r =>
    r = .ok ∨ w.sys.plugins.state i = .unloaded ∨ w.sys.plugins.state i = .error
  | _ => True

section Steps

variable {w v : Watched F} {s t : Sys F} {a : Act F} {acts : List (Act F)} {i j : ℕ} {fs : ℕ → ℕ}
  {o : Op} {r res : AuraStatus} {pubs : List (UInt8 × UInt32)}

/-! ### Counting failures -/

theorem countFailure_of_ne (h : a.slot ≠ some i) : countFailure a fs i = fs i := by
  have hne : ∀ {j}, some j ≠ some i → i ≠ j := fun h e => h (congrArg some e.symm)
  cases a with
  | register _ _ _ _ slot =>
    cases slot with
    | none => rfl
    | some j => exact Function.update_of_ne (hne h) _ _
  | ret o j r =>
    cases o with
    | activate =>
      by_cases hr : r = .ok
      · simp [countFailure, hr]
      · simp [countFailure, hr, hne h]
    | unregister => rfl
    | deactivate => rfl
  | tickRet j r =>
    by_cases hr : r = .ok
    · simp [countFailure, hr]
    · simp [countFailure, hr, hne h]
  | _ => rfl

@[simp] theorem countFailure_register {d : Option (PluginDesc F)} {now : UInt32} :
    countFailure (.register d now res pubs (some i)) fs i = 0 := Function.update_self _ _ _

@[simp] theorem countFailure_ret : countFailure (.ret o i r res pubs : Act F) fs i =
    if o = .activate ∧ r ≠ .ok then fs i + 1 else fs i := by
  cases o <;> by_cases hr : r = .ok <;> simp [countFailure, hr]

@[simp] theorem countFailure_tickRet : countFailure (.tickRet i r : Act F) fs i =
    if r ≠ .ok then fs i + 1 else fs i := by
  by_cases hr : r = .ok <;> simp [countFailure, hr]

theorem errorCount_finishSlot (slot : PluginSlot F) : (o.finishSlot r slot).errorCount =
    if o = .activate ∧ r ≠ .ok then slot.errorCount + 1 else slot.errorCount := by
  cases o <;> cases r <;> rfl

/-- The manager counts the failures. -/
def Counts (w : Watched F) : Prop :=
  ∀ i, (w.sys.plugins.pluginTable i).errorCount = UInt32.ofNat (w.failures i)

theorem Counts.step (hw : Counts w) (h : w.Step a v) : Counts v := by
  obtain ⟨hstep, hfail⟩ := h
  intro i
  rw [hfail]
  rcases hstep.slot_cases i with ⟨hne, e⟩ | htouch
  · rw [e, countFailure_of_ne hne]
    exact hw i
  · have hi := hw i
    generalize w.sys.plugins.pluginTable i = slot at htouch hi
    generalize v.sys.plugins.pluginTable i = slot' at htouch ⊢
    cases htouch with
    | register _ =>
      rw [countFailure_register]
      rfl
    | done _ _ =>
      rw [errorCount_finishSlot, if_neg (by simp)]
      exact hi
    | ret =>
      rw [errorCount_finishSlot, countFailure_ret, hi]
      split
      · rw [UInt32.ofNat_add]
        rfl
      · rfl
    | @tickRet r slot =>
      rw [countFailure_tickRet]
      unfold tickSlot
      dsimp only
      rw [hi]
      split
      · rw [UInt32.ofNat_add]
        rfl
      · rfl

/-! ### Isolation -/

theorem Quiet.of_step (hw : Quiet w) (h : w.Step a v) (hc : Contained w a) : Quiet v := by
  obtain ⟨hstep, hfail⟩ := h
  intro i
  rw [hfail]
  unfold Plugins.state
  rcases hstep.slot_cases i with ⟨hne, e⟩ | htouch
  · rw [e, countFailure_of_ne hne]
    exact hw i
  · have hi := hw i
    unfold Plugins.state at hi
    generalize hslot : w.sys.plugins.pluginTable i = slot at htouch hi
    generalize v.sys.plugins.pluginTable i = slot' at htouch ⊢
    cases htouch with
    | register _ =>
      rw [countFailure_register]
      exact fun hlt => absurd hlt (Nat.lt_irrefl 0)
    | @done o name pubs slot hne hready =>
      intro hlt
      have herror := hi hlt hne
      rw [Op.finishSlot_state]
      rcases hready with ⟨hstate, -⟩ | ⟨rfl, -⟩
      · rw [herror] at hstate
        cases o <;> cases hstate
      · exact fun hne => absurd rfl hne
    | @ret o r res pubs slot =>
      rw [countFailure_ret, Op.finishSlot_state]
      cases o with
      | unregister => exact fun _ hne => absurd rfl hne
      | activate =>
        by_cases hr : r = .ok
        · subst hr
          intro hlt
          rw [if_neg (by simp), hc rfl] at hlt
          exact absurd hlt (Nat.lt_irrefl 0)
        · exact fun _ _ => if_neg hr
      | deactivate =>
        intro hlt
        rw [if_neg (by simp), show w.failures i = 0 from hc] at hlt
        exact absurd hlt (Nat.lt_irrefl 0)
    | @tickRet r slot =>
      intro hlt hne
      rcases hc with rfl | hstate | hstate
      · exact hi (by simpa using hlt) hne
      · unfold Plugins.state at hstate
        rw [hslot] at hstate
        exact absurd hstate hne
      · unfold Plugins.state at hstate
        rw [hslot] at hstate
        exact hstate

theorem Quiet.not_due (hw : Quiet w) (hstate : w.sys.plugins.state i = .active) :
    w.failures i = 0 := by
  refine Nat.eq_zero_of_not_pos fun hlt => ?_
  have := hw i hlt (by rw [hstate]; exact nofun)
  rw [hstate] at this
  cases this

theorem Step.tick_state {depth : ℕ} {f : F} (h : Step s (.tick depth i f) t) :
    s.plugins.state i = .active := by
  cases h with
  | tick _ hstate _ => exact hstate

theorem Step.ret_state (h : Step s (.ret o i r res pubs) t) : t.plugins.state i = o.after r := by
  cases h
  rw [state_finish, if_pos rfl]

theorem Step.tickRet_state (h : Step s (.tickRet i r) t) :
    t.plugins.state i = s.plugins.state i := by
  cases h
  exact state_leaveTick

/-- A step that isolates the faulty plugins is contained. -/
theorem Isolated.contained (h : w.Step a v) (hi : Isolated w a v) : Contained w a := by
  obtain ⟨hstep, hfail⟩ := h
  have hquiet := hi.quiet
  cases a with
  | ret o i r res pubs =>
    cases o with
    | unregister => trivial
    | activate =>
      rintro rfl
      refine Nat.eq_zero_of_not_pos fun hlt => ?_
      have hstate := hstep.ret_state
      have := hquiet i (by simpa [hfail] using hlt) (by rw [hstate]; exact nofun)
      cases hstate.symm.trans this
    | deactivate =>
      refine Nat.eq_zero_of_not_pos fun hlt => ?_
      have hstate := hstep.ret_state
      have := hquiet i (by simpa [hfail] using hlt) (by rw [hstate]; exact nofun)
      cases hstate.symm.trans this
  | tickRet i r =>
    by_cases hr : r = .ok
    · exact Or.inl hr
    · refine Or.inr (or_iff_not_imp_left.2 fun hne => ?_)
      rw [← hstep.tickRet_state] at hne ⊢
      exact hquiet i (by simp [hfail, hr]) hne
  | _ => trivial

/-- **The step lemma**: the steps that isolate the faulty plugins. -/
theorem isolated_iff_contained (hw : Quiet w) (h : w.Step a v) :
    Isolated w a v ↔ Contained w a := by
  refine ⟨fun hi => hi.contained h, fun hc => ⟨hw.of_step h hc, ?_⟩⟩
  rintro depth i f rfl
  exact hw.not_due h.1.tick_state

/-! ### Runs -/

theorem quiet_watch (p₀ : Plugins F) : Quiet (watch p₀) := fun _ h => absurd h (Nat.lt_irrefl 0)

theorem counts_watch (p₀ : Plugins F) : Counts (watch p₀) := fun _ => rfl

/-- Every run of the manager can be watched. -/
theorem run_watched (hr : Run Step s acts t) (fs : ℕ → ℕ) : Run Watched.Step ⟨s, fs⟩ acts
    ⟨t, acts.foldl (fun fs a => countFailure a fs) fs⟩ := by
  induction hr generalizing fs with
  | nil s => exact Run.nil _
  | cons hstep _ ih => exact Run.cons ⟨hstep, rfl⟩ (ih _)

/-- **Faulty plugins are isolated** exactly as long as every step is contained.  In every run the
manager counts the failures, and in a round it ticks each plugin exactly once that is active at its begin
and that no operation makes inactive meanwhile. -/
theorem failures_isolated_iff (p₀ : Plugins F) :
    (Run (fun w a v => w.Step a v ∧ Isolated w a v) (watch p₀) acts w ↔
      Run (fun w a v => w.Step a v ∧ Contained w a) (watch p₀) acts w) ∧
    (Run Watched.Step (watch p₀) acts w →
      ∀ i, (w.sys.plugins.pluginTable i).errorCount = UInt32.ofNat (w.failures i)) ∧
    ∀ (s t : Sys F) (round : List (Act F)) (depth : ℕ), .tickEnd depth ∉ round →
      ∀ i < pluginMax, Due s.plugins i →
      Run (fun s a t => Step s a t ∧ (a.Ends i → Due t.plugins i)) s
        (.tickAll depth :: round ++ [.tickEnd depth]) t →
      round.countP (Act.ticks depth i) = 1 := by
  refine ⟨?_, fun hr => ?_, fun s t round depth hend i hi hdue => round_ticks_once hi hend hdue⟩
  · refine Run.congr (I := Quiet) (fun _ _ _ _ h => h.2.quiet) ?_ (quiet_watch p₀)
    exact fun w a v hw => and_congr_right fun h => isolated_iff_contained hw h
  · exact hr.invariant (I := Counts) (fun _ _ _ hw h => hw.step h) (counts_watch p₀)

/-- `A` is activated, and its `init` fails. -/
theorem failures_isolated_failedInit :
    let desc := namedDesc 65 (some 1) (some 2) none
    let acts : List (Act ℕ) :=
      [.register (some desc) 0 .ok [(topicPluginLoaded, 0)] (some 0), .call .activate (some [65]) 0 1,
        .ret .activate 0 .err .err []]
    Run (fun w a v => w.Step a v ∧ Isolated w a v) (watch zeroPlugins) acts
      ⟨⟨(finishActivate 0 .err (onePlugin desc)).plugins, []⟩,
        acts.foldl (fun fs a => countFailure a fs) fun _ => 0⟩ := by
  intro desc acts
  refine (failures_isolated_iff zeroPlugins).1.2 ?_
  exact Run.cons (t := ⟨⟨onePlugin desc, []⟩, _⟩) ⟨⟨Step.register (by trivial) rfl, rfl⟩, trivial⟩
    (Run.cons (t := ⟨⟨onePlugin desc, [.op .activate 0]⟩, _⟩)
      ⟨⟨Step.call (by trivial) rfl, rfl⟩, trivial⟩
      (Run.cons ⟨⟨Step.ret, rfl⟩, nofun⟩ (Run.nil _)))

/-- `A` has a `tick` only. -/
def tickDesc : PluginDesc ℕ := namedDesc 65 none (some 2) none

/-- The `tick` of `A` has failed, and is called again in the next round. -/
def failingTick : Sys ℕ := ⟨leaveTick 0 .err ((onePlugin tickDesc).setState 0 .active), [.ticking 0]⟩

def failingTickActs : List (Act ℕ) :=
  [.register (some tickDesc) 0 .ok [(topicPluginLoaded, 0)] (some 0),
    .done .activate (some [65]) (some 0) .ok [], .tickAll 0, .tick 0 0 2, .tickRet 0 .err] ++
  ((List.range' 1 15).map (.pass 0) ++ [.tickEnd 0, .tickAll 0, .tick 0 0 2])

theorem run_failingTick : Run Step (boot zeroPlugins) failingTickActs failingTick := by
  have hstart : Op.start .activate (some [65]) (onePlugin tickDesc) =
      .done (finishActivate 0 .ok (onePlugin tickDesc)) := rfl
  have hround : Run Step (boot zeroPlugins) _ ⟨failingTick.plugins, [.loop 1]⟩ :=
    Run.cons (Step.register (by trivial) rfl)
      (Run.cons (Step.done (by trivial) hstart)
        (Run.cons (Step.tickAll (by trivial))
          (Run.cons (Step.tick (by decide) rfl rfl) (Run.cons Step.tickRet (Run.nil _)))))
  have hdue : ∀ i < pluginMax, 1 ≤ i → ¬Due failingTick.plugins i := by decide
  refine hround.append ((run_pass 15 (by decide) fun i h1 h2 => hdue i h2 h1).append ?_)
  exact Run.cons Step.tickEnd (Run.cons (Step.tickAll (by trivial))
    (Run.cons (Step.tick (by decide) rfl rfl) (Run.nil _)))

/-- **After a failed `tick`** the plugin is active, and is ticked in the next round. -/
theorem failingTick_again : Run Step (boot zeroPlugins) failingTickActs failingTick ∧
    failingTick.plugins.state 0 = .active ∧ (failingTick.plugins.pluginTable 0).errorCount = 1 ∧
    ¬Run (fun w a v => w.Step a v ∧ Isolated w a v) (watch zeroPlugins) failingTickActs
      ⟨failingTick, failingTickActs.foldl (fun fs a => countFailure a fs) fun _ => 0⟩ := by
  refine ⟨run_failingTick, rfl, rfl, fun hr => ?_⟩
  have hquiet := hr.invariant (I := Quiet) (fun _ _ _ _ h => h.2.quiet) (quiet_watch zeroPlugins)
  cases hquiet 0 (by decide) (by decide)

end Steps

end AuraOS.Kernel.Plugin
