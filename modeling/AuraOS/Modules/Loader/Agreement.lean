import AuraOS.Modules.Loader.Defs

/-!
# The loader and the plugin manager

The flags of the registry say which modules have a plugin, as long as no flag is cleared while it is set:
neither `loader_unload` nor `loader_init` tells the plugin manager (`runLoader_agrees_iff`).  Loading is a run
of the plugin manager (`install_run`), so what is known about its table holds here too.
-/

namespace AuraOS.Modules

open AuraOS.Lib AuraOS.Kernel AuraOS.Kernel.Plugin

/-- A plugin with the name of the module is registered. -/
def Registered (m : Module) (p : Plugins Fn) : Prop := ∃ i, pluginFind (some m.name.chr) p = some i

/-- It is also active. -/
def Running (m : Module) (p : Plugins Fn) : Prop :=
  ∃ i, pluginFind (some m.name.chr) p = some i ∧ p.state i = .active

/-- The flags say which modules are registered. -/
def Agrees (s : Loader) : Prop := ∀ m, s.loaded m = true ↔ Registered m s.plugins

/-- If the call loads a module, then it returns `0` and the plugin is active. -/
def Loads (a : Act) (t : Loader) : Prop :=
  ∀ name res m, a = .load name res → findModule name = some m → res = 0 ∧ Running m t.plugins

/-- The call clears no flag that is set. -/
def Sound (s : Loader) : Act → Prop
  | .init => ∀ m, s.loaded m = false
  | .unload name _ => ∀ m, findModule name = some m → s.loaded m = false
  | _ => True

/-- The state before the first call: the static flags are zero. -/
def start (p : Plugins Fn) : Loader := ⟨fun _ => false, p⟩

/-- The plugin manager has room for the modules, and none of them is registered. -/
structure Ready (p : Plugins Fn) : Prop where
  table : TableInv p
  absent : ∀ m, ¬Registered m p
  room : count p.inUse pluginMax + 2 ≤ pluginMax

/-- What holds as long as no flag that is set is cleared. -/
structure Inv (s : Loader) : Prop where
  table : TableInv s.plugins
  running : ∀ m, s.loaded m = true → Running m s.plugins
  absent : ∀ m, s.loaded m = false → ¬Registered m s.plugins
  room : count s.plugins.inUse pluginMax + moduleRegistry.countP (fun m => !s.loaded m) ≤ pluginMax

/-! ### Installing a plugin -/

section Install

variable {p q : Plugins Fn} {name : CStr} {desc : PluginDesc Fn}
  {i j : ℕ} {m m' : Module}

/-- The name in the descriptor is the name. -/
theorem chars_pluginDesc {x y z : Option Fn} :
    chars (pluginDesc name x y z).name.rd 0 pluginNameLen = chars name.chr 0 pluginNameLen := by
  have key : ∀ n k, k + n ≤ pluginNameLen →
      chars (Buf.tab pluginNameLen name.chr).rd k n = chars name.chr k n := by
    intro n
    induction n with
    | zero => exact fun _ _ => rfl
    | succ n ih =>
      intro k hk
      unfold chars
      rw [Buf.rd_tab _ (by omega), ih (k + 1) (by omega)]
  exact key pluginNameLen 0 (Nat.le_refl _)

/-- **Installing is a run of the plugin manager.** -/
theorem install_run (name : CStr) (desc : PluginDesc Fn) (now : UInt32) (p : Plugins Fn) :
    ∃ acts, Run (fun s a t => Plugin.Step s a t ∧ Proper s a) ⟨p, []⟩ acts
      ⟨(install name desc now p).plugins, []⟩ := by
  have hreg : Plugin.Step ⟨p, []⟩ _ ⟨(pluginRegister (some desc) now p).plugins, []⟩ :=
    Plugin.Step.register (by trivial) rfl
  have hidle : ∀ i, Idle [] i := fun i => nofun
  unfold install
  dsimp only
  split
  · unfold activate
    cases hstart : pluginActivate (some name) (pluginRegister (some desc) now p).plugins with
    | done reply =>
      exact ⟨_, Run.cons ⟨hreg, trivial⟩ (Run.cons
        ⟨Plugin.Step.done (o := .activate) (by trivial) hstart, fun i _ => hidle i⟩ (Run.nil _))⟩
    | calls i f =>
      exact ⟨_, Run.cons ⟨hreg, trivial⟩ (Run.cons
        ⟨Plugin.Step.call (o := .activate) (by trivial) hstart, fun i _ => hidle i⟩ (Run.cons
          ⟨Plugin.Step.ret (r := f.1.init), trivial⟩ (Run.nil _)))⟩
  · exact ⟨_, Run.cons ⟨hreg, trivial⟩ (Run.nil _)⟩

theorem tableInv_install (h : TableInv p) (now : UInt32) : TableInv (install name desc now p).plugins := by
  obtain ⟨acts, hr⟩ := install_run name desc now p
  exact (Plugin.Inv.run hr ⟨h, trivial⟩).1

/-- **Installing a plugin with a new name**, when there is a free slot. -/
theorem install_spec (h : TableInv p) (now : UInt32) {b : Builtin}
    (hname : chars desc.name.rd 0 pluginNameLen = chars name.chr 0 pluginNameLen)
    (hinit : desc.init = some (b, .init)) (hnone : pluginFind (some name.chr) p = none)
    (hfree : freeSlot p = some i) : install name desc now p =
      ⟨.ok, [(topicPluginLoaded, UInt32.ofNat i)],
        { p.setSlot i { freshSlot desc now with state := .active } with
          pluginCountVal := p.pluginCountVal + 1 }⟩ := by
  obtain ⟨hi, hstate⟩ := freeSlot_spec hfree
  have hok : (pluginRegister (some desc) now p).status = .ok := by
    refine (h.pluginRegister_iff (some desc) now).2 ⟨_, rfl, fun k hk hk' => ?_, i, hi, hstate⟩
    rw [Ne, strncmpK_eq_zero_iff, hname, ← strncmpK_eq_zero_iff]
    exact pluginFind_eq_none_iff.1 hnone k hk hk'
  rcases pluginRegister_cases (some desc) now p with ⟨hne, -⟩ | ⟨d, j, hd, -, hfree', e⟩
  · exact absurd hok hne
  cases hd
  cases hfree.symm.trans hfree'
  obtain ⟨q, hq⟩ : ∃ q, q = { p.setSlot i (freshSlot desc now) with
    pluginCountVal := p.pluginCountVal + 1 } := ⟨_, rfl⟩
  have htable : q.pluginTable = Function.update p.pluginTable i (freshSlot desc now) := by
    rw [hq]
    rfl
  have hact : activate name q = finishActivate i .ok q := by
    unfold activate
    rw [pluginActivate_fresh hi hstate htable (strncmpK_eq_zero_iff.2 hname) hnone hinit]
    cases b <;> rfl
  have hslot : finishActivate i .ok q = ⟨.ok, [], q.setState i .active⟩ := if_neg (not_not.2 rfl)
  unfold install
  dsimp only
  rw [e, if_pos rfl, ← hq, hact, hslot, hq]
  unfold Plugins.setState Plugins.setSlot
  simp

theorem exists_freeSlot (h : count p.inUse pluginMax < pluginMax) : ∃ i, freeSlot p = some i := by
  refine Option.ne_none_iff_exists'.1 fun hnone => ?_
  have hall : ∀ i < pluginMax, p.inUse i = true := fun i hi => by
    have := first_eq_none_iff.1 hnone i (Nat.zero_le i) (by omega)
    simpa [Plugins.inUse] using this
  exact absurd (count_eq_iff.2 hall) (by omega)

theorem Module.load_eq (m : Module) : ∃ desc b,
    chars desc.name.rd 0 pluginNameLen = chars m.name.chr 0 pluginNameLen ∧
      desc.init = some (b, Callback.init) ∧ m.load = modLoad m.name desc := by
  cases m with
  | hello => exact ⟨helloDesc, .hello, chars_pluginDesc, rfl, rfl⟩
  | auraCore => exact ⟨auraCoreDesc, .auraCore, chars_pluginDesc, rfl, rfl⟩

theorem chars_name_inj (h : chars m.name.chr 0 pluginNameLen = chars m'.name.chr 0 pluginNameLen) :
    m = m' := by
  cases m <;> cases m' <;> first | rfl | exact absurd h (by decide)

/-- **Loading a module that is not registered.** -/
theorem load_spec (h : TableInv p) (now : UInt32) (hm : ¬Registered m p) (hroom : count p.inUse pluginMax < pluginMax) :
    (m.load now p).1 = 0 ∧ Running m (m.load now p).2.plugins ∧ TableInv (m.load now p).2.plugins ∧
      count (m.load now p).2.plugins.inUse pluginMax = count p.inUse pluginMax + 1 ∧
      ∀ m' ≠ m, (Registered m' (m.load now p).2.plugins ↔ Registered m' p) ∧
        (Running m' p → Running m' (m.load now p).2.plugins) := by
  obtain ⟨desc, b, hname, hinit, e⟩ := m.load_eq
  obtain ⟨i, hfree⟩ := exists_freeSlot hroom
  obtain ⟨hi, hstate⟩ := freeSlot_spec hfree
  have hnone : pluginFind (some m.name.chr) p = none :=
    Option.eq_none_iff_forall_ne_some.2 fun j hj => hm ⟨j, hj⟩
  have hspec := install_spec h now hname hinit hnone hfree
  have htable : TableInv (m.load now p).2.plugins := by
    rw [e]
    exact tableInv_install h now
  obtain ⟨q, hq⟩ : ∃ q, q = (m.load now p).2.plugins := ⟨_, rfl⟩
  have hres : (m.load now p).1 = 0 := by
    rw [e]
    unfold modLoad
    rw [hspec]
    rfl
  have hupd : q.pluginTable = Function.update p.pluginTable i
      { freshSlot desc now with state := .active } := by
    rw [hq, e]
    unfold modLoad
    rw [hspec]
    rfl
  have hcount : q.pluginCountVal = p.pluginCountVal + 1 := by
    rw [hq, e]
    unfold modLoad
    rw [hspec]
  rw [← hq] at htable ⊢
  have hstateq : ∀ j, q.state j = if j = i then .active else p.state j := fun j => state_update hupd
  refine ⟨hres, ⟨i, ?_, by rw [hstateq, if_pos rfl]⟩, htable, ?_, fun m' hne => ?_⟩
  · exact (pluginFind_fresh hi hstate hupd nofun).1 (strncmpK_eq_zero_iff.2 hname) hnone
  · have h₁ := h.count
    have h₂ := htable.count
    rw [h.pluginCount_add_one hcount] at h₂
    omega
  · have hfind : pluginFind (some m'.name.chr) q = pluginFind (some m'.name.chr) p := by
      refine (pluginFind_fresh hi hstate hupd nofun).2 fun heq => hne ?_
      exact (chars_name_inj (hname.symm.trans (strncmpK_eq_zero_iff.1 heq))).symm
    unfold Registered Running
    rw [hfind]
    refine ⟨Iff.rfl, fun ⟨j, hj, hactive⟩ => ⟨j, hj, ?_⟩⟩
    rw [hstateq]
    split
    · rfl
    · exact hactive

end Install

/-! ### Runs -/

section Runs

variable {s t : Loader} {p : Plugins Fn} {name : CStr} {now : UInt32} {m : Module} {a : Act}

theorem Running.registered (h : Running m p) : Registered m p := h.imp fun _ h => h.1

theorem findModule_name (m : Module) : findModule m.name = some m := by
  cases m <;> decide

theorem Inv.agrees (h : Inv s) : Agrees s := by
  intro m
  refine ⟨fun hm => (h.running m hm).registered, fun hm => ?_⟩
  by_contra hne
  exact h.absent m (Bool.eq_false_iff.2 hne) hm

/-- The number of the modules that are not loaded. -/
theorem countP_update (h : s.loaded m = false) :
    moduleRegistry.countP (fun m' => !Function.update s.loaded m true m') + 1 =
      moduleRegistry.countP fun m' => !s.loaded m' := by
  have hcons : ∀ f : Module → Bool, moduleRegistry.countP f = (f .hello).toNat + (f .auraCore).toNat :=
    fun f => by
      unfold moduleRegistry
      cases h₁ : f .hello <;> cases h₂ : f .auraCore <;> simp [h₁, h₂]
  rw [hcons, hcons]
  cases m with
  | hello => simp [h]; omega
  | auraCore => simp [h]

/-- **The step lemma of `loader_load`.** -/
theorem Inv.load (h : Inv s) (hm : findModule name = some m) :
    (loaderLoad name now s).1 = 0 ∧ Running m (loaderLoad name now s).2.2.plugins ∧
      Inv (loaderLoad name now s).2.2 := by
  unfold loaderLoad
  rw [hm]
  dsimp only
  by_cases hloaded : s.loaded m = true
  · rw [if_pos hloaded]
    exact ⟨rfl, h.running m hloaded, h⟩
  · rw [if_neg hloaded]
    have hfalse := Bool.eq_false_iff.2 hloaded
    have hcount := countP_update hfalse
    have hroom := h.room
    obtain ⟨hres, hrun, htable, hcount', hother⟩ := load_spec h.table now (h.absent m hfalse)
      (by omega)
    dsimp only
    rw [hres, if_pos rfl]
    refine ⟨rfl, hrun, htable, fun m' hm' => ?_, fun m' hm' => ?_, by dsimp only; omega⟩
    · dsimp only at hm'
      by_cases hne : m' = m
      · exact hne ▸ hrun
      · rw [Function.update_of_ne hne] at hm'
        exact (hother m' hne).2 (h.running m' hm')
    · dsimp only at hm'
      by_cases hne : m' = m
      · rw [hne, Function.update_self] at hm'
        cases hm'
      · rw [Function.update_of_ne hne] at hm'
        exact fun hreg => h.absent m' hm' ((hother m' hne).1.1 hreg)

theorem Inv.loadAllLoop (now : Module → UInt32) (ms : List Module) (h : Inv s) :
    Inv (loadAllLoop now ms s).2 := by
  induction ms generalizing s with
  | nil => exact h
  | cons m ms ih =>
    unfold Modules.loadAllLoop
    split
    · exact ih h
    · exact ih (h.load (findModule_name m)).2.2

/-- The flags that are cleared are not set. -/
theorem update_eq_self (h : s.loaded m = false) : Function.update s.loaded m false = s.loaded := by
  rw [← h]
  exact Function.update_eq_self m s.loaded

/-- **The step lemma.** -/
theorem Inv.step (h : Inv s) (hstep : Step s a t) (hs : Sound s a) : Inv t := by
  cases hstep with
  | init =>
    have hflags : s.loaded = fun _ => false := funext hs
    unfold loaderInit
    rwa [← hflags]
  | @load name now =>
    cases hm : findModule name with
    | some m => exact (h.load hm).2.2
    | none =>
      unfold loaderLoad
      rwa [hm]
  | @unload name =>
    unfold loaderUnload
    cases hm : findModule name with
    | some m =>
      dsimp only
      rwa [update_eq_self (hs m hm)]
    | none => exact h
  | loadAll => exact h.loadAllLoop _ _

/-- Loading a module works. -/
theorem Inv.loads (h : Inv s) (hstep : Step s a t) : Loads a t := by
  rintro name res m rfl hm
  cases hstep
  exact ⟨(h.load hm).1, (h.load hm).2.1⟩

/-- The flag of a module that is registered must not be cleared. -/
theorem Inv.sound (h : Inv s) (hstep : Step s a t) (ht : Agrees t) : Sound s a := by
  cases hstep with
  | init =>
    refine fun m => Bool.eq_false_iff.2 fun hm => ?_
    cases (ht m).2 (h.running m hm).registered
  | @unload name =>
    refine fun m hm => Bool.eq_false_iff.2 fun hloaded => ?_
    unfold loaderUnload at ht
    rw [hm] at ht
    have hset := (ht m).2 (h.running m hloaded).registered
    dsimp only at hset
    rw [Function.update_self] at hset
    cases hset
  | load => trivial
  | loadAll => trivial

theorem Ready.inv (h : Ready p) : Inv (start p) :=
  ⟨h.table, nofun, fun m _ => h.absent m, h.room⟩

/-- **The loader agrees with the plugin manager** after every call, and loading a module always makes its
plugin active, exactly in the runs in which no flag that is set is cleared. -/
theorem runLoader_agrees_iff (hp : Ready p) {acts : List Act} :
    Run (fun s a t => Step s a t ∧ Agrees t ∧ Loads a t) (start p) acts t ↔
      Run (fun s a t => Step s a t ∧ Sound s a) (start p) acts t := by
  refine (Run.congr (I := Inv) ?_ ?_ hp.inv).symm
  · exact fun s a t h hstep => h.step hstep.1 hstep.2
  · refine fun s a t h => ⟨fun ⟨hstep, hs⟩ => ⟨hstep, (h.step hstep hs).agrees, h.loads hstep⟩, ?_⟩
    exact fun ⟨hstep, hagrees, _⟩ => ⟨hstep, h.sound hstep hagrees⟩

/-- After `plugin_manager_init` the plugin manager is ready. -/
theorem ready_init (p₀ : Plugins Fn) : Ready (pluginManagerInit p₀) := by
  have hnone : ∀ i, (pluginManagerInit p₀).inUse i = false := fun i => rfl
  refine ⟨(inv_boot p₀).1, fun m ⟨i, hi⟩ => (pluginFind_spec hi).2 rfl, ?_⟩
  rw [count_congr (p := fun _ => false) fun i _ => hnone i]
  decide

/-- A table without plugins. -/
def noPlugins : Plugins Fn := ⟨fun _ => ⟨pluginDesc [] none none none, .unloaded, 0, 0, 0⟩, 0⟩

/-- The calls of `kernel_main`. -/
theorem runLoader_agrees_boot : ∃ t, Run (fun s a t => Step s a t ∧ Agrees t ∧ Loads a t)
    (start (pluginManagerInit noPlugins)) [.init, .loadAll] t :=
  ⟨_, (runLoader_agrees_iff (ready_init noPlugins)).2 (Run.cons ⟨Step.init, fun _ => rfl⟩
    (Run.cons ⟨@Step.loadAll _ fun _ => 0, trivial⟩ (Run.nil _)))⟩

/-- The module `hello` is loaded and unloaded. -/
def unloaded : Loader :=
  (loaderUnload helloName (loaderLoad helloName 0 (start (pluginManagerInit noPlugins))).2.2).2

/-- **A module that was unloaded** is still registered, and cannot be loaded again. -/
theorem unloaded_not_agrees : Run Step (start (pluginManagerInit noPlugins))
      [.load helloName 0, .unload helloName 0] unloaded ∧
    unloaded.loaded .hello = false ∧ Registered .hello unloaded.plugins ∧ ¬Agrees unloaded ∧
    (loaderLoad helloName 0 unloaded).1 = -1 := by
  have hflag : unloaded.loaded .hello = false := by decide
  have hreg : Registered .hello unloaded.plugins := ⟨0, by decide⟩
  refine ⟨?_, hflag, hreg, fun h => ?_, by decide⟩
  · exact Run.cons (@Step.load _ helloName 0) (Run.cons Step.unload (Run.nil _))
  · exact Bool.false_ne_true (hflag.symm.trans ((h .hello).2 hreg))

end Runs

end AuraOS.Modules
