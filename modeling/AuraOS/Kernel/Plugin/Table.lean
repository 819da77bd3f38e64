import AuraOS.Kernel.Plugin.Slots
import AuraOS.Kernel.Strings
import AuraOS.Lib.Count

/-!
# The plugin table

The counter, the states of the slots and the names are kept by separate statements, on both sides of the
callbacks; they agree in every run in which a callback calls no operation on a plugin that has a callback
on the stack (`Proper`).  The invariant is `TableInv`, and `Waiting` says that nobody has touched the
plugins whose callbacks run; the result is `pluginTable_consistent`.
-/

namespace AuraOS.Kernel.Plugin

open AuraOS.Lib

variable {F : Type}

/-- Slot `i` holds a plugin. -/
def Plugins.inUse (p : Plugins F) (i : ℕ) : Bool := p.state i ≠ .unloaded

/-- The slot whose callback runs. -/
def Frame.slot : Frame → Option ℕ
  | op _ i => some i
  | loop _ => none
  | ticking i => some i

/-- No callback of slot `i` is on the stack. -/
def Idle (st : List Frame) (i : ℕ) : Prop := ∀ f ∈ st, f.slot ≠ some i

/-- The step calls no operation on a plugin that has a callback on the stack. -/
def Proper (s : Sys F) : Act F → Prop
  | .done _ name _ _ _ => ∀ i, pluginFind (name.map CStr.chr) s.plugins = some i → Idle s.stack i
  | .call _ name _ _ => ∀ i, pluginFind (name.map CStr.chr) s.plugins = some i → Idle s.stack i
  | _ => True

/-- The counter counts the plugins, and their names are pairwise different. -/
structure TableInv (p : Plugins F) : Prop where
  count : pluginCount p = Lib.count p.inUse pluginMax
  names : ∀ i < pluginMax, ∀ j < pluginMax, i ≠ j → p.inUse i = true → p.inUse j = true →
    strncmpK (p.desc i).name.rd (p.desc j).name.rd pluginNameLen ≠ 0

/-- The plugins whose callbacks run for an operation are in the state in which it called them, and no
two operations wait for the same plugin. -/
def Waiting (p : Plugins F) : List Frame → Prop
  | [] => True
  | .op o i :: st =>
    (i < pluginMax ∧ p.state i = o.during ∧ ∀ o', .op o' i ∉ st) ∧ Waiting p st
  | .loop _ :: st => Waiting p st
  | .ticking _ :: st => Waiting p st

section Invariant

variable {p q : Plugins F} {st : List Frame} {i j : ℕ} {o : Op} {r : AuraStatus}

theorem inUse_iff : p.inUse i = true ↔ p.state i ≠ .unloaded := decide_eq_true_iff

theorem inUse_eq_false_iff : p.inUse i = false ↔ p.state i = .unloaded := by
  simp [Plugins.inUse]

theorem strncmpK_ne_zero_symm {a b : ℕ → UInt8} {n : ℕ} (h : strncmpK a b n ≠ 0) :
    strncmpK b a n ≠ 0 := fun e =>
  h (strncmpK_eq_zero_iff.2 (strncmpK_eq_zero_iff.1 e).symm)

/-! ### The plugins that wait -/

theorem Waiting.mem (h : Waiting p st) (hmem : .op o i ∈ st) :
    i < pluginMax ∧ p.state i = o.during := by
  induction st with
  | nil => cases hmem
  | cons f st ih =>
    cases f with
    | op o' j =>
      rcases List.mem_cons.1 hmem with e | hmem
      · cases e
        exact ⟨h.1.1, h.1.2.1⟩
      · exact ih h.2 hmem
    | loop _ => exact ih h (by simpa using hmem)
    | ticking _ => exact ih h (by simpa using hmem)

theorem Waiting.congr (h : Waiting p st) (hst : ∀ o i, .op o i ∈ st → q.state i = p.state i) :
    Waiting q st := by
  induction st with
  | nil => trivial
  | cons f st ih =>
    have hrest : ∀ o i, .op o i ∈ st → q.state i = p.state i := fun o i hmem =>
      hst o i (List.mem_cons_of_mem _ hmem)
    cases f with
    | op o' j =>
      refine ⟨⟨h.1.1, ?_, h.1.2.2⟩, ih h.2 hrest⟩
      rw [hst o' j List.mem_cons_self]
      exact h.1.2.1
    | loop _ => exact ih h hrest
    | ticking _ => exact ih h hrest

theorem Idle.op_notMem (h : Idle st i) : .op o i ∉ st := fun hmem => h _ hmem rfl

/-! ### The table under a change of one slot -/

/-- The counter does not wrap around. -/
theorem TableInv.count_le (h : TableInv p) : pluginCount p ≤ pluginMax := by
  rw [h.count]
  exact Int.ofNat_le.2 (Lib.count_le p.inUse pluginMax)

theorem TableInv.pluginCount_add_one (h : TableInv p) (hq : q.pluginCountVal = p.pluginCountVal + 1) :
    pluginCount q = pluginCount p + 1 := by
  unfold pluginCount
  rw [hq]
  exact toInt_add_one (ne_maxValue_of_lt (Int.lt_add_one_of_le h.count_le) (by decide))

theorem TableInv.pluginCount_sub_one (h : TableInv p) (hq : q.pluginCountVal = p.pluginCountVal - 1) :
    pluginCount q = pluginCount p - 1 := by
  have hcount := h.count
  unfold pluginCount at hcount ⊢
  rw [hq]
  exact toInt_sub_one (ne_minValue_of_lt (n := 1) (by omega) (by decide))

/-- The states and the descriptors stay. -/
theorem TableInv.congr (h : TableInv p) (hstate : ∀ i, q.state i = p.state i)
    (hdesc : ∀ i, q.desc i = p.desc i) (hcount : q.pluginCountVal = p.pluginCountVal) :
    TableInv q := by
  have huse : q.inUse = p.inUse := by
    funext i
    unfold Plugins.inUse
    rw [hstate]
  refine ⟨by unfold pluginCount; rw [hcount, ← pluginCount, h.count, huse], ?_⟩
  simp only [huse, hdesc]
  exact h.names

/-- A plugin with a new name comes into a free slot. -/
theorem TableInv.register (h : TableInv p) {desc : PluginDesc F} {now : UInt32}
    (hfind : pluginFind (some desc.name.rd) p = none) (hfree : freeSlot p = some i)
    (hq : q.pluginTable = Function.update p.pluginTable i (freshSlot desc now))
    (hcount : q.pluginCountVal = p.pluginCountVal + 1) : TableInv q := by
  obtain ⟨hi, hstate⟩ := freeSlot_spec hfree
  have hself : q.inUse i = true ∧ q.desc i = desc := by
    rw [inUse_iff, state_update hq, desc_update hq, if_pos rfl, if_pos rfl]
    exact ⟨nofun, rfl⟩
  have hother : ∀ j, j ≠ i → q.inUse j = p.inUse j ∧ q.desc j = p.desc j := by
    intro j hji
    unfold Plugins.inUse
    rw [state_update hq, desc_update hq, if_neg hji, if_neg hji]
    exact ⟨rfl, rfl⟩
  have hne : ∀ j < pluginMax, j ≠ i → q.inUse j = true →
      strncmpK (q.desc j).name.rd desc.name.rd pluginNameLen ≠ 0 := by
    intro j hj hji huse
    rw [(hother j hji).2]
    rw [(hother j hji).1] at huse
    exact pluginFind_eq_none_iff.1 hfind j hj (inUse_iff.1 huse)
  constructor
  · rw [h.pluginCount_add_one hcount, h.count, count_insert hi (inUse_eq_false_iff.2 hstate) hself.1
      fun j _ hji => (hother j hji).1]
    simp
  · intro j hj k hk hjk hj' hk'
    by_cases hji : j = i
    · subst hji
      rw [hself.2]
      exact strncmpK_ne_zero_symm (hne k hk (Ne.symm hjk) hk')
    · by_cases hki : k = i
      · subst hki
        rw [hself.2]
        exact hne j hj hji hj'
      · obtain ⟨huj, hdj⟩ := hother j hji
        obtain ⟨huk, hdk⟩ := hother k hki
        rw [hdj, hdk]
        exact h.names j hj k hk hjk (huj ▸ hj') (huk ▸ hk')

/-- An operation finishes for a plugin. -/
theorem TableInv.finish (h : TableInv p) (hi : i < pluginMax) (huse : p.inUse i = true) :
    TableInv (o.finish i r p).plugins := by
  have hself : (o.finish i r p).plugins.inUse i = false ↔ o = .unregister := by
    rw [inUse_eq_false_iff, state_finish, if_pos rfl, Op.after_eq_unloaded_iff]
  have hother : ∀ j, j ≠ i → (o.finish i r p).plugins.inUse j = p.inUse j := by
    intro j hji
    unfold Plugins.inUse
    rw [state_finish, if_neg hji]
  have hle : ∀ j, (o.finish i r p).plugins.inUse j = true → p.inUse j = true := by
    intro j hj
    by_cases hji : j = i
    · rw [hji, huse]
    · rw [← hother j hji, hj]
  constructor
  · have hval := Op.finish_count (o := o) (i := i) (r := r) (p := p)
    by_cases ho : o = .unregister
    · have := count_erase hi huse (hself.2 ho) fun j _ hji => hother j hji
      rw [if_pos ho] at hval
      rw [h.pluginCount_sub_one hval, h.count]
      omega
    · have hkept : ∀ j < pluginMax, (o.finish i r p).plugins.inUse j = p.inUse j := by
        intro j _
        by_cases hji : j = i
        · rw [hji, huse]
          simpa using mt hself.1 ho
        · exact hother j hji
      rw [if_neg ho] at hval
      unfold pluginCount
      rw [hval, ← pluginCount, h.count, count_congr hkept]
  · intro j hj k hk hjk hj' hk'
    rw [desc_finish, desc_finish]
    exact h.names j hj k hk hjk (hle j hj') (hle k hk')

end Invariant

/-! ### Steps and runs -/

section Runs

variable {s t : Sys F} {a : Act F} {acts : List (Act F)} {i : ℕ}

/-- The invariant of the system. -/
def Inv (s : Sys F) : Prop := TableInv s.plugins ∧ Waiting s.plugins s.stack

theorem waiting_finish {p : Plugins F} {st : List Frame} {o : Op} {r : AuraStatus}
    (h : Waiting p st) (hnot : ∀ o', .op o' i ∉ st) : Waiting (o.finish i r p).plugins st := by
  refine h.congr fun o' j hmem => ?_
  rw [state_finish, if_neg]
  rintro rfl
  exact hnot o' hmem

/-- **The step lemma.** -/
theorem Inv.step (hs : Inv s) (h : Step s a t) (hp : Proper s a) : Inv t := by
  obtain ⟨htable, hwait⟩ := hs
  cases h with
  | @register p st desc now reply _ hreply =>
    subst hreply
    rcases pluginRegister_cases desc now p with ⟨-, e⟩ | ⟨d, j, rfl, hfind, hfree, e⟩
    · rw [e]
      exact ⟨htable, hwait⟩
    · rw [e]
      refine ⟨htable.register hfind hfree rfl rfl, hwait.congr fun o k hmem => ?_⟩
      rw [state_update (p := p) rfl, if_neg]
      rintro rfl
      exact Op.during_ne_unloaded ((hwait.mem hmem).2.symm.trans (freeSlot_spec hfree).2)
  | @done p st o name reply _ hstart =>
    rcases Op.start_done hstart with ⟨-, e⟩ | ⟨j, hfind, rfl, -⟩
    · rw [e]
      exact ⟨htable, hwait⟩
    · obtain ⟨hj, hstate⟩ := pluginFind_spec hfind
      exact ⟨htable.finish hj (inUse_iff.2 hstate),
        waiting_finish hwait fun o' => (hp j hfind).op_notMem⟩
  | @call p st o name j f _ hstart =>
    obtain ⟨hfind, hstate, -⟩ := Op.start_calls hstart
    exact ⟨htable, ⟨(pluginFind_spec hfind).1, hstate, fun o' => (hp j hfind).op_notMem⟩, hwait⟩
  | @ret p st o j r =>
    obtain ⟨⟨hj, hstate, hnot⟩, hrest⟩ := hwait
    have huse : p.inUse j = true := inUse_iff.2 (hstate ▸ Op.during_ne_unloaded)
    exact ⟨htable.finish hj huse, waiting_finish hrest hnot⟩
  | @tickRet p st j r =>
    have hrest : Waiting p st := hwait
    have hstate : ∀ k, (leaveTick j r p).state k = p.state k := fun k => state_leaveTick
    exact ⟨htable.congr hstate (fun k => desc_leaveTick) rfl, hrest.congr fun _ k _ => hstate k⟩
  | tickAll _ => exact ⟨htable, hwait⟩
  | pass _ _ => exact ⟨htable, hwait⟩
  | tick _ _ _ => exact ⟨htable, hwait⟩
  | tickEnd => exact ⟨htable, hwait⟩

theorem inv_boot (p₀ : Plugins F) : Inv (boot p₀) := by
  have hunused : ∀ i, (pluginManagerInit p₀).inUse i = false := fun i => rfl
  refine ⟨⟨?_, fun i _ j _ _ huse => ?_⟩, trivial⟩
  · have : Lib.count (pluginManagerInit p₀).inUse pluginMax = Lib.count (fun _ => false) pluginMax :=
      count_congr fun i _ => hunused i
    change (0 : Int) = Lib.count (pluginManagerInit p₀).inUse pluginMax
    rw [this]
    rfl
  · cases (hunused i).symm.trans huse

theorem Inv.run (hr : Run (fun s a t => Step s a t ∧ Proper s a) s acts t) (hs : Inv s) : Inv t :=
  hr.invariant (fun _ _ _ h hstep => h.step hstep.1 hstep.2) hs

/-- When `plugin_register` succeeds, and what it changes. -/
theorem TableInv.pluginRegister_iff {p : Plugins F} (h : TableInv p) (desc : Option (PluginDesc F))
    (now : UInt32) :
    ((pluginRegister desc now p).status = .ok ↔ ∃ d, desc = some d ∧
      (∀ i < pluginMax, p.state i ≠ .unloaded →
        strncmpK (p.desc i).name.rd d.name.rd pluginNameLen ≠ 0) ∧
      ∃ i < pluginMax, p.state i = .unloaded) := by
  constructor
  · intro hok
    rcases pluginRegister_cases desc now p with ⟨hne, -⟩ | ⟨d, j, rfl, hfind, hfree, -⟩
    · exact absurd hok hne
    · exact ⟨d, rfl, pluginFind_eq_none_iff.1 hfind, j, freeSlot_spec hfree⟩
  · rintro ⟨d, rfl, hnames, i, hi, hstate⟩
    have hfind := pluginFind_eq_none_iff.2 hnames
    have hroom : ¬(pluginMax : Int) ≤ p.pluginCountVal.toInt := by
      intro hfull
      have hle := Lib.count_le p.inUse pluginMax
      have hcount : p.pluginCountVal.toInt = _ := h.count
      have huse := count_eq_iff.1 (show Lib.count p.inUse pluginMax = pluginMax by omega) i hi
      exact inUse_iff.1 huse hstate
    have hfree : ∃ j, freeSlot p = some j := by
      refine Option.ne_none_iff_exists'.1 fun hnone => ?_
      have := first_eq_none_iff.1 hnone i (Nat.zero_le i) (by omega)
      simp [hstate] at this
    obtain ⟨j, hfree⟩ := hfree
    unfold pluginRegister
    dsimp only
    rw [if_neg hroom, hfind, hfree]
    rfl

/-- **The plugin table** in every run in which a callback calls no operation on a plugin that has a
callback on the stack. -/
theorem pluginTable_consistent {p₀ : Plugins F}
    (hr : Run (fun s a t => Step s a t ∧ Proper s a) (boot p₀) acts s) :
    pluginCount s.plugins = Lib.count (fun i => s.plugins.state i ≠ .unloaded) pluginMax ∧
    (∀ i < pluginMax, ∀ j < pluginMax, i ≠ j → s.plugins.state i ≠ .unloaded →
      s.plugins.state j ≠ .unloaded →
      strncmpK (s.plugins.desc i).name.rd (s.plugins.desc j).name.rd pluginNameLen ≠ 0) ∧
    ∀ (desc : Option (PluginDesc F)) (now : UInt32),
      ((pluginRegister desc now s.plugins).status = .ok ↔ ∃ d, desc = some d ∧
        (∀ i < pluginMax, s.plugins.state i ≠ .unloaded →
          strncmpK (s.plugins.desc i).name.rd d.name.rd pluginNameLen ≠ 0) ∧
        ∃ i < pluginMax, s.plugins.state i = .unloaded) ∧
      ((pluginRegister desc now s.plugins).status = .ok → ∃ d, ∃ j < pluginMax, desc = some d ∧
        s.plugins.state j = .unloaded ∧
        (pluginRegister desc now s.plugins).plugins.pluginTable j = freshSlot d now ∧
        (∀ i, i ≠ j → (pluginRegister desc now s.plugins).plugins.pluginTable i =
          s.plugins.pluginTable i) ∧
        pluginCount (pluginRegister desc now s.plugins).plugins = pluginCount s.plugins + 1) ∧
      ((pluginRegister desc now s.plugins).status ≠ .ok →
        (pluginRegister desc now s.plugins).plugins = s.plugins) := by
  obtain ⟨htable, -⟩ := Inv.run hr (inv_boot p₀)
  refine ⟨htable.count, ?_, fun desc now => ⟨htable.pluginRegister_iff desc now, ?_⟩⟩
  · exact fun i hi j hj hij hi' hj' =>
      htable.names i hi j hj hij (inUse_iff.2 hi') (inUse_iff.2 hj')
  · rcases pluginRegister_cases desc now s.plugins with ⟨hne, e⟩ | ⟨d, j, hd, -, hfree, e⟩
    · exact ⟨fun hok => absurd hok hne, fun _ => e⟩
    · rw [e]
      obtain ⟨hj, hstate⟩ := freeSlot_spec hfree
      exact ⟨fun _ => ⟨d, j, hj, hd, hstate, Function.update_self _ _ _,
        fun i hij => Function.update_of_ne hij _ _, htable.pluginCount_add_one rfl⟩,
        fun hne => absurd rfl hne⟩

/-- The table before `plugin_manager_init`. -/
def zeroPlugins : Plugins ℕ := ⟨fun _ => ⟨⟨.tab _ fun _ => 0, none, none, none⟩, .unloaded, 0, 0, 0⟩, 0⟩

/-- The descriptor of a plugin whose name is the character `c`. -/
def namedDesc (c : UInt8) (init tick shutdown : Option ℕ) : PluginDesc ℕ :=
  ⟨.tab _ fun i => if i = 0 then c else 0, init, tick, shutdown⟩

/-- One plugin is registered. -/
def onePlugin (desc : PluginDesc ℕ) : Plugins ℕ :=
  (pluginRegister (some desc) 0 (pluginManagerInit zeroPlugins)).plugins

/-- The plugin `A` registers `B` while it is initialised. -/
def twoPlugins : Sys ℕ :=
  ⟨(pluginRegister (some (namedDesc 66 none none none)) 0
    (onePlugin (namedDesc 65 (some 1) none none))).plugins, [.op .activate 0]⟩

theorem run_twoPlugins : Run (fun s a t => Step s a t ∧ Proper s a) (boot zeroPlugins)
    [.register (some (namedDesc 65 (some 1) none none)) 0 .ok [(topicPluginLoaded, 0)] (some 0),
      .call .activate (some [65]) 0 1,
      .register (some (namedDesc 66 none none none)) 0 .ok [(topicPluginLoaded, 1)] (some 1)]
    twoPlugins :=
  Run.cons ⟨Step.register (by trivial) rfl, trivial⟩
    (Run.cons ⟨Step.call (by trivial) rfl, fun _ _ => nofun⟩
      (Run.cons ⟨Step.register (by trivial) rfl, trivial⟩ (Run.nil _)))

/-- While `A` is being initialised, there is room for `C`, and none for another `B`. -/
theorem pluginTable_consistent_twoPlugins :
    pluginCount twoPlugins.plugins =
      Lib.count (fun i => twoPlugins.plugins.state i ≠ .unloaded) pluginMax ∧
    (pluginRegister (some (namedDesc 66 none none none)) 0 twoPlugins.plugins).plugins = twoPlugins.plugins ∧
    pluginCount (pluginRegister (some (namedDesc 67 none none none)) 0 twoPlugins.plugins).plugins =
      pluginCount twoPlugins.plugins + 1 := by
  obtain ⟨hcount, -, hreg⟩ := pluginTable_consistent run_twoPlugins
  obtain ⟨d, j, -, -, -, -, -, hmore⟩ := (hreg (some (namedDesc 67 none none none)) 0).2.1 (by decide)
  exact ⟨hcount, (hreg (some (namedDesc 66 none none none)) 0).2.2 (by decide), hmore⟩

end Runs

end AuraOS.Kernel.Plugin
