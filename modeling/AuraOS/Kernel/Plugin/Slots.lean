import AuraOS.Kernel.Plugin.Defs

/-!
# What the operations do to a slot

Every operation changes one slot at most.  `pluginRegister_cases`, `Op.start_calls`, `Op.start_done` and
`Op.finish_table` say what each of them does, and `Step.slot_cases` what a step of the system does to one
slot.
-/

namespace AuraOS.Kernel.Plugin

open AuraOS.Lib

/-- The callbacks of a plugin. -/
inductive Callback where
  | init | tick | shutdown
  deriving DecidableEq, Repr

variable {F : Type}

def PluginDesc.callback (desc : PluginDesc F) : Callback → Option F
  | .init => desc.init
  | .tick => desc.tick
  | .shutdown => desc.shutdown

/-- The callback that the operation calls. -/
def Op.callback : Op → Callback
  | activate => .init
  | unregister | deactivate => .shutdown

/-- The state of the plugin whose callback the operation calls. -/
def Op.during : Op → PluginState
  | activate => .loaded
  | unregister | deactivate => .active

/-- What the operation makes of the slot of its plugin. -/
def Op.finishSlot : Op → AuraStatus → PluginSlot F → PluginSlot F
  | unregister, _, slot => { slot with state := .unloaded }
  | activate, r, slot =>
    if r ≠ .ok then { slot with state := .error, errorCount := slot.errorCount + 1 }
    else { slot with state := .active }
  | deactivate, _, slot => { slot with state := .loaded }

/-- The state in which the operation leaves its plugin. -/
def Op.after : Op → AuraStatus → PluginState
  | unregister, _ => .unloaded
  | activate, r => if r = .ok then .active else .error
  | deactivate, _ => .loaded

/-- What `plugin_tick_all` makes of a slot whose `tick` returned `r`. -/
def tickSlot (r : AuraStatus) (slot : PluginSlot F) : PluginSlot F :=
  { slot with
    tickCount := slot.tickCount + 1
    errorCount := if r ≠ .ok then slot.errorCount + 1 else slot.errorCount }

section Slots

variable {p q : Plugins F} {i j : ℕ} {o : Op} {r : AuraStatus} {a : ℕ → UInt8}
  {slot : PluginSlot F}

theorem state_update (hq : q.pluginTable = Function.update p.pluginTable i slot) :
    q.state j = if j = i then slot.state else p.state j := by
  unfold Plugins.state
  rw [hq]
  by_cases hij : j = i
  · rw [hij, Function.update_self, if_pos rfl]
  · rw [Function.update_of_ne hij, if_neg hij]

theorem desc_update (hq : q.pluginTable = Function.update p.pluginTable i slot) :
    q.desc j = if j = i then slot.desc else p.desc j := by
  unfold Plugins.desc
  rw [hq]
  by_cases hij : j = i
  · rw [hij, Function.update_self, if_pos rfl]
  · rw [Function.update_of_ne hij, if_neg hij]

theorem Op.during_ne_unloaded : o.during ≠ .unloaded := by
  cases o <;> exact nofun

theorem Op.after_eq_unloaded_iff : o.after r = .unloaded ↔ o = .unregister := by
  cases o <;> cases r <;> simp [after]

@[simp] theorem Op.finishSlot_desc : (o.finishSlot r slot).desc = slot.desc := by
  cases o <;> cases r <;> rfl

@[simp] theorem Op.finishSlot_state : (o.finishSlot r slot).state = o.after r := by
  cases o <;> cases r <;> rfl

@[simp] theorem Op.finish_table : (o.finish i r p).plugins.pluginTable =
    Function.update p.pluginTable i (o.finishSlot r (p.pluginTable i)) := by
  cases o <;> cases r <;> rfl

@[simp] theorem Op.finish_count : (o.finish i r p).plugins.pluginCountVal =
    if o = .unregister then p.pluginCountVal - 1 else p.pluginCountVal := by
  cases o <;> cases r <;> rfl

theorem state_finish :
    (o.finish i r p).plugins.state j = if j = i then o.after r else p.state j := by
  rw [state_update Op.finish_table, Op.finishSlot_state]

theorem desc_finish : (o.finish i r p).plugins.desc j = p.desc j := by
  rw [desc_update Op.finish_table, Op.finishSlot_desc]
  split
  next h => rw [h]; rfl
  next => rfl

@[simp] theorem leaveTick_table : (leaveTick i r p).pluginTable =
    Function.update p.pluginTable i (tickSlot r (p.pluginTable i)) := rfl

theorem state_leaveTick : (leaveTick i r p).state j = p.state j := by
  rw [state_update leaveTick_table]
  split
  next h => rw [h]; rfl
  next => rfl

theorem desc_leaveTick : (leaveTick i r p).desc j = p.desc j := by
  rw [desc_update leaveTick_table]
  split
  next h => rw [h]; rfl
  next => rfl

/-! ### Finding -/

theorem pluginFind_eq_none_iff : pluginFind (some a) p = none ↔
    ∀ i < pluginMax, p.state i ≠ .unloaded → strncmpK (p.desc i).name.rd a pluginNameLen ≠ 0 := by
  unfold pluginFind
  rw [first_eq_none_iff]
  simp

theorem pluginFind_spec {name : Option (ℕ → UInt8)} (h : pluginFind name p = some i) :
    i < pluginMax ∧ p.state i ≠ .unloaded := by
  cases name with
  | none => cases h
  | some a =>
    obtain ⟨-, hlt, hp, -⟩ := first_eq_some_iff.1 h
    exact ⟨by simpa using hlt, (decide_eq_true_iff.1 hp).1⟩

theorem freeSlot_spec (h : freeSlot p = some i) : i < pluginMax ∧ p.state i = .unloaded := by
  obtain ⟨-, hlt, hp, -⟩ := first_eq_some_iff.1 h
  exact ⟨by simpa using hlt, decide_eq_true_iff.1 hp⟩

/-- What the search finds when a plugin came into a slot that was free. -/
theorem pluginFind_fresh (hi : i < pluginMax) (hfree : p.state i = .unloaded)
    (hq : q.pluginTable = Function.update p.pluginTable i slot) (hslot : slot.state ≠ .unloaded) :
    (strncmpK slot.desc.name.rd a pluginNameLen = 0 → pluginFind (some a) p = none →
      pluginFind (some a) q = some i) ∧
    (strncmpK slot.desc.name.rd a pluginNameLen ≠ 0 → pluginFind (some a) q = pluginFind (some a) p) := by
  have hother : ∀ k, k ≠ i → q.state k = p.state k ∧ q.desc k = p.desc k := fun k hk => by
    rw [state_update hq, desc_update hq, if_neg hk, if_neg hk]
    exact ⟨rfl, rfl⟩
  have hself : q.state i = slot.state ∧ q.desc i = slot.desc := by
    rw [state_update hq, desc_update hq, if_pos rfl, if_pos rfl]
    exact ⟨rfl, rfl⟩
  constructor
  · intro hname hnone
    refine first_eq_some_iff.2 ⟨Nat.zero_le i, by omega, ?_, fun k _ hk => ?_⟩
    · rw [hself.1, hself.2]
      exact decide_eq_true ⟨hslot, hname⟩
    · rw [(hother k (by omega)).1, (hother k (by omega)).2]
      exact decide_eq_false fun h => pluginFind_eq_none_iff.1 hnone k (by omega) h.1 h.2
  · intro hname
    unfold pluginFind
    refine congrArg (fun f => first f pluginMax 0) (funext fun k => ?_)
    by_cases hk : k = i
    · subst hk
      rw [hself.1, hself.2, hfree]
      simp [hname]
    · rw [(hother k hk).1, (hother k hk).2]

/-- **Activating a plugin that has just been registered** calls its `init`. -/
theorem pluginActivate_fresh {desc : PluginDesc F} {now : UInt32} {name : CStr} {f : F} (hi : i < pluginMax)
    (hfree : p.state i = .unloaded) (hq : q.pluginTable = Function.update p.pluginTable i (freshSlot desc now))
    (hname : strncmpK desc.name.rd name.chr pluginNameLen = 0) (hnone : pluginFind (some name.chr) p = none)
    (hinit : desc.init = some f) : pluginActivate (some name) q = .calls i f := by
  have hstate : q.state i = .loaded := by
    rw [state_update hq, if_pos rfl]
    rfl
  have hdesc : (q.desc i).init = some f := by
    rw [desc_update hq, if_pos rfl]
    exact hinit
  unfold pluginActivate
  rw [Option.map_some, (pluginFind_fresh hi hfree hq nofun).1 hname hnone]
  dsimp only
  rw [if_neg (not_not.2 hstate), hdesc]

/-! ### The operations -/

theorem pluginRegister_cases (desc : Option (PluginDesc F)) (now : UInt32) (p : Plugins F) :
    ((pluginRegister desc now p).status ≠ .ok ∧ (pluginRegister desc now p).plugins = p) ∨
    ∃ d j, desc = some d ∧ pluginFind (some d.name.rd) p = none ∧ freeSlot p = some j ∧
      pluginRegister desc now p = ⟨.ok, [(topicPluginLoaded, UInt32.ofNat j)],
        { p.setSlot j (freshSlot d now) with pluginCountVal := p.pluginCountVal + 1 }⟩ := by
  unfold pluginRegister
  cases desc with
  | none => exact Or.inl ⟨nofun, rfl⟩
  | some d =>
    dsimp only
    by_cases hfull : (pluginMax : Int) ≤ p.pluginCountVal.toInt
    · rw [if_pos hfull]
      exact Or.inl ⟨nofun, rfl⟩
    · rw [if_neg hfull]
      cases hfind : pluginFind (some d.name.rd) p with
      | some i => exact Or.inl ⟨nofun, rfl⟩
      | none =>
        cases hfree : freeSlot p with
        | none => exact Or.inl ⟨nofun, rfl⟩
        | some j => exact Or.inr ⟨d, j, rfl, hfind, rfl, rfl⟩

/-- The operation calls a callback. -/
theorem Op.start_calls {name : Option CStr} {f : F} (h : o.start name p = .calls i f) :
    pluginFind (name.map CStr.chr) p = some i ∧ p.state i = o.during ∧
      (p.desc i).callback o.callback = some f := by
  cases hfind : pluginFind (name.map CStr.chr) p with
  | none =>
    cases o <;>
      simp [start, pluginUnregister, pluginActivate, pluginDeactivate, hfind] at h
  | some j =>
    cases o with
    | unregister =>
      simp only [start, pluginUnregister, hfind] at h
      split at h
      next hstate =>
        cases hcall : (p.desc j).shutdown <;> rw [hcall] at h <;> cases h
        exact ⟨rfl, hstate, hcall⟩
      next => cases h
    | activate =>
      simp only [start, pluginActivate, hfind] at h
      split at h
      next => cases h
      next hstate =>
        cases hcall : (p.desc j).init <;> rw [hcall] at h <;> cases h
        exact ⟨rfl, not_not.1 hstate, hcall⟩
    | deactivate =>
      simp only [start, pluginDeactivate, hfind] at h
      split at h
      next => cases h
      next hstate =>
        cases hcall : (p.desc j).shutdown <;> rw [hcall] at h <;> cases h
        exact ⟨rfl, not_not.1 hstate, hcall⟩

/-- The operation returns without a callback: it refuses, or there is none to call. -/
theorem Op.start_done {name : Option CStr} {reply : Reply F} (h : o.start name p = .done reply) :
    (reply.status ≠ .ok ∧ reply.plugins = p) ∨
    ∃ i, pluginFind (name.map CStr.chr) p = some i ∧ reply = o.finish i .ok p ∧
      (p.state i = o.during ∧ (p.desc i).callback o.callback = none ∨
        o = .unregister ∧ p.state i ≠ .active) := by
  cases hfind : pluginFind (name.map CStr.chr) p with
  | none =>
    refine Or.inl ?_
    cases o <;> simp only [start, pluginUnregister, pluginActivate, pluginDeactivate, hfind] at h <;>
      cases h <;> exact ⟨nofun, rfl⟩
  | some j =>
    cases o with
    | unregister =>
      simp only [start, pluginUnregister, hfind] at h
      refine Or.inr ⟨j, rfl, ?_⟩
      split at h
      next hstate =>
        cases hcall : (p.desc j).shutdown <;> rw [hcall] at h <;> cases h
        exact ⟨rfl, Or.inl ⟨hstate, hcall⟩⟩
      next hstate =>
        cases h
        exact ⟨rfl, Or.inr ⟨rfl, hstate⟩⟩
    | activate =>
      simp only [start, pluginActivate, hfind] at h
      split at h
      next =>
        cases h
        exact Or.inl ⟨nofun, rfl⟩
      next hstate =>
        cases hcall : (p.desc j).init <;> rw [hcall] at h <;> cases h
        exact Or.inr ⟨j, rfl, rfl, Or.inl ⟨not_not.1 hstate, hcall⟩⟩
    | deactivate =>
      simp only [start, pluginDeactivate, hfind] at h
      split at h
      next =>
        cases h
        exact Or.inl ⟨nofun, rfl⟩
      next hstate =>
        cases hcall : (p.desc j).shutdown <;> rw [hcall] at h <;> cases h
        exact Or.inr ⟨j, rfl, rfl, Or.inl ⟨not_not.1 hstate, hcall⟩⟩

end Slots

/-! ### One slot in one step -/

/-- The slot that the step changes. -/
def Act.slot : Act F → Option ℕ
  | .register _ _ _ _ slot => slot
  | .done _ _ slot res _ => if res = .ok then slot else none
  | .ret _ i _ _ _ => some i
  | .tickRet i _ => some i
  | _ => none

/-- How a step changes slot `j`. -/
inductive Touch (j : ℕ) : Act F → PluginSlot F → PluginSlot F → Prop
  | register {desc : PluginDesc F} {now : UInt32} {publishes : List (UInt8 × UInt32)}
      {slot : PluginSlot F} : slot.state = .unloaded →
      Touch j (.register (some desc) now .ok publishes (some j)) slot (freshSlot desc now)
  | done {o : Op} {name : Option CStr} {publishes : List (UInt8 × UInt32)} {slot : PluginSlot F} :
      slot.state ≠ .unloaded →
      (slot.state = o.during ∧ slot.desc.callback o.callback = none ∨
        o = .unregister ∧ slot.state ≠ .active) →
      Touch j (.done o name (some j) .ok publishes) slot (o.finishSlot .ok slot)
  | ret {o : Op} {r res : AuraStatus} {publishes : List (UInt8 × UInt32)} {slot : PluginSlot F} :
      Touch j (.ret o j r res publishes) slot (o.finishSlot r slot)
  | tickRet {r : AuraStatus} {slot : PluginSlot F} : Touch j (.tickRet j r) slot (tickSlot r slot)

section Steps

variable {s t : Sys F} {a : Act F}

@[simp] theorem Op.finish_ok_status (o : Op) (i : ℕ) (p : Plugins F) :
    (o.finish i .ok p).status = .ok := by
  cases o <;> rfl

/-- **The step lemma**: a step leaves slot `j` as it is, or changes it in one of four ways. -/
theorem Step.slot_cases (h : Step s a t) (j : ℕ) :
    (a.slot ≠ some j ∧ t.plugins.pluginTable j = s.plugins.pluginTable j) ∨
    Touch j a (s.plugins.pluginTable j) (t.plugins.pluginTable j) := by
  cases h with
  | @register p st desc now reply _ hreply =>
    subst hreply
    rcases pluginRegister_cases desc now p with ⟨hne, hp⟩ | ⟨d, i, rfl, -, hfree, e⟩
    · rw [if_neg hne, hp]
      exact Or.inl ⟨nofun, rfl⟩
    · rw [e, if_pos rfl, hfree]
      by_cases hij : j = i
      · subst hij
        refine Or.inr ?_
        dsimp only [Plugins.setSlot]
        rw [Function.update_self]
        exact Touch.register (freeSlot_spec hfree).2
      · exact Or.inl ⟨fun h => hij (Option.some.inj h).symm, Function.update_of_ne hij _ _⟩
  | @done p st o name reply _ hstart =>
    rcases Op.start_done hstart with ⟨hne, hp⟩ | ⟨i, hfind, rfl, hready⟩
    · rw [hp]
      exact Or.inl ⟨by simp [Act.slot, hne], rfl⟩
    · rw [hfind, Op.finish_table, Op.finish_ok_status]
      by_cases hij : j = i
      · subst hij
        rw [Function.update_self]
        exact Or.inr (Touch.done (pluginFind_spec hfind).2 hready)
      · rw [Function.update_of_ne hij]
        exact Or.inl ⟨fun h => hij (Option.some.inj h).symm, rfl⟩
  | @ret p st o i r =>
    rw [Op.finish_table]
    by_cases hij : j = i
    · subst hij
      rw [Function.update_self]
      exact Or.inr Touch.ret
    · rw [Function.update_of_ne hij]
      exact Or.inl ⟨fun h => hij (Option.some.inj h).symm, rfl⟩
  | @tickRet p st i r =>
    rw [leaveTick_table]
    by_cases hij : j = i
    · subst hij
      rw [Function.update_self]
      exact Or.inr Touch.tickRet
    · rw [Function.update_of_ne hij]
      exact Or.inl ⟨fun h => hij (Option.some.inj h).symm, rfl⟩
  | call _ _ => exact Or.inl ⟨nofun, rfl⟩
  | tickAll _ => exact Or.inl ⟨nofun, rfl⟩
  | pass _ _ => exact Or.inl ⟨nofun, rfl⟩
  | tick _ _ _ => exact Or.inl ⟨nofun, rfl⟩
  | tickEnd => exact Or.inl ⟨nofun, rfl⟩

end Steps

end AuraOS.Kernel.Plugin
