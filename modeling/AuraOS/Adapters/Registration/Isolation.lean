import AuraOS.Adapters.Registration.Defs
import AuraOS.Kernel.Plugin.Table

/-!
# Whose device is opened

`adapter_register` installs the callbacks of the serial adapter for every adapter.  So the flags say which
plugins are active, and an operation touches the device of its own plugin only, exactly in the runs that
register no other adapter (`run_isolated_iff`).
-/

namespace AuraOS.Adapters

open AuraOS.Lib AuraOS.Kernel AuraOS.Kernel.Plugin

variable {A : Type}

/-- The plugin of the adapter is active. -/
def Active (s : System A) (a : Addr A) : Prop :=
  ∃ i < pluginMax, s.plugins.state i = .active ∧ s.priv i = some a

/-- The flags say which plugins are active. -/
def Agrees (s : System A) : Prop := ∀ a, s.isOpen a = 1 ↔ Active s a

/-- The adapter that the call registers. -/
def Act.registers : Act A → Option (Addr A)
  | register a _ => some a
  | op _ _ _ => none

/-- If the call registers an adapter, then one with `P`. -/
def Act.Registers (P : Addr A → Prop) (act : Act A) : Prop := ∀ a, act.registers = some a → P a

/-- The adapter that the call is about. -/
def Act.target (s : System A) : Act A → Option (Addr A)
  | register a _ => some a
  | op _ name _ => (pluginFind (some name.chr) s.plugins).bind s.priv

def Act.calls : Act A → List OpFn
  | register _ calls => calls
  | op _ _ calls => calls

/-- The call opens and closes the device of its adapter only, and leaves the other flags alone. -/
def Isolated (adapters : A → Adapter) (s : System A) (act : Act A) (t : System A) : Prop :=
  (∀ f ∈ act.calls, ∃ a, act.target s = some a ∧
    (f = (adapterAt adapters a).ops.openOp ∨ f = (adapterAt adapters a).ops.closeOp)) ∧
  ∀ a, act.target s ≠ some a → t.isOpen a = s.isOpen a

/-- The adapters that a run registers. -/
def registered (acts : List (Act A)) : List (Addr A) := acts.filterMap Act.registers

/-- The adapters that a run registers have different names. -/
def DistinctNames (adapters : A → Adapter) (acts : List (Act A)) : Prop :=
  ∀ a ∈ registered acts, ∀ b ∈ registered acts,
    str (adapterAt adapters a).name = str (adapterAt adapters b).name → a = b

/-- What holds as long as no other adapter is registered; `R` says that the serial adapter is one of those
that may be registered. -/
structure Inv (R : Prop) (s : System A) : Prop where
  table : TableInv s.plugins
  serial : ∀ i, s.plugins.state i ≠ .unloaded →
    R ∧ s.priv i = some .serialAdapter ∧ s.plugins.desc i = adapterDesc serialAdapter
  flag : s.isOpen .serialAdapter = 1 ↔ ∃ i < pluginMax, s.plugins.state i = .active
  others : ∀ a, s.isOpen (.other a) = 0

/-! ### Names -/

section Names

variable {adp adp' : Adapter} {n : ℕ}

theorem chr_toList (b : Buf n) : CStr.chr b.toList = b.rd := by
  funext i
  unfold CStr.chr Buf.rd
  rw [List.getD_eq_getElem?_getD, Vector.getElem?_toList]

/-- The descriptor has the first 23 characters of the name. -/
theorem str_adapterDesc (adp : Adapter) : str (adapterDesc adp).name = (str adp.name).take 23 := by
  have htext : str adp.name = (CStr.text adp.name.toList).take adapterNameLen := by
    unfold str
    rw [← chr_toList, chars_chr]
  unfold adapterDesc
  dsimp only
  rw [str_strncpyK (by decide) (Nat.le_refl _), htext, List.take_take]
  rfl

theorem adapterDesc_name_iff : strncmpK (adapterDesc adp).name.rd (adapterDesc adp').name.rd pluginNameLen = 0 ↔
    (str adp.name).take 23 = (str adp'.name).take 23 := by
  rw [strncmpK_eq_zero_iff, ← str_adapterDesc, ← str_adapterDesc]
  rfl

theorem str_serialAdapter : str serialAdapter.name = serialName := by decide

/-- The name of the serial adapter is not cut. -/
theorem eq_of_serial_name (h : (str adp.name).take 23 = (str serialAdapter.name).take 23) :
    str adp.name = str serialAdapter.name := by
  have hlen := congrArg List.length h
  rw [str_serialAdapter] at hlen ⊢
  simp only [List.length_take, serialName, List.length_cons, List.length_nil] at hlen
  rw [str_serialAdapter, List.take_of_length_le (by omega)] at h
  exact h

end Names

/-! ### The serial adapter alone -/

section Serial

variable {adapters : A → Adapter} {R : Prop} {s : System A} {o : Op} {r : AuraStatus} {i j : ℕ} {name : CStr}
  {now : UInt32} {a : Addr A} {b : A}

/-- There is one plugin at most. -/
theorem Inv.unique (h : Inv R s) (hi : i < pluginMax) (hj : j < pluginMax) (hi' : s.plugins.state i ≠ .unloaded)
    (hj' : s.plugins.state j ≠ .unloaded) : i = j := by
  by_contra hij
  apply h.table.names i hi j hj hij (inUse_iff.2 hi') (inUse_iff.2 hj')
  rw [(h.serial i hi').2.2, (h.serial j hj').2.2, adapterDesc_name_iff]

/-- An operation finishes for the plugin, and the flag says whether it is active. -/
theorem Inv.finish (h : Inv R s) (hi : i < pluginMax) (hi' : s.plugins.state i ≠ .unloaded)
    {isOpen : Addr A → UInt8} {hook : Bool} (hflag : isOpen .serialAdapter = 1 ↔ o.after r = .active)
    (hothers : ∀ a, isOpen (.other a) = 0) :
    Inv R ⟨(o.finish i r s.plugins).plugins, s.priv, isOpen, hook⟩ := by
  refine ⟨h.table.finish hi (inUse_iff.2 hi'), fun j hj => ?_, ?_, hothers⟩
  · dsimp only at hj ⊢
    rw [state_finish] at hj
    rw [desc_finish]
    by_cases hji : j = i
    · rw [hji]
      exact h.serial i hi'
    · rw [if_neg hji] at hj
      exact h.serial j hj
  · dsimp only
    rw [hflag]
    constructor
    · intro hactive
      refine ⟨i, hi, ?_⟩
      rw [state_finish, if_pos rfl, hactive]
    · rintro ⟨j, hj, hactive⟩
      rw [state_finish] at hactive
      by_cases hji : j = i
      · rwa [if_pos hji] at hactive
      · rw [if_neg hji] at hactive
        exact absurd (h.unique hj hi (by rw [hactive]; exact nofun) hi') hji

/-- The flag before an operation. -/
theorem Inv.flag_iff (h : Inv R s) (hi : i < pluginMax) (hi' : s.plugins.state i ≠ .unloaded) :
    s.isOpen .serialAdapter = 1 ↔ s.plugins.state i = .active := by
  rw [h.flag]
  constructor
  · rintro ⟨j, hj, hactive⟩
    rwa [← h.unique hj hi (by rw [hactive]; exact nofun) hi']
  · exact fun hactive => ⟨i, hi, hactive⟩

/-- **An operation on the serial adapter**: it keeps the invariant; if it calls a function or changes a flag,
then it found the plugin. -/
theorem Inv.perform (h : Inv R s) (o : Op) (name : CStr) : Inv R (perform o name s).system ∧
    (∀ f ∈ (perform o name s).calls, (pluginFind (some name.chr) s.plugins).bind s.priv = some .serialAdapter ∧
      (f = .serialOpen ∨ f = .serialClose)) ∧
    ((pluginFind (some name.chr) s.plugins).bind s.priv ≠ some .serialAdapter →
      (perform o name s).system.isOpen = s.isOpen) := by
  unfold Adapters.perform
  cases hstart : o.start (some name) s.plugins with
  | done reply =>
    dsimp only
    refine ⟨?_, nofun, fun _ => rfl⟩
    rcases Op.start_done hstart with ⟨-, e⟩ | ⟨i, hfind, rfl, hready⟩
    · rw [e]
      exact h
    · obtain ⟨hi, hi'⟩ := pluginFind_spec hfind
      apply h.finish hi hi' _ h.others
      rw [h.flag_iff hi hi']
      rcases hready with ⟨-, hnone⟩ | ⟨rfl, hne⟩
      · -- the plugin has all callbacks that an operation calls
        rw [(h.serial i hi').2.2] at hnone
        cases o <;> cases hnone
      · exact ⟨fun hactive => absurd hactive hne, nofun⟩
  | calls i f =>
    obtain ⟨hfind, hstate, hcall⟩ := Op.start_calls hstart
    obtain ⟨hi, hi'⟩ := pluginFind_spec hfind
    have htarget : (pluginFind (some name.chr) s.plugins).bind s.priv = some .serialAdapter := by
      change pluginFind (some name.chr) s.plugins = some i at hfind
      rw [hfind]
      exact (h.serial i hi').2.1
    rw [(h.serial i hi').2.2] at hcall
    rw [htarget]
    cases o with
    | activate =>
      cases hcall
      refine ⟨h.finish hi hi' ⟨fun _ => rfl, fun _ => rfl⟩ h.others, fun f hf => ⟨rfl, Or.inl ?_⟩, ?_⟩
      · exact List.mem_singleton.1 hf
      · exact fun hne => absurd rfl hne
    | deactivate =>
      cases hcall
      refine ⟨h.finish hi hi' ⟨nofun, nofun⟩ h.others, fun f hf => ⟨rfl, Or.inr ?_⟩, ?_⟩
      · exact List.mem_singleton.1 hf
      · exact fun hne => absurd rfl hne
    | unregister =>
      cases hcall
      refine ⟨h.finish hi hi' ⟨nofun, nofun⟩ h.others, fun f hf => ⟨rfl, Or.inr ?_⟩, ?_⟩
      · exact List.mem_singleton.1 hf
      · exact fun hne => absurd rfl hne

/-- What `adapter_register` does: nothing, or it fills a free slot and activates the plugin. -/
theorem adapterRegister_cases (adapters : A → Adapter) (a : Addr A) (now : UInt32) (s : System A) :
    ((pluginRegister (some (adapterDesc (adapterAt adapters a))) now s.plugins).status ≠ .ok ∧
      (adapterRegister adapters a now s).system = s ∧ (adapterRegister adapters a now s).calls = []) ∨
    ∃ j q, pluginFind (some (adapterDesc (adapterAt adapters a)).name.rd) s.plugins = none ∧
      freeSlot s.plugins = some j ∧
      q.pluginTable = Function.update s.plugins.pluginTable j (freshSlot (adapterDesc (adapterAt adapters a)) now) ∧
      q.pluginCountVal = s.plugins.pluginCountVal + 1 ∧
      adapterRegister adapters a now s = { perform .activate (adapterDesc (adapterAt adapters a)).name.toList
        ⟨q, Function.update s.priv j (some a), s.isOpen, s.hook⟩ with status := .ok } := by
  unfold adapterRegister
  dsimp only
  rcases pluginRegister_cases (some (adapterDesc (adapterAt adapters a))) now s.plugins with
    ⟨hne, e⟩ | ⟨d, j, hd, hfind, hfree, e⟩
  · rw [if_neg hne, e]
    exact Or.inl ⟨hne, rfl, rfl⟩
  · cases hd
    refine Or.inr ⟨j, (pluginRegister (some (adapterDesc (adapterAt adapters a))) now s.plugins).plugins, hfind,
      hfree, ?_, ?_, ?_⟩
    · rw [e]
      rfl
    · rw [e]
    · unfold setPriv
      rw [e, if_pos rfl, hfree]

/-- **Registering the serial adapter** keeps the invariant, too. -/
theorem Inv.register (h : Inv R s) (hR : R) (now : UInt32) :
    Inv R (adapterRegister adapters .serialAdapter now s).system ∧
      ∀ f ∈ (adapterRegister adapters .serialAdapter now s).calls, f = .serialOpen ∨ f = .serialClose := by
  rcases adapterRegister_cases adapters .serialAdapter now s with
    ⟨-, hsystem, hcalls⟩ | ⟨j, q, hfind, hfree, htable, hcount, e⟩
  · rw [hsystem, hcalls]
    exact ⟨h, nofun⟩
  · obtain ⟨-, hstate⟩ := freeSlot_spec hfree
    have hstateq : ∀ i, q.state i = if i = j then .loaded else s.plugins.state i := fun i =>
      state_update htable
    have hinv : Inv R ⟨q, Function.update s.priv j (some .serialAdapter), s.isOpen, s.hook⟩ := by
      refine ⟨h.table.register hfind hfree htable hcount, fun i hi => ?_, ?_, h.others⟩
      · dsimp only at hi ⊢
        rw [desc_update htable]
        by_cases hij : i = j
        · rw [if_pos hij, hij, Function.update_self]
          exact ⟨hR, rfl, rfl⟩
        · rw [hstateq, if_neg hij] at hi
          rw [if_neg hij, Function.update_of_ne hij]
          exact h.serial i hi
      · dsimp only
        rw [h.flag]
        refine exists_congr fun i => and_congr_right fun _ => ?_
        rw [hstateq]
        by_cases hij : i = j
        · rw [if_pos hij, hij, hstate]
          exact ⟨nofun, nofun⟩
        · rw [if_neg hij]
    obtain ⟨hkept, hcalls, -⟩ := hinv.perform .activate (adapterDesc serialAdapter).name.toList
    rw [e]
    exact ⟨hkept, fun f hf => (hcalls f hf).2⟩

/-- **Registering another adapter** opens the serial port, and not the device of the adapter. -/
theorem Inv.register_other (h : Inv R s) (hne : R → str (adapters b).name ≠ str serialAdapter.name)
    (now : UInt32) : ¬Agrees (adapterRegister adapters (.other b) now s).system := by
  -- the name is new, and there is a free slot
  have hok : (pluginRegister (some (adapterDesc (adapters b))) now s.plugins).status = .ok := by
    refine (h.table.pluginRegister_iff _ now).2 ⟨_, rfl, fun i _ hi' => ?_, ?_⟩
    · obtain ⟨hR, -, hdesc⟩ := h.serial i hi'
      rw [hdesc, Ne, adapterDesc_name_iff]
      exact fun heq => hne hR (eq_of_serial_name heq.symm)
    · by_contra hnone
      have hused : ∀ i < pluginMax, s.plugins.state i ≠ .unloaded := fun i hi he => hnone ⟨i, hi, he⟩
      cases h.unique (i := 0) (j := 1) (by decide) (by decide) (hused 0 (by decide)) (hused 1 (by decide))
  rcases adapterRegister_cases adapters (.other b) now s with
    ⟨hne, -⟩ | ⟨j, q, hfind, hfree, htable, -, e⟩
  · exact absurd hok hne
  · obtain ⟨hj, hstate⟩ := freeSlot_spec hfree
    have hstart : Op.activate.start (some (adapterDesc (adapters b)).name.toList) q =
        .calls j .serialPluginInit := by
      refine pluginActivate_fresh hj hstate htable ?_ ?_ rfl
      · rw [chr_toList, strncmpK_eq_zero_iff]
        rfl
      · rw [chr_toList]
        exact hfind
    have hperform : adapterRegister adapters (.other b) now s = ⟨.ok, [.serialOpen],
        ⟨(Op.activate.finish j .ok q).plugins, Function.update s.priv j (some (.other b)),
          setSerialOpen 1 s.isOpen, true⟩⟩ := by
      rw [e]
      unfold Adapters.perform
      change Op.activate.start (some (adapterDesc (adapterAt adapters (.other b))).name.toList) q = _ at hstart
      dsimp only
      rw [hstart]
      rfl
    intro hagrees
    rw [hperform] at hagrees
    have hflag := (hagrees (.other b)).2 ⟨j, hj, (state_finish).trans (if_pos rfl), Function.update_self _ _ _⟩
    change s.isOpen (.other b) = 1 at hflag
    rw [h.others b] at hflag
    cases hflag

end Serial

/-! ### Runs -/

section Runs

variable {adapters : A → Adapter} {R : Prop} {s t : System A} {act : Act A} {acts : List (Act A)}
  {p₀ : Plugins Fn} {a : Addr A}

theorem Inv.agrees (h : Inv R s) : Agrees s := by
  intro a
  cases a with
  | serialAdapter =>
    rw [h.flag]
    refine exists_congr fun i => and_congr_right fun _ => ⟨fun hactive => ⟨hactive, ?_⟩, And.left⟩
    exact (h.serial i (by rw [hactive]; exact nofun)).2.1
  | other b =>
    rw [h.others]
    refine ⟨nofun, fun ⟨i, _, hactive, hpriv⟩ => ?_⟩
    cases (h.serial i (by rw [hactive]; exact nofun)).2.1.symm.trans hpriv

/-- **The step lemma.** -/
theorem Inv.step (h : Inv R s) (hstep : Step adapters s act t)
    (hserial : act.Registers fun a => R ∧ a = .serialAdapter) : Inv R t ∧ Isolated adapters s act t := by
  cases hstep with
  | @register a now =>
    obtain ⟨hR, rfl⟩ := hserial a rfl
    obtain ⟨hinv, hcalls⟩ := @Inv.register _ adapters _ _ h hR now
    refine ⟨hinv, fun f hf => ⟨_, rfl, hcalls f hf⟩, fun b hb => ?_⟩
    cases b with
    | serialAdapter => exact absurd rfl hb
    | other b => rw [hinv.others, h.others]
  | @op o name =>
    obtain ⟨hinv, hcalls, hflags⟩ := h.perform o name
    refine ⟨hinv, fun f hf => ⟨_, hcalls f hf⟩, fun b hb => ?_⟩
    cases b with
    | serialAdapter => rw [hflags hb]
    | other b => rw [hinv.others, h.others]

/-- A step with which the flags agree registers no other adapter. -/
theorem Inv.registers_serial (h : Inv R s) (hstep : Step adapters s act t) (hagrees : Agrees t)
    (hnames : ∀ b, act.registers = some (.other b) → R → str (adapters b).name ≠ str serialAdapter.name)
    (ha : act.registers = some a) : a = .serialAdapter := by
  cases a with
  | serialAdapter => rfl
  | other b =>
    cases hstep with
    | @register _ now =>
      cases ha
      exact absurd hagrees (h.register_other (hnames b rfl) now)
    | op => cases ha

theorem inv_start (p₀ : Plugins Fn) : Inv R (start p₀ : System A) := by
  refine ⟨(inv_boot p₀).1, fun i hi => absurd rfl hi, ⟨nofun, ?_⟩, fun _ => rfl⟩
  rintro ⟨i, -, ⟨⟩⟩

theorem mem_registered : a ∈ registered acts ↔ ∃ act ∈ acts, act.registers = some a := List.mem_filterMap

/-- **The steps of a run** that registers the adapters in `l`. -/
theorem Inv.step_iff {l : List (Addr A)} (h : Inv (.serialAdapter ∈ l) s)
    (hnames : ∀ a ∈ l, ∀ b ∈ l, str (adapterAt adapters a).name = str (adapterAt adapters b).name → a = b) :
    (Step adapters s act t ∧ Agrees t ∧ Isolated adapters s act t) ∧ act.Registers (· ∈ l) ↔
      Step adapters s act t ∧ act.Registers fun a => a ∈ l ∧ a = .serialAdapter := by
  constructor
  · rintro ⟨⟨hstep, hagrees, -⟩, hreg⟩
    refine ⟨hstep, fun a ha => ⟨hreg a ha, ?_⟩⟩
    refine h.registers_serial hstep hagrees (fun b hb hserial heq => ?_) ha
    cases hnames (.other b) (hreg _ hb) .serialAdapter hserial heq
  · rintro ⟨hstep, hreg⟩
    obtain ⟨hinv, hisolated⟩ := h.step hstep fun a ha => ⟨(hreg a ha).2 ▸ (hreg a ha).1, (hreg a ha).2⟩
    exact ⟨⟨hstep, hinv.agrees, hisolated⟩, fun a ha => (hreg a ha).1⟩

/-- **Every adapter for itself**: the flags say which plugins are active, and every call touches the device
of its own adapter only, exactly in the runs that register no adapter but the serial one. -/
theorem run_isolated_iff (adapters : A → Adapter) (p₀ : Plugins Fn) (hnames : DistinctNames adapters acts) :
    Run (fun s act t => Step adapters s act t ∧ Agrees t ∧ Isolated adapters s act t) (start p₀) acts t ↔
      Run (Step adapters) (start p₀) acts t ∧ ∀ a ∈ registered acts, a = .serialAdapter := by
  have hlabels : ∀ act ∈ acts, act.Registers (· ∈ registered acts) := fun act hact a ha =>
    mem_registered.2 ⟨act, hact, ha⟩
  have hruns : Run (fun s act t => (Step adapters s act t ∧ Agrees t ∧ Isolated adapters s act t) ∧
        act.Registers (· ∈ registered acts)) (start p₀) acts t ↔
      Run (fun s act t => Step adapters s act t ∧
        act.Registers fun a => a ∈ registered acts ∧ a = .serialAdapter) (start p₀) acts t := by
    refine (Run.congr (I := Inv (.serialAdapter ∈ registered acts)) ?_ ?_ (inv_start p₀)).symm
    · intro s act t h hstep
      exact (h.step hstep.1 fun a ha => ⟨(hstep.2 a ha).2 ▸ (hstep.2 a ha).1, (hstep.2 a ha).2⟩).1
    · exact fun s act t h => (h.step_iff hnames).symm
  rw [Run.and_labels_iff, Run.and_labels_iff] at hruns
  constructor
  · intro hr
    obtain ⟨hrun, hreg⟩ := hruns.1 ⟨hr, hlabels⟩
    refine ⟨hrun, fun a ha => ?_⟩
    obtain ⟨act, hact, ha⟩ := mem_registered.1 ha
    exact (hreg act hact a ha).2
  · rintro ⟨hrun, hserial⟩
    refine (hruns.2 ⟨hrun, fun act hact a ha => ?_⟩).1
    exact ⟨hlabels act hact a ha, hserial a (hlabels act hact a ha)⟩

/-! ### A second adapter -/

/-- A table without plugins. -/
def zeroPlugins : Plugins Fn := ⟨fun _ => ⟨⟨.tab _ fun _ => 0, none, none, none⟩, .unloaded, 0, 0, 0⟩, 0⟩

/-- `"disk"`. -/
def diskName : CStr := [100, 105, 115, 107]

/-- The adapter of a disk. -/
def disk : Unit → Adapter := fun _ => ⟨Buf.tab _ diskName.chr, ⟨.other 0, .other 1⟩⟩

/-- Both adapters are registered. -/
def twoAdapters : System Unit :=
  (adapterRegister disk (.other ()) 0 (adapterSerialRegister disk 0 (start zeroPlugins)).system).system

/-- The plugin of the disk is deactivated. -/
def diskOff : System Unit := (perform .deactivate diskName twoAdapters).system

def diskActs : List (Act Unit) :=
  [.register .serialAdapter [.serialOpen], .register (.other ()) [.serialOpen],
    .op .deactivate diskName [.serialClose]]

/-- The serial adapter alone is registered and deactivated. -/
theorem run_isolated_serial : ∃ t, Run (fun s act t => Step disk s act t ∧ Agrees t ∧ Isolated disk s act t)
    (start zeroPlugins) [.register .serialAdapter [.serialOpen], .op .deactivate serialName [.serialClose]] t :=
  ⟨_, (run_isolated_iff disk zeroPlugins (by rintro _ ⟨⟩ _ ⟨⟩ _ <;> trivial)).2
    ⟨Run.cons (@Step.register _ _ _ _ 0) (Run.cons Step.op (Run.nil _)), by simp [registered, Act.registers]⟩⟩

/-- **Deactivating the disk closes the serial port**: its plugin stays active, and no function of the disk is
called. -/
theorem disk_closes_serial : DistinctNames disk diskActs ∧ Run (Step disk) (start zeroPlugins) diskActs diskOff ∧
    Active diskOff .serialAdapter ∧ diskOff.isOpen .serialAdapter = 0 ∧ ¬Agrees diskOff ∧
    ¬Isolated disk twoAdapters (.op .deactivate diskName [.serialClose]) diskOff := by
  have hactive : Active diskOff .serialAdapter := ⟨0, by decide, by decide, rfl⟩
  have hclosed : diskOff.isOpen .serialAdapter = 0 := by decide
  refine ⟨?_, ?_, hactive, hclosed, fun h => ?_, fun h => ?_⟩
  · have hne : str serialAdapter.name ≠ str (disk ()).name := by decide
    have hmem : ∀ a ∈ registered diskActs, a = .serialAdapter ∨ a = .other () := fun a _ => by
      cases a <;> simp
    intro a ha b hb heq
    rcases hmem a ha with rfl | rfl <;> rcases hmem b hb with rfl | rfl
    · rfl
    · exact absurd heq hne
    · exact absurd heq.symm hne
    · rfl
  · exact Run.cons (@Step.register _ _ _ _ 0) (Run.cons (@Step.register _ _ _ _ 0) (Run.cons Step.op (Run.nil _)))
  · have hopen := (h .serialAdapter).2 hactive
    rw [hclosed] at hopen
    cases hopen
  · obtain ⟨a, htarget, hcall⟩ := h.1 .serialClose (List.mem_singleton.2 rfl)
    have hdisk : Act.target twoAdapters (.op .deactivate diskName [.serialClose]) = some (.other ()) := rfl
    cases hdisk.symm.trans htarget
    rcases hcall with hcall | hcall <;> cases hcall

end Runs

end AuraOS.Adapters
