import AuraOS.Kernel.Plugin.Table

/-!
# The lifecycle of a plugin

The documented life of a plugin is a protocol on the calls of its callbacks: a successful `init`, ticks,
and a `shutdown`, any number of times (`Lifecycle`).  As long as no callback calls the manager, the calls
made since a plugin was registered follow it, if the callbacks that the descriptor does not have are left
out (`trace_lifecycle`).  They do not follow it literally: without an `init` the plugin is active, and
ticked, without a call of `init` (`uninitialised_tick`).
-/

namespace AuraOS.Kernel.Plugin

open AuraOS.Lib

/-! ### The protocol -/

/-- The call of a callback, and its return. -/
inductive Event where
  | call (c : Callback)
  | ret (c : Callback) (r : AuraStatus)
  deriving DecidableEq

def Event.callback : Event → Callback
  | call c => c
  | ret c _ => c

/-- Ticks with these results. -/
def ticks (rs : List AuraStatus) : List Event := rs.flatMap fun r => [.call .tick, .ret .tick r]

/-- A successful `init` and ticks. -/
def started (rs : List AuraStatus) : List Event := [.call .init, .ret .init .ok] ++ ticks rs

/-- A successful `init`, ticks and a `shutdown`, with the results of the ticks and of the `shutdown`. -/
def cycle (c : List AuraStatus × AuraStatus) : List Event :=
  started c.1 ++ [.call .shutdown, .ret .shutdown c.2]

def cycles (cs : List (List AuraStatus × AuraStatus)) : List Event := cs.flatMap cycle

/-- An `init` that returned `r`. -/
def failedInit (r : AuraStatus) : List Event := [.call .init, .ret .init r]

/-- The calls form whole cycles. -/
def Closed (tr : List Event) : Prop := ∃ cs, tr = cycles cs

/-- The calls form whole cycles, and perhaps a failed `init`. -/
def Ended (tr : List Event) : Prop :=
  Closed tr ∨ ∃ cs r, r ≠ .ok ∧ tr = cycles cs ++ failedInit r

/-- The calls form whole cycles, and then a cycle that is cut short or a failed `init`. -/
def Lifecycle (tr : List Event) : Prop :=
  ∃ cs tail, tr = cycles cs ++ tail ∧
    ((∃ c, List.IsPrefix tail (cycle c)) ∨ ∃ r, r ≠ .ok ∧ tail = failedInit r)

/-- Where a plugin is in its life. -/
inductive Phase where
  | idle | starting | running | ticking | stopping | failed | ended
  deriving DecidableEq

/-- The calls of the last cycle. -/
def Phase.Tail : Phase → List Event → Prop
  | idle, tail => tail = []
  | starting, tail => tail = [.call .init]
  | running, tail => ∃ rs, tail = started rs
  | ticking, tail => ∃ rs, tail = started rs ++ [.call .tick]
  | stopping, tail => ∃ rs, tail = started rs ++ [.call .shutdown]
  | failed, tail => ∃ r, r ≠ .ok ∧ tail = failedInit r
  | ended, tail => tail = [] ∨ ∃ r, r ≠ .ok ∧ tail = failedInit r

/-- The calls of a plugin that is in the phase `ph`. -/
def At (ph : Phase) (tr : List Event) : Prop :=
  ∃ cs tail, tr = cycles cs ++ tail ∧ ph.Tail tail

/-- The protocol as an automaton. -/
inductive Phase.Next : Phase → List Event → Phase → Prop
  | start : Next idle [.call .init] starting
  | started : Next starting [.ret .init .ok] running
  | fail {r : AuraStatus} : r ≠ .ok → Next starting [.ret .init r] failed
  | tick : Next running [.call .tick] ticking
  | ticked {r : AuraStatus} : Next ticking [.ret .tick r] running
  | stop : Next running [.call .shutdown] stopping
  | stopped {r : AuraStatus} : Next stopping [.ret .shutdown r] idle
  | endIdle : Next idle [] ended
  | endFailed : Next failed [] ended

section Protocol

variable {ph ph' : Phase} {u es : List Event}

theorem started_concat (rs : List AuraStatus) (r : AuraStatus) :
    started (rs ++ [r]) = started rs ++ [.call .tick] ++ [.ret .tick r] := by
  simp [started, ticks]

theorem At.next (h : At ph u) (hn : ph.Next es ph') : At ph' (u ++ es) := by
  obtain ⟨cs, tail, rfl, htail⟩ := h
  cases hn with
  | start =>
    refine ⟨cs, _, List.append_assoc _ _ _, ?_⟩
    rw [show tail = _ from htail]
    rfl
  | started =>
    refine ⟨cs, _, List.append_assoc _ _ _, [], ?_⟩
    rw [show tail = _ from htail]
    rfl
  | @fail r hr =>
    refine ⟨cs, _, List.append_assoc _ _ _, r, hr, ?_⟩
    rw [show tail = _ from htail]
    rfl
  | tick =>
    obtain ⟨rs, rfl⟩ := htail
    exact ⟨cs, _, List.append_assoc _ _ _, rs, rfl⟩
  | @ticked r =>
    obtain ⟨rs, rfl⟩ := htail
    exact ⟨cs, _, List.append_assoc _ _ _, rs ++ [r], (started_concat rs r).symm⟩
  | stop =>
    obtain ⟨rs, rfl⟩ := htail
    exact ⟨cs, _, List.append_assoc _ _ _, rs, rfl⟩
  | @stopped r =>
    obtain ⟨rs, rfl⟩ := htail
    refine ⟨cs ++ [(rs, r)], [], ?_, rfl⟩
    simp [cycles, cycle]
  | endIdle => exact ⟨cs, tail, List.append_nil _, Or.inl htail⟩
  | endFailed => exact ⟨cs, tail, List.append_nil _, Or.inr htail⟩

theorem At.silent (h : At ph u) (hn : ph.Next [] ph') : At ph' u :=
  List.append_nil u ▸ h.next hn

theorem At.closed (h : At .idle u) : Closed u := by
  obtain ⟨cs, tail, rfl, rfl⟩ := h
  exact ⟨cs, List.append_nil _⟩

theorem At.ended (h : At .ended u) : Ended u := by
  obtain ⟨cs, tail, rfl, rfl | ⟨r, hr, rfl⟩⟩ := h
  · exact Or.inl ⟨cs, List.append_nil _⟩
  · exact Or.inr ⟨cs, r, hr, rfl⟩

/-- **The automaton keeps to the protocol.** -/
theorem At.lifecycle (h : At ph u) : Lifecycle u := by
  obtain ⟨cs, tail, rfl, htail⟩ := h
  refine ⟨cs, tail, rfl, ?_⟩
  cases ph with
  | idle => exact Or.inl ⟨([], .ok), htail ▸ List.nil_prefix⟩
  | starting =>
    rw [show tail = _ from htail]
    exact Or.inl ⟨([], .ok), ⟨_, rfl⟩⟩
  | running =>
    obtain ⟨rs, rfl⟩ := htail
    exact Or.inl ⟨(rs, .ok), List.prefix_append _ _⟩
  | ticking =>
    obtain ⟨rs, rfl⟩ := htail
    refine Or.inl ⟨(rs ++ [.ok], .ok), ?_⟩
    unfold cycle
    rw [started_concat, List.append_assoc (started rs ++ _)]
    exact List.prefix_append _ _
  | stopping =>
    obtain ⟨rs, rfl⟩ := htail
    refine Or.inl ⟨(rs, .ok), [.ret .shutdown .ok], ?_⟩
    unfold cycle
    rw [List.append_assoc]
    rfl
  | failed => exact Or.inr htail
  | ended =>
    rcases htail with rfl | htail
    · exact Or.inl ⟨([], .ok), List.nil_prefix⟩
    · exact Or.inr htail

/-- The first call is that of `init`. -/
theorem Lifecycle.head {e : Event} (h : Lifecycle (e :: u)) : e = .call .init := by
  obtain ⟨cs, tail, htr, htail⟩ := h
  cases cs with
  | nil =>
    rcases htail with ⟨c, hpre⟩ | ⟨r, -, rfl⟩
    · rw [show tail = e :: u from htr.symm] at hpre
      exact (List.cons_prefix_cons.1 hpre).1
    · exact (List.cons.inj htr).1
  | cons c cs => exact (List.cons.inj htr).1

end Protocol

/-! ### The calls of a plugin -/

variable {F : Type}

/-- The calls of the callbacks of slot `i` in a step. -/
def Act.events (i : ℕ) : Act F → List Event
  | .call o _ j _ => if j = i then [.call o.callback] else []
  | .ret o j r _ _ => if j = i then [.ret o.callback r] else []
  | .tick _ j _ => if j = i then [.call .tick] else []
  | .tickRet j r => if j = i then [.ret .tick r] else []
  | _ => []

/-- A plugin comes into slot `i`. -/
def Act.Registers (i : ℕ) : Act F → Prop
  | .register _ _ _ _ slot => slot = some i
  | _ => False

instance (i : ℕ) (a : Act F) : Decidable (a.Registers i) := by
  cases a <;> unfold Act.Registers <;> infer_instance

/-- The calls since the registration, after one more step. -/
def note (i : ℕ) (tr : List Event) (a : Act F) : List Event :=
  if a.Registers i then [] else tr ++ a.events i

/-- The calls of the callbacks of slot `i` since its plugin was registered. -/
def trace (i : ℕ) (acts : List (Act F)) : List Event := acts.foldl (note i) []

/-- The calls of the callbacks that the plugin has. -/
def keep (desc : PluginDesc F) (tr : List Event) : List Event :=
  tr.filter fun e => (desc.callback e.callback).isSome

/-- The step does not call the manager out of a callback. -/
def Flat (s : Sys F) : Act F → Prop
  | .register _ _ _ _ _ => s.stack = []
  | .done _ _ _ _ _ => s.stack = []
  | .call _ _ _ _ => s.stack = []
  | .tickAll _ => s.stack = []
  | _ => True

def PluginState.phase : PluginState → Phase
  | unloaded => .ended
  | loaded => .idle
  | active => .running
  | error => .failed

/-- The phase of a plugin whose callback runs for the operation. -/
def Op.phase : Op → Phase
  | activate => .starting
  | unregister | deactivate => .stopping

/-- The phase of the plugin in slot `i`. -/
def phase (p : Plugins F) (i : ℕ) : List Frame → Phase
  | [.op o j] => if j = i then o.phase else (p.state i).phase
  | [.ticking j] => if j = i then .ticking else (p.state i).phase
  | _ => (p.state i).phase

/-- At most one call of the manager has not returned, and the callback that it waits for exists. -/
def Alone (p : Plugins F) : List Frame → Prop
  | [] => True
  | [.op o j] => ((p.desc j).callback o.callback).isSome
  | [.loop _] => True
  | [.ticking j] => p.state j = .active ∧ ((p.desc j).callback .tick).isSome
  | _ => False

/-- The calls that the phase asks for, of the callbacks that the plugin has. -/
def Tracks (ph : Phase) (desc : PluginDesc F) (tr : List Event) : Prop :=
  ∃ u, At ph u ∧ tr = keep desc u

section Traces

variable {p q : Plugins F} {st : List Frame} {i j : ℕ} {o : Op} {r : AuraStatus} {ph ph' : Phase}
  {desc : PluginDesc F} {tr u es : List Event} {s t : Sys F} {a : Act F} {acts : List (Act F)}

/-! ### What a step adds to the trace -/

theorem note_eq_self (hreg : ¬a.Registers i) (h : a.events i = []) : note i tr a = tr := by
  unfold note
  rw [if_neg hreg, h, List.append_nil]

@[simp] theorem note_register {d : Option (PluginDesc F)} {now : UInt32} {res : AuraStatus}
    {pubs : List (UInt8 × UInt32)} {slot : Option ℕ} :
    note i tr (.register d now res pubs slot) = if slot = some i then [] else tr := by
  by_cases h : slot = some i <;> simp [note, Act.Registers, Act.events, h]

@[simp] theorem note_call {name : Option CStr} {f : F} :
    note i tr (.call o name j f) = if j = i then tr ++ [.call o.callback] else tr := by
  by_cases h : j = i <;> simp [note, Act.Registers, Act.events, h]

@[simp] theorem note_ret {res : AuraStatus} {pubs : List (UInt8 × UInt32)} :
    note i tr (.ret o j r res pubs : Act F) = if j = i then tr ++ [.ret o.callback r] else tr := by
  by_cases h : j = i <;> simp [note, Act.Registers, Act.events, h]

@[simp] theorem note_tick {depth : ℕ} {f : F} :
    note i tr (.tick depth j f) = if j = i then tr ++ [.call .tick] else tr := by
  by_cases h : j = i <;> simp [note, Act.Registers, Act.events, h]

@[simp] theorem note_tickRet :
    note i tr (.tickRet j r : Act F) = if j = i then tr ++ [.ret .tick r] else tr := by
  by_cases h : j = i <;> simp [note, Act.Registers, Act.events, h]

/-! ### The phases in a step -/

theorem keep_append (desc : PluginDesc F) (u es : List Event) :
    keep desc (u ++ es) = keep desc u ++ keep desc es := List.filter_append _ _

theorem keep_singleton {e : Event} (h : (desc.callback e.callback).isSome) : keep desc [e] = [e] := by
  simp [keep, h]

/-- The operation calls its callback. -/
theorem Op.at_call (h : At o.during.phase u) : At o.phase (u ++ [.call o.callback]) := by
  cases o with
  | unregister => exact h.next Phase.Next.stop
  | activate => exact h.next Phase.Next.start
  | deactivate => exact h.next Phase.Next.stop

/-- The callback returns to the operation. -/
theorem Op.at_ret (h : At o.phase u) (r : AuraStatus) :
    At (o.after r).phase (u ++ [.ret o.callback r]) := by
  cases o with
  | unregister => exact (h.next Phase.Next.stopped).silent Phase.Next.endIdle
  | activate =>
    by_cases hr : r = .ok
    · subst hr
      exact h.next Phase.Next.started
    · have e : after activate r = .error := if_neg hr
      rw [e]
      exact h.next (Phase.Next.fail hr)
  | deactivate => exact h.next Phase.Next.stopped

/-- A plugin that is not active is unregistered. -/
theorem At.unregister {st : PluginState} (h : At st.phase u) (hne : st ≠ .active) :
    At PluginState.unloaded.phase u := by
  cases st with
  | unloaded => exact h
  | loaded => exact h.silent Phase.Next.endIdle
  | active => exact absurd rfl hne
  | error => exact h.silent Phase.Next.endFailed

/-- A call or a return of a callback that the plugin has. -/
theorem Tracks.extend {e : Event} (h : Tracks ph desc tr)
    (hsome : (desc.callback e.callback).isSome) (hat : ∀ u, At ph u → At ph' (u ++ [e])) :
    Tracks ph' desc (tr ++ [e]) := by
  obtain ⟨u, hu, rfl⟩ := h
  exact ⟨u ++ [e], hat u hu, by rw [keep_append, keep_singleton hsome]⟩

theorem phase_nil : phase p i [] = (p.state i).phase := rfl

theorem phase_op_self : phase p i [.op o i] = o.phase := if_pos rfl

theorem phase_op_of_ne (h : j ≠ i) : phase p i [.op o j] = (p.state i).phase := if_neg h

theorem phase_ticking_self : phase p i [.ticking i] = .ticking := if_pos rfl

theorem phase_ticking_of_ne (h : j ≠ i) : phase p i [.ticking j] = (p.state i).phase := if_neg h

theorem Tracks.register {now : UInt32} (h : Tracks (p.state i).phase (p.desc i) tr)
    (hq : q.pluginTable = Function.update p.pluginTable j (freshSlot desc now)) :
    Tracks (q.state i).phase (q.desc i) (if some j = some i then [] else tr) := by
  rw [state_update hq, desc_update hq]
  by_cases hij : i = j
  · subst hij
    rw [if_pos rfl, if_pos rfl, if_pos rfl]
    exact ⟨[], ⟨[], [], rfl, rfl⟩, rfl⟩
  · rw [if_neg hij, if_neg hij, if_neg fun e => hij (Option.some.inj e).symm]
    exact h

/-- The operation finishes without a callback. -/
theorem Tracks.done (h : Tracks (p.state i).phase (p.desc i) tr)
    (hready : p.state j = o.during ∧ (p.desc j).callback o.callback = none ∨
      o = .unregister ∧ p.state j ≠ .active) :
    Tracks ((o.finish j .ok p).plugins.state i).phase ((o.finish j .ok p).plugins.desc i) tr := by
  rw [desc_finish, state_finish]
  by_cases hij : i = j
  · subst hij
    rw [if_pos rfl]
    obtain ⟨u, hu, rfl⟩ := h
    rcases hready with ⟨hstate, hnone⟩ | ⟨rfl, hne⟩
    · rw [hstate] at hu
      refine ⟨_, Op.at_ret (Op.at_call hu) .ok, ?_⟩
      rw [keep_append, keep_append]
      simp [keep, Event.callback, hnone]
    · exact ⟨u, hu.unregister hne, rfl⟩
  · rw [if_neg hij]
    exact h

theorem Tracks.call (h : Tracks (p.state i).phase (p.desc i) tr) (hstate : p.state j = o.during)
    (hsome : ((p.desc j).callback o.callback).isSome) :
    Tracks (phase p i [.op o j]) (p.desc i) (if j = i then tr ++ [.call o.callback] else tr) := by
  by_cases hij : j = i
  · subst hij
    rw [if_pos rfl, phase_op_self]
    rw [hstate] at h
    exact h.extend hsome fun u => Op.at_call
  · rw [if_neg hij, phase_op_of_ne hij]
    exact h

theorem Tracks.ret (h : Tracks (phase p i [.op o j]) (p.desc i) tr)
    (hsome : ((p.desc j).callback o.callback).isSome) :
    Tracks ((o.finish j r p).plugins.state i).phase ((o.finish j r p).plugins.desc i)
      (if j = i then tr ++ [.ret o.callback r] else tr) := by
  rw [desc_finish, state_finish]
  by_cases hij : j = i
  · subst hij
    rw [if_pos rfl, if_pos rfl]
    rw [phase_op_self] at h
    exact h.extend hsome fun u hu => Op.at_ret hu r
  · rw [if_neg hij, if_neg (Ne.symm hij)]
    rwa [phase_op_of_ne hij] at h

theorem Tracks.tick (h : Tracks (p.state i).phase (p.desc i) tr) (hstate : p.state j = .active)
    (hsome : ((p.desc j).callback .tick).isSome) :
    Tracks (phase p i [.ticking j]) (p.desc i) (if j = i then tr ++ [.call .tick] else tr) := by
  by_cases hij : j = i
  · subst hij
    rw [if_pos rfl, phase_ticking_self]
    rw [hstate] at h
    exact h.extend hsome fun u hu => hu.next Phase.Next.tick
  · rw [if_neg hij, phase_ticking_of_ne hij]
    exact h

theorem Tracks.tickRet (h : Tracks (phase p i [.ticking j]) (p.desc i) tr)
    (hstate : p.state j = .active) (hsome : ((p.desc j).callback .tick).isSome) :
    Tracks ((leaveTick j r p).state i).phase ((leaveTick j r p).desc i)
      (if j = i then tr ++ [.ret .tick r] else tr) := by
  rw [state_leaveTick, desc_leaveTick]
  by_cases hij : j = i
  · subst hij
    rw [if_pos rfl, hstate]
    rw [phase_ticking_self] at h
    exact h.extend hsome fun u hu => hu.next Phase.Next.ticked
  · rw [if_neg hij]
    rwa [phase_ticking_of_ne hij] at h

/-! ### Runs -/

/-- The calls of slot `i` keep to the protocol. -/
def Orderly (i : ℕ) (tr : List Event) (s : Sys F) : Prop :=
  Alone s.plugins s.stack ∧ Tracks (phase s.plugins i s.stack) (s.plugins.desc i) tr

/-- **The step lemma.** -/
theorem Orderly.step (hs : Orderly i tr s) (h : Step s a t) (hflat : Flat s a) :
    Orderly i (note i tr a) t := by
  obtain ⟨halone, htr⟩ := hs
  cases h with
  | @register p st d now reply _ hreply =>
    cases show st = [] from hflat
    subst hreply
    rw [note_register]
    rcases pluginRegister_cases d now p with ⟨hne, e⟩ | ⟨d, j, rfl, -, hfree, e⟩
    · rw [if_neg hne, e]
      exact ⟨trivial, htr⟩
    · rw [e, if_pos rfl, hfree]
      exact ⟨trivial, Tracks.register htr rfl⟩
  | @done p st o name reply _ hstart =>
    cases show st = [] from hflat
    rw [note_eq_self id rfl]
    rcases Op.start_done hstart with ⟨-, e⟩ | ⟨j, -, rfl, hready⟩
    · rw [e]
      exact ⟨trivial, htr⟩
    · exact ⟨trivial, Tracks.done htr hready⟩
  | @call p st o name j f _ hstart =>
    cases show st = [] from hflat
    obtain ⟨-, hstate, hcall⟩ := Op.start_calls hstart
    have hsome := Option.isSome_iff_exists.2 ⟨f, hcall⟩
    rw [note_call]
    exact ⟨hsome, Tracks.call htr hstate hsome⟩
  | @ret p st o j r =>
    cases st with
    | nil =>
      rw [note_ret]
      exact ⟨trivial, Tracks.ret htr halone⟩
    | cons _ _ => exact halone.elim
  | @tickAll p st _ =>
    cases show st = [] from hflat
    rw [note_eq_self id rfl]
    exact ⟨trivial, htr⟩
  | @pass p st j _ _ =>
    cases st with
    | nil =>
      rw [note_eq_self id rfl]
      exact ⟨trivial, htr⟩
    | cons _ _ => exact halone.elim
  | @tick p st j f _ hstate hcall =>
    cases st with
    | nil =>
      have hsome : ((p.desc j).callback .tick).isSome := Option.isSome_iff_exists.2 ⟨f, hcall⟩
      rw [note_tick]
      exact ⟨⟨hstate, hsome⟩, Tracks.tick htr hstate hsome⟩
    | cons _ _ => exact halone.elim
  | @tickRet p st j r =>
    cases st with
    | nil =>
      rw [note_tickRet]
      exact ⟨trivial, Tracks.tickRet htr halone.1 halone.2⟩
    | cons _ _ => exact halone.elim
  | @tickEnd p st =>
    cases st with
    | nil =>
      rw [note_eq_self id rfl]
      exact ⟨trivial, htr⟩
    | cons _ _ => exact halone.elim

theorem orderly_boot (p₀ : Plugins F) (i : ℕ) : Orderly i [] (boot p₀) :=
  ⟨trivial, [], ⟨[], [], rfl, Or.inl rfl⟩, rfl⟩

/-- The run lemma. -/
theorem Orderly.run {p₀ : Plugins F}
    (hr : Run (fun s a t => Step s a t ∧ Flat s a) (boot p₀) acts s) (i : ℕ) :
    Orderly i (trace i acts) s := by
  refine hr.history (I := fun acts s => Orderly i (trace i acts) s) (orderly_boot p₀ i) ?_
  intro acts s a t hs hstep
  unfold trace
  rw [List.foldl_append]
  exact hs.step hstep.1 hstep.2

/-- **The lifecycle of a plugin**: the calls since its registration follow the protocol, without the
callbacks that it does not have, and no cycle is open when it is loaded or unloaded. -/
theorem trace_lifecycle {p₀ : Plugins F}
    (hr : Run (fun s a t => Step s a t ∧ Flat s a) (boot p₀) acts s) (i : ℕ) :
    ∃ u, trace i acts = keep (s.plugins.desc i) u ∧ Lifecycle u ∧
      (s.stack = [] → s.plugins.state i = .loaded → Closed u) ∧
      (s.stack = [] → s.plugins.state i = .unloaded → Ended u) := by
  obtain ⟨-, u, hu, e⟩ := Orderly.run hr i
  refine ⟨u, e, hu.lifecycle, fun hst hstate => ?_, fun hst hstate => ?_⟩
  · rw [hst, phase_nil, hstate] at hu
    exact hu.closed
  · rw [hst, phase_nil, hstate] at hu
    exact hu.ended

/-- `A` is registered, activated and ticked. -/
def ticked (desc : PluginDesc ℕ) : Sys ℕ :=
  ⟨leaveTick 0 .ok ((onePlugin desc).setState 0 .active), [.loop 1]⟩

theorem run_ticked : Run (fun s a t => Step s a t ∧ Flat s a) (boot zeroPlugins)
    [.register (some (namedDesc 65 (some 1) (some 2) none)) 0 .ok [(topicPluginLoaded, 0)] (some 0),
      .call .activate (some [65]) 0 1, .ret .activate 0 .ok .ok [], .tickAll 0, .tick 0 0 2,
      .tickRet 0 .ok] (ticked (namedDesc 65 (some 1) (some 2) none)) :=
  Run.cons ⟨Step.register (by trivial) rfl, rfl⟩
    (Run.cons ⟨Step.call (by trivial) rfl, rfl⟩
      (Run.cons ⟨Step.ret, trivial⟩
        (Run.cons ⟨Step.tickAll (by trivial), rfl⟩
          (Run.cons ⟨Step.tick (by decide) rfl rfl, trivial⟩
            (Run.cons ⟨Step.tickRet, trivial⟩ (Run.nil _))))))

/-- A plugin with an `init` and a `tick`. -/
theorem trace_lifecycle_ticked : ∃ u,
    [.call .init, .ret .init .ok, .call .tick, .ret .tick .ok] =
      keep ((ticked (namedDesc 65 (some 1) (some 2) none)).plugins.desc 0) u ∧ Lifecycle u :=
  (trace_lifecycle run_ticked 0).imp fun _ h => ⟨h.1, h.2.1⟩

/-- **A plugin without an `init`** is ticked, and `init` was not called. -/
theorem uninitialised_tick :
    let acts : List (Act ℕ) :=
      [.register (some (namedDesc 65 none (some 2) none)) 0 .ok [(topicPluginLoaded, 0)] (some 0),
        .done .activate (some [65]) (some 0) .ok [], .tickAll 0, .tick 0 0 2, .tickRet 0 .ok]
    Run (fun s a t => Step s a t ∧ Flat s a) (boot zeroPlugins) acts
      (ticked (namedDesc 65 none (some 2) none)) ∧
    trace 0 acts = [.call .tick, .ret .tick .ok] ∧ ¬Lifecycle (trace 0 acts) := by
  intro acts
  have e : trace 0 acts = [.call .tick, .ret .tick .ok] := rfl
  have hstart : Op.start .activate (some [65]) (onePlugin (namedDesc 65 none (some 2) none)) =
      .done (finishActivate 0 .ok (onePlugin (namedDesc 65 none (some 2) none))) := rfl
  refine ⟨?_, e, fun h => ?_⟩
  · exact Run.cons ⟨Step.register (by trivial) rfl, rfl⟩
      (Run.cons ⟨Step.done (by trivial) hstart, rfl⟩
        (Run.cons ⟨Step.tickAll (by trivial), rfl⟩
          (Run.cons ⟨Step.tick (by decide) rfl rfl, trivial⟩
            (Run.cons ⟨Step.tickRet, trivial⟩ (Run.nil _)))))
  · rw [e] at h
    cases h.head

end Traces

end AuraOS.Kernel.Plugin
