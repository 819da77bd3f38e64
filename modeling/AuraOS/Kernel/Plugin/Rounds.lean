import AuraOS.Kernel.Plugin.Slots

/-!
# The rounds of `plugin_tick_all`

A call of `plugin_tick_all` visits the slots one after the other, whatever the callbacks do meanwhile, and
also if they call it again: a nested call works higher up on the stack, and its labels carry another depth.
So a plugin that is active, and that no operation makes inactive meanwhile, is ticked exactly once
(`round_ticks_once`).
-/

namespace AuraOS.Kernel.Plugin

open AuraOS.Lib

variable {F : Type}

/-- `plugin_tick_all` calls the `tick` of slot `i`. -/
def Act.ticks (depth i : ℕ) : Act F → Bool
  | .tick d j _ => d = depth ∧ j = i
  | _ => false

/-- `plugin_tick_all` passes slot `i`. -/
def Act.passes (depth i : ℕ) : Act F → Bool
  | .pass d j => d = depth ∧ j = i
  | _ => false

/-- The slot that `plugin_tick_all` at this depth visits. -/
def Act.visits (depth : ℕ) : Act F → Option ℕ
  | .tick d j _ => if d = depth then some j else none
  | .pass d j => if d = depth then some j else none
  | _ => none

/-- The step does not belong to the call of `plugin_tick_all` at this depth. -/
def Act.Spares (depth : ℕ) (a : Act F) : Prop := a.visits depth = none ∧ a ≠ .tickEnd depth

/-- An operation on the plugin in slot `i` ends. -/
def Act.Ends (i : ℕ) : Act F → Prop
  | .done _ _ slot res _ => slot = some i ∧ res = .ok
  | .ret _ j _ _ _ => j = i
  | _ => False

/-- The slots visited at this depth. -/
def visited (depth : ℕ) (acts : List (Act F)) : List ℕ := acts.filterMap (Act.visits depth)

/-- The call of `plugin_tick_all` on top of `base` has visited the slots below `n`: it is about to go on,
or waits for the `tick` that it called last. -/
def Inside (base : List Frame) (n : ℕ) (st : List Frame) : Prop :=
  st = .loop n :: base ∨ ∃ above k, n = k + 1 ∧ st = above ++ .ticking k :: base

section Rounds

variable {s t : Sys F} {a : Act F} {acts : List (Act F)} {base above st : List Frame} {f : Frame}
  {n k i depth : ℕ}

/-! ### What a step does to the stack -/

/-- A client calls, or the innermost call goes on, at its own depth. -/
theorem Step.stack_cases (h : Step s a t) (depth : ℕ) :
    (a.Spares depth ∧ (t.stack = s.stack ∨ ∃ f, t.stack = f :: s.stack)) ∨
    ∃ f st, s.stack = f :: st ∧ (t.stack = st ∨ ∃ f', t.stack = f' :: st) ∧
      (depth ≠ st.length → a.Spares depth) := by
  cases h with
  | register _ _ => exact Or.inl ⟨⟨rfl, nofun⟩, Or.inl rfl⟩
  | done _ _ => exact Or.inl ⟨⟨rfl, nofun⟩, Or.inl rfl⟩
  | call _ _ => exact Or.inl ⟨⟨rfl, nofun⟩, Or.inr ⟨_, rfl⟩⟩
  | ret => exact Or.inr ⟨_, _, rfl, Or.inl rfl, fun _ => ⟨rfl, nofun⟩⟩
  | tickAll _ => exact Or.inl ⟨⟨rfl, nofun⟩, Or.inr ⟨_, rfl⟩⟩
  | pass _ _ => exact Or.inr ⟨_, _, rfl, Or.inr ⟨_, rfl⟩, fun hne => ⟨if_neg (Ne.symm hne), nofun⟩⟩
  | tick _ _ _ =>
    exact Or.inr ⟨_, _, rfl, Or.inr ⟨_, rfl⟩, fun hne => ⟨if_neg (Ne.symm hne), nofun⟩⟩
  | tickRet => exact Or.inr ⟨_, _, rfl, Or.inr ⟨_, rfl⟩, fun _ => ⟨rfl, nofun⟩⟩
  | tickEnd =>
    refine Or.inr ⟨_, _, rfl, Or.inl rfl, fun hne => ⟨rfl, ?_⟩⟩
    rintro ⟨⟩
    exact hne rfl

/-- The loop goes on. -/
theorem Step.of_loop (h : Step s a t) (hst : s.stack = .loop n :: base) :
    (a.visits base.length = some n ∧ n < pluginMax ∧ Inside base (n + 1) t.stack) ∨
    (a = .tickEnd base.length ∧ n = pluginMax) := by
  cases h with
  | register hclient _ =>
    cases hst
    exact hclient.elim
  | done hclient _ =>
    cases hst
    exact hclient.elim
  | call hclient _ =>
    cases hst
    exact hclient.elim
  | tickAll hclient =>
    cases hst
    exact hclient.elim
  | ret => cases hst
  | tickRet => cases hst
  | pass hlt _ =>
    cases hst
    exact Or.inl ⟨if_pos rfl, hlt, Or.inl rfl⟩
  | tick hlt _ _ =>
    cases hst
    exact Or.inl ⟨if_pos rfl, hlt, Or.inr ⟨[], n, rfl, rfl⟩⟩
  | tickEnd =>
    cases hst
    exact Or.inr ⟨rfl, rfl⟩

/-- While the call waits for a `tick`, the other steps happen above it on the stack. -/
theorem Step.of_ticking (h : Step s a t) (hst : s.stack = above ++ .ticking k :: base) :
    a.Spares base.length ∧ Inside base (k + 1) t.stack := by
  cases above with
  | nil =>
    cases h with
    | register _ _ => exact ⟨⟨rfl, nofun⟩, Or.inr ⟨[], k, rfl, hst⟩⟩
    | done _ _ => exact ⟨⟨rfl, nofun⟩, Or.inr ⟨[], k, rfl, hst⟩⟩
    | call _ _ => exact ⟨⟨rfl, nofun⟩, Or.inr ⟨[_], k, rfl, congrArg _ hst⟩⟩
    | tickAll _ => exact ⟨⟨rfl, nofun⟩, Or.inr ⟨[_], k, rfl, congrArg _ hst⟩⟩
    | tickRet =>
      cases hst
      exact ⟨⟨rfl, nofun⟩, Or.inl rfl⟩
    | ret => cases hst
    | pass _ _ => cases hst
    | tick _ _ _ => cases hst
    | tickEnd => cases hst
  | cons g above =>
    rcases h.stack_cases base.length with ⟨hspares, ht⟩ | ⟨f, st, hst', ht, hspares⟩
    · refine ⟨hspares, Or.inr ?_⟩
      rcases ht with ht | ⟨f, ht⟩
      · exact ⟨g :: above, k, rfl, ht.trans hst⟩
      · exact ⟨f :: g :: above, k, rfl, ht.trans (congrArg _ hst)⟩
    · obtain ⟨-, rfl⟩ := List.cons.inj (hst'.symm.trans hst)
      refine ⟨hspares (by simp; omega), Or.inr ?_⟩
      rcases ht with ht | ⟨f', ht⟩
      · exact ⟨above, k, rfl, ht⟩
      · exact ⟨f' :: above, k, rfl, ht⟩

/-- **The step lemma**: the call visits the next slot, or it returns after the last slot, or the step is
none of its own. -/
theorem Inside.step (h : Inside base n s.stack) (hstep : Step s a t) :
    (a.Spares base.length ∧ Inside base n t.stack) ∨
    (a.visits base.length = some n ∧ n < pluginMax ∧ Inside base (n + 1) t.stack) ∨
    (a = .tickEnd base.length ∧ n = pluginMax) := by
  rcases h with hst | ⟨above, k, rfl, hst⟩
  · exact Or.inr (hstep.of_loop hst)
  · exact Or.inl (hstep.of_ticking hst)

/-! ### What a call visits -/

/-- The run lemma: until it returns, the call visits slots one after the other. -/
theorem Inside.run (hr : Run Step s acts t) (h : Inside base n s.stack)
    (hend : .tickEnd base.length ∉ acts) :
    ∃ m, Inside base m t.stack ∧ visited base.length acts = List.range' n (m - n) ∧ n ≤ m := by
  induction hr generalizing n with
  | nil s => exact ⟨n, h, by simp [visited], Nat.le_refl n⟩
  | @cons s t u a as hstep _ ih =>
    have hrest : .tickEnd base.length ∉ as := fun hmem => hend (List.mem_cons_of_mem _ hmem)
    rcases h.step hstep with ⟨⟨hnone, -⟩, ht⟩ | ⟨hsome, hlt, ht⟩ | ⟨rfl, -⟩
    · obtain ⟨m, hm, e, hle⟩ := ih ht hrest
      refine ⟨m, hm, ?_, hle⟩
      unfold visited at e ⊢
      rw [List.filterMap_cons_none hnone, e]
    · obtain ⟨m, hm, e, hle⟩ := ih ht hrest
      refine ⟨m, hm, ?_, by omega⟩
      unfold visited at e ⊢
      rw [List.filterMap_cons_some hsome, e, show m - n = m - (n + 1) + 1 by omega, List.range'_succ]
    · exact absurd List.mem_cons_self hend

/-- **A round**: from its call to its return, `plugin_tick_all` visits every slot once, in order. -/
theorem visited_round (hr : Run Step s (.tickAll depth :: acts ++ [.tickEnd depth]) t)
    (hend : .tickEnd depth ∉ acts) : visited depth acts = List.range pluginMax := by
  obtain ⟨u, hcall, hrest⟩ := Run.cons_iff.1 hr
  obtain ⟨v, hround, hlast⟩ := Run.append_iff.1 hrest
  obtain ⟨t', hreturn, -⟩ := Run.cons_iff.1 hlast
  clear hr hrest hlast
  cases hcall
  obtain ⟨m, hm, e, -⟩ := Inside.run hround (Or.inl rfl) hend
  rcases hm.step hreturn with ⟨⟨-, hne⟩, -⟩ | ⟨hsome, -, -⟩ | ⟨-, rfl⟩
  · exact absurd rfl hne
  · cases hsome
  · rw [e, Nat.sub_zero, List.range_eq_range']

/-- The loop passes slots that are not due. -/
theorem run_pass {p : Plugins F} (m : ℕ) (hm : n + m ≤ pluginMax)
    (hdue : ∀ i, n ≤ i → i < n + m → ¬Due p i) :
    Run Step ⟨p, .loop n :: st⟩ ((List.range' n m).map (.pass st.length)) ⟨p, .loop (n + m) :: st⟩ := by
  induction m generalizing n with
  | zero => exact Run.nil _
  | succ m ih =>
    rw [List.range'_succ, List.map_cons, show n + (m + 1) = n + 1 + m by omega]
    exact Run.cons (Step.pass (by omega) (hdue n (Nat.le_refl n) (by omega)))
      (ih (by omega) fun i h1 h2 => hdue i (by omega) (by omega))

/-- A visit of a slot ticks its plugin, or passes it. -/
theorem count_visited (depth i : ℕ) (acts : List (Act F)) : (visited depth acts).count i =
    acts.countP (Act.ticks depth i) + acts.countP (Act.passes depth i) := by
  induction acts with
  | nil => rfl
  | cons a as ih =>
    unfold visited at ih ⊢
    cases a with
    | tick d j f =>
      by_cases hd : d = depth <;> by_cases hj : j = i <;>
        simp [Act.visits, Act.ticks, Act.passes, hd, hj, ih]
      omega
    | pass d j =>
      by_cases hd : d = depth <;> by_cases hj : j = i <;>
        simp [Act.visits, Act.ticks, Act.passes, hd, hj, ih]
      omega
    | _ => simpa [Act.visits, Act.ticks, Act.passes, List.filterMap_cons] using ih

/-- A plugin that is active all the time is not passed. -/
theorem countP_passes_eq_zero (depth : ℕ)
    (hr : Run (fun s a t => Step s a t ∧ Due s.plugins i) s acts t) :
    acts.countP (Act.passes depth i) = 0 := by
  induction hr with
  | nil => rfl
  | @cons s t u a as hstep _ ih =>
    obtain ⟨h, hdue⟩ := hstep
    rw [List.countP_cons, ih]
    cases h with
    | @pass p st j _ hnot =>
      have hj : j ≠ i := by
        rintro rfl
        exact hnot hdue
      simp [Act.passes, hj]
    | _ => rfl

/-- Only the operations on a plugin make it inactive: a failure of another plugin does not. -/
theorem Step.due (h : Step s a t) (hdue : Due s.plugins i) (hends : a.Ends i → Due t.plugins i) :
    Due t.plugins i := by
  rcases h.slot_cases i with ⟨-, e⟩ | htouch
  · unfold Due Plugins.state Plugins.desc at hdue ⊢
    rw [e]
    exact hdue
  · have hdue' := hdue
    unfold Due Plugins.state Plugins.desc at hdue'
    generalize hslot : s.plugins.pluginTable i = slot at htouch hdue'
    generalize hslot' : t.plugins.pluginTable i = slot' at htouch
    cases htouch with
    | register hfree =>
      rw [hfree] at hdue'
      cases hdue'.1
    | done _ _ => exact hends ⟨rfl, rfl⟩
    | ret => exact hends rfl
    | tickRet =>
      unfold Due Plugins.state Plugins.desc
      rw [hslot']
      exact hdue'

/-- **In a round every active plugin is ticked exactly once**, unless an operation on it ends its
activity. -/
theorem round_ticks_once (hi : i < pluginMax) (hend : .tickEnd depth ∉ acts) (hdue : Due s.plugins i)
    (hr : Run (fun s a t => Step s a t ∧ (a.Ends i → Due t.plugins i)) s
      (.tickAll depth :: acts ++ [.tickEnd depth]) t) : acts.countP (Act.ticks depth i) = 1 := by
  have hactive := hr.and_invariant (I := fun s => Due s.plugins i)
    (fun _ _ _ hdue h => h.1.due hdue h.2) hdue
  have hcount := count_visited depth i acts
  have hpass := countP_passes_eq_zero depth (hactive.mono fun _ _ _ h => ⟨h.1.1, h.2⟩)
  rw [visited_round (hr.mono fun _ _ _ h => h.1) hend, List.count_range, if_pos hi] at hcount
  simp only [List.cons_append, List.countP_cons, List.countP_append] at hpass
  omega

end Rounds

end AuraOS.Kernel.Plugin
