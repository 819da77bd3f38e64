import AuraOS.Kernel.EventBus.Delivery

/-!
# Subscriptions

A handler may change the table that the inner loop of `eventbus_process` walks over.  To say which subscriptions are
called, the runs are tracked (`TStep`): every accepted `eventbus_subscribe` makes a new subscription, and every slot
knows the one that it holds.  The tracked runs are those of the bus (`run_track`).  A subscription is in one slot at
most (`Slots`), and one that is withdrawn never comes back (`Gone.run`).
-/

namespace AuraOS.Kernel.EventBus

open AuraOS.Lib

variable {H : Type}

/-! ### Tracked runs -/

/-- A subscription: what was passed to `eventbus_subscribe`, and how many came before. -/
structure Subscription (H : Type) where
  topic : UInt8
  handler : H
  serial : ℕ
  deriving DecidableEq

/-- The bus with the subscription in each slot, and the number of all subscriptions so far. -/
structure Tracked (H : Type) where
  sys : Sys H
  slot : ℕ → ℕ → Option (Subscription H)
  serial : ℕ

/-- An action, with the subscription that it makes, withdraws or calls. -/
abbrev Label (H : Type) := Act H × Option (Subscription H)

/-- The action neither changes the table nor calls a handler. -/
def Act.Silent : Act H → Prop
  | subscribe _ _ .ok | unsubscribe _ _ .ok | call _ _ => False
  | _ => True

/-- The first free slot of a topic. -/
def freeHandler (b : Bus H) (topic : UInt8) : Option ℕ :=
  first (fun h => (b.handlers topic.toNat h).isNone) eventbusMaxHandlers 0

/-- The first slot of a topic with the handler. -/
def findHandler [DecidableEq H] (b : Bus H) (topic : UInt8) (handler : Option H) : Option ℕ :=
  first (fun h => b.handlers topic.toNat h = handler) eventbusMaxHandlers 0

/-- `x` in slot `h` of the topic. -/
def setSlot (slot : ℕ → ℕ → Option (Subscription H)) (topic h : ℕ) (x : Option (Subscription H)) :
    ℕ → ℕ → Option (Subscription H) :=
  Function.update slot topic (Function.update (slot topic) h x)

/-- **The tracked steps.** -/
inductive TStep [DecidableEq H] : Tracked H → Label H → Tracked H → Prop
  | subscribe {b : Bus H} {c : Control} {slot : ℕ → ℕ → Option (Subscription H)} {n h : ℕ} {topic : UInt8} {f : H} :
      c.IsClient → topic.toNat < eventbusMaxTopics → freeHandler b topic = some h →
      TStep ⟨⟨b, c⟩, slot, n⟩ (.subscribe topic (some f) .ok, some ⟨topic, f, n⟩)
        ⟨⟨setHandler b topic.toNat h (some f), c⟩, setSlot slot topic.toNat h (some ⟨topic, f, n⟩), n + 1⟩
  | unsubscribe {b : Bus H} {c : Control} {slot : ℕ → ℕ → Option (Subscription H)} {n h : ℕ} {topic : UInt8} {f : H} :
      c.IsClient → topic.toNat < eventbusMaxTopics → findHandler b topic (some f) = some h →
      TStep ⟨⟨b, c⟩, slot, n⟩ (.unsubscribe topic (some f) .ok, slot topic.toNat h)
        ⟨⟨setHandler b topic.toNat h none, c⟩, setSlot slot topic.toNat h none, n⟩
  | call {b : Bus H} {slot : ℕ → ℕ → Option (Subscription H)} {n h : ℕ} {evt : AuraEvent} {f : H} :
      h < eventbusMaxHandlers → b.handlers evt.topic.toNat h = some f →
      TStep ⟨⟨b, .scan evt h⟩, slot, n⟩ (.call f evt, slot evt.topic.toNat h) ⟨⟨b, .handler evt h⟩, slot, n⟩
  | silent {s t : Sys H} {a : Act H} {slot : ℕ → ℕ → Option (Subscription H)} {n : ℕ} : a.Silent → Step s a t →
      TStep ⟨s, slot, n⟩ (a, none) ⟨t, slot, n⟩

/-- The state after `eventbus_init`. -/
def tracked (b₀ : Bus H) : Tracked H := ⟨boot b₀, fun _ _ => none, 0⟩

section Tracking

variable {b b' : Bus H} {s t : Sys H} {a : Act H} {x y : Tracked H} {l : Label H}
  {acts : List (Act H)} {ls : List (Label H)}

/-- **`eventbus_subscribe`** takes the first free slot, or is refused and changes nothing. -/
theorem eventbusSubscribe_spec (topic : UInt8) (handler : Option H) (b : Bus H) :
    (∃ f h, handler = some f ∧ topic.toNat < eventbusMaxTopics ∧ freeHandler b topic = some h ∧
      eventbusSubscribe topic handler b = (.ok, setHandler b topic.toNat h (some f))) ∨
    ∃ res, res ≠ .ok ∧ eventbusSubscribe topic handler b = (res, b) := by
  unfold eventbusSubscribe
  split
  next => exact Or.inr ⟨.err, nofun, rfl⟩
  next h =>
    cases handler with
    | none => simp at h
    | some f =>
      cases hfree : freeHandler b topic with
      | none =>
        unfold freeHandler at hfree
        rw [hfree]
        exact Or.inr ⟨.noslot, nofun, rfl⟩
      | some i =>
        refine Or.inl ⟨f, i, rfl, ?_, rfl, ?_⟩
        · simpa using h
        · unfold freeHandler at hfree
          rw [hfree]

variable [DecidableEq H]

/-- **`eventbus_unsubscribe`** empties the first slot with the handler, or is refused and changes nothing. -/
theorem eventbusUnsubscribe_spec (topic : UInt8) (handler : Option H) (b : Bus H) :
    (∃ f h, handler = some f ∧ topic.toNat < eventbusMaxTopics ∧ findHandler b topic (some f) = some h ∧
      eventbusUnsubscribe topic handler b = (.ok, setHandler b topic.toNat h none)) ∨
    ∃ res, res ≠ .ok ∧ eventbusUnsubscribe topic handler b = (res, b) := by
  unfold eventbusUnsubscribe
  split
  next => exact Or.inr ⟨.err, nofun, rfl⟩
  next h =>
    cases handler with
    | none => simp at h
    | some f =>
      cases hfind : findHandler b topic (some f) with
      | none =>
        unfold findHandler at hfind
        rw [hfind]
        exact Or.inr ⟨.notfound, nofun, rfl⟩
      | some i =>
        refine Or.inl ⟨f, i, rfl, ?_, hfind, ?_⟩
        · simpa using h
        · unfold findHandler at hfind
          rw [hfind]

/-- A silent action carries no subscription. -/
theorem TStep.untracked {z : Option (Subscription H)} (h : TStep x (a, z) y) (ha : a.Silent) : z = none := by
  cases h with
  | subscribe _ _ _ => exact absurd ha id
  | unsubscribe _ _ _ => exact absurd ha id
  | call _ _ => exact absurd ha id
  | silent _ _ => rfl

/-- **Every step of the bus can be tracked.** -/
theorem Step.track (h : Step s a t) (slot : ℕ → ℕ → Option (Subscription H)) (n : ℕ) :
    ∃ z slot' n', TStep ⟨s, slot, n⟩ (a, z) ⟨t, slot', n'⟩ := by
  cases h with
  | @subscribe b b' c topic handler res hc e =>
    rcases eventbusSubscribe_spec topic handler b with ⟨f, i, rfl, ht, hfree, e'⟩ | ⟨res', hres, e'⟩
    · cases e.symm.trans e'
      exact ⟨_, _, _, TStep.subscribe hc ht hfree⟩
    · obtain ⟨rfl, rfl⟩ := Prod.mk.inj (e.symm.trans e')
      refine ⟨_, _, _, TStep.silent ?_ (Step.subscribe hc e)⟩
      cases res <;> first | exact trivial | exact absurd rfl hres
  | @unsubscribe b b' c topic handler res hc e =>
    rcases eventbusUnsubscribe_spec topic handler b with ⟨f, i, rfl, ht, hfind, e'⟩ | ⟨res', hres, e'⟩
    · cases e.symm.trans e'
      exact ⟨_, _, _, TStep.unsubscribe hc ht hfind⟩
    · obtain ⟨rfl, rfl⟩ := Prod.mk.inj (e.symm.trans e')
      refine ⟨_, _, _, TStep.silent ?_ (Step.unsubscribe hc e)⟩
      cases res <;> first | exact trivial | exact absurd rfl hres
  | call hlt hf => exact ⟨_, _, _, TStep.call hlt hf⟩
  | publish hc e => exact ⟨_, _, _, TStep.silent trivial (Step.publish hc e)⟩
  | process => exact ⟨_, _, _, TStep.silent trivial Step.process⟩
  | dispatch hq ht => exact ⟨_, _, _, TStep.silent trivial (Step.dispatch hq ht)⟩
  | drop hq ht => exact ⟨_, _, _, TStep.silent trivial (Step.drop hq ht)⟩
  | skip hlt hf => exact ⟨_, _, _, TStep.silent trivial (Step.skip hlt hf)⟩
  | ret => exact ⟨_, _, _, TStep.silent trivial Step.ret⟩
  | next => exact ⟨_, _, _, TStep.silent trivial Step.next⟩
  | done hq => exact ⟨_, _, _, TStep.silent trivial (Step.done hq)⟩

/-- **The tracked runs are the runs of the bus.** -/
theorem run_track (h : Run Step s acts t) (slot : ℕ → ℕ → Option (Subscription H)) (n : ℕ) :
    ∃ ls y, ls.map Prod.fst = acts ∧ y.sys = t ∧ Run TStep ⟨s, slot, n⟩ ls y := by
  induction h generalizing slot n with
  | nil s => exact ⟨[], _, rfl, rfl, Run.nil _⟩
  | cons hstep _ ih =>
    obtain ⟨z, slot', n', htrack⟩ := hstep.track slot n
    obtain ⟨ls, y, hls, hy, hrun⟩ := ih slot' n'
    exact ⟨_ :: ls, y, congrArg _ hls, hy, Run.cons htrack hrun⟩

end Tracking

/-! ### The slots -/

/-- **What holds of the slots in every state.** -/
structure Slots (x : Tracked H) : Prop where
  handler : ∀ t h, x.sys.bus.handlers t h = (x.slot t h).map Subscription.handler
  topic : ∀ t h σ, x.slot t h = some σ → σ.topic.toNat = t
  serial : ∀ t h σ, x.slot t h = some σ → σ.serial < x.serial
  inj : ∀ t h t' h' σ, x.slot t h = some σ → x.slot t' h' = some σ → t = t' ∧ h = h'

/-- The subscription is in no slot any more. -/
def Gone (σ : Subscription H) (x : Tracked H) : Prop := σ.serial < x.serial ∧ ∀ t h, x.slot t h ≠ some σ

/-- The subscription that is called. -/
def called : Label H → Option (Subscription H)
  | (.call _ _, σ) => σ
  | _ => none

/-- The subscription that is withdrawn. -/
def withdrawn : Label H → Option (Subscription H)
  | (.unsubscribe _ _ .ok, σ) => σ
  | _ => none

theorem called_none (a : Act H) : called (a, none) = none := by
  unfold called
  split
  next e =>
    cases e
    rfl
  next => rfl

theorem withdrawn_none (a : Act H) : withdrawn (a, none) = none := by
  unfold withdrawn
  split
  next e =>
    cases e
    rfl
  next => rfl

theorem called_of_withdrawn {l : Label H} {σ : Subscription H} (h : withdrawn l = some σ) : called l = none := by
  unfold withdrawn at h
  split at h
  · rfl
  · cases h

section Slots

variable {b : Bus H} {slot : ℕ → ℕ → Option (Subscription H)} {σ : Subscription H} {x y : Tracked H} {l : Label H}
  {ls : List (Label H)} {z : Option (Subscription H)} {t h t' h' : ℕ}

theorem setSlot_apply : setSlot slot t h z t' h' = if t' = t ∧ h' = h then z else slot t' h' := by
  unfold setSlot
  by_cases ht : t' = t
  · subst ht
    rw [Function.update_self]
    by_cases hh : h' = h
    · rw [hh, Function.update_self, if_pos ⟨rfl, rfl⟩]
    · rw [Function.update_of_ne hh, if_neg fun e => hh e.2]
  · rw [Function.update_of_ne ht, if_neg fun e => ht e.1]

theorem setHandler_apply {f : Option H} :
    (setHandler b t h f).handlers t' h' = if t' = t ∧ h' = h then f else b.handlers t' h' := by
  unfold setHandler
  dsimp only
  by_cases ht : t' = t
  · subst ht
    rw [Function.update_self]
    by_cases hh : h' = h
    · rw [hh, Function.update_self, if_pos ⟨rfl, rfl⟩]
    · rw [Function.update_of_ne hh, if_neg fun e => hh e.2]
  · rw [Function.update_of_ne ht, if_neg fun e => ht e.1]

/-- A slot without a handler holds no subscription. -/
theorem Slots.slot_eq_none (hs : Slots x) (h : x.sys.bus.handlers t h' = none) : x.slot t h' = none := by
  rw [hs.handler] at h
  exact Option.map_eq_none_iff.1 h

/-- One with a handler holds a subscription of it. -/
theorem Slots.exists_slot {f : H} (hs : Slots x) (h : x.sys.bus.handlers t h' = some f) :
    ∃ σ, x.slot t h' = some σ ∧ σ.handler = f := by
  rw [hs.handler] at h
  exact Option.map_eq_some_iff.1 h

theorem slots_tracked (b₀ : Bus H) : Slots (tracked b₀) := by
  constructor <;> intros <;> first | rfl | contradiction

theorem freeHandler_spec {topic : UInt8} (hfree : freeHandler b topic = some h) :
    h < eventbusMaxHandlers ∧ b.handlers topic.toNat h = none := by
  have hfirst := first_eq_some_iff.1 hfree
  simp at hfirst
  exact ⟨hfirst.1, hfirst.2.1⟩

variable [DecidableEq H]

theorem findHandler_spec {topic : UInt8} {f : H} (hfind : findHandler b topic (some f) = some h) :
    h < eventbusMaxHandlers ∧ b.handlers topic.toNat h = some f := by
  have hfirst := first_eq_some_iff.1 hfind
  simp at hfirst
  exact ⟨hfirst.1, hfirst.2.1⟩

/-- A silent step leaves the table alone. -/
theorem Step.handlers_eq {s t : Sys H} {a : Act H} (h : Step s a t) (ha : a.Silent) :
    t.bus.handlers = s.bus.handlers := by
  cases h with
  | @publish b b' c topic data now res _ e =>
    unfold eventbusPublish at e
    split at e
    · cases e
      rfl
    · split at e <;> cases e <;> rfl
  | @subscribe b b' c topic handler res _ e =>
    rcases eventbusSubscribe_spec topic handler b with ⟨f, i, -, -, -, e'⟩ | ⟨res', -, e'⟩
    · cases e.symm.trans e'
      exact absurd ha id
    · cases e.symm.trans e'
      rfl
  | @unsubscribe b b' c topic handler res _ e =>
    rcases eventbusUnsubscribe_spec topic handler b with ⟨f, i, -, -, -, e'⟩ | ⟨res', -, e'⟩
    · cases e.symm.trans e'
      exact absurd ha id
    · cases e.symm.trans e'
      rfl
  | process => rfl
  | dispatch _ _ => rfl
  | drop _ _ => rfl
  | call _ _ => rfl
  | skip _ _ => rfl
  | ret => rfl
  | next => rfl
  | done _ => rfl

/-- The step lemma. -/
theorem Slots.step (hs : Slots x) (hstep : TStep x l y) : Slots y := by
  obtain ⟨hhandler, htopic, hserial, hinj⟩ := hs
  cases hstep with
  | @subscribe b c slot n h topic f hc ht hfree =>
    dsimp only at hhandler htopic hserial hinj
    -- the new subscription is in no slot
    have hnew : ∀ t' h', slot t' h' ≠ some ⟨topic, f, n⟩ := by
      intro t' h' e
      exact Nat.lt_irrefl n (hserial t' h' _ e)
    refine ⟨?_, ?_, ?_, ?_⟩
    · intro t' h'
      dsimp only
      rw [setHandler_apply, setSlot_apply]
      split
      · rfl
      · exact hhandler t' h'
    · intro t' h' σ e
      dsimp only at e
      rw [setSlot_apply] at e
      split at e
      next hth =>
        cases e
        exact hth.1.symm
      next => exact htopic t' h' σ e
    · intro t' h' σ e
      dsimp only at e ⊢
      rw [setSlot_apply] at e
      split at e
      · cases e
        exact Nat.lt_succ_self n
      · exact Nat.lt_succ_of_lt (hserial t' h' σ e)
    · intro t₁ h₁ t₂ h₂ σ e₁ e₂
      dsimp only at e₁ e₂
      rw [setSlot_apply] at e₁ e₂
      split at e₁ <;> split at e₂
      next g₁ g₂ => exact ⟨g₁.1.trans g₂.1.symm, g₁.2.trans g₂.2.symm⟩
      next =>
        cases e₁
        exact absurd e₂ (hnew t₂ h₂)
      next =>
        cases e₂
        exact absurd e₁ (hnew t₁ h₁)
      next => exact hinj t₁ h₁ t₂ h₂ σ e₁ e₂
  | @unsubscribe b c slot n h topic f hc ht hfind =>
    dsimp only at hhandler htopic hserial hinj
    have hold : ∀ {t' h' σ}, setSlot slot topic.toNat h none t' h' = some σ → slot t' h' = some σ := by
      intro t' h' σ e
      rw [setSlot_apply] at e
      split at e
      · cases e
      · exact e
    refine ⟨?_, ?_, ?_, ?_⟩
    · intro t' h'
      dsimp only
      rw [setHandler_apply, setSlot_apply]
      split
      · rfl
      · exact hhandler t' h'
    · intro t' h' σ e
      exact htopic t' h' σ (hold e)
    · intro t' h' σ e
      exact hserial t' h' σ (hold e)
    · intro t₁ h₁ t₂ h₂ σ e₁ e₂
      exact hinj t₁ h₁ t₂ h₂ σ (hold e₁) (hold e₂)
  | call _ _ => exact ⟨hhandler, htopic, hserial, hinj⟩
  | silent ha h =>
    refine ⟨?_, htopic, hserial, hinj⟩
    intro t' h'
    rw [h.handlers_eq ha]
    exact hhandler t' h'

theorem slots_of_run {b₀ : Bus H} (hr : Run TStep (tracked b₀) ls x) : Slots x :=
  hr.invariant (fun _ _ _ hs h => hs.step h) (slots_tracked b₀)

/-- **A subscription that is withdrawn** is gone. -/
theorem TStep.gone (hs : Slots x) (hstep : TStep x l y) (hl : withdrawn l = some σ) : Gone σ y := by
  cases hstep with
  | @unsubscribe b c slot n h topic f hc ht hfind =>
    dsimp only [withdrawn] at hl
    refine ⟨hs.serial _ _ _ hl, ?_⟩
    intro t' h' e
    dsimp only at e
    rw [setSlot_apply] at e
    split at e
    · cases e
    · next hne => exact hne (hs.inj _ _ _ _ σ e hl)
  | subscribe _ _ _ => cases hl
  | call _ _ => cases hl
  | silent _ _ =>
    rw [withdrawn_none] at hl
    cases hl

/-- It stays so, and it is not called any more. -/
theorem Gone.step (hg : Gone σ x) (hstep : TStep x l y) : Gone σ y ∧ called l ≠ some σ := by
  obtain ⟨hserial, hslot⟩ := hg
  cases hstep with
  | @subscribe b c slot n h topic f hc ht hfree =>
    refine ⟨⟨Nat.lt_succ_of_lt hserial, ?_⟩, nofun⟩
    intro t' h' e
    dsimp only at e
    rw [setSlot_apply] at e
    split at e
    · cases e
      exact Nat.lt_irrefl n hserial
    · exact hslot t' h' e
  | @unsubscribe b c slot n h topic f hc ht hfind =>
    refine ⟨⟨hserial, ?_⟩, nofun⟩
    intro t' h' e
    dsimp only at e
    rw [setSlot_apply] at e
    split at e
    · cases e
    · exact hslot t' h' e
  | call _ _ => exact ⟨⟨hserial, hslot⟩, hslot _ _⟩
  | @silent s t a slot n ha h =>
    refine ⟨⟨hserial, hslot⟩, ?_⟩
    rw [called_none]
    nofun

theorem Gone.run (hg : Gone σ x) (hr : Run TStep x ls y) : σ ∉ ls.filterMap called := by
  induction hr with
  | nil x => exact List.not_mem_nil
  | @cons x y z l ls hstep _ ih =>
    obtain ⟨hg', hne⟩ := hg.step hstep
    rw [List.mem_filterMap]
    rintro ⟨l', hmem, hl'⟩
    rcases List.mem_cons.1 hmem with rfl | hmem
    · exact hne hl'
    · exact ih hg' (List.mem_filterMap.2 ⟨l', hmem, hl'⟩)

end Slots

end AuraOS.Kernel.EventBus
