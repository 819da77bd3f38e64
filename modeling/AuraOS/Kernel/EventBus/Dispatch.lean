import AuraOS.Kernel.EventBus.Tracking
import AuraOS.Lib.Count
import Mathlib.Data.List.Nodup

/-!
# Dispatch to the subscribers

The inner loop of `eventbus_process` passes the slots in their order, and a subscription never moves; so one that stays
is called once, and one that is withdrawn ahead of the loop is not called.  This is proved of the tracked runs
(`reaches_of_run`); since every run of the bus can be tracked, it holds of these (`dispatch_reaches`).
-/

namespace AuraOS.Kernel.EventBus

open AuraOS.Lib

variable {H : Type}

/-! ### One dispatch -/

/-- The number of slots that the inner loop has passed. -/
def Control.position : Control → ℕ
  | idle | drain => 0
  | scan _ h => h
  | handler _ h => h + 1

/-- **What holds in the dispatch of `evt`**, which started in the state `u`, after the steps `ls`. -/
structure Within (u : Tracked H) (evt : AuraEvent) (ls : List (Label H)) (x : Tracked H) : Prop where
  slots : Slots x
  event : x.sys.control.event = some evt
  nodup : (ls.filterMap called).Nodup
  serial : ∀ σ ∈ ls.filterMap called, σ.serial < x.serial
  ahead : ∀ h σ, x.sys.control.position ≤ h → x.slot evt.topic.toNat h = some σ → σ ∉ ls.filterMap called
  kept : ∀ h < eventbusMaxHandlers, ∀ σ, u.slot evt.topic.toNat h = some σ → σ ∉ ls.filterMap withdrawn →
    x.slot evt.topic.toNat h = some σ ∧ (h < x.sys.control.position → σ ∈ ls.filterMap called)
  topic : ∀ f evt' z, (.call f evt', z) ∈ ls →
    evt' = evt ∧ ∃ σ, z = some σ ∧ σ.topic = evt.topic ∧ σ.handler = f

section Within

variable {u x y : Tracked H} {evt : AuraEvent} {l : Label H} {ls : List (Label H)} {s t : Sys H} {a : Act H}
  {σ : Subscription H}

theorem filterMap_append_of_none {α β : Type} {g : α → Option β} {a : α} (l : List α) (h : g a = none) :
    (l ++ [a]).filterMap g = l.filterMap g := by
  rw [List.filterMap_append]
  simp [h]

theorem filterMap_append_of_some {α β : Type} {g : α → Option β} {a : α} {b : β} (l : List α) (h : g a = some b) :
    (l ++ [a]).filterMap g = l.filterMap g ++ [b] := by
  rw [List.filterMap_append]
  simp [h]

/-- **A step that calls no handler**: what is new is not yet called, and what is not withdrawn stays. -/
theorem Within.of_uncalled (hw : Within u evt ls x) (hslots : Slots y) (hevent : y.sys.control.event = some evt)
    (hl : called l = none) (hcall : ∀ f evt', l.1 ≠ .call f evt') (hserial : x.serial ≤ y.serial)
    (hahead : ∀ h σ, y.sys.control.position ≤ h → y.slot evt.topic.toNat h = some σ →
      x.serial ≤ σ.serial ∨ x.sys.control.position ≤ h ∧ x.slot evt.topic.toNat h = some σ)
    (hkept : ∀ h σ, x.slot evt.topic.toNat h = some σ → withdrawn l ≠ some σ → y.slot evt.topic.toNat h = some σ)
    (hpos : ∀ h σ, x.slot evt.topic.toNat h = some σ → h < y.sys.control.position → h < x.sys.control.position) :
    Within u evt (ls ++ [l]) y := by
  have hcalled : (ls ++ [l]).filterMap called = ls.filterMap called := filterMap_append_of_none ls hl
  refine ⟨hslots, hevent, hcalled ▸ hw.nodup, ?_, ?_, ?_, ?_⟩
  · intro σ hσ
    exact Nat.lt_of_lt_of_le (hw.serial σ (hcalled ▸ hσ)) hserial
  · intro h σ hp e hσ
    rw [hcalled] at hσ
    rcases hahead h σ hp e with hnew | ⟨hp', e'⟩
    · exact Nat.not_lt.2 hnew (hw.serial σ hσ)
    · exact hw.ahead h σ hp' e' hσ
  · intro h hlt σ e hσ
    rw [List.filterMap_append, List.mem_append, not_or] at hσ
    obtain ⟨e', hp⟩ := hw.kept h hlt σ e hσ.1
    rw [hcalled]
    refine ⟨hkept h σ e' ?_, fun hlt' => hp (hpos h σ e' hlt')⟩
    intro hwith
    apply hσ.2
    simp [hwith]
  · intro f evt' z hmem
    rw [List.mem_append, List.mem_singleton] at hmem
    rcases hmem with hmem | rfl
    · exact hw.topic f evt' z hmem
    · exact absurd rfl (hcall f evt')

/-- **A step that calls a handler**: the subscription of the slot, which was not called before. -/
theorem Within.of_call {b : Bus H} {slot : ℕ → ℕ → Option (Subscription H)} {n h : ℕ} {f : H}
    (hw : Within u evt ls ⟨⟨b, .scan evt h⟩, slot, n⟩) (hσ : slot evt.topic.toNat h = some σ) (hf : σ.handler = f) :
    Within u evt (ls ++ [(.call f evt, some σ)]) ⟨⟨b, .handler evt h⟩, slot, n⟩ := by
  obtain ⟨⟨hhandler, htopic', hserial', hinj⟩, -, hnodup, hserial, hahead, hkept, htopic⟩ := hw
  have hcalled : (ls ++ [((.call f evt, some σ) : Label H)]).filterMap called = ls.filterMap called ++ [σ] :=
    filterMap_append_of_some ls rfl
  have hwith : (ls ++ [((.call f evt, some σ) : Label H)]).filterMap withdrawn = ls.filterMap withdrawn :=
    filterMap_append_of_none ls rfl
  have hnew : σ ∉ ls.filterMap called := hahead h σ (Nat.le_refl h) hσ
  refine ⟨⟨hhandler, htopic', hserial', hinj⟩, rfl, ?_, ?_, ?_, ?_, ?_⟩
  · rw [hcalled, List.nodup_append]
    refine ⟨hnodup, by simp, ?_⟩
    intro τ hτ τ' hτ'
    rw [List.mem_singleton.1 hτ']
    rintro rfl
    exact hnew hτ
  · intro τ hτ
    rw [hcalled, List.mem_append, List.mem_singleton] at hτ
    rcases hτ with hτ | rfl
    · exact hserial τ hτ
    · exact hserial' _ _ _ hσ
  · intro h' τ hp e
    rw [hcalled, List.mem_append, List.mem_singleton, not_or]
    refine ⟨hahead h' τ (Nat.le_of_succ_le hp) e, ?_⟩
    rintro rfl
    -- a subscription is in one slot only
    have hslot := (hinj _ _ _ _ τ hσ e).2
    subst hslot
    exact Nat.lt_irrefl h hp
  · intro h' hlt τ e hτ
    rw [hwith] at hτ
    rw [hcalled]
    obtain ⟨e', hp⟩ := hkept h' hlt τ e hτ
    refine ⟨e', ?_⟩
    intro hpos
    rw [List.mem_append, List.mem_singleton]
    rcases Nat.lt_succ_iff_lt_or_eq.1 hpos with hpos | rfl
    · exact Or.inl (hp hpos)
    · exact Or.inr (Option.some.inj (e'.symm.trans hσ))
  · intro g evt' z hmem
    rw [List.mem_append, List.mem_singleton] at hmem
    rcases hmem with hmem | hmem
    · exact htopic g evt' z hmem
    · cases hmem
      refine ⟨rfl, σ, rfl, ?_, hf⟩
      exact UInt8.toNat_inj.1 (htopic' _ _ _ hσ)

variable [DecidableEq H]

/-- Where a silent step leads to, in a dispatch. -/
theorem Step.dispatch_cases (h : Step s a t) (ha : a.Silent) (hevt : s.control.event = some evt) (hnext : a ≠ .next) :
    t.control.event = some evt ∧ (t.control.position = s.control.position ∨
      s.bus.handlers evt.topic.toNat s.control.position = none ∧
        t.control.position = s.control.position + 1) := by
  cases h with
  | publish _ _ => exact ⟨hevt, Or.inl rfl⟩
  | subscribe _ _ => exact ⟨hevt, Or.inl rfl⟩
  | unsubscribe _ _ => exact ⟨hevt, Or.inl rfl⟩
  | process => cases hevt
  | dispatch _ _ => cases hevt
  | drop _ _ => cases hevt
  | call _ _ => exact absurd ha id
  | skip _ hf =>
    cases hevt
    exact ⟨rfl, Or.inr ⟨hf, rfl⟩⟩
  | ret => exact ⟨hevt, Or.inl rfl⟩
  | next => exact absurd rfl hnext
  | done _ => cases hevt

/-- **The step lemma.** -/
theorem Within.step (hw : Within u evt ls x) (hstep : TStep x l y) (hnext : l.1 ≠ .next) :
    Within u evt (ls ++ [l]) y := by
  have hslots' := hw.slots.step hstep
  have hevent := hw.event
  cases hstep with
  | @subscribe b c slot n h topic f hc ht hfree =>
    -- the slot that is filled was empty, and the subscription is new
    have hnone : slot topic.toNat h = none := hw.slots.slot_eq_none (freeHandler_spec hfree).2
    refine hw.of_uncalled hslots' hevent rfl nofun (Nat.le_succ n) ?_ ?_ fun _ _ _ => id
    · intro h' σ hp e
      dsimp only at e
      rw [setSlot_apply] at e
      split at e
      · cases e
        exact Or.inl (Nat.le_refl n)
      · exact Or.inr ⟨hp, e⟩
    · intro h' σ e _
      dsimp only at e ⊢
      rw [setSlot_apply, if_neg]
      · exact e
      · rintro ⟨h1, rfl⟩
        rw [h1, hnone] at e
        cases e
  | @unsubscribe b c slot n h topic f hc ht hfind =>
    refine hw.of_uncalled hslots' hevent rfl nofun (Nat.le_refl n) ?_ ?_ fun _ _ _ => id
    · intro h' σ hp e
      dsimp only at e
      rw [setSlot_apply] at e
      split at e
      · cases e
      · exact Or.inr ⟨hp, e⟩
    · intro h' σ e hσ
      dsimp only at e ⊢
      rw [setSlot_apply, if_neg]
      · exact e
      · rintro ⟨h1, rfl⟩
        rw [h1] at e
        exact hσ e
  | @call b slot n h evt' f hlt hf =>
    cases hevent
    obtain ⟨σ, hσ, hσf⟩ := hw.slots.exists_slot hf
    dsimp only at hσ
    rw [hσ]
    exact hw.of_call hσ hσf
  | @silent s t a slot n ha h =>
    obtain ⟨hevent', hpos⟩ := h.dispatch_cases ha hevent hnext
    refine hw.of_uncalled hslots' hevent' (called_none a) ?_ (Nat.le_refl n) ?_ (fun _ _ e _ => e) ?_
    · rintro f evt' rfl
      exact ha
    · intro h' σ hp e
      dsimp only at hp ⊢
      refine Or.inr ⟨?_, e⟩
      rcases hpos with hpos | ⟨-, hpos⟩ <;> omega
    · intro h' σ e hlt
      dsimp only at hlt ⊢
      rcases hpos with hpos | ⟨hnone, hpos⟩
      · omega
      · rw [hpos] at hlt
        apply Nat.lt_of_le_of_ne (Nat.le_of_lt_succ hlt)
        rintro rfl
        -- the slot that is passed is empty
        rw [hw.slots.slot_eq_none hnone] at e
        cases e

end Within

/-! ### Handlers by number -/

/-- The handler is subscribed to the topic. -/
def Act.subscribesTo [DecidableEq H] (topic : UInt8) (f : H) : Act H → Bool
  | subscribe t (some g) .ok => decide (t = topic ∧ g = f)
  | _ => false

/-- The handler is unsubscribed from the topic. -/
def Act.unsubscribesFrom [DecidableEq H] (topic : UInt8) (f : H) : Act H → Bool
  | unsubscribe t (some g) .ok => decide (t = topic ∧ g = f)
  | _ => false

/-- The handler is called. -/
def Act.callsHandler [DecidableEq H] (f : H) : Act H → Bool
  | call g _ => decide (g = f)
  | _ => false

/-- The action changes the table. -/
def Act.Mutates : Act H → Prop
  | subscribe _ _ .ok | unsubscribe _ _ .ok => True
  | _ => False

/-- The number of the labels with the property. -/
def number (p : Act H → Bool) (ls : List (Label H)) : ℕ := ls.countP fun l => p l.1

/-- The number of the slots of the topic with the handler. -/
def holders [DecidableEq H] (b : Bus H) (topic : UInt8) (f : H) : ℕ :=
  count (fun h => decide (b.handlers topic.toNat h = some f)) eventbusMaxHandlers

/-- The number of the subscriptions of the topic that are in place. -/
def inPlace (x : Tracked H) (topic : UInt8) : ℕ :=
  count (fun h => (x.slot topic.toNat h).isSome) eventbusMaxHandlers

/-- What holds after the steps `ls` of a dispatch, if they leave the table alone. -/
structure Still [DecidableEq H] (u : Tracked H) (evt : AuraEvent) (f : H) (ls : List (Label H)) (x : Tracked H) :
    Prop where
  table : x.sys.bus.handlers = u.sys.bus.handlers
  event : x.sys.control.event = some evt
  calls : number (Act.callsHandler f) ls =
    count (fun h => decide (u.sys.bus.handlers evt.topic.toNat h = some f)) x.sys.control.position

section Numbers

variable {u x y : Tracked H} {evt : AuraEvent} {l : Label H} {ls : List (Label H)} {b : Bus H}
  {topic topic' : UInt8} {f : H} {h : ℕ}

theorem number_append (p : Act H → Bool) (ls : List (Label H)) (l : Label H) :
    number p (ls ++ [l]) = number p ls + (p l.1).toNat := by
  unfold number
  rw [List.countP_append]
  cases h : p l.1 <;> simp [h]

/-- **A subscription is refused** exactly if all slots of its topic are taken; and nothing changes then. -/
theorem eventbusSubscribe_refused_iff (hs : Slots x) (ht : topic.toNat < eventbusMaxTopics) (f : H) :
    ((eventbusSubscribe topic (some f) x.sys.bus).1 ≠ .ok ↔ inPlace x topic = eventbusMaxHandlers) ∧
      ((eventbusSubscribe topic (some f) x.sys.bus).1 ≠ .ok →
        eventbusSubscribe topic (some f) x.sys.bus = (.noslot, x.sys.bus)) := by
  have hiff : freeHandler x.sys.bus topic = none ↔ inPlace x topic = eventbusMaxHandlers := by
    unfold freeHandler inPlace
    rw [first_eq_none_iff, count_eq_iff]
    simp [hs.handler, Option.isSome_iff_ne_none]
  unfold eventbusSubscribe
  rw [if_neg (by simp [ht])]
  cases hfree : freeHandler x.sys.bus topic with
  | none =>
    have hin := hiff.1 hfree
    unfold freeHandler at hfree
    rw [hfree]
    exact ⟨iff_of_true nofun hin, fun _ => rfl⟩
  | some h =>
    have hin : inPlace x topic ≠ eventbusMaxHandlers := by
      rw [Ne, ← hiff, hfree]
      nofun
    unfold freeHandler at hfree
    rw [hfree]
    exact ⟨iff_of_false (not_not_intro rfl) hin, fun h => absurd rfl h⟩

variable [DecidableEq H]

/-- One slot changes. -/
theorem holders_setHandler (b : Bus H) (topic topic' : UInt8) (f : H) (hlt : h < eventbusMaxHandlers) (z : Option H) :
    holders (setHandler b topic'.toNat h z) topic f +
        (decide (topic' = topic ∧ b.handlers topic'.toNat h = some f)).toNat =
      holders b topic f + (decide (topic' = topic ∧ z = some f)).toNat := by
  unfold holders
  by_cases ht : topic' = topic
  · subst ht
    have hkey := count_update (p := fun h => decide (b.handlers topic'.toNat h = some f))
      (q := fun h' => decide ((setHandler b topic'.toNat h z).handlers topic'.toNat h' = some f)) hlt ?_
    · rw [setHandler_apply, if_pos ⟨rfl, rfl⟩] at hkey
      simpa using hkey
    · intro i _ hi
      rw [setHandler_apply, if_neg fun e => hi e.2]
  · have hne : topic.toNat ≠ topic'.toNat := fun e => ht (UInt8.toNat_inj.1 e).symm
    have hkey : ∀ h' < eventbusMaxHandlers,
        decide ((setHandler b topic'.toNat h z).handlers topic.toNat h' = some f) =
          decide (b.handlers topic.toNat h' = some f) := by
      intro h' _
      rw [setHandler_apply, if_neg fun e => hne e.1]
    rw [count_congr hkey]
    simp [ht]

/-- The step lemma. -/
theorem TStep.holders (hstep : TStep x l y) (topic : UInt8) (f : H) :
    EventBus.holders y.sys.bus topic f + (l.1.unsubscribesFrom topic f).toNat =
      EventBus.holders x.sys.bus topic f + (l.1.subscribesTo topic f).toNat := by
  cases hstep with
  | @subscribe b c slot n h topic' g hc ht hfree =>
    obtain ⟨hlt, hempty⟩ := freeHandler_spec hfree
    have hkey := holders_setHandler b topic topic' f hlt (some g)
    rw [hempty] at hkey
    simpa [Act.unsubscribesFrom, Act.subscribesTo] using hkey
  | @unsubscribe b c slot n h topic' g hc ht hfind =>
    obtain ⟨hlt, hin⟩ := findHandler_spec hfind
    have hkey := holders_setHandler b topic topic' f hlt none
    rw [hin] at hkey
    simpa [Act.unsubscribesFrom, Act.subscribesTo] using hkey
  | call _ _ => rfl
  | @silent s t a slot n ha h =>
    have h1 : a.unsubscribesFrom topic f = false := by
      unfold Act.unsubscribesFrom
      split
      · exact absurd ha id
      · rfl
    have h2 : a.subscribesTo topic f = false := by
      unfold Act.subscribesTo
      split
      · exact absurd ha id
      · rfl
    have h3 : EventBus.holders t.bus topic f = EventBus.holders s.bus topic f := by
      unfold EventBus.holders
      rw [h.handlers_eq ha]
    rw [h1, h2, h3]

/-- **The slots with a handler** are its subscribes less its unsubscribes. -/
theorem holders_of_run {b₀ : Bus H} (hr : Run TStep (tracked b₀) ls x) (topic : UInt8) (f : H) :
    holders x.sys.bus topic f + number (Act.unsubscribesFrom topic f) ls = number (Act.subscribesTo topic f) ls := by
  refine hr.history (I := fun ls x => holders x.sys.bus topic f + number (Act.unsubscribesFrom topic f) ls =
    number (Act.subscribesTo topic f) ls) ?_ ?_
  · have hzero : holders (tracked b₀).sys.bus topic f = count (fun _ => false) eventbusMaxHandlers :=
      count_congr fun i _ => rfl
    rw [hzero]
    rfl
  · intro ls x l y ih hstep
    have := hstep.holders topic f
    rw [number_append, number_append]
    omega

/-- The step lemma of a dispatch that leaves the table alone. -/
theorem Still.step (hs : Still u evt f ls x) (hstep : TStep x l y) (hnext : l.1 ≠ .next) (hl : ¬l.1.Mutates) :
    Still u evt f (ls ++ [l]) y := by
  obtain ⟨htable, hevent, hcalls⟩ := hs
  cases hstep with
  | subscribe _ _ _ => exact absurd trivial hl
  | unsubscribe _ _ _ => exact absurd trivial hl
  | @call b slot n h evt' g hlt hg =>
    cases hevent
    refine ⟨htable, rfl, ?_⟩
    rw [number_append, hcalls]
    dsimp only [Control.position]
    rw [count_succ, ← htable]
    dsimp only
    rw [hg]
    simp [Act.callsHandler]
  | @silent s t a slot n ha h =>
    obtain ⟨hevent', hpos⟩ := h.dispatch_cases ha hevent hnext
    have hno : a.callsHandler f = false := by
      unfold Act.callsHandler
      split
      · exact absurd ha id
      · rfl
    refine ⟨(h.handlers_eq ha).trans htable, hevent', ?_⟩
    rw [number_append, hcalls, hno]
    dsimp only
    rcases hpos with hpos | ⟨hnone, hpos⟩
    · rw [hpos]
      rfl
    · rw [hpos, count_succ, ← htable]
      dsimp only
      rw [hnone]
      rfl

end Numbers

/-! ### Who is reached -/

/-- **Who is called** in the dispatch of `evt`, which started in the state `u` behind the steps `pre` and took the
steps `seg`. -/
structure Reaches [DecidableEq H] (pre : List (Label H)) (u : Tracked H) (evt : AuraEvent) (seg : List (Label H)) :
    Prop where
  /-- a subscription that is in place and stays is called once -/
  stays : ∀ h < eventbusMaxHandlers, ∀ σ, u.slot evt.topic.toNat h = some σ → σ ∉ seg.filterMap withdrawn →
    (seg.filterMap called).count σ = 1
  /-- one that is withdrawn before it was called is not called -/
  goes : ∀ seg₁ l seg₂ σ, seg = seg₁ ++ l :: seg₂ → withdrawn l = some σ → σ ∉ seg₁.filterMap called →
    σ ∉ seg.filterMap called
  /-- what is called is a subscription of the topic, with the event -/
  topic : ∀ f evt' z, (.call f evt', z) ∈ seg → evt' = evt ∧ ∃ σ, z = some σ ∧ σ.topic = evt.topic ∧ σ.handler = f
  /-- if the table is left alone, a handler is called as often as it is subscribed -/
  still : (∀ l ∈ seg, ¬l.1.Mutates) → ∀ f, number (Act.callsHandler f) seg +
    number (Act.unsubscribesFrom evt.topic f) pre = number (Act.subscribesTo evt.topic f) pre

section Reaches

variable [DecidableEq H] {u v w x y : Tracked H} {evt : AuraEvent} {pre seg ls : List (Label H)} {b₀ : Bus H}

/-- The inner loop begins. -/
theorem TStep.dispatch_spec (h : TStep u (.dispatch evt, none) v) :
    v.sys.control = .scan evt 0 ∧ v.slot = u.slot ∧ v.sys.bus.handlers = u.sys.bus.handlers := by
  cases h with
  | silent _ h =>
    cases h with
    | dispatch _ _ => exact ⟨rfl, rfl, rfl⟩

/-- It ends behind the last slot. -/
theorem TStep.next_spec (h : TStep x (.next, none) y) : x.sys.control.position = eventbusMaxHandlers := by
  cases h with
  | silent _ h =>
    cases h with
    | next => rfl

/-- **The run lemma.** -/
theorem run_within {I : List (Label H) → Tracked H → Prop} {P : Label H → Prop} (hnil : I [] v)
    (hstep : ∀ ls x l y, I ls x → TStep x l y → P l → I (ls ++ [l]) y) (hr : Run TStep v seg x)
    (hP : ∀ l ∈ seg, P l) : I seg x := by
  refine hr.history (I := fun ls x => (∀ l ∈ ls, P l) → I ls x) (fun _ => hnil) ?_ hP
  intro ls x l y ih h hP
  have hP' : (∀ l ∈ ls, P l) ∧ P l := by simpa [or_imp, forall_and] using hP
  exact hstep ls x l y (ih hP'.1) h hP'.2

/-- **Dispatch in a tracked run.** -/
theorem reaches_of_run (hr : Run TStep (tracked b₀) pre u)
    (hrun : Run TStep u ((.dispatch evt, none) :: (seg ++ [(.next, none)])) w) (hnext : ∀ l ∈ seg, l.1 ≠ .next) :
    Reaches pre u evt seg := by
  have hslots := slots_of_run hr
  obtain ⟨v, hdispatch, hrest⟩ := Run.cons_iff.1 hrun
  obtain ⟨x, hseg, hlast⟩ := Run.append_iff.1 hrest
  obtain ⟨y, hstop, -⟩ := Run.cons_iff.1 hlast
  obtain ⟨hcontrol, hslot, htable⟩ := hdispatch.dispatch_spec
  have hend := hstop.next_spec
  have hslots' := hslots.step hdispatch
  have hstart : Within u evt [] v := by
    refine ⟨hslots', by rw [hcontrol]; rfl, List.nodup_nil, nofun, nofun, ?_, nofun⟩
    intro h _ σ e _
    rw [hslot, hcontrol]
    exact ⟨e, fun hlt => absurd hlt (Nat.not_lt_zero h)⟩
  have hw := run_within hstart (fun _ _ _ _ hw h hn => hw.step h hn) hseg hnext
  refine ⟨?_, ?_, hw.topic, ?_⟩
  · intro h hlt σ e hσ
    obtain ⟨-, hcalled⟩ := hw.kept h hlt σ e hσ
    rw [hend] at hcalled
    exact List.count_eq_one_of_mem hw.nodup (hcalled hlt)
  · rintro seg₁ l seg₂ σ rfl hl hσ
    obtain ⟨x₁, h₁, h₂⟩ := Run.append_iff.1 hseg
    obtain ⟨x₂, hstep, h₃⟩ := Run.cons_iff.1 h₂
    have hslots₁ := h₁.invariant (fun _ _ _ hs h => hs.step h) hslots'
    have hgone := (hstep.gone hslots₁ hl).run h₃
    rw [List.filterMap_append, List.filterMap_cons_none (called_of_withdrawn hl), List.mem_append, not_or]
    exact ⟨hσ, hgone⟩
  · intro hstill f
    have hzero : Still u evt f [] v := by
      refine ⟨htable, by rw [hcontrol]; rfl, ?_⟩
      rw [hcontrol]
      rfl
    have hs := run_within (P := fun l => l.1 ≠ .next ∧ ¬l.1.Mutates) hzero
      (fun _ _ _ _ hs h hP => hs.step h hP.1 hP.2) hseg fun l hl => ⟨hnext l hl, hstill l hl⟩
    have hcalls := hs.calls
    rw [hend] at hcalls
    rw [hcalls]
    exact holders_of_run hr evt.topic f

/-- **Dispatch reaches exactly the subscribers**, in every state in which an event is taken off the queue, and
whatever the handlers do to the table.  The run so far, and the dispatch, are tracked to say which subscriptions are
in place, withdrawn and called. -/
theorem dispatch_reaches {acts : List (Act H)} {s : Sys H} (hr : Run Step (boot b₀) acts s) :
    ∃ pre u, Run TStep (tracked b₀) pre u ∧ pre.map Prod.fst = acts ∧ u.sys = s ∧
      (∀ evt seg t, Run Step s (.dispatch evt :: (seg ++ [.next])) t → (∀ a ∈ seg, a ≠ .next) →
        ∃ seg' w, Run TStep u ((.dispatch evt, none) :: (seg' ++ [(.next, none)])) w ∧
          seg'.map Prod.fst = seg ∧ w.sys = t ∧ Reaches pre u evt seg') ∧
      ∀ topic f, topic.toNat < eventbusMaxTopics →
        ((eventbusSubscribe topic (some f) s.bus).1 ≠ .ok ↔ inPlace u topic = eventbusMaxHandlers) ∧
        ((eventbusSubscribe topic (some f) s.bus).1 ≠ .ok →
          eventbusSubscribe topic (some f) s.bus = (.noslot, s.bus)) := by
  obtain ⟨pre, u, hpre, rfl, hrun⟩ := run_track hr (fun _ _ => none) 0
  refine ⟨pre, u, hrun, hpre, rfl, ?_, fun topic f ht => eventbusSubscribe_refused_iff (slots_of_run hrun) ht f⟩
  intro evt seg t hdispatch hnext
  obtain ⟨ls, w, hls, hw, htrack⟩ := run_track hdispatch u.slot u.serial
  -- the labels of the dispatch and of its end carry no subscription
  obtain ⟨⟨a, z⟩, ls', rfl, rfl, hls'⟩ := List.map_eq_cons_iff.1 hls
  obtain ⟨seg', ls'', rfl, hseg, hlast⟩ := List.map_eq_append_iff.1 hls'
  obtain ⟨⟨a', z'⟩, rfl, rfl⟩ := List.map_eq_singleton_iff.1 hlast
  obtain ⟨v, hstart, hrest⟩ := Run.cons_iff.1 htrack
  obtain ⟨x, -, hend⟩ := Run.append_iff.1 hrest
  obtain ⟨y, hstop, -⟩ := Run.cons_iff.1 hend
  obtain rfl := hstart.untracked trivial
  obtain rfl := hstop.untracked trivial
  refine ⟨seg', w, htrack, hseg, hw, reaches_of_run hrun htrack fun l hl => ?_⟩
  exact hnext l.1 (hseg ▸ List.mem_map_of_mem hl)

end Reaches

/-! ### A handler that withdraws another one -/

/-- Handlers 7 and 8 are subscribed to topic 1, and an event is published. -/
def pairBus : Bus ℕ :=
  let b := (eventbusSubscribe 1 (some 7) (eventbusInit zeroBus)).2
  let b := (eventbusSubscribe 1 (some 8) b).2
  (eventbusPublish 1 42 5 b).2

def pairActs : List (Act ℕ) :=
  [.subscribe 1 (some 7) .ok, .subscribe 1 (some 8) .ok, .publish 1 42 5 .ok, .process]

theorem run_pairActs : Run Step (boot zeroBus) pairActs ⟨pairBus, .drain⟩ := by
  refine Run.cons (Step.subscribe trivial rfl) (Run.cons (Step.subscribe trivial rfl) ?_)
  exact Run.cons (Step.publish trivial rfl) (Run.cons Step.process (Run.nil _))

/-- Handler 7 withdraws handler 8, and the loop passes seven empty slots. -/
def pairSeg : List (Act ℕ) :=
  [.call 7 ⟨1, 42, 5⟩, .unsubscribe 1 (some 8) .ok, .ret] ++ List.replicate 7 .skip

/-- The bus behind the dispatch. -/
def soloBus : Bus ℕ := (eventbusUnsubscribe 1 (some 8) (dequeue pairBus)).2

theorem run_pairSeg : Run Step ⟨pairBus, .drain⟩ (.dispatch ⟨1, 42, 5⟩ :: (pairSeg ++ [.next])) ⟨soloBus, .drain⟩ := by
  have hskips : Run Step ⟨soloBus, .scan ⟨1, 42, 5⟩ 1⟩ (List.replicate 7 .skip) ⟨soloBus, .scan ⟨1, 42, 5⟩ 8⟩ :=
    run_skips (by decide) (by decide)
  have hhead : Run Step ⟨dequeue pairBus, .scan ⟨1, 42, 5⟩ 0⟩
      [.call 7 ⟨1, 42, 5⟩, .unsubscribe 1 (some 8) .ok, .ret] ⟨soloBus, .scan ⟨1, 42, 5⟩ 1⟩ := by
    refine Run.cons (Step.call (by decide) rfl) (Run.cons (Step.unsubscribe trivial rfl) ?_)
    exact Run.cons Step.ret (Run.nil _)
  have hlast : Run Step ⟨soloBus, .scan ⟨1, 42, 5⟩ 8⟩ [.next] ⟨soloBus, .drain⟩ :=
    Run.cons Step.next (Run.nil _)
  exact Run.cons (Step.dispatch (by decide) (by decide)) ((hhead.append hskips).append hlast)

/-- Handler 7 is called once, and handler 8 is not. -/
theorem dispatch_reaches_pairSeg : ∃ pre u seg' w, Run TStep (tracked zeroBus) pre u ∧ pre.map Prod.fst = pairActs ∧
    u.sys = ⟨pairBus, .drain⟩ ∧ Run TStep u ((.dispatch ⟨1, 42, 5⟩, none) :: (seg' ++ [(.next, none)])) w ∧
    seg'.map Prod.fst = pairSeg ∧ w.sys = ⟨soloBus, .drain⟩ ∧ Reaches pre u ⟨1, 42, 5⟩ seg' := by
  obtain ⟨pre, u, hrun, hpre, hu, hdispatch, -⟩ := dispatch_reaches run_pairActs
  obtain ⟨seg', w, hseg⟩ := hdispatch _ _ _ run_pairSeg (by simp [pairSeg])
  exact ⟨pre, u, seg', w, hrun, hpre, hu, hseg⟩

end AuraOS.Kernel.EventBus
