import AuraOS.Kernel.EventBus.Defs
import AuraOS.Lib.Ring

/-!
# Delivery of events

The queue of the event bus is a ring (`IsRing`), so it is a list of pending events: an accepted
`eventbus_publish` appends to the list, a refused one changes nothing, and `eventbus_process` takes the
first event off.  Hence in every run, whatever the handlers do, the accepted events are the dispatched
ones followed by the pending ones (`run_delivers`).
-/

namespace AuraOS.Kernel.EventBus

open AuraOS.Lib

variable {H : Type}

/-- The queue of `b` is the ring `r`. -/
abbrev IsRing (b : Bus H) (r : Ring AuraEvent eventbusQueueDepth) : Prop :=
  r.Is b.queue b.qHead.toNat b.qTail.toNat b.qCount.toNat

section Queue

variable {b b' : Bus H} {r : Ring AuraEvent eventbusQueueDepth}

theorem isRing_eventbusInit (b : Bus H) :
    IsRing (eventbusInit b) (Ring.empty b.queue (by decide)) := Ring.is_empty b.queue _

/-- Two buses with the same queue are the same ring. -/
theorem IsRing.congr (h : IsRing b r) (hq : b'.queue = b.queue) (hh : b'.qHead = b.qHead)
    (ht : b'.qTail = b.qTail) (hc : b'.qCount = b.qCount) : IsRing b' r :=
  ⟨hq ▸ h.buf, hh ▸ h.head, ht ▸ h.tail, hc ▸ h.count⟩

theorem toNat_ofNat_mod (n : ℕ) : (UInt8.ofNat (n % eventbusQueueDepth)).toNat = n % 64 := by
  rw [UInt8.toNat_ofNat']
  change n % 64 % 256 = n % 64
  omega

/-- **`eventbus_publish`** appends to the queue, or refuses and changes nothing. -/
theorem eventbusPublish_spec (h : IsRing b r) (topic : UInt8) (data now : UInt32) :
    (eventbusPublish topic data now b = (.err, b) ∧ 32 ≤ topic.toNat) ∨
    (eventbusPublish topic data now b = (.busy, b) ∧ topic.toNat < 32 ∧ b.qCount.toNat = 64) ∨
    ∃ (b' : Bus H) (hc : r.count < 64), eventbusPublish topic data now b = (.ok, b') ∧
      topic.toNat < 32 ∧ IsRing b' (r.push ⟨topic, data, now⟩ hc) := by
  unfold eventbusPublish
  by_cases ht : eventbusMaxTopics ≤ topic.toNat
  · rw [if_pos ht]
    exact Or.inl ⟨rfl, ht⟩
  rw [if_neg ht]
  have ht' : topic.toNat < 32 := Nat.lt_of_not_le ht
  have hle : r.count ≤ 64 := r.count_le
  have hcount := h.count
  by_cases hc : eventbusQueueDepth ≤ b.qCount.toNat
  · rw [if_pos hc]
    change 64 ≤ b.qCount.toNat at hc
    exact Or.inr (Or.inl ⟨rfl, ht', by omega⟩)
  · rw [if_neg hc]
    change ¬64 ≤ b.qCount.toNat at hc
    have hlt : r.count < 64 := by omega
    have hpush := h.push hlt ⟨topic, data, now⟩
    refine Or.inr (Or.inr ⟨_, hlt, rfl, ht', hpush.buf, hpush.head, ?_, ?_⟩)
    · change (UInt8.ofNat ((b.qTail.toNat + 1) % eventbusQueueDepth)).toNat = _
      rw [toNat_ofNat_mod]
      exact hpush.tail
    · change (b.qCount + 1).toNat = r.count + 1
      rw [UInt32.toNat_add, hcount]
      change (r.count + 1) % 2 ^ 32 = r.count + 1
      omega

/-- **Taking an event off** takes the oldest one. -/
theorem dequeue_spec (h : IsRing b r) (hc : 0 < b.qCount.toNat) :
    ∃ r', IsRing (dequeue b) r' ∧ r.toList = nextEvent b :: r'.toList := by
  have hc' : 0 < r.count := h.count ▸ hc
  have hpop := h.pop hc'
  refine ⟨r.pop hc', ⟨hpop.buf, ?_, hpop.tail, ?_⟩, h.toList_pop hc'⟩
  · change (UInt8.ofNat ((b.qHead.toNat + 1) % eventbusQueueDepth)).toNat = _
    rw [toNat_ofNat_mod]
    exact hpop.head
  · change (b.qCount - 1).toNat = _
    have hone : (1 : UInt32) ≤ b.qCount := hc
    rw [UInt32.toNat_sub_of_le _ _ hone]
    exact hpop.count

theorem isRing_eventbusSubscribe (h : IsRing b r) (topic : UInt8) (handler : Option H) :
    IsRing (eventbusSubscribe topic handler b).2 r := by
  unfold eventbusSubscribe
  split
  · exact h
  · split
    · exact h.congr rfl rfl rfl rfl
    · exact h

theorem isRing_eventbusUnsubscribe [DecidableEq H] (h : IsRing b r) (topic : UInt8)
    (handler : Option H) : IsRing (eventbusUnsubscribe topic handler b).2 r := by
  unfold eventbusUnsubscribe
  split
  · exact h
  · split
    · exact h.congr rfl rfl rfl rfl
    · exact h

end Queue

/-! ### Traces -/

/-- The event that a step puts into the queue. -/
def Act.accepted : Act H → Option AuraEvent
  | publish topic data now .ok => some ⟨topic, data, now⟩
  | _ => none

/-- The event that a step takes off the queue. -/
def Act.dispatched : Act H → Option AuraEvent
  | dispatch evt => some evt
  | _ => none

/-- The events that `eventbus_publish` accepted, in order. -/
def accepted (acts : List (Act H)) : List AuraEvent := acts.filterMap Act.accepted

/-- The events that `eventbus_process` dispatched, in order. -/
def dispatched (acts : List (Act H)) : List AuraEvent := acts.filterMap Act.dispatched

section Runs

variable {b₀ : Bus H} {s t : Sys H} {a : Act H} {acts : List (Act H)}

/-- What holds after the steps `acts`: the queue holds the events that were accepted and not yet
dispatched, all with a topic, and the event being dispatched is the last one. -/
structure Inv (acts : List (Act H)) (s : Sys H) : Prop where
  ring : ∃ r, IsRing s.bus r ∧ accepted acts = dispatched acts ++ r.toList
  topics : ∀ evt ∈ accepted acts, evt.topic.toNat < eventbusMaxTopics
  current : ∀ evt, s.control.event = some evt → (dispatched acts).getLast? = some evt

theorem inv_boot (b₀ : Bus H) : Inv [] (boot b₀) :=
  ⟨⟨_, isRing_eventbusInit b₀, rfl⟩, nofun, nofun⟩

/-- A step that neither accepts nor dispatches keeps the two lists. -/
theorem Inv.of_silent {c : Control} {b : Bus H} (hi : Inv acts s) (hacc : a.accepted = none)
    (hdis : a.dispatched = none) (hring : ∀ r, IsRing s.bus r → IsRing b r)
    (hevent : ∀ evt, c.event = some evt → s.control.event = some evt) : Inv (acts ++ [a]) ⟨b, c⟩ := by
  obtain ⟨⟨r, hr, e⟩, htop, hcur⟩ := hi
  have hacc' : accepted (acts ++ [a]) = accepted acts := by simp [accepted, hacc]
  have hdis' : dispatched (acts ++ [a]) = dispatched acts := by simp [dispatched, hdis]
  refine ⟨⟨r, hring r hr, by rw [hacc', hdis', e]⟩, hacc' ▸ htop, fun evt he => ?_⟩
  rw [hdis']
  exact hcur evt (hevent evt he)

/-- The pending events have a topic. -/
theorem Inv.topic_lt (hi : Inv acts s) (hc : 0 < s.bus.qCount.toNat) :
    (nextEvent s.bus).topic.toNat < eventbusMaxTopics := by
  obtain ⟨⟨r, hr, e⟩, htop, -⟩ := hi
  obtain ⟨r', -, hlist⟩ := dequeue_spec hr hc
  apply htop
  rw [e, hlist]
  simp

/-- Taking the oldest event off moves it from the pending events to the dispatched ones. -/
theorem Inv.of_dispatch {b : Bus H} (hi : Inv acts ⟨b, .drain⟩) (hc : 0 < b.qCount.toNat) :
    Inv (acts ++ [.dispatch (nextEvent b)]) ⟨dequeue b, .scan (nextEvent b) 0⟩ := by
  obtain ⟨⟨r, hr, e⟩, htop, -⟩ := hi
  obtain ⟨r', hr', hlist⟩ := dequeue_spec hr hc
  have hacc : accepted (acts ++ [.dispatch (nextEvent b)]) = accepted acts := by
    simp [accepted, Act.accepted]
  have hdis : dispatched (acts ++ [.dispatch (nextEvent b)]) = dispatched acts ++ [nextEvent b] := by
    simp [dispatched, Act.dispatched]
  refine ⟨⟨r', hr', ?_⟩, hacc ▸ htop, fun evt he => ?_⟩
  · rw [hacc, hdis, e, hlist, List.append_assoc]
    rfl
  · rw [hdis, ← he]
    simp [Control.event]

/-- **The step lemma.** -/
theorem Inv.step [DecidableEq H] (hi : Inv acts s) (h : Step s a t) : Inv (acts ++ [a]) t := by
  cases h with
  | @publish b b' c topic data now res _ e =>
    obtain ⟨r, hr, hacc⟩ := hi.ring
    rcases eventbusPublish_spec hr topic data now with ⟨e', -⟩ | ⟨e', -⟩ | ⟨b'', hlt, e', ht, hr'⟩
    · cases e.symm.trans e'
      exact hi.of_silent rfl rfl (fun _ h => h) fun _ h => h
    · cases e.symm.trans e'
      exact hi.of_silent rfl rfl (fun _ h => h) fun _ h => h
    · cases e.symm.trans e'
      have hacc' : accepted (acts ++ [.publish topic data now .ok]) =
          accepted acts ++ [⟨topic, data, now⟩] := by
        simp [accepted, Act.accepted]
      have hdis : dispatched (acts ++ [.publish topic data now .ok]) = dispatched acts := by
        simp [dispatched, Act.dispatched]
      refine ⟨⟨_, hr', ?_⟩, fun evt hmem => ?_, fun evt he => ?_⟩
      · rw [hacc', hdis, Ring.toList_push, hacc, List.append_assoc]
      · rw [hacc', List.mem_append, List.mem_singleton] at hmem
        rcases hmem with hmem | rfl
        · exact hi.topics evt hmem
        · exact ht
      · rw [hdis]
        exact hi.current evt he
  | @subscribe b b' c topic handler res _ e =>
    refine hi.of_silent rfl rfl (fun r hr => ?_) fun _ h => h
    have := isRing_eventbusSubscribe hr topic handler
    rwa [e] at this
  | @unsubscribe b b' c topic handler res _ e =>
    refine hi.of_silent rfl rfl (fun r hr => ?_) fun _ h => h
    have := isRing_eventbusUnsubscribe hr topic handler
    rwa [e] at this
  | process => exact hi.of_silent rfl rfl (fun _ h => h) nofun
  | dispatch hc _ => exact hi.of_dispatch hc
  | drop hc ht => exact absurd (hi.topic_lt hc) (Nat.not_lt.2 ht)
  | call _ _ => exact hi.of_silent rfl rfl (fun _ h => h) fun _ h => h
  | skip _ _ => exact hi.of_silent rfl rfl (fun _ h => h) fun _ h => h
  | ret => exact hi.of_silent rfl rfl (fun _ h => h) fun _ h => h
  | next => exact hi.of_silent rfl rfl (fun _ h => h) nofun
  | done _ => exact hi.of_silent rfl rfl (fun _ h => h) nofun

theorem inv_of_run [DecidableEq H] (hr : Run Step (boot b₀) acts s) : Inv acts s :=
  hr.history (inv_boot b₀) fun _ _ _ _ hi h => hi.step h

/-- Empty slots are passed. -/
theorem run_skips [DecidableEq H] {b : Bus H} {evt : AuraEvent} {k h : ℕ} (hk : h + k ≤ eventbusMaxHandlers)
    (hnone : ∀ i < k, b.handlers evt.topic.toNat (h + i) = none) :
    Run Step ⟨b, .scan evt h⟩ (List.replicate k .skip) ⟨b, .scan evt (h + k)⟩ := by
  induction k generalizing h with
  | zero => exact Run.nil _
  | succ k ih =>
    have hrest := ih (h := h + 1) (by omega) fun i hi => by
      rw [Nat.add_right_comm]
      exact hnone (i + 1) (Nat.succ_lt_succ hi)
    rw [Nat.add_right_comm] at hrest
    exact Run.cons (Step.skip (by omega) (hnone 0 (Nat.succ_pos k))) hrest

/-! ### Delivery -/

/-- The steps `acts` delivered the events first in, first out, and led to the queue of `b`. -/
structure Delivers (acts : List (Act H)) (b : Bus H) : Prop where
  fifo : ∃ pending, accepted acts = dispatched acts ++ pending ∧
    (eventbusPending b).toNat = pending.length
  pending_le : (eventbusPending b).toNat ≤ eventbusQueueDepth
  head_lt : b.qHead.toNat < eventbusQueueDepth
  tail_lt : b.qTail.toNat < eventbusQueueDepth
  tail_eq : (b.qHead.toNat + b.qCount.toNat) % eventbusQueueDepth = b.qTail.toNat
  /-- nothing is left when `eventbus_process` returns -/
  drained : ∀ pre, acts = pre ++ [.done] → dispatched acts = accepted acts
  /-- a handler gets the event that was taken off last -/
  called : ∀ pre f evt post, acts = pre ++ .call f evt :: post → (dispatched pre).getLast? = some evt

/-- When `eventbus_publish` is refused, and what it then does. -/
structure Refuses (b : Bus H) (topic : UInt8) (data now : UInt32) : Prop where
  err : (eventbusPublish topic data now b).1 = .err ↔ eventbusMaxTopics ≤ topic.toNat
  busy : (eventbusPublish topic data now b).1 = .busy ↔
    topic.toNat < eventbusMaxTopics ∧ (eventbusPending b).toNat = eventbusQueueDepth
  refused : (eventbusPublish topic data now b).1 ≠ .ok →
    ((eventbusPublish topic data now b).1 = .err ∨ (eventbusPublish topic data now b).1 = .busy) ∧
      (eventbusPublish topic data now b).2 = b

theorem refuses_of_isRing {b : Bus H} {r : Ring AuraEvent eventbusQueueDepth} (hr : IsRing b r)
    (topic : UInt8) (data now : UInt32) : Refuses b topic data now := by
  rcases eventbusPublish_spec hr topic data now with ⟨e, ht⟩ | ⟨e, ht, hc⟩ | ⟨b', hc, e, ht, -⟩
  · refine ⟨?_, ?_, ?_⟩ <;> rw [e]
    · exact iff_of_true rfl ht
    · exact iff_of_false nofun fun h => absurd h.1 (Nat.not_lt.2 ht)
    · exact fun _ => ⟨Or.inl rfl, rfl⟩
  · refine ⟨?_, ?_, ?_⟩ <;> rw [e]
    · exact iff_of_false nofun (Nat.not_le.2 ht)
    · exact iff_of_true rfl ⟨ht, hc⟩
    · exact fun _ => ⟨Or.inr rfl, rfl⟩
  · refine ⟨?_, ?_, ?_⟩ <;> rw [e]
    · exact iff_of_false nofun (Nat.not_le.2 ht)
    · refine iff_of_false nofun fun h => ?_
      have h2 : b.qCount.toNat = 64 := h.2
      rw [hr.count] at h2
      omega
    · exact fun h => absurd rfl h

/-- **Delivery**: in every run of tasks, handlers and `eventbus_process`. -/
theorem run_delivers [DecidableEq H] (hr : Run Step (boot b₀) acts s) :
    Delivers acts s.bus ∧ ∀ topic data now, Refuses s.bus topic data now := by
  obtain ⟨r, hring, hlist⟩ := (inv_of_run hr).ring
  refine ⟨⟨⟨r.toList, hlist, ?_⟩, ?_, ?_, ?_, ?_, ?_, ?_⟩, refuses_of_isRing hring⟩
  · rw [Ring.length_toList]
    exact hring.count
  · exact hring.count ▸ r.count_le
  · exact hring.head ▸ r.head_lt
  · exact hring.tail ▸ r.tail_lt
  · rw [hring.head, hring.count, hring.tail, r.tail_eq]
  · rintro pre rfl
    obtain ⟨t, -, hlast⟩ := Run.append_iff.1 hr
    obtain ⟨u, hstep, hnil⟩ := Run.cons_iff.1 hlast
    rw [Run.nil_iff] at hnil
    subst hnil
    cases hstep with
    | done h0 =>
      have hempty : r.toList = [] := by
        rw [← List.length_eq_zero_iff, Ring.length_toList, ← hring.count]
        exact h0
      rw [hlist, hempty, List.append_nil]
  · rintro pre f evt post rfl
    obtain ⟨t, hpre, hlast⟩ := Run.append_iff.1 hr
    obtain ⟨u, hstep, -⟩ := Run.cons_iff.1 hlast
    cases hstep with
    | call _ _ => exact (inv_of_run hpre).current evt rfl

end Runs

/-! ### A handler that publishes -/

/-- The bus before `eventbus_init`. -/
def zeroBus : Bus ℕ := ⟨fun _ _ => none, fun _ => ⟨0, 0, 0⟩, 0, 0, 0⟩

/-- A task publishes an event on topic 1, and the handler of that topic another one on topic 2. -/
def nestedActs : List (Act ℕ) :=
  [.subscribe 1 (some 7) .ok, .publish 1 42 5 .ok, .process, .dispatch ⟨1, 42, 5⟩,
    .call 7 ⟨1, 42, 5⟩, .publish 2 43 6 .ok]

def nestedBus : Bus ℕ :=
  let b := (eventbusSubscribe 1 (some 7) (eventbusInit zeroBus)).2
  let b := (eventbusPublish 1 42 5 b).2
  (eventbusPublish 2 43 6 (dequeue b)).2

theorem run_nestedActs :
    Run Step (boot zeroBus) nestedActs ⟨nestedBus, .handler ⟨1, 42, 5⟩ 0⟩ := by
  refine Run.cons (Step.subscribe trivial rfl) ?_
  refine Run.cons (Step.publish trivial rfl) ?_
  refine Run.cons Step.process ?_
  refine Run.cons (Step.dispatch (by decide) (by decide)) ?_
  refine Run.cons (Step.call (by decide) rfl) ?_
  exact Run.cons (Step.publish trivial rfl) (Run.nil _)

theorem run_delivers_nestedActs : Delivers nestedActs nestedBus ∧
    ∀ topic data now, Refuses nestedBus topic data now :=
  run_delivers run_nestedActs

end AuraOS.Kernel.EventBus
