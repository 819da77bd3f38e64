import AuraOS.Kernel.EventBus.Delivery
import AuraOS.Lib.Execution
import Mathlib.Data.Multiset.DershowitzManna
import Mathlib.Data.Nat.Find

/-!
# The drain loop ends

While a handler runs, it may fill the queue again; so the number of the pending events does not bound the rounds of
`eventbus_process`.  Let the topics have ranks such that a handler for an event only publishes events of smaller rank
(`RankedStep`).  Then one round takes an event off the queue and puts only events of smaller rank in its place, and so
the multiset of the ranks of the pending events falls (`drain_leadsTo`).  If the handlers return (`Returns`), every
round ends, and `eventbus_process` returns (`eventbusProcess_terminates`).
-/

namespace AuraOS.Kernel.EventBus

open AuraOS.Lib

variable {H : Type}

/-! ### Ranked steps -/

/-- The steps, when a handler for an event only publishes events of topics with a smaller rank. -/
structure RankedStep [DecidableEq H] (rank : UInt8 → ℕ) (s : Sys H) (a : Act H) (t : Sys H) : Prop where
  step : Step s a t
  falls : ∀ evt h topic data now res, s.control = .handler evt h → a = .publish topic data now res →
    topic.toNat < eventbusMaxTopics → rank topic < rank evt.topic

/-- Every handler returns. -/
def Returns {step : Sys H → Act H → Sys H → Prop} (e : Execution step) : Prop :=
  ∀ evt h, LeadsTo (fun n => (e.state n).control = .handler evt h) fun n => e.act n = .ret

/-- The ranks of the events of a ring. -/
def ranks (rank : UInt8 → ℕ) (r : Ring AuraEvent eventbusQueueDepth) : Multiset ℕ :=
  Multiset.ofList (r.toList.map fun evt => rank evt.topic)

/-- The pending events have the ranks `X`. -/
def Pending (rank : UInt8 → ℕ) (X : Multiset ℕ) (b : Bus H) : Prop := ∃ r, IsRing b r ∧ ranks rank r = X

/-- They have the ranks `X` and others below `k`. -/
def PendingBelow (rank : UInt8 → ℕ) (X : Multiset ℕ) (k : ℕ) (b : Bus H) : Prop :=
  ∃ Y, (∀ y ∈ Y, y < k) ∧ Pending rank (X + Y) b

section Ranked

variable {rank : UInt8 → ℕ} {r r' : Ring AuraEvent eventbusQueueDepth} {X : Multiset ℕ} {k h : ℕ} {evt : AuraEvent}
  {b : Bus H} {s t : Sys H} {a : Act H} {acts : List (Act H)}

theorem ranks_push (hc : r.count < eventbusQueueDepth) :
    ranks rank (r.push evt hc) = ranks rank r + {rank evt.topic} := by
  unfold ranks
  rw [Ring.toList_push, List.map_append, ← Multiset.coe_add]
  rfl

theorem ranks_of_cons (h : r.toList = evt :: r'.toList) : ranks rank r = ranks rank r' + {rank evt.topic} := by
  unfold ranks
  rw [h, List.map_cons, ← Multiset.cons_coe, ← Multiset.singleton_add, add_comm]

/-- Nothing was added yet. -/
theorem Pending.below (h : Pending rank X b) (k : ℕ) : PendingBelow rank X k b :=
  ⟨0, by simp, by simpa using h⟩

/-- **What is published** adds its rank, or is refused. -/
theorem PendingBelow.publish {topic : UInt8} {data now : UInt32} (h : PendingBelow rank X k b)
    (hk : topic.toNat < eventbusMaxTopics → rank topic < k) :
    PendingBelow rank X k (eventbusPublish topic data now b).2 := by
  obtain ⟨Y, hY, r, hr, e⟩ := h
  rcases eventbusPublish_spec hr topic data now with ⟨e', -⟩ | ⟨e', -⟩ | ⟨b', hc, e', ht, hr'⟩
  · rw [e']
    exact ⟨Y, hY, r, hr, e⟩
  · rw [e']
    exact ⟨Y, hY, r, hr, e⟩
  · rw [e']
    refine ⟨Y + {rank topic}, ?_, _, hr', ?_⟩
    · intro y hy
      rcases Multiset.mem_add.1 hy with hy | hy
      · exact hY y hy
      · rw [Multiset.mem_singleton.1 hy]
        exact hk ht
    · rw [ranks_push, e, add_assoc]

variable [DecidableEq H]

/-- **In a handler**: it publishes, changes the table or returns to the inner loop. -/
theorem Step.of_handler (hstep : Step s a t) (hs : s.control = .handler evt h) :
    (a = .ret ∧ t.control = .scan evt (h + 1) ∧ t.bus = s.bus) ∨
      t.control = .handler evt h ∧ ((∃ topic data now res, a = .publish topic data now res ∧
        t.bus = (eventbusPublish topic data now s.bus).2) ∨ ∀ r, IsRing s.bus r → IsRing t.bus r) := by
  cases hstep with
  | @publish b b' c topic data now res _ e =>
    refine Or.inr ⟨hs, Or.inl ⟨topic, data, now, res, rfl, ?_⟩⟩
    rw [e]
  | @subscribe b b' c topic handler res _ e =>
    refine Or.inr ⟨hs, Or.inr ?_⟩
    intro r hr
    have hr' := isRing_eventbusSubscribe hr topic handler
    rwa [e] at hr'
  | @unsubscribe b b' c topic handler res _ e =>
    refine Or.inr ⟨hs, Or.inr ?_⟩
    intro r hr
    have hr' := isRing_eventbusUnsubscribe hr topic handler
    rwa [e] at hr'
  | ret =>
    cases hs
    exact Or.inl ⟨rfl, rfl, rfl⟩
  | process => cases hs
  | dispatch _ _ => cases hs
  | drop _ _ => cases hs
  | call _ _ => cases hs
  | skip _ _ => cases hs
  | next => cases hs
  | done _ => cases hs

/-- What a handler adds has a smaller rank. -/
theorem RankedStep.below (hstep : RankedStep rank s a t) (hs : s.control = .handler evt h)
    (hb : PendingBelow rank X (rank evt.topic) s.bus) : PendingBelow rank X (rank evt.topic) t.bus := by
  rcases hstep.step.of_handler hs with ⟨-, -, hbus⟩ | ⟨-, ⟨topic, data, now, res, ha, hbus⟩ | hring⟩
  · rw [hbus]
    exact hb
  · rw [hbus]
    apply hb.publish
    exact hstep.falls evt h topic data now res hs ha
  · obtain ⟨Y, hY, r, hr, hX⟩ := hb
    exact ⟨Y, hY, r, hring r hr, hX⟩

/-- **In the inner loop**: a slot is passed, or its handler is called; behind the last slot the loop ends. -/
theorem Step.of_scan (hstep : Step s a t) (hs : s.control = .scan evt h) :
    t.bus = s.bus ∧ (h < eventbusMaxHandlers ∧ (t.control = .scan evt (h + 1) ∨ t.control = .handler evt h) ∨
      h = eventbusMaxHandlers ∧ t.control = .drain) := by
  cases hstep with
  | call hlt _ =>
    cases hs
    exact ⟨rfl, Or.inl ⟨hlt, Or.inr rfl⟩⟩
  | skip hlt _ =>
    cases hs
    exact ⟨rfl, Or.inl ⟨hlt, Or.inl rfl⟩⟩
  | next =>
    cases hs
    exact ⟨rfl, Or.inr ⟨rfl, rfl⟩⟩
  | publish hc _ =>
    cases hs
    exact absurd hc id
  | subscribe hc _ =>
    cases hs
    exact absurd hc id
  | unsubscribe hc _ =>
    cases hs
    exact absurd hc id
  | process => cases hs
  | dispatch _ _ => cases hs
  | drop _ _ => cases hs
  | ret => cases hs
  | done _ => cases hs

/-- **In the outer loop**: it ends with an empty queue, or takes an event off. -/
theorem Step.of_drain (hstep : Step s a t) (hs : s.control = .drain) (hb : Pending rank X s.bus) :
    a = .done ∨
      ∃ evt Y, X = Y + {rank evt.topic} ∧ Pending rank Y t.bus ∧ (t.control = .scan evt 0 ∨ t.control = .drain) := by
  obtain ⟨r, hr, rfl⟩ := hb
  cases hstep with
  | done _ => exact Or.inl rfl
  | @dispatch b hq _ =>
    obtain ⟨r', hr', hlist⟩ := dequeue_spec hr hq
    exact Or.inr ⟨nextEvent b, _, ranks_of_cons hlist, ⟨r', hr', rfl⟩, Or.inl rfl⟩
  | @drop b hq _ =>
    obtain ⟨r', hr', hlist⟩ := dequeue_spec hr hq
    exact Or.inr ⟨nextEvent b, _, ranks_of_cons hlist, ⟨r', hr', rfl⟩, Or.inr rfl⟩
  | publish hc _ =>
    cases hs
    exact absurd hc id
  | subscribe hc _ =>
    cases hs
    exact absurd hc id
  | unsubscribe hc _ =>
    cases hs
    exact absurd hc id
  | process => cases hs
  | call _ _ => cases hs
  | skip _ _ => cases hs
  | ret => cases hs
  | next => cases hs

end Ranked

/-! ### One round -/

/-- At the position `n` the control is `c` and the bus has the property `P`. -/
def At {step : Sys H → Act H → Sys H → Prop} (e : Execution step) (c : Control) (P : Bus H → Prop) (n : ℕ) : Prop :=
  (e.state n).control = c ∧ P (e.state n).bus

section Rounds

variable [DecidableEq H] {rank : UInt8 → ℕ} {e : Execution (RankedStep (H := H) rank)} {X : Multiset ℕ} {h k n : ℕ}
  {evt : AuraEvent}

/-- A handler is left for the next slot. -/
theorem handler_leadsTo (hret : Returns e) : LeadsTo (At e (.handler evt h) (PendingBelow rank X (rank evt.topic)))
    (At e (.scan evt (h + 1)) (PendingBelow rank X (rank evt.topic))) := by
  apply LeadsTo.of_exit
  · rintro n ⟨hc, hb⟩
    have hb' := (e.step n).below hc hb
    rcases (e.step n).step.of_handler hc with ⟨-, hc', -⟩ | ⟨hc', -⟩
    · exact Or.inr ⟨n + 1, Nat.le_succ n, hc', hb'⟩
    · exact Or.inl ⟨hc', hb'⟩
  · rintro n ⟨hc, -⟩
    obtain ⟨m, hm, hact⟩ := hret evt h n hc
    refine ⟨m, hm, ?_⟩
    rintro ⟨hc', -⟩
    have hstep := (e.step m).step
    rw [hact] at hstep
    generalize e.state m = s, e.state (m + 1) = t at hstep hc'
    cases hstep
    cases hc'

/-- The inner loop ends: `k` slots are left. -/
theorem scan_leadsTo (hret : Returns e) (hk : h + k = eventbusMaxHandlers) :
    LeadsTo (At e (.scan evt h) (PendingBelow rank X (rank evt.topic)))
      (At e .drain (PendingBelow rank X (rank evt.topic))) := by
  induction k generalizing h with
  | zero =>
    apply LeadsTo.of_next
    rintro n ⟨hc, hb⟩
    obtain ⟨hbus, ⟨hlt, -⟩ | ⟨-, hc'⟩⟩ := (e.step n).step.of_scan hc
    · omega
    · exact ⟨hc', hbus ▸ hb⟩
  | succ k ih =>
    have hnext := ih (h := h + 1) (by omega)
    intro n hn
    obtain ⟨hc, hb⟩ := hn
    obtain ⟨hbus, ⟨-, hc' | hc'⟩ | ⟨heq, -⟩⟩ := (e.step n).step.of_scan hc
    · obtain ⟨m, hm, hdrain⟩ := hnext (n + 1) ⟨hc', hbus ▸ hb⟩
      exact ⟨m, by omega, hdrain⟩
    · obtain ⟨m, hm, hdrain⟩ := ((handler_leadsTo hret).trans hnext) (n + 1) ⟨hc', hbus ▸ hb⟩
      exact ⟨m, by omega, hdrain⟩
    · omega

/-- **One round**: one rank is replaced by smaller ones. -/
theorem drain_leadsTo (hret : Returns e) : LeadsTo (At e .drain (Pending rank X))
    fun n => e.act n = .done ∨ ∃ Y, Multiset.IsDershowitzMannaLT Y X ∧ At e .drain (Pending rank Y) n := by
  rintro n ⟨hc, hb⟩
  rcases (e.step n).step.of_drain hc hb with hact | ⟨evt, Y, rfl, hb', hc'⟩
  · exact ⟨n, le_refl n, Or.inl hact⟩
  · have hround : ∃ m, n + 1 ≤ m ∧ At e .drain (PendingBelow rank Y (rank evt.topic)) m := by
      rcases hc' with hc' | hc'
      · exact scan_leadsTo hret (Nat.zero_add _) (n + 1) ⟨hc', hb'.below _⟩
      · exact ⟨n + 1, le_refl _, hc', hb'.below _⟩
    obtain ⟨m, hm, hdrain, Z, hZ, hb''⟩ := hround
    refine ⟨m, by omega, Or.inr ⟨Y + Z, ?_, hdrain, hb''⟩⟩
    exact ⟨Y, Z, {rank evt.topic}, Multiset.singleton_ne_zero _, rfl, rfl,
      fun y hy => ⟨_, Multiset.mem_singleton_self _, hZ y hy⟩⟩

end Rounds

/-! ### Termination -/

/-- `eventbus_process` runs, and the inner loop is within the slots. -/
def Control.Inside : Control → Prop
  | idle => False
  | drain => True
  | scan _ h => h ≤ eventbusMaxHandlers
  | handler _ h => h < eventbusMaxHandlers

section Termination

variable [DecidableEq H] {rank : UInt8 → ℕ} {s t : Sys H} {a : Act H} {acts : List (Act H)} {b : Bus H}
  {r : Ring AuraEvent eventbusQueueDepth}

/-- The step lemma. -/
theorem Step.inside (hstep : Step s a t) (hs : s.control.Inside) (ha : a ≠ .done) : t.control.Inside := by
  cases hstep with
  | publish _ _ => exact hs
  | subscribe _ _ => exact hs
  | unsubscribe _ _ => exact hs
  | process => exact trivial
  | dispatch _ _ => exact Nat.zero_le _
  | drop _ _ => exact trivial
  | call hlt _ => exact hlt
  | skip hlt _ => exact hlt
  | ret => exact hs
  | next => exact trivial
  | done _ => exact absurd rfl ha

/-- **`eventbus_process` is never stuck.** -/
theorem exists_rankedStep (hs : s.control.Inside) : ∃ a t, RankedStep rank s a t := by
  obtain ⟨b, c⟩ := s
  cases c with
  | idle => exact absurd hs id
  | drain =>
    rcases Nat.eq_zero_or_pos b.qCount.toNat with hq | hq
    · exact ⟨_, _, Step.done hq, nofun⟩
    · rcases Nat.lt_or_ge (nextEvent b).topic.toNat eventbusMaxTopics with ht | ht
      · exact ⟨_, _, Step.dispatch hq ht, nofun⟩
      · exact ⟨_, _, Step.drop hq ht, nofun⟩
  | scan evt h =>
    rcases Nat.lt_or_eq_of_le hs with hlt | rfl
    · cases hf : b.handlers evt.topic.toNat h with
      | none => exact ⟨_, _, Step.skip hlt hf, nofun⟩
      | some f => exact ⟨_, _, Step.call hlt hf, nofun⟩
    · exact ⟨_, _, Step.next, nofun⟩
  | handler evt h => exact ⟨_, _, Step.ret, fun _ _ _ _ _ _ _ => nofun⟩

/-- **It returns** with an empty queue. -/
theorem Step.of_done (hstep : Step s .done t) : eventbusPending t.bus = 0 := by
  cases hstep with
  | done hq => exact UInt32.toNat_inj.1 hq

/-- **`eventbus_process` terminates** with an empty queue, from every queue and every table, if the handlers return
and the topics are ranked. -/
theorem eventbusProcess_terminates (hr : IsRing b r) (rank : UInt8 → ℕ) :
    (∀ acts s, Run (RankedStep rank) ⟨b, .drain⟩ acts s → .done ∉ acts → ∃ a t, RankedStep rank s a t) ∧
    ∀ e : Execution (RankedStep rank), e.state 0 = ⟨b, .drain⟩ → Returns e →
      ∃ n, e.act n = .done ∧ (∀ m < n, e.act m ≠ .done) ∧ eventbusPending (e.state (n + 1)).bus = 0 := by
  constructor
  · intro acts s hrun hdone
    apply exists_rankedStep
    refine hrun.invariant_of_labels (I := fun s => s.control.Inside) ?_ trivial
    intro a ha s t hs hstep
    apply hstep.step.inside hs
    rintro rfl
    exact hdone ha
  · intro e he hret
    have hstart : At e .drain (Pending rank (ranks rank r)) 0 := by
      unfold At
      rw [he]
      exact ⟨rfl, r, hr, rfl⟩
    obtain ⟨n, -, hn⟩ := LeadsTo.of_wf Multiset.wellFounded_isDershowitzMannaLT
      (fun X => drain_leadsTo (X := X) hret) (ranks rank r) 0 hstart
    -- the first return
    classical
    obtain ⟨k, hk, hfirst⟩ := Nat.findX (p := fun n => e.act n = .done) ⟨n, hn⟩
    have hstep := (e.step k).step
    rw [hk] at hstep
    exact ⟨k, hk, hfirst, hstep.of_done⟩

end Termination

/-! ### A flow from topic 1 to topic 2 -/

section Flow

variable {rank : UInt8 → ℕ} {s t : Sys ℕ} {acts : List (Act ℕ)}

/-- Only publishing is ranked. -/
theorem run_ranked (h : Run Step s acts t) (hacts : ∀ topic data now res, .publish topic data now res ∉ acts) :
    Run (RankedStep rank) s acts t := by
  have hmap : Run (RankedStep rank) (id s) (acts.map id) (id t) := by
    apply h.map
    intro a ha s t hstep
    refine ⟨hstep, ?_⟩
    rintro evt h topic data now res - rfl
    exact absurd ha (hacts topic data now res)
  rwa [List.map_id] at hmap

/-- If the bus is idle in the end, every handler has returned. -/
theorem returns_of_idle {e : Execution (RankedStep (H := ℕ) rank)} {N : ℕ}
    (h : ∀ n, N ≤ n → (e.state n).control = .idle) : Returns e := by
  intro evt i
  apply LeadsTo.of_exit
  · intro n hn
    rcases (e.step n).step.of_handler hn with ⟨hact, -, -⟩ | ⟨hc, -⟩
    · exact Or.inr ⟨n, le_refl n, hact⟩
    · exact Or.inl hc
  · intro n _
    refine ⟨max n N, le_max_left n N, ?_⟩
    intro hc
    have hidle := h (max n N + 1) (Nat.le_succ_of_le (le_max_right n N))
    cases hidle.symm.trans hc

/-- Handler 7 is subscribed to topic 1, and an event is pending. -/
def flowBus : Bus ℕ := (eventbusPublish 1 42 5 (eventbusSubscribe 1 (some 7) (eventbusInit zeroBus)).2).2

/-- Topic 1 is above the others. -/
def flowRank (topic : UInt8) : ℕ := if topic = 1 then 1 else 0

def flowActs : List (Act ℕ) :=
  [.dispatch ⟨1, 42, 5⟩, .call 7 ⟨1, 42, 5⟩, .publish 2 43 6 .ok] ++ (.ret :: List.replicate 7 .skip ++
    [.next, .dispatch ⟨2, 43, 6⟩] ++ List.replicate 8 .skip ++ [.next, .done])

theorem run_flowActs : Run (RankedStep flowRank) ⟨flowBus, .drain⟩ flowActs ⟨dequeue nestedBus, .idle⟩ := by
  have hhead : Run (RankedStep flowRank) ⟨flowBus, .drain⟩
      [.dispatch ⟨1, 42, 5⟩, .call 7 ⟨1, 42, 5⟩, .publish 2 43 6 .ok] ⟨nestedBus, .handler ⟨1, 42, 5⟩ 0⟩ := by
    refine Run.cons ⟨Step.dispatch (by decide) (by decide), nofun⟩ ?_
    refine Run.cons ⟨Step.call (by decide) rfl, nofun⟩ ?_
    refine Run.cons ⟨Step.publish trivial rfl, ?_⟩ (Run.nil _)
    rintro evt h topic data now res hc ha -
    cases hc
    cases ha
    decide
  have hfirst : Run Step ⟨nestedBus, .scan ⟨1, 42, 5⟩ 1⟩ (List.replicate 7 .skip) ⟨nestedBus, .scan ⟨1, 42, 5⟩ 8⟩ :=
    run_skips (by decide) (by decide)
  have hsecond : Run Step ⟨dequeue nestedBus, .scan ⟨2, 43, 6⟩ 0⟩ (List.replicate 8 .skip)
      ⟨dequeue nestedBus, .scan ⟨2, 43, 6⟩ 8⟩ :=
    run_skips (by decide) (by decide)
  have hmiddle : Run Step ⟨nestedBus, .scan ⟨1, 42, 5⟩ 8⟩ [.next, .dispatch ⟨2, 43, 6⟩]
      ⟨dequeue nestedBus, .scan ⟨2, 43, 6⟩ 0⟩ :=
    Run.cons Step.next (Run.cons (Step.dispatch (by decide) (by decide)) (Run.nil _))
  have hlast : Run Step ⟨dequeue nestedBus, .scan ⟨2, 43, 6⟩ 8⟩ [.next, .done] ⟨dequeue nestedBus, .idle⟩ :=
    Run.cons Step.next (Run.cons (Step.done (by decide)) (Run.nil _))
  apply hhead.append
  apply run_ranked ((((Run.cons Step.ret hfirst).append hmiddle).append hsecond).append hlast)
  simp

/-- The event on topic 2 is dispatched as well, and nothing is left. -/
theorem eventbusProcess_terminates_flow : ∃ e : Execution (RankedStep flowRank), e.state 0 = ⟨flowBus, .drain⟩ ∧
    ∃ n, e.act n = .done ∧ (∀ m < n, e.act m ≠ .done) ∧ eventbusPending (e.state (n + 1)).bus = 0 := by
  -- behind the run, a task goes on with publishes that are refused
  have hloop : RankedStep flowRank ⟨dequeue nestedBus, .idle⟩ (.publish 32 0 0 .err) ⟨dequeue nestedBus, .idle⟩ :=
    ⟨Step.publish trivial rfl, nofun⟩
  obtain ⟨e, he, hend⟩ := run_flowActs.exists_execution hloop
  have hring : ∃ r, IsRing flowBus r := by
    rcases eventbusPublish_spec (isRing_eventbusSubscribe (isRing_eventbusInit zeroBus) 1 (some 7)) 1 42 5 with
      ⟨-, ht⟩ | ⟨-, -, hc⟩ | ⟨b, hc, e, -, hr⟩
    · exact absurd ht (by decide)
    · exact absurd hc (by decide)
    · unfold flowBus
      rw [e]
      exact ⟨_, hr⟩
  obtain ⟨r, hr⟩ := hring
  refine ⟨e, he, (eventbusProcess_terminates hr flowRank).2 e he ?_⟩
  apply returns_of_idle (N := flowActs.length)
  intro n hn
  rw [(hend n hn).1]

end Flow

end AuraOS.Kernel.EventBus
