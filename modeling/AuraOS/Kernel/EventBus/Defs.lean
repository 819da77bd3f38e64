import AuraOS.Kernel.Core
import AuraOS.Lib.Search
import AuraOS.Lib.Steps
import Mathlib.Logic.Function.Basic

/-!
# The event bus

The queue and the handler table of `kernel/eventbus.c`.  The tables are functions of their indices, and
`H` is the type of the handlers' addresses.

`eventbus_process` calls handlers, and these call back into the bus; so it is a transition system
(`Step`) whose control state says where its two loops are.  A call into the bus is one step: it may
happen when `eventbus_process` is not running, which is a call from a task, or while a handler runs.
The labels record what is called, with which arguments and which result.
-/

namespace AuraOS.Kernel.EventBus

open AuraOS.Lib

abbrev eventbusMaxTopics : ℕ := 32
abbrev eventbusMaxHandlers : ℕ := 8
abbrev eventbusQueueDepth : ℕ := 64

/-- `aura_event_t`. -/
structure AuraEvent where
  topic : UInt8
  data : UInt32
  timestamp : UInt32
  deriving DecidableEq, Repr

/-- The static variables of the module. -/
structure Bus (H : Type) where
  handlers : ℕ → ℕ → Option H
  queue : ℕ → AuraEvent
  qHead : UInt8
  qTail : UInt8
  qCount : UInt32

variable {H : Type}

/-- `eventbus_init`. -/
def eventbusInit (b : Bus H) : Bus H :=
  { b with handlers := fun _ _ => none, qHead := 0, qTail := 0, qCount := 0 }

/-! ### Handlers -/

/-- `handlers[topic][h] = handler`. -/
def setHandler (b : Bus H) (topic h : ℕ) (handler : Option H) : Bus H :=
  { b with
    handlers := Function.update b.handlers topic (Function.update (b.handlers topic) h handler) }

/-- `eventbus_subscribe`. -/
def eventbusSubscribe (topic : UInt8) (handler : Option H) (b : Bus H) : AuraStatus × Bus H :=
  if eventbusMaxTopics ≤ topic.toNat ∨ handler.isNone then (.err, b)
  else
    match first (fun h => (b.handlers topic.toNat h).isNone) eventbusMaxHandlers 0 with
    | some h => (.ok, setHandler b topic.toNat h handler)
    | none => (.noslot, b)

/-- `eventbus_unsubscribe`. -/
def eventbusUnsubscribe [DecidableEq H] (topic : UInt8) (handler : Option H) (b : Bus H) :
    AuraStatus × Bus H :=
  if eventbusMaxTopics ≤ topic.toNat ∨ handler.isNone then (.err, b)
  else
    match first (fun h => b.handlers topic.toNat h = handler) eventbusMaxHandlers 0 with
    | some h => (.ok, setHandler b topic.toNat h none)
    | none => (.notfound, b)

/-! ### The queue -/

/-- `eventbus_publish`; `now` is what it reads from `g_tick_count`. -/
def eventbusPublish (topic : UInt8) (data now : UInt32) (b : Bus H) : AuraStatus × Bus H :=
  if eventbusMaxTopics ≤ topic.toNat then (.err, b)
  else if eventbusQueueDepth ≤ b.qCount.toNat then (.busy, b)
  else (.ok, { b with
    queue := Function.update b.queue b.qTail.toNat ⟨topic, data, now⟩
    qTail := UInt8.ofNat ((b.qTail.toNat + 1) % eventbusQueueDepth)
    qCount := b.qCount + 1 })

/-- The event that `eventbus_process` takes off the queue. -/
def nextEvent (b : Bus H) : AuraEvent := b.queue b.qHead.toNat

/-- The queue without it. -/
def dequeue (b : Bus H) : Bus H :=
  { b with
    qHead := UInt8.ofNat ((b.qHead.toNat + 1) % eventbusQueueDepth)
    qCount := b.qCount - 1 }

/-- `eventbus_pending`. -/
def eventbusPending (b : Bus H) : UInt32 := b.qCount

/-! ### Processing -/

/-- Where `eventbus_process` is. -/
inductive Control where
  | idle
  /-- at the test of the outer loop -/
  | drain
  /-- in the inner loop, before slot `h` -/
  | scan (evt : AuraEvent) (h : ℕ)
  /-- in the handler of slot `h` -/
  | handler (evt : AuraEvent) (h : ℕ)
  deriving DecidableEq

/-- The event that is being dispatched. -/
def Control.event : Control → Option AuraEvent
  | idle => none
  | drain => none
  | scan evt _ => some evt
  | handler evt _ => some evt

/-- Code outside the bus runs, and may call into it. -/
def Control.IsClient : Control → Prop
  | idle => True
  | drain => False
  | scan _ _ => False
  | handler _ _ => True

structure Sys (H : Type) where
  bus : Bus H
  control : Control

/-- The state after `eventbus_init`. -/
def boot (b₀ : Bus H) : Sys H := ⟨eventbusInit b₀, .idle⟩

inductive Act (H : Type) where
  | publish (topic : UInt8) (data now : UInt32) (res : AuraStatus)
  | subscribe (topic : UInt8) (handler : Option H) (res : AuraStatus)
  | unsubscribe (topic : UInt8) (handler : Option H) (res : AuraStatus)
  /-- `eventbus_process` is called -/
  | process
  /-- it takes an event off the queue -/
  | dispatch (evt : AuraEvent)
  /-- it takes an event without a topic off the queue -/
  | drop (evt : AuraEvent)
  /-- it calls a handler -/
  | call (f : H) (evt : AuraEvent)
  /-- it passes an empty slot -/
  | skip
  /-- the handler returns -/
  | ret
  /-- the last slot is done -/
  | next
  /-- `eventbus_process` returns -/
  | done

inductive Step [DecidableEq H] : Sys H → Act H → Sys H → Prop
  | publish {b b' : Bus H} {c : Control} {topic : UInt8} {data now : UInt32} {res : AuraStatus} :
      c.IsClient → eventbusPublish topic data now b = (res, b') →
      Step ⟨b, c⟩ (.publish topic data now res) ⟨b', c⟩
  | subscribe {b b' : Bus H} {c : Control} {topic : UInt8} {handler : Option H} {res : AuraStatus} :
      c.IsClient → eventbusSubscribe topic handler b = (res, b') →
      Step ⟨b, c⟩ (.subscribe topic handler res) ⟨b', c⟩
  | unsubscribe {b b' : Bus H} {c : Control} {topic : UInt8} {handler : Option H} {res : AuraStatus} :
      c.IsClient → eventbusUnsubscribe topic handler b = (res, b') →
      Step ⟨b, c⟩ (.unsubscribe topic handler res) ⟨b', c⟩
  | process {b : Bus H} : Step ⟨b, .idle⟩ .process ⟨b, .drain⟩
  | dispatch {b : Bus H} : 0 < b.qCount.toNat → (nextEvent b).topic.toNat < eventbusMaxTopics →
      Step ⟨b, .drain⟩ (.dispatch (nextEvent b)) ⟨dequeue b, .scan (nextEvent b) 0⟩
  | drop {b : Bus H} : 0 < b.qCount.toNat → eventbusMaxTopics ≤ (nextEvent b).topic.toNat →
      Step ⟨b, .drain⟩ (.drop (nextEvent b)) ⟨dequeue b, .drain⟩
  | call {b : Bus H} {evt : AuraEvent} {h : ℕ} {f : H} : h < eventbusMaxHandlers →
      b.handlers evt.topic.toNat h = some f → Step ⟨b, .scan evt h⟩ (.call f evt) ⟨b, .handler evt h⟩
  | skip {b : Bus H} {evt : AuraEvent} {h : ℕ} : h < eventbusMaxHandlers →
      b.handlers evt.topic.toNat h = none → Step ⟨b, .scan evt h⟩ .skip ⟨b, .scan evt (h + 1)⟩
  | ret {b : Bus H} {evt : AuraEvent} {h : ℕ} :
      Step ⟨b, .handler evt h⟩ .ret ⟨b, .scan evt (h + 1)⟩
  | next {b : Bus H} {evt : AuraEvent} : Step ⟨b, .scan evt eventbusMaxHandlers⟩ .next ⟨b, .drain⟩
  | done {b : Bus H} : b.qCount.toNat = 0 → Step ⟨b, .drain⟩ .done ⟨b, .idle⟩

end AuraOS.Kernel.EventBus
