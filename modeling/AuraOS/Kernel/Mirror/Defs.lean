import AuraOS.Env.Registry.Defs
import AuraOS.Kernel.EventBus.Defs

/-!
# System snapshots

The snapshot slots of `kernel/mirror.c`.  What `mirror_sync` reads from other modules is an argument
(`Counters`), and what a function publishes on the event bus is part of its result: the topic and the
data.  The VGA output of `mirror_restore` is left out.
-/

namespace AuraOS.Kernel.Mirror

open AuraOS.Lib AuraOS.Env

abbrev mirrorSlots : ℕ := 4
abbrev mirrorLabelLen : ℕ := 20

/-- `MIRROR_FLAG_ALL`. -/
abbrev mirrorFlagAll : UInt32 := 0x0F

/-- `TOPIC_MIRROR_SYNC`. -/
abbrev topicMirrorSync : UInt8 := 3

/-- `LIVE_SLOT`. -/
abbrev liveSlot : ℕ := 0

/-- `"LIVE"`. -/
def liveLabel : CStr := [76, 73, 86, 69]

/-- `mirror_snapshot_t`. -/
structure Snapshot where
  label : Buf mirrorLabelLen
  timestamp : UInt32
  flags : UInt32
  memUsed : UInt32
  memFree : UInt32
  procCount : UInt32
  pluginCount : UInt32
  eventPending : UInt32
  checksum : UInt32
  valid : Bool

/-- The static variables of the module. -/
structure State where
  snapshots : ℕ → Snapshot
  syncCount : UInt32

/-- What `mirror_sync` reads: `g_tick_count`, the results of `memory_stats`, and the three counters. -/
structure Counters where
  gTickCount : UInt32
  used : UInt32
  freeBytes : UInt32
  schedulerTaskCount : Int
  pluginCount : Int
  eventbusPending : UInt32

/-- The loop of `snapshotChecksum`, at byte `i` of the label with `n` bytes to go. -/
def checksumLoop (label : Buf mirrorLabelLen) : ℕ → ℕ → UInt32 → UInt32
  | 0, _, csum => csum
  | n + 1, i, csum => checksumLoop label n (i + 1) (csum ^^^ (label.rd i).toUInt32)

/-- `snapshot_checksum`. -/
def snapshotChecksum (s : Snapshot) : UInt32 :=
  checksumLoop s.label mirrorLabelLen 0 0 ^^^ s.timestamp ^^^ s.flags ^^^ s.memUsed ^^^ s.memFree ^^^
    s.procCount ^^^ s.pluginCount ^^^ s.eventPending

/-- `snapshots[slot] = s`. -/
def State.setSlot (m : State) (slot : ℕ) (s : Snapshot) : State :=
  { m with snapshots := Function.update m.snapshots slot s }

/-- `mirror_init`. -/
def mirrorInit (m : State) : State where
  snapshots i := { m.snapshots i with valid := false }
  syncCount := 0

/-- The live snapshot that `mirror_sync` writes.  The checksum is taken before the label is set. -/
def liveSnapshot (c : Counters) (s : Snapshot) : Snapshot :=
  let s :=
    { s with
      timestamp := c.gTickCount
      flags := mirrorFlagAll
      memUsed := c.used
      memFree := c.freeBytes
      procCount := UInt32.ofInt c.schedulerTaskCount
      pluginCount := UInt32.ofInt c.pluginCount
      eventPending := c.eventbusPending }
  let s := { s with checksum := snapshotChecksum s, valid := true }
  { s with label := strncpyK s.label liveLabel mirrorLabelLen }

/-- `mirror_sync`. -/
def mirrorSync (c : Counters) (m : State) : Option (UInt8 × UInt32) × State :=
  let m := m.setSlot liveSlot (liveSnapshot c (m.snapshots liveSlot))
  let m := { m with syncCount := m.syncCount + 1 }
  (if m.syncCount &&& 0xFF = 0 then some (topicMirrorSync, m.syncCount) else none, m)

/-- The snapshot that `mirror_capture` makes of the live one; a null label copies nothing. -/
def capturedSnapshot (label : Option CStr) (flags : UInt32) (live : Snapshot) : Snapshot :=
  let s := { live with flags := flags, label := strncpyK live.label (label.getD []) mirrorLabelLen }
  { s with checksum := snapshotChecksum s, valid := true }

/-- `mirror_capture`. -/
def mirrorCapture (slot : UInt8) (label : Option CStr) (flags : UInt32) (c : Counters) (m : State) :
    AuraStatus × Option (UInt8 × UInt32) × State :=
  if mirrorSlots ≤ slot.toNat then (.err, none, m)
  else
    let (event, m) := mirrorSync c m
    (.ok, event, m.setSlot slot.toNat (capturedSnapshot label flags (m.snapshots liveSlot)))

/-- `mirror_verify`. -/
def mirrorVerify (slot : UInt8) (m : State) : AuraStatus :=
  if mirrorSlots ≤ slot.toNat ∨ (m.snapshots slot.toNat).valid = false then .err
  else if (m.snapshots slot.toNat).checksum = snapshotChecksum (m.snapshots slot.toNat) then .ok
  else .err

/-- `mirror_restore`: its effect on the environment registry. -/
def mirrorRestore (slot : UInt8) (m : State) (t : EnvTable) :
    AuraStatus × Option (UInt8 × UInt32) × EnvTable :=
  if mirrorSlots ≤ slot.toNat ∨ (m.snapshots slot.toNat).valid = false then (.err, none, t)
  else if mirrorVerify slot m ≠ .ok then (.err, none, t)
  else (.ok, some (topicMirrorSync, slot.toUInt32 ||| 0x80000000), envInit t)

end AuraOS.Kernel.Mirror
