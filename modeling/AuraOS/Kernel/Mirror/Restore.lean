import AuraOS.Env.Registry.Map
import AuraOS.Kernel.Mirror.Integrity

/-!
# Restoring a snapshot

A snapshot does not hold the environment registry, and `mirror_restore` sets the registry to its boot
defaults.  So what was set after the snapshot is undone, but what was set before it is lost as well
(`restore_env`).
-/

namespace AuraOS.Kernel.Mirror

open AuraOS.Lib AuraOS.Env

/-- The snapshot slots and the environment registry. -/
structure System where
  mirror : State
  env : EnvTable

/-- The calls that work on them, with their arguments and results. -/
inductive SysAct where
  | sync (c : Counters)
  | capture (slot : UInt8) (label : Option CStr) (flags : UInt32) (c : Counters) (res : AuraStatus)
  | restore (slot : UInt8) (res : AuraStatus)
  | set (key value : Option CStr) (res : Int)
  | load (s : Fat12.Driver) (res : Int)

inductive SysStep : System → SysAct → System → Prop
  | sync {a : System} {c : Counters} :
      SysStep a (.sync c) { a with mirror := (mirrorSync c a.mirror).2 }
  | capture {a : System} {slot : UInt8} {label : Option CStr} {flags : UInt32} {c : Counters}
      {res : AuraStatus} {event : Option (UInt8 × UInt32)} {m : State} :
      mirrorCapture slot label flags c a.mirror = (res, event, m) →
      SysStep a (.capture slot label flags c res) { a with mirror := m }
  | restore {a : System} {slot : UInt8} {res : AuraStatus} {event : Option (UInt8 × UInt32)}
      {t : EnvTable} : mirrorRestore slot a.mirror a.env = (res, event, t) →
      SysStep a (.restore slot res) { a with env := t }
  | set {a : System} {key value : Option CStr} {res : Int} {t : EnvTable} :
      envSet key value a.env = (res, t) → SysStep a (.set key value res) { a with env := t }
  | load {a : System} {s s' : Fat12.Driver} {res : Int} {t : EnvTable} :
      envLoad a.env s = (res, t, s') → SysStep a (.load s res) { a with env := t }

section Restore

variable {a b d : System} {acts : List SysAct} {slot : UInt8} {label : Option CStr} {flags : UInt32}
  {c : Counters}

/-- A successful restore runs `env_init`. -/
theorem mirrorRestore_env {m : State} {t u : EnvTable} {event : Option (UInt8 × UInt32)}
    (h : mirrorRestore slot m t = (.ok, event, u)) : u = envInit t := by
  unfold mirrorRestore at h
  split at h
  · cases h
  · split at h
    · cases h
    · exact (Prod.mk.inj (Prod.mk.inj h).2).2.symm

theorem SysStep.env_of_restore (h : SysStep a (.restore slot .ok) b) : b.env = envInit a.env := by
  cases h with
  | restore hres => exact mirrorRestore_env hres

/-- **After a restore** every variable has its boot default, whatever was set between the capture and the
restore or before the capture; so it has its value at the capture for every key exactly if the registry
was at its defaults there. -/
theorem restore_env
    (hr : Run SysStep a (.capture slot label flags c .ok :: acts ++ [.restore slot .ok]) d) :
    (∀ key : CStr, envGet (some key) d.env = bootVars.lookup key.text) ∧
    ((∀ key : CStr, envGet (some key) d.env = envGet (some key) a.env) ↔
      ∀ key : CStr, envGet (some key) a.env = bootVars.lookup key.text) := by
  obtain ⟨b, -, hlast⟩ := Run.append_iff.1 hr
  obtain ⟨d', hstep, hnil⟩ := Run.cons_iff.1 hlast
  obtain rfl := Run.nil_iff.1 hnil
  have hget : ∀ key : CStr, envGet (some key) d'.env = bootVars.lookup key.text := fun key => by
    rw [hstep.env_of_restore]
    exact (represents_envInit b.env).envGet_eq key
  refine ⟨hget, forall_congr' fun key => ?_⟩
  rw [hget key]
  exact eq_comm

/-- The system after boot, and after `A=1` was set. -/
def bootSystem : System := ⟨mirrorInit zeroMirror, envInit zeroTable⟩

def setSystem : System := { bootSystem with env := (envSet (some [65]) (some [49]) bootSystem.env).2 }

/-- The snapshot is captured in slot 1, `B=2` is set, and the snapshot is restored. -/
def capturedSystem : System :=
  { setSystem with mirror := (mirrorCapture 1 (some [66]) mirrorFlagAll someCounters setSystem.mirror).2.2 }

def changedSystem : System :=
  { capturedSystem with env := (envSet (some [66]) (some [50]) capturedSystem.env).2 }

def restoredSystem : System := { changedSystem with env := envInit changedSystem.env }

theorem run_restoredSystem : Run SysStep setSystem
    (.capture 1 (some [66]) mirrorFlagAll someCounters .ok :: [.set (some [66]) (some [50]) 0] ++
      [.restore 1 .ok]) restoredSystem := by
  have hcap : SysStep setSystem (.capture 1 (some [66]) mirrorFlagAll someCounters .ok) capturedSystem :=
    SysStep.capture rfl
  have hset : SysStep capturedSystem (.set (some [66]) (some [50]) 0) changedSystem :=
    SysStep.set (Prod.ext (by decide) rfl)
  have hrestore : mirrorRestore 1 changedSystem.mirror changedSystem.env =
      (.ok, some (topicMirrorSync, 0x80000001), envInit changedSystem.env) := by
    have hverify : mirrorVerify 1 changedSystem.mirror = .ok := by decide
    unfold mirrorRestore
    rw [if_neg (by decide), if_neg (not_not.2 hverify)]
    rfl
  exact Run.cons hcap (Run.cons hset (Run.cons (SysStep.restore hrestore) (Run.nil _)))

theorem restore_env_restoredSystem :
    (∀ key : CStr, envGet (some key) restoredSystem.env = bootVars.lookup key.text) ∧
    ((∀ key : CStr, envGet (some key) restoredSystem.env = envGet (some key) setSystem.env) ↔
      ∀ key : CStr, envGet (some key) setSystem.env = bootVars.lookup key.text) :=
  restore_env run_restoredSystem

/-- **What was set before the capture is lost**: `A` has the value `1` when the snapshot is captured, and
none after it is restored. -/
theorem restore_loses_variable :
    SysStep bootSystem (.set (some [65]) (some [49]) 0) setSystem ∧
    Run SysStep setSystem
      (.capture 1 (some [66]) mirrorFlagAll someCounters .ok :: [.set (some [66]) (some [50]) 0] ++
        [.restore 1 .ok]) restoredSystem ∧
    envGet (some [65]) setSystem.env = some [49] ∧ envGet (some [65]) restoredSystem.env = none := by
  have hboot := represents_envInit zeroTable
  have hset := hboot.envSet [65] [49]
  refine ⟨SysStep.set (Prod.ext (by decide) rfl), run_restoredSystem, ?_, ?_⟩
  · exact (hset.envGet_eq [65]).trans (by decide)
  · exact ((represents_envInit changedSystem.env).envGet_eq [65]).trans (by decide)

end Restore

end AuraOS.Kernel.Mirror
