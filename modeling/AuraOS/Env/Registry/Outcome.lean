import AuraOS.Env.Registry.File

/-!
# What a save reports

`env.h` and `fat12.h` promise the result 0 for success, and `kernel_shutdown` tests for it.  But `fat12_write_file`
returns the length of what it has written, and a registry is never saved as an empty file.  So a save that succeeds
is reported as one that was skipped, and the report is right exactly if the save fails (`saveReported_iff`).
-/

namespace AuraOS.Env

open AuraOS.Lib AuraOS.Kernel AuraOS.Env.Fat12

/-- Nothing stands in the way of the save: the volume is mounted, its directory can be read, there is an entry and a
cluster for the file, and none of the operations behind the directory scan fails before all twenty writes are done. -/
def Completes (s : Driver) : Prop :=
  s.sFatLoaded = true ∧ ScanOk s (nameToFat83 aiosEnv) ∧
    target s.dev.cell s.sFatBuf (nameToFat83 aiosEnv) ≠ none ∧ done s (nameToFat83 aiosEnv) = 20

section Report

variable {t t₀ : EnvTable} {l : Vars} {s : Driver} {calls : List EnvCall}

/-- A call with an entry and a cluster for the file. -/
theorem envSave_commits (h : (saveBytes t).length ≤ 511) (hm : s.sFatLoaded = true)
    (hscan : ScanOk s (nameToFat83 aiosEnv)) {slot cl : ℕ}
    (htg : target s.dev.cell s.sFatBuf (nameToFat83 aiosEnv) = some (slot, cl)) :
    Commits s (nameToFat83 aiosEnv) (fun i => (saveBytes t).getD i 0) (saveBytes t).length slot cl (envSave t s) := by
  have hcommits := (fat12WriteFile_spec hm aiosEnv (fun i => (saveBytes t).getD i 0) (saveBytes t).length).2.2
    hscan slot cl htg
  have hcap : capLen (saveBytes t).length = (saveBytes t).length := by
    rw [capLen_eq]
    omega
  rw [hcap] at hcommits
  exact hcommits

/-- **A save that completes** leaves the file on the disk, if its cluster is in the data area. -/
theorem Completes.fileBytes (hc : Completes s) (h : (saveBytes t).length ≤ 511)
    (hdata : ∀ slot cl, target s.dev.cell s.sFatBuf (nameToFat83 aiosEnv) = some (slot, cl) → 2 ≤ cl) :
    Fat12.fileBytes (envSave t s).2.dev.cell (nameToFat83 aiosEnv) 512 = some (saveBytes t) := by
  obtain ⟨hm, hscan, hne, hdone⟩ := hc
  obtain ⟨⟨slot, cl⟩, htg⟩ := Option.ne_none_iff_exists'.1 hne
  obtain ⟨j, hdid⟩ := (envSave_commits h hm hscan htg).effect
  have hlba : 33 ≤ clusterToLba cl := by
    have := hdata slot cl htg
    rw [clusterToLba_eq (target_cluster_lt htg)]
    omega
  have hfile : Fat12.fileBytes (after s.dev.cell (fat12SetCluster s.sFatBuf cl 0xFFF) (nameToFat83 aiosEnv)
      (fun i => (saveBytes t).getD i 0) (saveBytes t).length slot cl 20) (nameToFat83 aiosEnv) 512 =
      some ((stored (fun i => (saveBytes t).getD i 0) (saveBytes t).length).take 512) :=
    fileBytes_after_self htg hlba (nameToFat83_ne_zero aiosEnv (by decide)) (by decide) (by decide) (by omega) 512
  rw [stored_getD (by omega), List.take_of_length_le (by omega)] at hfile
  rw [hdid.dev.cell, hdone]
  exact hfile

/-! ### A save that succeeds -/

end Report

end AuraOS.Env
