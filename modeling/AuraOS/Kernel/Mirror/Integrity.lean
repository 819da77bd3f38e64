import AuraOS.Kernel.Mirror.Defs

/-!
# Snapshot integrity

A snapshot verifies if its checksum is the one of its fields.  `mirror_capture` computes the checksum last,
`mirror_sync` before it writes the label `LIVE`.  So after a sync the live slot verifies exactly if the
first five bytes of the label had the same XOR before, which is the case from the second sync on but not
at the first one (`runMirror_verified_iff`).
-/

namespace AuraOS.Kernel.Mirror

open AuraOS.Lib

/-- The checksum of a snapshot is the one of its fields. -/
def Snapshot.Intact (s : Snapshot) : Prop := s.checksum = snapshotChecksum s

/-- The XOR of the bytes of a label that the string `LIVE` and its NUL overwrite. -/
def headXor (label : Buf mirrorLabelLen) : UInt8 :=
  label.rd 0 ^^^ label.rd 1 ^^^ label.rd 2 ^^^ label.rd 3 ^^^ label.rd 4

section Checksum

variable {label label' : Buf mirrorLabelLen} {s : Snapshot} {n i : ℕ} {csum : UInt32}

theorem checksumLoop_eq (csum : UInt32) :
    checksumLoop label n i csum = csum ^^^ checksumLoop label n i 0 := by
  induction n generalizing i csum with
  | zero => simp [checksumLoop]
  | succ n ih =>
    unfold checksumLoop
    rw [ih, ih (0 ^^^ _), UInt32.zero_xor, UInt32.xor_assoc]

theorem checksumLoop_congr (h : ∀ j, i ≤ j → label.rd j = label'.rd j) :
    checksumLoop label n i csum = checksumLoop label' n i csum := by
  induction n generalizing i csum with
  | zero => rfl
  | succ n ih =>
    unfold checksumLoop
    rw [h i (Nat.le_refl i)]
    exact ih fun j hj => h j (by omega)

/-- The label's part of the checksum. -/
theorem checksumLoop_label (label : Buf mirrorLabelLen) :
    checksumLoop label mirrorLabelLen 0 0 = (headXor label).toUInt32 ^^^ checksumLoop label 15 5 0 := by
  have hhead : checksumLoop label mirrorLabelLen 0 0 =
      checksumLoop label 15 5 (headXor label).toUInt32 := by
    simp [checksumLoop, headXor]
  rw [hhead, checksumLoop_eq]

/-- What the copy of `LIVE` writes. -/
theorem rd_liveLabel (j : ℕ) : (strncpyK label liveLabel mirrorLabelLen).rd j =
    if j = 4 then 0 else if j = 3 then 69 else if j = 2 then 86 else if j = 1 then 73
    else if j = 0 then 76 else label.rd j := by
  have hcopy : strncpyK label liveLabel mirrorLabelLen =
      ((((label.wr 0 76).wr 1 73).wr 2 86).wr 3 69).wr 4 0 := rfl
  rw [hcopy, Buf.rd_wr _ (by decide), Buf.rd_wr _ (by decide), Buf.rd_wr _ (by decide),
    Buf.rd_wr _ (by decide), Buf.rd_wr _ (by decide)]

/-- **After a sync** the live snapshot is intact exactly if the overwritten bytes had the XOR of the ones
written. -/
theorem intact_liveSnapshot_iff (c : Counters) (s : Snapshot) :
    (liveSnapshot c s).Intact ↔ headXor s.label = 0x16 := by
  have hhead : headXor (strncpyK s.label liveLabel mirrorLabelLen) = 0x16 := by
    simp [headXor, rd_liveLabel]
    rfl
  have hrest : checksumLoop (strncpyK s.label liveLabel mirrorLabelLen) 15 5 0 =
      checksumLoop s.label 15 5 0 :=
    checksumLoop_congr fun j hj => by
      rw [rd_liveLabel, if_neg (by omega), if_neg (by omega), if_neg (by omega), if_neg (by omega),
        if_neg (by omega)]
  unfold Snapshot.Intact liveSnapshot snapshotChecksum
  simp only [checksumLoop_label, hhead, hrest, UInt32.xor_left_inj, UInt8.toUInt32_inj]

/-- **A capture** is intact. -/
theorem intact_capturedSnapshot (l : Option CStr) (flags : UInt32) (live : Snapshot) :
    (capturedSnapshot l flags live).Intact := rfl

end Checksum

/-! ### Runs -/

/-- A call of one of the two functions that write snapshots. -/
inductive MirrorCall where
  | sync (c : Counters)
  | capture (slot : UInt8) (label : Option CStr) (flags : UInt32) (c : Counters)

/-- The call leads from `m` to `m'`. -/
def MirrorStep (m : State) : MirrorCall → State → Prop
  | .sync c, m' => (mirrorSync c m).2 = m'
  | .capture slot label flags c, m' => (mirrorCapture slot label flags c m).2.2 = m'

/-- Every slot whose `valid` flag is set passes `mirror_verify`. -/
def Verified (m : State) : Prop :=
  ∀ slot : UInt8, slot.toNat < mirrorSlots → (m.snapshots slot.toNat).valid = true →
    mirrorVerify slot m = .ok

/-- The call does not sync, or recomputes the checksum of the live slot, or finds a label there whose
first bytes have the XOR of `LIVE`. -/
def Settled (m : State) : MirrorCall → Prop
  | .sync _ => headXor (m.snapshots liveSlot).label = 0x16
  | .capture slot _ _ _ =>
    slot = 0 ∨ mirrorSlots ≤ slot.toNat ∨ headXor (m.snapshots liveSlot).label = 0x16

section Runs

variable {m m' m₀ : State} {call : MirrorCall} {calls : List MirrorCall}

theorem mirrorVerify_eq_ok_iff {slot : UInt8} (h : slot.toNat < mirrorSlots)
    (hv : (m.snapshots slot.toNat).valid = true) :
    mirrorVerify slot m = .ok ↔ (m.snapshots slot.toNat).Intact := by
  unfold mirrorVerify Snapshot.Intact
  rw [if_neg (by simp [hv]; omega)]
  split <;> simp_all

theorem verified_iff : Verified m ↔
    ∀ i < mirrorSlots, (m.snapshots i).valid = true → (m.snapshots i).Intact := by
  constructor
  · intro h i hi hv
    have hslot : (UInt8.ofNat i).toNat = i := by
      rw [UInt8.toNat_ofNat']
      have : mirrorSlots = 4 := rfl
      omega
    rw [← hslot] at hv ⊢
    exact (mirrorVerify_eq_ok_iff (by omega) hv).1 (h (UInt8.ofNat i) (by omega) hv)
  · exact fun h slot hslot hv => (mirrorVerify_eq_ok_iff hslot hv).2 (h slot.toNat hslot hv)

theorem snapshots_mirrorSync (c : Counters) (m : State) : (mirrorSync c m).2.snapshots =
    Function.update m.snapshots liveSlot (liveSnapshot c (m.snapshots liveSlot)) := rfl

/-- After a sync the other slots are as they were. -/
theorem verified_sync_iff (h : Verified m) (c : Counters) :
    Verified (mirrorSync c m).2 ↔ headXor (m.snapshots liveSlot).label = 0x16 := by
  rw [verified_iff] at h ⊢
  rw [snapshots_mirrorSync, ← intact_liveSnapshot_iff c]
  constructor
  · intro h'
    simpa using h' liveSlot (by decide) (by rw [Function.update_self]; rfl)
  · intro hlive i hi hv
    by_cases hi0 : i = liveSlot
    · rw [hi0, Function.update_self]
      exact hlive
    · rw [Function.update_of_ne hi0] at hv ⊢
      exact h i hi hv

/-- Only the other slots count when an intact snapshot is stored. -/
theorem verified_setSlot_iff {j : ℕ} {s : Snapshot} (hs : s.Intact) : Verified (m.setSlot j s) ↔
    ∀ i < mirrorSlots, i ≠ j → (m.snapshots i).valid = true → (m.snapshots i).Intact := by
  have hset : (m.setSlot j s).snapshots = Function.update m.snapshots j s := rfl
  rw [verified_iff, hset]
  constructor
  · intro h i hi hij hv
    have := h i hi
    rw [Function.update_of_ne hij] at this
    exact this hv
  · intro h i hi hv
    by_cases hij : i = j
    · rw [hij, Function.update_self]
      exact hs
    · rw [Function.update_of_ne hij] at hv ⊢
      exact h i hi hij hv

/-- **One call** keeps the valid snapshots intact exactly if it is settled. -/
theorem verified_step_iff (h : Verified m) (hstep : MirrorStep m call m') :
    Verified m' ↔ Settled m call := by
  cases call with
  | sync c =>
    obtain rfl := hstep
    exact verified_sync_iff h c
  | capture slot label flags c =>
    obtain rfl := hstep
    change Verified (mirrorCapture slot label flags c m).2.2 ↔ _ ∨ _ ∨ _
    unfold mirrorCapture
    by_cases hslot : mirrorSlots ≤ slot.toNat
    · rw [if_pos hslot]
      exact ⟨fun _ => Or.inr (Or.inl hslot), fun _ => h⟩
    · rw [if_neg hslot]
      have hcap := intact_capturedSnapshot label flags ((mirrorSync c m).2.snapshots liveSlot)
      have hothers : ∀ i < mirrorSlots, i ≠ liveSlot → ((mirrorSync c m).2.snapshots i).valid = true →
          ((mirrorSync c m).2.snapshots i).Intact := by
        rw [snapshots_mirrorSync]
        intro i hi hi0 hv
        rw [Function.update_of_ne hi0] at hv ⊢
        exact verified_iff.1 h i hi hv
      refine (verified_setSlot_iff hcap).trans ?_
      by_cases hlive : slot = 0
      · -- a capture to the live slot covers up what the sync has done
        subst hlive
        exact ⟨fun _ => Or.inl rfl, fun _ => hothers⟩
      · have hne : slot.toNat ≠ liveSlot := fun e => hlive (UInt8.toNat.inj e)
        simp only [hlive, hslot, false_or]
        rw [← verified_sync_iff h c, verified_iff]
        constructor
        · intro h' i hi
          by_cases his : i = slot.toNat
          · exact hothers i hi (his ▸ hne)
          · exact h' i hi his
        · exact fun h' i hi _ => h' i hi

/-- **Every valid slot verifies** exactly as long as every call is settled. -/
theorem runMirror_verified_iff (m₀ : State) : Verified (mirrorInit m₀) ∧
    (Run (fun m c m' => MirrorStep m c m' ∧ Verified m') (mirrorInit m₀) calls m ↔
      Run (fun m c m' => MirrorStep m c m' ∧ Settled m c) (mirrorInit m₀) calls m) := by
  have h0 : Verified (mirrorInit m₀) := verified_iff.2 nofun
  refine ⟨h0, Run.congr (I := Verified) (fun _ _ _ _ hstep => hstep.2) ?_ h0⟩
  exact fun m c m' hm => and_congr_right fun hstep => verified_step_iff hm hstep

/-- The slots at boot. -/
def zeroMirror : State := ⟨fun _ => ⟨.tab _ fun _ => 0, 0, 0, 0, 0, 0, 0, 0, 0, false⟩, 0⟩

/-- Counters at some time. -/
def someCounters : Counters := ⟨10, 4096, 8192, 2, 5, 0⟩

/-- **The first sync after boot** leaves a valid live slot that does not verify. -/
theorem firstSync_not_verified :
    let m := (mirrorSync someCounters (mirrorInit zeroMirror)).2
    MirrorStep (mirrorInit zeroMirror) (.sync someCounters) m ∧ (m.snapshots liveSlot).valid = true ∧
      mirrorVerify 0 m = .err ∧ ¬Verified m := by
  intro m
  have hverify : mirrorVerify 0 m = .err := by decide
  refine ⟨rfl, rfl, hverify, fun h => ?_⟩
  cases hverify.symm.trans (h 0 (by decide) rfl)

end Runs

end AuraOS.Kernel.Mirror
