import AuraOS.Kernel.Mirror.Integrity
import AuraOS.Env.Registry.Map

/-!
# Damaged snapshots

What the XOR checksum sees of a change to one covered field.  A change of one of the seven 32 bit words
changes the checksum (`snapshotChecksum_set_eq_iff`); the bytes of the label are folded into one byte
(`labelXor`), so a change of the label is seen exactly if it changes that byte, which a change of a single
character always does (`labelXor_ne_of_single`).
-/

namespace AuraOS.Kernel.Mirror

open AuraOS.Lib AuraOS.Env

/-! ### The covered fields -/

/-- The covered 32 bit fields. -/
inductive WordField where
  | timestamp | flags | memUsed | memFree | procCount | pluginCount | eventPending
  deriving DecidableEq, Repr

def WordField.get (s : Snapshot) : WordField → UInt32
  | timestamp => s.timestamp
  | flags => s.flags
  | memUsed => s.memUsed
  | memFree => s.memFree
  | procCount => s.procCount
  | pluginCount => s.pluginCount
  | eventPending => s.eventPending

def WordField.set (s : Snapshot) (v : UInt32) : WordField → Snapshot
  | timestamp => { s with timestamp := v }
  | flags => { s with flags := v }
  | memUsed => { s with memUsed := v }
  | memFree => { s with memFree := v }
  | procCount => { s with procCount := v }
  | pluginCount => { s with pluginCount := v }
  | eventPending => { s with eventPending := v }

/-- New contents for one covered field. -/
inductive Damage where
  | label (l : Buf mirrorLabelLen)
  | word (f : WordField) (v : UInt32)

def Damage.apply (s : Snapshot) : Damage → Snapshot
  | label l => { s with label := l }
  | word f v => f.set s v

/-- The new contents differ from what `s` holds. -/
def Damage.Changes (s : Snapshot) : Damage → Prop
  | label l => l ≠ s.label
  | word f v => v ≠ f.get s

/-! ### What the checksum sees -/

/-- The XOR of the bytes of a label. -/
def labelXor (l : Buf mirrorLabelLen) : UInt8 := (List.range mirrorLabelLen).foldl (fun x i => x ^^^ l.rd i) 0

section Checksum

variable {l l' : Buf mirrorLabelLen} {s : Snapshot}

/-- **The label's part of the checksum** is one byte. -/
theorem checksumLoop_eq_labelXor (l : Buf mirrorLabelLen) :
    checksumLoop l mirrorLabelLen 0 0 = (labelXor l).toUInt32 := by
  have key : ∀ n i (x : UInt8), checksumLoop l n i x.toUInt32 =
      ((List.range' i n).foldl (fun x i => x ^^^ l.rd i) x).toUInt32 := by
    intro n
    induction n with
    | zero => exact fun i x => rfl
    | succ n ih =>
      intro i x
      unfold checksumLoop
      rw [← UInt8.toUInt32_xor, ih, List.range'_succ, List.foldl_cons]
  have h := key mirrorLabelLen 0 0
  rwa [← List.range_eq_range'] at h

theorem snapshotChecksum_set_eq_iff (f : WordField) (v : UInt32) :
    snapshotChecksum (f.set s v) = snapshotChecksum s ↔ v = f.get s := by
  cases f <;> simp [snapshotChecksum, WordField.set, WordField.get]

theorem snapshotChecksum_label_eq_iff :
    snapshotChecksum { s with label := l } = snapshotChecksum s ↔ labelXor l = labelXor s.label := by
  simp [snapshotChecksum, checksumLoop_eq_labelXor, UInt8.toUInt32_inj]

/-- A single changed character changes the XOR. -/
theorem labelXor_ne_of_single {j : ℕ} (hj : j < mirrorLabelLen) (hne : l'.rd j ≠ l.rd j)
    (heq : ∀ i < mirrorLabelLen, i ≠ j → l'.rd i = l.rd i) : labelXor l' ≠ labelXor l := by
  have key : ∀ (is : List ℕ) (x x' : UInt8), (∀ i ∈ is, i ≠ j → l'.rd i = l.rd i) → is.Nodup →
      (is.foldl (fun x i => x ^^^ l'.rd i) x' = is.foldl (fun x i => x ^^^ l.rd i) x ↔
        if j ∈ is then x' ^^^ l'.rd j = x ^^^ l.rd j else x' = x) := by
    intro is
    induction is with
    | nil => simp
    | cons i is ih =>
      intro x x' his hnd
      rw [List.nodup_cons] at hnd
      rw [List.foldl_cons, List.foldl_cons, ih _ _ (fun k hk => his k (List.mem_cons_of_mem i hk)) hnd.2]
      by_cases hij : i = j
      · subst hij
        simp [hnd.1]
      · rw [his i List.mem_cons_self hij]
        have hji : j ∈ i :: is ↔ j ∈ is := by simp [Ne.symm hij]
        simp only [hji]
        split
        · rw [UInt8.xor_assoc, UInt8.xor_assoc, UInt8.xor_comm (l.rd i), UInt8.xor_comm (l.rd i),
            ← UInt8.xor_assoc, ← UInt8.xor_assoc, UInt8.xor_left_inj]
        · exact UInt8.xor_left_inj _
  intro h
  have := (key (List.range mirrorLabelLen) 0 0 (fun i hi => heq i (List.mem_range.1 hi))
    List.nodup_range).1 h
  rw [if_pos (List.mem_range.2 hj)] at this
  exact hne (UInt8.xor_right_inj _ |>.1 this)

end Checksum

/-! ### What is refused -/

/-- The slot neither verifies nor is restored: the registry stays as it is and no event is published. -/
def Refused (slot : UInt8) (m : State) (t : EnvTable) : Prop :=
  mirrorVerify slot m = .err ∧ mirrorRestore slot m t = (.err, none, t)

section Refused

variable {m : State} {slot : UInt8} {t : EnvTable}

/-- The slots that verify. -/
theorem mirrorVerify_ok_iff : mirrorVerify slot m = .ok ↔ slot.toNat < mirrorSlots ∧
    (m.snapshots slot.toNat).valid = true ∧ (m.snapshots slot.toNat).Intact := by
  constructor
  · intro h
    have hguard : ¬(mirrorSlots ≤ slot.toNat ∨ (m.snapshots slot.toNat).valid = false) := by
      intro hbad
      unfold mirrorVerify at h
      rw [if_pos hbad] at h
      cases h
    rw [not_or, Nat.not_le, Bool.not_eq_false] at hguard
    exact ⟨hguard.1, hguard.2, (mirrorVerify_eq_ok_iff hguard.1 hguard.2).1 h⟩
  · rintro ⟨hslot, hv, h⟩
    exact (mirrorVerify_eq_ok_iff hslot hv).2 h

theorem refused_iff (t : EnvTable) : Refused slot m t ↔ mirrorVerify slot m ≠ .ok := by
  constructor
  · intro h hok
    cases hok.symm.trans h.1
  · intro h
    refine ⟨?_, ?_⟩
    · unfold mirrorVerify at h ⊢
      split
      · rfl
      · rename_i hguard
        rw [if_neg hguard] at h
        split
        · rename_i hsum
          exact absurd (if_pos hsum) h
        · rfl
    · unfold mirrorRestore
      rw [if_pos h, ite_self]

/-- The change is one that the checksum sees. -/
def Damage.Seen (s : Snapshot) : Damage → Prop
  | label l => labelXor l ≠ labelXor s.label
  | word f v => v ≠ f.get s

theorem Damage.intact_apply_iff {s : Snapshot} (h : s.Intact) (d : Damage) :
    (d.apply s).Intact ↔ ¬d.Seen s := by
  have hsum : (d.apply s).checksum = s.checksum := by
    rcases d with l | ⟨f, v⟩
    · rfl
    · cases f <;> rfl
  unfold Snapshot.Intact at h ⊢
  rw [hsum, h, eq_comm]
  rcases d with l | ⟨f, v⟩
  · exact snapshotChecksum_label_eq_iff.trans not_not.symm
  · exact (snapshotChecksum_set_eq_iff f v).trans not_not.symm

/-- **A damaged snapshot is refused exactly if the checksum sees the damage.** -/
theorem refused_setSlot_iff (hok : mirrorVerify slot m = .ok) (d : Damage) :
    Refused slot (m.setSlot slot.toNat (d.apply (m.snapshots slot.toNat))) t ↔
      d.Seen (m.snapshots slot.toNat) := by
  obtain ⟨hslot, hv, hintact⟩ := mirrorVerify_ok_iff.1 hok
  have hat : (m.setSlot slot.toNat (d.apply (m.snapshots slot.toNat))).snapshots slot.toNat =
      d.apply (m.snapshots slot.toNat) := Function.update_self _ _ _
  have hvalid : (d.apply (m.snapshots slot.toNat)).valid = true := by
    rw [← hv]
    rcases d with l | ⟨f, v⟩
    · rfl
    · cases f <;> rfl
  rw [refused_iff, ne_eq, mirrorVerify_ok_iff, hat, d.intact_apply_iff hintact]
  simp [hslot, hvalid]

end Refused

/-- **Damage to one covered field of a snapshot that verifies**: a change of a 32 bit field is always
refused, a change of the label exactly if the XOR of its bytes changes, in particular whenever a single
character changes. -/
theorem mirror_damage_refused {m : State} {slot : UInt8} (t : EnvTable)
    (hok : mirrorVerify slot m = .ok) :
    (∀ (f : WordField) (v : UInt32), v ≠ f.get (m.snapshots slot.toNat) →
      Refused slot (m.setSlot slot.toNat ((Damage.word f v).apply (m.snapshots slot.toNat))) t) ∧
    (∀ l : Buf mirrorLabelLen, l ≠ (m.snapshots slot.toNat).label →
      (Refused slot (m.setSlot slot.toNat ((Damage.label l).apply (m.snapshots slot.toNat))) t ↔
        labelXor l ≠ labelXor (m.snapshots slot.toNat).label)) ∧
    ∀ (j : ℕ) (c : UInt8), j < mirrorLabelLen → c ≠ (m.snapshots slot.toNat).label.rd j →
      Refused slot (m.setSlot slot.toNat
        ((Damage.label ((m.snapshots slot.toNat).label.wr j c)).apply (m.snapshots slot.toNat))) t := by
  refine ⟨fun f v hv => ?_, fun l _ => ?_, fun j c hj hc => ?_⟩
  · exact (refused_setSlot_iff hok (.word f v)).2 hv
  · exact refused_setSlot_iff hok (.label l)
  · refine (refused_setSlot_iff hok (.label _)).2 (labelXor_ne_of_single hj ?_ fun i hi hij => ?_)
    · rwa [Buf.rd_wr _ hj, if_pos rfl]
    · rw [Buf.rd_wr _ hj, if_neg hij]

/-- A snapshot named `AB` in slot 1. -/
def capturedMirror : State := (mirrorCapture 1 (some [65, 66]) 0x0F someCounters (mirrorInit zeroMirror)).2.2

theorem mirror_damage_refused_captured :
    Refused 1 (capturedMirror.setSlot 1 ((Damage.word .memUsed 1).apply (capturedMirror.snapshots 1)))
      zeroTable :=
  (mirror_damage_refused _ (show mirrorVerify 1 capturedMirror = .ok by decide)).1 .memUsed 1 (by decide)

/-- **The label `BA` in the place of `AB`** passes: the checksum does not see the order. -/
theorem swappedLabel_accepted :
    mirrorVerify 1 capturedMirror = .ok ∧
      ∃ d : Damage, d.Changes (capturedMirror.snapshots 1) ∧
        mirrorVerify 1 (capturedMirror.setSlot 1 (d.apply (capturedMirror.snapshots 1))) = .ok ∧
        ∀ t, (mirrorRestore 1 (capturedMirror.setSlot 1 (d.apply (capturedMirror.snapshots 1))) t).1 = .ok := by
  have hok : mirrorVerify 1 capturedMirror = .ok := by decide
  have hd : ∀ l, l = ((capturedMirror.snapshots 1).label.wr 0 66).wr 1 65 →
      mirrorVerify 1 (capturedMirror.setSlot 1 ((Damage.label l).apply (capturedMirror.snapshots 1))) = .ok := by
    rintro l rfl
    decide
  refine ⟨hok, .label (((capturedMirror.snapshots 1).label.wr 0 66).wr 1 65), ?_, hd _ rfl, fun t => ?_⟩
  · intro h
    exact absurd (congrArg (fun b => Buf.rd b 0) h) (by decide)
  · unfold mirrorRestore
    rw [if_neg (by decide), if_neg (by rw [hd _ rfl]; simp)]

end AuraOS.Kernel.Mirror
