import AuraOS.Env.Vfs.Defs

/-!
# The names of the nodes

`fs_create` stores the first 23 characters of a name, and `fs_find` compares 24.  So a node is found under
the name that it was created with exactly if this has 23 characters at most; every node can be found and
deleted by its name, and the names are different, as long as no longer one is stored
(`runVfs_reachable_iff`).
-/

namespace AuraOS.Env.Vfs

open AuraOS.Lib AuraOS.Kernel

/-- Strings without NULs. -/
abbrev Text := List UInt8

/-- The stored names have at most 23 characters, and are different. -/
structure Named (t : FsTable) : Prop where
  le : ∀ i < fsMaxFiles, (t i).valid = true → (str (t i).name).length ≤ 23
  inj : ∀ i < fsMaxFiles, ∀ j < fsMaxFiles, (t i).valid = true → (t j).valid = true →
    str (t i).name = str (t j).name → i = j

/-- The name fits its field, or no node is free. -/
def Fits (t : FsTable) : Act → Prop
  | .create (some name) _ _ => name.text.length ≤ 23 ∨ freeNode t = none
  | _ => True

section Find

variable {t t' : FsTable} {name name₂ : CStr} {type : FsNodeType} {data : ℕ → UInt8} {len : UInt32}
  {res : Int} {a : Act} {i : ℕ}

/-- A node is found under a name exactly if it stores this name. -/
theorem strncmpK_name_iff {node : FsNode} (h : (str node.name).length ≤ 23) :
    strncmpK node.name.rd name.chr fsNameLen = 0 ↔ str node.name = name.text := by
  have hstr : chars node.name.rd 0 24 = str node.name := rfl
  change strncmpK node.name.rd name.chr 24 = 0 ↔ _
  rw [strncmpK_eq_zero_iff, chars_chr, hstr]
  constructor
  · intro e
    have hlen : name.text.length ≤ 24 := by
      have := congrArg List.length e
      simp only [List.length_take] at this
      omega
    rwa [List.take_of_length_le hlen] at e
  · intro e
    rw [e, List.take_of_length_le (by rw [← e]; omega)]

/-- **The search** finds the node that stores the name. -/
theorem Named.fsFind_iff (h : Named t) :
    fsFind name t = some i ↔ i < fsMaxFiles ∧ (t i).valid = true ∧ str (t i).name = name.text := by
  have htest : ∀ j < fsMaxFiles, (t j).valid = true →
      (strncmpK (t j).name.rd name.chr fsNameLen = 0 ↔ str (t j).name = name.text) := fun j hj hv =>
    strncmpK_name_iff (h.le j hj hv)
  constructor
  · intro hf
    obtain ⟨-, hlt, hp, -⟩ := first_eq_some_iff.1 hf
    obtain ⟨hv, hname⟩ := decide_eq_true_iff.1 hp
    have hlt : i < fsMaxFiles := by omega
    exact ⟨hlt, hv, (htest i hlt hv).1 hname⟩
  · rintro ⟨hlt, hv, hname⟩
    refine first_eq_some_iff.2 ⟨Nat.zero_le i, by omega, decide_eq_true ⟨hv, (htest i hlt hv).2 hname⟩,
      fun j _ hj => decide_eq_false fun ⟨hvj, hnj⟩ => ?_⟩
    have := h.inj j (by omega) i hlt hvj hv (((htest j (by omega) hvj).1 hnj).trans hname.symm)
    omega

theorem Named.fsFind_eq_none_iff (h : Named t) : fsFind name t = none ↔
    ∀ i < fsMaxFiles, (t i).valid = true → str (t i).name ≠ name.text := by
  rw [Option.eq_none_iff_forall_ne_some]
  refine forall_congr' fun i => ?_
  rw [Ne, h.fsFind_iff]
  simp only [not_and, Ne]

/-- A name that does not fit is never found. -/
theorem fsFind_long (hle : ∀ i < fsMaxFiles, (t i).valid = true → (str (t i).name).length ≤ 23)
    (hlong : 23 < name.text.length) : fsFind name t = none := by
  refine Option.eq_none_iff_forall_ne_some.2 fun i hf => ?_
  obtain ⟨-, hlt, hp, -⟩ := first_eq_some_iff.1 hf
  obtain ⟨hv, hname⟩ := decide_eq_true_iff.1 hp
  have h23 := hle i (by omega) hv
  rw [(strncmpK_name_iff h23).1 hname] at h23
  omega

theorem freeNode_spec (h : freeNode t = some i) : i < fsMaxFiles ∧ (t i).valid = false := by
  obtain ⟨-, hlt, hp, -⟩ := first_eq_some_iff.1 h
  exact ⟨by omega, by simpa using hp⟩

theorem freeNode_eq_none_iff : freeNode t = none ↔ ∀ i < fsMaxFiles, (t i).valid = true := by
  unfold freeNode
  rw [first_eq_none_iff]
  simp

/-! ### The operations -/

theorem fsCreate_cases (name : Option CStr) (type : FsNodeType) (t : FsTable) :
    ((∀ n, name = some n → (fsFind n t).isSome ∨ freeNode t = none) ∧ fsCreate name type t = (-1, t)) ∨
    ∃ n i, name = some n ∧ fsFind n t = none ∧ freeNode t = some i ∧
      fsCreate name type t = (0, Function.update t i (newNode n type (t i))) := by
  unfold fsCreate
  cases name with
  | none => exact Or.inl ⟨nofun, rfl⟩
  | some n =>
    dsimp only
    cases hf : fsFind n t with
    | some j =>
      refine Or.inl ⟨fun n' hn => Or.inl ?_, rfl⟩
      rw [← Option.some.inj hn, hf]
      rfl
    | none =>
      rw [if_neg (by simp)]
      cases hfree : freeNode t with
      | none => exact Or.inl ⟨fun _ _ => Or.inr rfl, rfl⟩
      | some i => exact Or.inr ⟨n, i, rfl, hf, rfl, rfl⟩

theorem fsWrite_cases (name : CStr) (data : ℕ → UInt8) (len : UInt32) (t : FsTable) :
    ((∀ i, fsFind name t = some i → (t i).type ≠ .file) ∧ fsWrite name data len t = (-1, t)) ∨
    ∃ i, fsFind name t = some i ∧ (t i).type = .file ∧ fsWrite name data len t =
      (((clip len).toNat : Int), Function.update t i
        { t i with data := (t i).data.blit 0 (clip len).toNat data, size := clip len }) := by
  unfold fsWrite
  cases hf : fsFind name t with
  | none => exact Or.inl ⟨nofun, rfl⟩
  | some i =>
    dsimp only
    by_cases htype : (t i).type = .file
    · rw [if_neg (not_not.2 htype)]
      exact Or.inr ⟨i, rfl, htype, rfl⟩
    · rw [if_pos htype]
      refine Or.inl ⟨fun j hj => ?_, rfl⟩
      rw [← Option.some.inj hj]
      exact htype

theorem fsDelete_cases (name : CStr) (t : FsTable) :
    (fsFind name t = none ∧ fsDelete name t = (-1, t)) ∨
    ∃ i, fsFind name t = some i ∧
      fsDelete name t = (0, Function.update t i { t i with valid := false, size := 0 }) := by
  unfold fsDelete
  cases hf : fsFind name t with
  | none => exact Or.inl ⟨rfl, rfl⟩
  | some i => exact Or.inr ⟨i, rfl, rfl⟩

/-- What the node stores that `fs_create` fills. -/
theorem str_newNode (name : CStr) (type : FsNodeType) (node : FsNode) :
    str (newNode name type node).name = name.text.take 23 := str_strncpyK (by decide) (Nat.le_refl _)

/-- No valid node comes, and none changes its name. -/
theorem Named.mono (h : Named t) (hsub : ∀ i < fsMaxFiles, (t' i).valid = true →
    (t i).valid = true ∧ (t' i).name = (t i).name) : Named t' := by
  refine ⟨fun i hi hv => ?_, fun i hi j hj hvi hvj e => ?_⟩
  · obtain ⟨hv', hname⟩ := hsub i hi hv
    rw [hname]
    exact h.le i hi hv'
  · obtain ⟨hvi', hni⟩ := hsub i hi hvi
    obtain ⟨hvj', hnj⟩ := hsub j hj hvj
    rw [hni, hnj] at e
    exact h.inj i hi j hj hvi' hvj' e

/-- A node comes under a name that no other one has. -/
theorem Named.create (h : Named t) (hf : fsFind name t = none) (hfit : name.text.length ≤ 23) :
    Named (Function.update t i (newNode name type (t i))) := by
  have hnew : str (newNode name type (t i)).name = name.text := by
    rw [str_newNode, List.take_of_length_le hfit]
  have hne := h.fsFind_eq_none_iff.1 hf
  refine ⟨fun j hj hv => ?_, fun j hj k hk hvj hvk e => ?_⟩
  · by_cases hji : j = i
    · rw [hji, Function.update_self, hnew]
      exact hfit
    · rw [Function.update_of_ne hji] at hv ⊢
      exact h.le j hj hv
  · by_cases hji : j = i
    · by_cases hki : k = i
      · rw [hji, hki]
      · rw [hji, Function.update_self, Function.update_of_ne hki, hnew] at e
        rw [Function.update_of_ne hki] at hvk
        exact absurd e.symm (hne k hk hvk)
    · rw [Function.update_of_ne hji] at hvj
      by_cases hki : k = i
      · rw [hki, Function.update_self, Function.update_of_ne hji, hnew] at e
        exact absurd e (hne j hj hvj)
      · rw [Function.update_of_ne hki] at hvk
        rw [Function.update_of_ne hji, Function.update_of_ne hki] at e
        exact h.inj j hj k hk hvj hvk e

/-- **The step lemma**: the names stay different, as long as they fit. -/
theorem Named.step (h : Named t) (hstep : Step t a t') (hfit : Fits t a) : Named t' := by
  cases hstep with
  | @create _ name type res hcall =>
    rcases fsCreate_cases name type t with ⟨-, e⟩ | ⟨n, i, rfl, hf, hfree, e⟩
    · rw [hcall] at e
      obtain ⟨-, rfl⟩ := Prod.mk.inj e
      exact h
    · rw [hcall] at e
      obtain ⟨-, rfl⟩ := Prod.mk.inj e
      refine h.create hf (hfit.resolve_right fun hnone => ?_)
      rw [hfree] at hnone
      cases hnone
  | @write _ name data len res hcall =>
    rcases fsWrite_cases name data len t with ⟨-, e⟩ | ⟨i, -, -, e⟩
    · rw [hcall] at e
      obtain ⟨-, rfl⟩ := Prod.mk.inj e
      exact h
    · rw [hcall] at e
      obtain ⟨-, rfl⟩ := Prod.mk.inj e
      refine h.mono fun j _ hv => ?_
      by_cases hji : j = i
      · subst hji
        rw [Function.update_self] at hv ⊢
        exact ⟨hv, rfl⟩
      · rw [Function.update_of_ne hji] at hv ⊢
        exact ⟨hv, rfl⟩
  | read => exact h
  | @delete _ name res hcall =>
    rcases fsDelete_cases name t with ⟨-, e⟩ | ⟨i, -, e⟩
    · rw [hcall] at e
      obtain ⟨-, rfl⟩ := Prod.mk.inj e
      exact h
    · rw [hcall] at e
      obtain ⟨-, rfl⟩ := Prod.mk.inj e
      refine h.mono fun j _ hv => ?_
      by_cases hji : j = i
      · rw [hji, Function.update_self] at hv
        cases hv
      · rw [Function.update_of_ne hji] at hv ⊢
        exact ⟨hv, rfl⟩

end Find

/-! ### Runs -/

/-- The table, and the node that the last successful `fs_create` of a name has filled, until `fs_delete`
is called with this name. -/
structure Session where
  table : FsTable
  created : Text → Option ℕ

/-- What becomes of the nodes that were created when a call is made on the table `t`. -/
def record (t : FsTable) (f : Text → Option ℕ) : Act → Text → Option ℕ
  | .create (some name) _ res => if res = 0 then Function.update f name.text (freeNode t) else f
  | .delete name _ => Function.update f name.text none
  | _ => f

def Session.Step (s : Session) (a : Act) (s' : Session) : Prop :=
  Vfs.Step s.table a s'.table ∧ s'.created = record s.table s.created a

/-- The session after `fs_init`. -/
def Session.boot (t₀ : FsTable) : Session where
  table := fsInit t₀
  created := Function.update (fun _ => none) rootName.text (some 0)

/-- Every node that was created is found under its name, is not created again, and can be deleted. -/
def Reach (s : Session) : Prop :=
  ∀ name i, s.created (CStr.text name) = some i → fsFind name s.table = some i ∧
    (∀ type, (fsCreate (some name) type s.table).1 = -1) ∧ (fsDelete name s.table).1 = 0 ∧
      ((fsDelete name s.table).2 i).valid = false ∧ fsFind name (fsDelete name s.table).2 = none

/-- No two valid nodes store the same name. -/
def Distinct (t : FsTable) : Prop :=
  ∀ i < fsMaxFiles, ∀ j < fsMaxFiles, (t i).valid = true → (t j).valid = true →
    str (t i).name = str (t j).name → i = j

/-- The nodes that were created are those that are valid. -/
def Linked (t : FsTable) (f : Text → Option ℕ) : Prop :=
  ∀ k i, f k = some i ↔ i < fsMaxFiles ∧ (t i).valid = true ∧ str (t i).name = k

structure Inv (s : Session) : Prop where
  named : Named s.table
  linked : Linked s.table s.created

section Linked

variable {t : FsTable} {f : Text → Option ℕ} {node : FsNode} {k₀ : Text} {i : ℕ}

/-- A node comes under a new name. -/
theorem Linked.create (h : Linked t f) (hnew : f k₀ = none) (hi : i < fsMaxFiles)
    (hv : (t i).valid = false) (hvalid : node.valid = true) (hname : str node.name = k₀) :
    Linked (Function.update t i node) (Function.update f k₀ (some i)) := by
  intro k j
  have hold := h k j
  by_cases hji : j = i
  · subst hji
    rw [Function.update_self, hname]
    by_cases hk : k = k₀
    · rw [hk, Function.update_self]
      exact iff_of_true rfl ⟨hi, hvalid, rfl⟩
    · rw [Function.update_of_ne hk, hold, hv]
      exact iff_of_false (fun e => Bool.false_ne_true e.2.1) fun e => hk e.2.2.symm
  · rw [Function.update_of_ne hji]
    by_cases hk : k = k₀
    · subst hk
      rw [Function.update_self, ← hold, hnew]
      exact iff_of_false (fun e => hji (Option.some.inj e).symm) nofun
    · rwa [Function.update_of_ne hk]

/-- The node of a name goes. -/
theorem Linked.delete (h : Linked t f) (hk₀ : f k₀ = some i) (hvalid : node.valid = false) :
    Linked (Function.update t i node) (Function.update f k₀ none) := by
  intro k j
  have hold := h k j
  obtain ⟨-, -, hname⟩ := (h k₀ i).1 hk₀
  by_cases hji : j = i
  · subst hji
    rw [Function.update_self, hvalid]
    by_cases hk : k = k₀
    · rw [hk, Function.update_self]
      exact iff_of_false nofun fun e => Bool.false_ne_true e.2.1
    · rw [Function.update_of_ne hk, hold]
      exact iff_of_false (fun e => hk (e.2.2.symm.trans hname)) fun e => Bool.false_ne_true e.2.1
  · rw [Function.update_of_ne hji]
    by_cases hk : k = k₀
    · subst hk
      rw [Function.update_self, ← hold, hk₀]
      exact iff_of_false nofun fun e => hji (Option.some.inj e).symm
    · rwa [Function.update_of_ne hk]

/-- A node keeps its name. -/
theorem Linked.update (h : Linked t f) (hvalid : node.valid = (t i).valid) (hname : node.name = (t i).name) :
    Linked (Function.update t i node) f := by
  intro k j
  by_cases hji : j = i
  · rw [hji, Function.update_self, hvalid, hname]
    exact h k i
  · rw [Function.update_of_ne hji]
    exact h k j

end Linked

section Runs

variable {s s' : Session} {t₀ : FsTable} {a : Act} {acts : List Act} {name : CStr}

theorem Inv.reach (h : Inv s) : Reach s := by
  intro name i hi
  have hf : fsFind name s.table = some i := h.named.fsFind_iff.2 ((h.linked _ _).1 hi)
  have hdel : fsDelete name s.table = (0, Function.update s.table i
      { s.table i with valid := false, size := 0 }) := by
    unfold fsDelete
    rw [hf]
  have hnamed : Named (fsDelete name s.table).2 := h.named.step (Step.delete rfl) trivial
  rw [hdel] at hnamed ⊢
  dsimp only at hnamed ⊢
  refine ⟨hf, fun type => ?_, rfl, by rw [Function.update_self], ?_⟩
  · rcases fsCreate_cases (some name) type s.table with ⟨-, e⟩ | ⟨n, j, hn, hnone, -⟩
    · rw [e]
    · rw [← Option.some.inj hn, hf] at hnone
      cases hnone
  · refine hnamed.fsFind_eq_none_iff.2 fun j hj hv e => ?_
    by_cases hji : j = i
    · rw [hji, Function.update_self] at hv
      cases hv
    · rw [Function.update_of_ne hji] at hv e
      obtain ⟨hi', hv', hname⟩ := h.named.fsFind_iff.1 hf
      exact hji (h.named.inj j hj i hi' hv hv' (e.trans hname.symm))

/-- What was created is what is found. -/
theorem Inv.created_eq (h : Inv s) (name : CStr) : s.created name.text = fsFind name s.table :=
  Option.ext fun i => (h.linked name.text i).trans h.named.fsFind_iff.symm

/-- **The step lemma** of the session. -/
theorem Inv.step (h : Inv s) (hstep : s.Step a s') (hfit : Fits s.table a) : Inv s' := by
  obtain ⟨hstep, hrec⟩ := hstep
  refine ⟨h.named.step hstep hfit, ?_⟩
  rw [hrec]
  generalize s'.table = t' at hstep
  cases hstep with
  | @create _ name type res hcall =>
    rcases fsCreate_cases name type s.table with ⟨-, e⟩ | ⟨n, i, rfl, hf, hfree, e⟩
    · rw [hcall] at e
      obtain ⟨rfl, rfl⟩ := Prod.mk.inj e
      cases name <;> exact h.linked
    · rw [hcall] at e
      obtain ⟨rfl, rfl⟩ := Prod.mk.inj e
      have hshort : n.text.length ≤ 23 := hfit.resolve_right fun hnone => by
        rw [hfree] at hnone
        cases hnone
      obtain ⟨hi, hvi⟩ := freeNode_spec hfree
      dsimp only [record]
      rw [if_pos rfl, hfree]
      refine h.linked.create ((h.created_eq n).trans hf) hi hvi rfl ?_
      rw [str_newNode, List.take_of_length_le hshort]
  | @write _ name data len res hcall =>
    rcases fsWrite_cases name data len s.table with ⟨-, e⟩ | ⟨i, -, -, e⟩
    · rw [hcall] at e
      obtain ⟨-, rfl⟩ := Prod.mk.inj e
      exact h.linked
    · rw [hcall] at e
      obtain ⟨-, rfl⟩ := Prod.mk.inj e
      exact h.linked.update rfl rfl
  | read => exact h.linked
  | @delete _ name res hcall =>
    dsimp only [record]
    have hcreated := h.created_eq name
    rcases fsDelete_cases name s.table with ⟨hf, e⟩ | ⟨i, hf, e⟩
    · rw [hcall] at e
      obtain ⟨-, rfl⟩ := Prod.mk.inj e
      rw [hf] at hcreated
      rw [← hcreated, Function.update_eq_self]
      exact h.linked
    · rw [hcall] at e
      obtain ⟨-, rfl⟩ := Prod.mk.inj e
      exact h.linked.delete (hcreated.trans hf) rfl

/-- A name that does not fit must not be stored. -/
theorem Inv.fits (h : Inv s) (hstep : s.Step a s') (hreach : Reach s') : Fits s.table a := by
  obtain ⟨hstep, hrec⟩ := hstep
  by_contra hfit
  cases a with
  | write => exact hfit trivial
  | read => exact hfit trivial
  | delete => exact hfit trivial
  | create name type res =>
    cases name with
    | none => exact hfit trivial
    | some n =>
      obtain ⟨hlong, hfree⟩ := not_or.1 hfit
      have hlong : 23 < n.text.length := Nat.not_le.1 hlong
      obtain ⟨i, hfree⟩ := Option.ne_none_iff_exists'.1 hfree
      have hf : fsFind n s.table = none := fsFind_long h.named.le hlong
      generalize ht : s'.table = t' at hstep
      cases hstep with
      | create hcall =>
        rcases fsCreate_cases (some n) type s.table with ⟨hnone, -⟩ | ⟨n', j, hn, -, hfree', e⟩
        · rcases hnone n rfl with hsome | hnone
          · rw [hf] at hsome
            cases hsome
          · rw [hfree] at hnone
            cases hnone
        · cases hn
          rw [hcall] at e
          obtain ⟨rfl, rfl⟩ := Prod.mk.inj e
          have hcreated : s'.created n.text = some i := by
            rw [hrec]
            dsimp only [record]
            rw [if_pos rfl, Function.update_self, hfree]
          have hfound := (hreach n i hcreated).1
          rw [ht, fsFind_long ?_ hlong] at hfound
          · cases hfound
          · intro k hk hv
            by_cases hkj : k = j
            · rw [hkj, Function.update_self, str_newNode]
              exact List.length_take_le _ _
            · rw [Function.update_of_ne hkj] at hv ⊢
              exact h.named.le k hk hv

theorem inv_boot (t₀ : FsTable) : Inv (Session.boot t₀) := by
  obtain ⟨t, ht⟩ : ∃ t : FsTable, t = fun i => { t₀ i with valid := false, size := 0 } := ⟨_, rfl⟩
  have hinvalid : ∀ i, (t i).valid = false := fun i => by rw [ht]
  have hinv : Inv ⟨t, fun _ => none⟩ := by
    refine ⟨⟨fun i _ hv => ?_, fun i _ j _ hv => ?_⟩, fun k i => iff_of_false nofun fun e => ?_⟩
    · rw [hinvalid] at hv
      cases hv
    · rw [hinvalid] at hv
      cases hv
    · rw [hinvalid] at e
      cases e.2.1
  have hfree : freeNode t = some 0 :=
    first_eq_some_iff.2 ⟨Nat.le_refl 0, by decide, by rw [hinvalid]; rfl, fun j _ hj => absurd hj (by omega)⟩
  have hf : fsFind rootName t = none := hinv.named.fsFind_eq_none_iff.2 fun i _ hv => by
    rw [hinvalid] at hv
    cases hv
  have hroot : fsCreate (some rootName) .dir t = (0, fsInit t₀) := by
    have hinit : fsInit t₀ = (fsCreate (some rootName) .dir t).2 := by rw [ht]; rfl
    rcases fsCreate_cases (some rootName) .dir t with ⟨hnone, -⟩ | ⟨n, i, -, -, -, e⟩
    · rcases hnone rootName rfl with h | h
      · rw [hf] at h
        cases h
      · rw [hfree] at h
        cases h
    · rw [hinit, e]
  have hstep : Session.Step ⟨t, fun _ => none⟩ (.create (some rootName) .dir 0) (Session.boot t₀) := by
    refine ⟨Step.create hroot, ?_⟩
    dsimp only [record]
    rw [if_pos rfl, hfree]
    rfl
  exact hinv.step hstep (Or.inl (by decide))

theorem Inv.distinct (h : Inv s) : Distinct s.table := h.named.inj

/-- **Every node stays reachable by its name**, and the names are different, exactly as long as no name is
stored that does not fit. -/
theorem runVfs_reachable_iff (t₀ : FsTable) :
    (Reach (Session.boot t₀) ∧ Distinct (Session.boot t₀).table) ∧
    (Run (fun s a s' => Session.Step s a s' ∧ Reach s' ∧ Distinct s'.table) (Session.boot t₀) acts s ↔
      Run (fun s a s' => Session.Step s a s' ∧ Fits s.table a) (Session.boot t₀) acts s) := by
  have h₀ := inv_boot t₀
  refine ⟨⟨h₀.reach, h₀.distinct⟩, (Run.congr (I := Inv) ?_ ?_ h₀).symm⟩
  · exact fun s a s' h hstep => h.step hstep.1 hstep.2
  · intro s a s' h
    constructor
    · rintro ⟨hstep, hfit⟩
      have h' := h.step hstep hfit
      exact ⟨hstep, h'.reach, h'.distinct⟩
    · exact fun ⟨hstep, hreach, _⟩ => ⟨hstep, h.fits hstep hreach⟩

/-- The table before `fs_init`. -/
def zeroTable : FsTable := fun _ => ⟨.tab _ fun _ => 0, .file, 0, .tab _ fun _ => 0, false⟩

/-- A name of 24 characters. -/
def longName : CStr := List.replicate 24 65

/-- **A long name is lost**: `fs_create` returns `0` for it, again and again, `fs_find` does not find it,
`fs_delete` fails, and two valid nodes store its first 23 characters. -/
theorem fsCreate_longName :
    let t := (fsCreate (some longName) .file (fsInit zeroTable)).2
    let t' := (fsCreate (some longName) .file t).2
    (fsCreate (some longName) .file (fsInit zeroTable)).1 = 0 ∧ fsFind longName t = none ∧
      (fsCreate (some longName) .file t).1 = 0 ∧ (fsDelete longName t).1 = -1 ∧ ¬Distinct t' := by
  intro t t'
  refine ⟨by decide, by decide, by decide, by decide, fun h => ?_⟩
  have := h 1 (by decide) 2 (by decide) (by decide) (by decide) (by decide)
  omega

end Runs

end AuraOS.Env.Vfs
