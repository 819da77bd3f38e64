import AuraOS.Env.Vfs.Names

/-!
# The contents of the files

What a name stands for after a run of calls is computed from the calls and their results alone
(`contents`): it is created empty, holds the data of the last write, and is gone when it is deleted.  The
table agrees with this as long as the names fit, although its nodes are reused and never cleared, so
`fs_read` returns a prefix of these data and no byte of anything else (`fs_contents`).
-/

namespace AuraOS.Env.Vfs

open AuraOS.Lib AuraOS.Kernel

/-- The type of a node, and the data of a file. -/
abbrev Entry := FsNodeType × List UInt8

/-- The entry of a node. -/
def FsNode.entry (node : FsNode) : Entry :=
  (node.type, (List.range node.size.toNat).map node.data.rd)

/-- What becomes of the entry `c` of the name `k`. -/
def recordEntry (k : Text) (c : Option Entry) : Act → Option Entry
  | .create (some name) type res => if name.text = k ∧ res = 0 then some (type, []) else c
  | .write name data len res =>
    if name.text = k ∧ 0 ≤ res then
      c.map fun e => (e.1, (List.range (min len.toNat fsDataSize)).map data)
    else c
  | .delete name res => if name.text = k ∧ res = 0 then none else c
  | _ => c

/-- What the name `k` stands for after these calls; at the beginning there is the root directory. -/
def contents (acts : List Act) (k : Text) : Option Entry :=
  acts.foldl (recordEntry k) (if k = rootName then some (.dir, []) else none)

/-- What `fs_read` returns for an entry. -/
def reading : Option Entry → ℕ → Option (List UInt8)
  | some (.file, data), len => some (data.take len)
  | _, _ => none

/-- The name that a call is about. -/
def Act.name : Act → Option CStr
  | create name _ _ => name
  | write name _ _ _ => some name
  | read name _ _ => some name
  | delete name _ => some name

/-- The name is shorter than its field. -/
def Short (a : Act) : Prop := ∀ name, a.name = some name → name.text.length < fsNameLen

/-- The entries of the names are those of their nodes. -/
def Holds (acts : List Act) (t : FsTable) : Prop :=
  ∃ f, Inv ⟨t, f⟩ ∧ ∀ k, contents acts k = (f k).map fun i => (t i).entry

section Contents

variable {t t' t₀ : FsTable} {a : Act} {acts : List Act} {name : CStr} {k : Text} {i : ℕ} {len : UInt32}

theorem contents_concat : contents (acts ++ [a]) k = recordEntry k (contents acts k) a := by
  unfold contents
  rw [List.foldl_append, List.foldl_cons, List.foldl_nil]

theorem recordEntry_of_ne {c : Option Entry} (h : ∀ name, a.name = some name → name.text ≠ k) :
    recordEntry k c a = c := by
  cases a with
  | create name type res =>
    cases name with
    | none => rfl
    | some name => exact if_neg fun e => h name rfl e.1
  | write name data len res => exact if_neg fun e => h name rfl e.1
  | read => rfl
  | delete name res => exact if_neg fun e => h name rfl e.1

theorem Short.fits (h : Short a) : Fits t a := by
  cases a with
  | create name type res =>
    cases name with
    | none => trivial
    | some name => exact Or.inl (Nat.le_of_lt_succ (h name rfl))
  | write => trivial
  | read => trivial
  | delete => trivial

theorem toNat_clip (len : UInt32) : (clip len).toNat = min len.toNat fsDataSize := by
  unfold clip
  split
  next h =>
    have : fsDataSize < len.toNat := h
    change fsDataSize = _
    omega
  next h =>
    have : ¬fsDataSize < len.toNat := h
    omega

/-- The entry of a node that was written. -/
theorem entry_write {node : FsNode} {data : ℕ → UInt8} :
    FsNode.entry { node with data := node.data.blit 0 (clip len).toNat data, size := clip len } =
      (node.type, (List.range (min len.toNat fsDataSize)).map data) := by
  unfold FsNode.entry
  rw [toNat_clip]
  refine congrArg (Prod.mk node.type) (List.map_congr_left fun j hj => ?_)
  have hj := List.mem_range.1 hj
  dsimp only
  rw [Buf.rd_blit _ _ _ _ (by omega), if_pos (by omega), Nat.sub_zero]

/-- The node of another name is another node. -/
theorem Inv.node_ne {f : Text → Option ℕ} (h : Inv ⟨t, f⟩) {j : ℕ} (hk : f k = some j) (hi : f name.text = some i)
    (hne : name.text ≠ k) : j ≠ i := by
  rintro rfl
  exact hne (((h.linked _ _).1 hi).2.2.symm.trans ((h.linked _ _).1 hk).2.2)

/-- **The step lemma.** -/
theorem Holds.step (h : Holds acts t) (hstep : Step t a t') (hfit : Fits t a) : Holds (acts ++ [a]) t' := by
  obtain ⟨f, hinv, hf⟩ := h
  have hinv' : Inv ⟨t', record t f a⟩ := hinv.step ⟨hstep, rfl⟩ hfit
  refine ⟨_, hinv', fun k => ?_⟩
  rw [contents_concat, hf k]
  cases hstep with
  | @create _ name type res hcall =>
    rcases fsCreate_cases name type t with ⟨-, e⟩ | ⟨n, i, rfl, -, hfree, e⟩
    · rw [hcall] at e
      obtain ⟨rfl, rfl⟩ := Prod.mk.inj e
      cases name with
      | none => rfl
      | some name => exact if_neg fun e => absurd e.2 (by decide)
    · rw [hcall] at e
      obtain ⟨rfl, rfl⟩ := Prod.mk.inj e
      dsimp only [record, recordEntry]
      rw [if_pos rfl, hfree]
      by_cases hk : n.text = k
      · rw [if_pos ⟨hk, rfl⟩, ← hk, Function.update_self, Option.map_some, Function.update_self]
        rfl
      · rw [if_neg fun e => hk e.1, Function.update_of_ne (Ne.symm hk)]
        refine Option.map_congr fun j hj => ?_
        have hji : j ≠ i := by
          rintro rfl
          exact Bool.false_ne_true ((freeNode_spec hfree).2.symm.trans ((hinv.linked _ _).1 hj).2.1)
        rw [Function.update_of_ne hji]
  | @write _ name data len res hcall =>
    rcases fsWrite_cases name data len t with ⟨-, e⟩ | ⟨i, hfind, -, e⟩
    · rw [hcall] at e
      obtain ⟨rfl, rfl⟩ := Prod.mk.inj e
      exact if_neg fun e => absurd e.2 (by decide)
    · rw [hcall] at e
      obtain ⟨rfl, rfl⟩ := Prod.mk.inj e
      have hi : f name.text = some i := (hinv.created_eq name).trans hfind
      dsimp only [record, recordEntry]
      by_cases hk : name.text = k
      · rw [if_pos ⟨hk, Int.natCast_nonneg _⟩, ← hk, hi, Option.map_some, Option.map_some, Option.map_some,
          Function.update_self, entry_write]
        rfl
      · rw [if_neg fun e => hk e.1]
        refine Option.map_congr fun j hj => ?_
        rw [Function.update_of_ne (hinv.node_ne hj hi hk)]
  | read => rfl
  | @delete _ name res hcall =>
    dsimp only [record, recordEntry]
    have hcreated := hinv.created_eq name
    rcases fsDelete_cases name t with ⟨hfind, e⟩ | ⟨i, hfind, e⟩
    · rw [hcall] at e
      obtain ⟨rfl, rfl⟩ := Prod.mk.inj e
      dsimp only at hcreated
      rw [hfind] at hcreated
      rw [if_neg fun e => absurd e.2 (by decide), ← hcreated, Function.update_eq_self]
    · rw [hcall] at e
      obtain ⟨rfl, rfl⟩ := Prod.mk.inj e
      have hi : f name.text = some i := hcreated.trans hfind
      by_cases hk : name.text = k
      · rw [if_pos ⟨hk, rfl⟩, ← hk, Function.update_self]
        rfl
      · rw [if_neg fun e => hk e.1, Function.update_of_ne (Ne.symm hk)]
        refine Option.map_congr fun j hj => ?_
        rw [Function.update_of_ne (hinv.node_ne hj hi hk)]

theorem holds_fsInit (t₀ : FsTable) : Holds [] (fsInit t₀) := by
  refine ⟨(Session.boot t₀).created, inv_boot t₀, fun k => ?_⟩
  have hcreated : (Session.boot t₀).created = Function.update (fun _ => none) rootName (some 0) := rfl
  have hroot : (fsInit t₀ 0).entry = (.dir, []) := rfl
  rw [hcreated]
  by_cases hk : k = rootName
  · rw [hk, Function.update_self, Option.map_some, hroot]
    rfl
  · rw [Function.update_of_ne hk]
    exact if_neg hk

theorem holds_of_run (hr : Run (fun t a t' => Step t a t' ∧ Short a) (fsInit t₀) acts t) : Holds acts t :=
  hr.history (I := Holds) (holds_fsInit t₀) fun _ _ _ _ h hstep => h.step hstep.1 hstep.2.fits

/-- **`fs_read`** reads the entry of the name. -/
theorem Holds.fsRead_eq (h : Holds acts t) (name : CStr) (len : UInt32) :
    fsRead name len t = reading (contents acts name.text) len.toNat := by
  obtain ⟨f, hinv, hf⟩ := h
  have hcreated : f name.text = fsFind name t := hinv.created_eq name
  rw [hf, hcreated]
  unfold fsRead
  cases fsFind name t with
  | none => rfl
  | some i =>
    dsimp only [Option.map_some]
    unfold FsNode.entry
    cases (t i).type with
    | dir => rfl
    | file =>
      have hmin : (if (t i).size < len then (t i).size else len).toNat = min len.toNat (t i).size.toNat := by
        split
        next h =>
          have : (t i).size.toNat < len.toNat := h
          omega
        next h =>
          have : ¬(t i).size.toNat < len.toNat := h
          omega
      rw [if_neg (not_not.2 rfl)]
      dsimp only [reading]
      rw [hmin, ← List.map_take, List.take_range]

/-- **`fs_create`** fails exactly if the name exists, or no node is free. -/
theorem Holds.fsCreate_iff (h : Holds acts t) (name : CStr) (type : FsNodeType) :
    (fsCreate (some name) type t).1 = -1 ↔
      contents acts name.text ≠ none ∨ ∀ i < fsMaxFiles, (t i).valid = true := by
  obtain ⟨f, hinv, hf⟩ := h
  have hcreated : f name.text = fsFind name t := hinv.created_eq name
  have hexists : contents acts name.text ≠ none ↔ (fsFind name t).isSome := by
    rw [hf, hcreated, Ne, Option.map_eq_none_iff, Option.isSome_iff_ne_none]
  rw [hexists, ← freeNode_eq_none_iff]
  rcases fsCreate_cases (some name) type t with ⟨hnone, e⟩ | ⟨n, i, hn, hfind, hfree, e⟩
  · rw [e]
    exact iff_of_true rfl (hnone name rfl)
  · cases hn
    rw [e, hfind, hfree]
    simp

/-- **The contents of the files** after any run of calls with short names: `fs_read` returns a prefix of
what was written to the name last, `fs_create` fails exactly if the name exists or the table is full, and a
call with one name changes nothing for another. -/
theorem fs_contents (hr : Run (fun t a t' => Step t a t' ∧ Short a) (fsInit t₀) acts t) (name : CStr) :
    (∀ len, fsRead name len t = reading (contents acts name.text) len.toNat) ∧
    (∀ type, (fsCreate (some name) type t).1 = -1 ↔
      contents acts name.text ≠ none ∨ ∀ i < fsMaxFiles, (t i).valid = true) ∧
    ∀ a t' len, Step t a t' → Short a → (∀ n, a.name = some n → n.text ≠ name.text) →
      fsRead name len t' = fsRead name len t := by
  have h := holds_of_run hr
  refine ⟨h.fsRead_eq name, h.fsCreate_iff name, fun a t' len hstep hshort hne => ?_⟩
  rw [(h.step hstep hshort.fits).fsRead_eq, h.fsRead_eq, contents_concat, recordEntry_of_ne hne]

/-- A file is created, written and read. -/
theorem fs_contents_oneFile : ∃ t, Run (fun t a t' => Step t a t' ∧ Short a) (fsInit zeroTable)
      [.create (some [65]) .file 0, .write [65] (fun i => UInt8.ofNat i) 3 3] t ∧
    fsRead [65] 2 t = some [0, 1] := by
  have hshort : ∀ a : Act, a.name = some [65] → Short a := fun a ha name hname => by
    rw [← Option.some.inj (ha.symm.trans hname)]
    decide
  have h₁ : Step (fsInit zeroTable) (.create (some [65]) .file 0)
      (fsCreate (some [65]) .file (fsInit zeroTable)).2 := Step.create (Prod.ext (by decide) rfl)
  have h₂ : Step (fsCreate (some [65]) .file (fsInit zeroTable)).2 (.write [65] (fun i => UInt8.ofNat i) 3 3)
      (fsWrite [65] (fun i => UInt8.ofNat i) 3 (fsCreate (some [65]) .file (fsInit zeroTable)).2).2 :=
    Step.write (Prod.ext (by decide) rfl)
  have hr : Run (fun t a t' => Step t a t' ∧ Short a) _ _ _ :=
    Run.cons ⟨h₁, hshort _ rfl⟩ (Run.cons ⟨h₂, hshort _ rfl⟩ (Run.nil _))
  exact ⟨_, hr, (fs_contents hr [65]).1 2⟩

end Contents

end AuraOS.Env.Vfs
