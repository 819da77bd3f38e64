import Mathlib.Data.List.Basic
import Mathlib.Tactic.Common

/-!
# Linked allocation

A file system in which every object is a chain of clusters.  `Volume L` is a snapshot of one: a table
that gives for every cluster what follows it, and objects at slots of type `L`, either in a fixed root
directory or inside a cluster of a directory.  `Consistent` says that every cluster in use belongs to
exactly one object that can be reached from the root.

The one change considered is the one a simple writer makes: slot `t` of the root directory becomes a
file whose only cluster is `cl` (`Sets`).  `Sets.consistent_of_new` and `Sets.consistent_iff_of_old`
say when it keeps the volume consistent.
-/

namespace AuraOS.Lib

/-- What the table says of a cluster: it is free, the last of a chain, or followed by another one. -/
inductive Link where
  | free
  | last
  | to (c : ℕ)
  deriving DecidableEq

/-- A snapshot of a volume with linked allocation. -/
structure Volume (L : Type) where
  data : ℕ → Prop
  next : ℕ → Link
  root : L → Prop
  slot : ℕ → L → Prop
  obj : L → Prop
  dir : L → Prop
  head : L → Option ℕ

namespace Volume

variable {L : Type}

/-- The chain of clusters that begins at a given one. -/
inductive Chain (v : Volume L) : ℕ → List ℕ → Prop
  | last {c : ℕ} : v.data c → v.next c = .last → Chain v c [c]
  | step {c d : ℕ} {l : List ℕ} : v.data c → v.next c = .to d → Chain v d l → Chain v c (c :: l)

/-- Cluster `x` belongs to the object at `p`. -/
def Owns (v : Volume L) (p : L) (x : ℕ) : Prop := ∃ c l, v.head p = some c ∧ v.Chain c l ∧ x ∈ l

/-- The slots of the objects that can be found from the root directory. -/
inductive Reach (v : Volume L) : L → Prop
  | top {p : L} : v.root p → v.obj p → Reach v p
  | sub {p q : L} {x : ℕ} : Reach v p → v.dir p → v.Owns p x → v.slot x q → v.obj q → Reach v q

/-- **Every object has a chain, and every cluster in use is in the chain of exactly one.** -/
structure Consistent (v : Volume L) : Prop where
  chained : ∀ p, v.Reach p → ∀ c, v.head p = some c → ∃ l, v.Chain c l
  unique : ∀ p q x, v.Reach p → v.Reach q → v.Owns p x → v.Owns q x → p = q
  owned : ∀ x, v.data x → v.next x ≠ .free → ∃ p, v.Reach p ∧ v.Owns p x

/-- The slots are laid out without overlap: a root slot is not inside a cluster, and no slot is inside
two. -/
structure Layout (v : Volume L) : Prop where
  root : ∀ p x, v.root p → ¬ v.slot x p
  slot : ∀ p x y, v.slot x p → v.slot y p → x = y

/-! ### Chains -/

section Chain

variable {v v' : Volume L} {c d x : ℕ} {l l' : List ℕ}

theorem Chain.head_mem (h : v.Chain c l) : c ∈ l := by
  cases h <;> exact List.mem_cons_self

theorem Chain.mem (h : v.Chain c l) (hx : x ∈ l) : v.data x ∧ v.next x ≠ .free := by
  induction h with
  | last hd hn =>
    rw [List.mem_singleton.1 hx, hn]
    exact ⟨hd, nofun⟩
  | step hd hn _ ih =>
    rcases List.mem_cons.1 hx with rfl | hx
    · rw [hn]
      exact ⟨hd, nofun⟩
    · exact ih hx

/-- The table determines the chain. -/
theorem Chain.eq (h : v.Chain c l) (h' : v.Chain c l') : l = l' := by
  induction h generalizing l' with
  | last hd hn =>
    cases h' with
    | last => rfl
    | step _ hn' => rw [hn] at hn'; cases hn'
  | step hd hn _ ih =>
    cases h' with
    | last _ hn' => rw [hn] at hn'; cases hn'
    | step _ hn' h' =>
      rw [hn] at hn'
      cases hn'
      rw [ih h']

/-- From every cluster of a chain on there is a chain, which is no longer. -/
theorem Chain.of_mem (h : v.Chain c l) (hx : x ∈ l) : ∃ l', v.Chain x l' ∧ l'.length ≤ l.length := by
  induction h with
  | last hd hn =>
    rw [List.mem_singleton.1 hx]
    exact ⟨_, Chain.last hd hn, Nat.le_refl _⟩
  | step hd hn h ih =>
    rcases List.mem_cons.1 hx with rfl | hx
    · exact ⟨_, Chain.step hd hn h, Nat.le_refl _⟩
    · obtain ⟨l', h1, h2⟩ := ih hx
      exact ⟨l', h1, Nat.le_succ_of_le h2⟩

/-- A chain does not come back to its first cluster. -/
theorem Chain.head_notMem (h : v.Chain c (c :: l)) : c ∉ l := by
  intro hc
  cases h with
  | last => cases hc
  | step hd hn h =>
    obtain ⟨l', h1, h2⟩ := h.of_mem hc
    have := congrArg List.length (h1.eq (Chain.step hd hn h))
    rw [List.length_cons] at this
    omega

/-- A chain depends on its own clusters only. -/
theorem Chain.congr (h : v.Chain c l) (hdata : v'.data = v.data)
    (hnext : ∀ x ∈ l, v'.next x = v.next x) : v'.Chain c l := by
  induction h with
  | last hd hn => exact Chain.last (hdata ▸ hd) ((hnext _ List.mem_cons_self).trans hn)
  | step hd hn _ ih =>
    exact Chain.step (hdata ▸ hd) ((hnext _ List.mem_cons_self).trans hn)
      (ih fun x hx => hnext x (List.mem_cons_of_mem _ hx))

theorem Owns.mem {p : L} (h : v.Owns p x) : v.data x ∧ v.next x ≠ .free := by
  obtain ⟨c, l, -, hch, hx⟩ := h
  exact hch.mem hx

end Chain

/-! ### Setting a slot to a file of one cluster -/

/-- `v'` is `v` with the root slot `t` set to a file whose only cluster is `cl`; what the cluster holds
is not said. -/
structure Sets (v v' : Volume L) (t : L) (cl : ℕ) : Prop where
  layout : v.Layout
  root : v.root t
  cluster : v.data cl
  data : v'.data = v.data
  roots : v'.root = v.root
  slots : v'.slot = v.slot
  next : ∀ x, x ≠ cl → v'.next x = v.next x
  last : v'.next cl = .last
  head : v'.head t = some cl
  dir : ¬ v'.dir t
  other : ∀ q, q ≠ t → (v.root q ∨ ∃ x, x ≠ cl ∧ v.slot x q) →
    (v'.obj q ↔ v.obj q) ∧ (v'.dir q ↔ v.dir q) ∧ v'.head q = v.head q

namespace Sets

variable {v v' : Volume L} {t : L} {cl : ℕ}

/-- The file itself owns its cluster and no other. -/
theorem owns_self (h : Sets v v' t cl) {x : ℕ} : v'.Owns t x ↔ x = cl := by
  have hch : v'.Chain cl [cl] := Chain.last (h.data ▸ h.cluster) h.last
  constructor
  · rintro ⟨c, l, hc, hl, hx⟩
    rw [h.head] at hc
    cases hc
    rw [hl.eq hch] at hx
    exact List.mem_singleton.1 hx
  · rintro rfl
    exact ⟨_, _, h.head, hch, List.mem_singleton.2 rfl⟩

/-- The chain of an object that does not use the cluster stays. -/
theorem owns_other (h : Sets v v' t cl) (hc : v.Consistent) {p : L} (hp : v.Reach p)
    (hhead : v'.head p = v.head p) (hno : ¬ v.Owns p cl) {x : ℕ} : v'.Owns p x ↔ v.Owns p x := by
  have hch : ∀ {c : ℕ} {l : List ℕ}, v.head p = some c → v.Chain c l → v'.Chain c l := by
    intro c l hcl hl
    refine hl.congr h.data fun y hy => h.next y ?_
    rintro rfl
    exact hno ⟨c, l, hcl, hl, hy⟩
  constructor
  · rintro ⟨c, l, h1, h2, h3⟩
    rw [hhead] at h1
    obtain ⟨l', hl'⟩ := hc.chained p hp c h1
    rw [h2.eq (hch h1 hl')] at h3
    exact ⟨c, l', h1, hl', h3⟩
  · rintro ⟨c, l, h1, h2, h3⟩
    exact ⟨c, l, hhead.trans h1, hch h1 h2, h3⟩

/-- No object but the one at `t` uses the cluster. -/
def Alone (v : Volume L) (t : L) (cl : ℕ) : Prop := ∀ p, p ≠ t → v.Reach p → ¬ v.Owns p cl

/-- **What is found after the change** is the file itself, or was found before and is the same. -/
theorem reach (h : Sets v v' t cl) (hc : v.Consistent) (hown : Alone v t cl) {q : L}
    (hq : v'.Reach q) :
    q = t ∨ (q ≠ t ∧ v.Reach q ∧ v'.head q = v.head q ∧ (v'.dir q ↔ v.dir q)) := by
  induction hq with
  | @top p hr ho =>
    rw [h.roots] at hr
    by_cases hp : p = t
    · exact Or.inl hp
    · obtain ⟨h1, h2, h3⟩ := h.other p hp (Or.inl hr)
      exact Or.inr ⟨hp, Reach.top hr (h1.1 ho), h3, h2⟩
  | @sub p q x _ hd hx hs ho ih =>
    rcases ih with rfl | ⟨hpt, hpr, hph, hpd⟩
    · exact absurd hd h.dir
    · rw [h.slots] at hs
      have hx' : v.Owns p x := (h.owns_other hc hpr hph (hown p hpt hpr)).1 hx
      have hxc : x ≠ cl := by
        rintro rfl
        exact hown p hpt hpr hx'
      have hqt : q ≠ t := by
        rintro rfl
        exact h.layout.root _ _ h.root hs
      obtain ⟨h1, h2, h3⟩ := h.other q hqt (Or.inr ⟨x, hxc, hs⟩)
      exact Or.inr ⟨hqt, Reach.sub hpr (hpd.1 hd) hx' hs (h1.1 ho), h3, h2⟩

theorem owns_of_reach (h : Sets v v' t cl) (hc : v.Consistent) (hown : Alone v t cl) {q : L}
    (hq : v'.Reach q) (hqt : q ≠ t) {x : ℕ} : v'.Owns q x ↔ v.Owns q x := by
  rcases h.reach hc hown hq with rfl | ⟨-, hqr, hqh, -⟩
  · exact absurd rfl hqt
  · exact h.owns_other hc hqr hqh (hown q hqt hqr)

/-- Of the three parts of consistency only the last one is in question. -/
theorem consistent_iff (h : Sets v v' t cl) (hc : v.Consistent) (hown : Alone v t cl) :
    v'.Consistent ↔ ∀ x, v.data x → v'.next x ≠ .free → ∃ p, v'.Reach p ∧ v'.Owns p x := by
  refine ⟨fun hc' x hx => hc'.owned x (h.data ▸ hx), fun howned => ⟨?_, ?_, ?_⟩⟩
  · intro p hp c hpc
    rcases h.reach hc hown hp with rfl | ⟨hpt, hpr, hph, -⟩
    · obtain ⟨c', l, h1, h2, -⟩ := h.owns_self.2 rfl
      rw [h1] at hpc
      cases hpc
      exact ⟨l, h2⟩
    · rw [hph] at hpc
      obtain ⟨l, hl⟩ := hc.chained p hpr c hpc
      obtain ⟨c', l', h1, h2, -⟩ :=
        (h.owns_other hc hpr hph (hown p hpt hpr)).2 ⟨c, l, hpc, hl, hl.head_mem⟩
      rw [hph, hpc] at h1
      cases h1
      exact ⟨l', h2⟩
  · intro p q x hp hq hpx hqx
    by_cases hpt : p = t <;> by_cases hqt : q = t
    · rw [hpt, hqt]
    · subst hpt
      rw [h.owns_self] at hpx
      subst hpx
      rw [h.owns_of_reach hc hown hq hqt] at hqx
      rcases h.reach hc hown hq with e | ⟨-, hqr, -⟩
      · exact absurd e hqt
      · exact absurd hqx (hown q hqt hqr)
    · subst hqt
      rw [h.owns_self] at hqx
      subst hqx
      rw [h.owns_of_reach hc hown hp hpt] at hpx
      rcases h.reach hc hown hp with e | ⟨-, hpr, -⟩
      · exact absurd e hpt
      · exact absurd hpx (hown p hpt hpr)
    · rw [h.owns_of_reach hc hown hp hpt] at hpx
      rw [h.owns_of_reach hc hown hq hqt] at hqx
      rcases h.reach hc hown hp with e | ⟨-, hpr, -⟩
      · exact absurd e hpt
      rcases h.reach hc hown hq with e | ⟨-, hqr, -⟩
      · exact absurd e hqt
      exact hc.unique p q x hpr hqr hpx hqx
  · intro x hx
    exact howned x (h.data ▸ hx)

/-- An object listed in a directory stays reachable with the directory. -/
theorem reach_sub (h : Sets v v' t cl) (hc : v.Consistent) (hown : Alone v t cl) {p q : L} {x : ℕ}
    (hp : v.Reach p) (hpr : v'.Reach p) (hpt : p ≠ t) (hd : v.dir p) (hx : v.Owns p x)
    (hs : v.slot x q) (ho : v.obj q) (hqt : q ≠ t) : v'.Reach q := by
  have hxc : x ≠ cl := by
    rintro rfl
    exact hown p hpt hp hx
  refine Reach.sub hpr ?_ ((h.owns_of_reach hc hown hpr hpt).2 hx) (h.slots ▸ hs)
    ((h.other q hqt (Or.inr ⟨x, hxc, hs⟩)).1.2 ho)
  rcases h.reach hc hown hpr with e | ⟨-, -, -, hpd⟩
  · exact absurd e hpt
  · exact hpd.2 hd

/-- **A new file.**  Taking a free cluster keeps the volume consistent exactly when the file can be
seen. -/
theorem consistent_iff_of_new (h : Sets v v' t cl) (hc : v.Consistent) (hfree : v.next cl = .free)
    (hobj : ¬ v.obj t) : v'.Consistent ↔ v'.obj t := by
  have hown : Alone v t cl := fun p _ _ hp => hp.mem.2 hfree
  rw [h.consistent_iff hc hown]
  constructor
  · intro howned
    obtain ⟨p, hp, hpx⟩ := howned cl h.cluster (by rw [h.last]; exact nofun)
    by_cases hpt : p = t
    · subst hpt
      cases hp with
      | top _ ho => exact ho
      | sub _ _ _ _ ho => exact ho
    · rw [h.owns_of_reach hc hown hp hpt] at hpx
      exact absurd hfree hpx.mem.2
  · intro hobj'
    have hreach : ∀ {p : L}, v.Reach p → p ≠ t ∧ v'.Reach p := by
      intro p hp
      induction hp with
      | @top p hr ho =>
        have hpt : p ≠ t := by
          rintro rfl
          exact hobj ho
        exact ⟨hpt, Reach.top (h.roots ▸ hr) ((h.other p hpt (Or.inl hr)).1.2 ho)⟩
      | @sub p q x hp hd hx hs ho ih =>
        obtain ⟨hpt, hpr⟩ := ih
        have hqt : q ≠ t := by
          rintro rfl
          exact hobj ho
        exact ⟨hqt, h.reach_sub hc hown hp hpr hpt hd hx hs ho hqt⟩
    intro x hx hnext
    by_cases hxc : x = cl
    · exact ⟨t, Reach.top (h.roots ▸ h.root) hobj', h.owns_self.2 hxc⟩
    · rw [h.next x hxc] at hnext
      obtain ⟨p, hp, hpx⟩ := hc.owned x hx hnext
      obtain ⟨hpt, hpr⟩ := hreach hp
      exact ⟨p, hpr, (h.owns_of_reach hc hown hpr hpt).2 hpx⟩

/-! ### Cutting a file down -/

/-- A cluster that is in use before and after has the same owner. -/
theorem reach_of_consistent (h : Sets v v' t cl) (hc : v.Consistent) (hown : Alone v t cl)
    (hc' : v'.Consistent) {q : L} {x : ℕ} (hq : v.Reach q) (hqx : v.Owns q x) (hxc : x ≠ cl) :
    q ≠ t ∧ v'.Reach q := by
  have hne := hqx.mem.2
  rw [← h.next x hxc] at hne
  obtain ⟨p, hp, hpx⟩ := hc'.owned x (h.data ▸ hqx.mem.1) hne
  have hpt : p ≠ t := by
    rintro rfl
    exact hxc (h.owns_self.1 hpx)
  rw [h.owns_of_reach hc hown hp hpt] at hpx
  rcases h.reach hc hown hp with e | ⟨-, hpr, -⟩
  · exact absurd e hpt
  · obtain rfl := hc.unique p q x hpr hq hpx hqx
    exact ⟨hpt, hp⟩

/-- The second cluster of the chain would be lost. -/
theorem last_of_consistent (h : Sets v v' t cl) (hc : v.Consistent) (hown : Alone v t cl)
    (htr : v.Reach t) (hhead : v.head t = some cl) (hc' : v'.Consistent) : v.next cl = .last := by
  obtain ⟨l, hl⟩ := hc.chained t htr cl hhead
  cases hl with
  | last _ hn => exact hn
  | @step _ d l hd hn hl' =>
    have hdc : d ≠ cl := by
      rintro rfl
      exact (Chain.step hd hn hl').head_notMem hl'.head_mem
    have htd : v.Owns t d :=
      ⟨cl, cl :: l, hhead, Chain.step hd hn hl', List.mem_cons_of_mem _ hl'.head_mem⟩
    exact absurd rfl (h.reach_of_consistent hc hown hc' htr htd hdc).1

/-- The first cluster of an object listed in the file would be lost. -/
theorem head_of_consistent (h : Sets v v' t cl) (hc : v.Consistent) (hown : Alone v t cl)
    (htr : v.Reach t) (htcl : v.Owns t cl) (hc' : v'.Consistent) (hdir : v.dir t) {q : L}
    (hs : v.slot cl q) (ho : v.obj q) : v.head q = none := by
  by_contra hq
  obtain ⟨c, hqc⟩ := Option.ne_none_iff_exists'.1 hq
  have hqt : q ≠ t := by
    rintro rfl
    exact h.layout.root _ _ h.root hs
  have hqr : v.Reach q := Reach.sub htr hdir htcl hs ho
  obtain ⟨l, hl⟩ := hc.chained q hqr c hqc
  have hqx : v.Owns q c := ⟨c, l, hqc, hl, hl.head_mem⟩
  have hxc : c ≠ cl := by
    rintro rfl
    exact hown q hqt hqr hqx
  cases (h.reach_of_consistent hc hown hc' hqr hqx hxc).2 with
  | top hr _ => exact h.layout.root q cl (h.roots ▸ hr) hs
  | @sub p _ y hp hd hy hs' _ =>
    obtain rfl := h.layout.slot q y cl (h.slots ▸ hs') hs
    have hpt : p ≠ t := by
      rintro rfl
      exact h.dir hd
    rw [h.owns_of_reach hc hown hp hpt] at hy
    rcases h.reach hc hown hp with e | ⟨-, hpr, -⟩
    · exact hpt e
    · exact hown p hpt hpr hy

/-- A file of one cluster that lists no object with a cluster can be replaced. -/
theorem consistent_of_last (h : Sets v v' t cl) (hc : v.Consistent) (hown : Alone v t cl)
    (hhead : v.head t = some cl) (hobj' : v'.obj t) (hlast : v.next cl = .last)
    (hempty : v.dir t → ∀ q, v.slot cl q → v.obj q → v.head q = none) : v'.Consistent := by
  have hone : ∀ {x : ℕ}, v.Owns t x → x = cl := by
    rintro x ⟨c, l', h1, h2, h3⟩
    rw [hhead] at h1
    cases h1
    rw [h2.eq (Chain.last h.cluster hlast)] at h3
    exact List.mem_singleton.1 h3
  have hnone : ∀ {p : L} {x : ℕ}, v.head p = none → ¬v.Owns p x := by
    rintro p x e ⟨c, l', h1, -⟩
    rw [e] at h1
    cases h1
  have hreach : ∀ {p : L}, v.Reach p → p = t ∨ v.head p = none ∨ v'.Reach p := by
    intro p hp
    induction hp with
    | @top p hr ho =>
      by_cases hpt : p = t
      · exact Or.inl hpt
      · exact Or.inr (Or.inr (Reach.top (h.roots ▸ hr) ((h.other p hpt (Or.inl hr)).1.2 ho)))
    | @sub p q x hp hd hx hs ho ih =>
      have hqt : q ≠ t := by
        rintro rfl
        exact h.layout.root _ _ h.root hs
      by_cases hpt : p = t
      · subst hpt
        rw [hone hx] at hs
        exact Or.inr (Or.inl (hempty hd q hs ho))
      rcases ih with e | e | hpr
      · exact absurd e hpt
      · exact absurd hx (hnone e)
      · exact Or.inr (Or.inr (h.reach_sub hc hown hp hpr hpt hd hx hs ho hqt))
  rw [h.consistent_iff hc hown]
  intro x hx hnext
  by_cases hxc : x = cl
  · exact ⟨t, Reach.top (h.roots ▸ h.root) hobj', h.owns_self.2 hxc⟩
  · rw [h.next x hxc] at hnext
    obtain ⟨p, hp, hpx⟩ := hc.owned x hx hnext
    have hpt : p ≠ t := by
      rintro rfl
      exact hxc (hone hpx)
    rcases hreach hp with e | e | hpr
    · exact absurd e hpt
    · exact absurd hpx (hnone e)
    · exact ⟨p, hpr, (h.owns_of_reach hc hown hpr hpt).2 hpx⟩

/-- **An existing file.**  Cutting it down to its first cluster keeps the volume consistent exactly when
it had no other one, and was no directory of objects with clusters. -/
theorem consistent_iff_of_old (h : Sets v v' t cl) (hc : v.Consistent) (ht : v.obj t)
    (hhead : v.head t = some cl) (hobj' : v'.obj t) :
    v'.Consistent ↔ v.next cl = .last ∧
      (v.dir t → ∀ q, v.slot cl q → v.obj q → v.head q = none) := by
  have htr : v.Reach t := Reach.top h.root ht
  obtain ⟨l, hl⟩ := hc.chained t htr cl hhead
  have htcl : v.Owns t cl := ⟨cl, l, hhead, hl, hl.head_mem⟩
  have hown : Alone v t cl := fun p hpt hp hpx => hpt (hc.unique p t cl hp htr hpx htcl)
  constructor
  · intro hc'
    exact ⟨h.last_of_consistent hc hown htr hhead hc',
      fun hdir q hs ho => h.head_of_consistent hc hown htr htcl hc' hdir hs ho⟩
  · rintro ⟨hlast, hempty⟩
    exact h.consistent_of_last hc hown hhead hobj' hlast hempty

end Sets

end Volume

end AuraOS.Lib
