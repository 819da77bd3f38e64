import Mathlib.Data.List.Basic
import Mathlib.Data.List.Forall2
import Mathlib.Tactic.Common

/-!
# Association lists with assignment in place

A registry of variables is a list of keys and values in the order in which the keys first appeared.
`assign k v l` replaces the value at the first `k`, or appends a new entry; `List.lookup` reads.
Assigning the entries of a list with different keys one after the other rebuilds the list, also on
top of some of its first keys (`foldl_assign`), and two lists that differ only in values at `k` still
do so after the same assignment (`AgreeOff.assign`).
-/

namespace AuraOS.Lib

variable {K V : Type*}

/-- The keys of an association list. -/
abbrev keys (l : List (K × V)) : List K := l.map Prod.fst

@[simp] theorem keys_append (l₁ l₂ : List (K × V)) : keys (l₁ ++ l₂) = keys l₁ ++ keys l₂ :=
  List.map_append

section Assign

variable [DecidableEq K] {l l₁ l₂ : List (K × V)} {k k' : K} {v w : V}

/-- `l` with `v` assigned to `k`. -/
def assign (k : K) (v : V) : List (K × V) → List (K × V)
  | [] => [(k, v)]
  | e :: l => if e.1 = k then (k, v) :: l else e :: assign k v l

@[simp] theorem assign_nil : assign k v [] = [(k, v)] := rfl

theorem assign_cons_self : assign k v ((k, w) :: l) = (k, v) :: l := if_pos rfl

theorem assign_cons_of_ne {e : K × V} (h : e.1 ≠ k) : assign k v (e :: l) = e :: assign k v l :=
  if_neg h

/-- Assignment at a cut before which the key does not occur. -/
theorem assign_append (h : k ∉ keys l₁) : assign k v (l₁ ++ l₂) = l₁ ++ assign k v l₂ := by
  induction l₁ with
  | nil => rfl
  | cons e l₁ ih =>
    simp only [List.map_cons, List.mem_cons, not_or] at h
    rw [List.cons_append, assign_cons_of_ne (Ne.symm h.1), ih h.2, List.cons_append]

theorem assign_of_notMem (h : k ∉ keys l) : assign k v l = l ++ [(k, v)] := by
  have : assign k v (l ++ []) = l ++ assign k v [] := assign_append h
  simpa using this

theorem keys_assign_of_mem (h : k ∈ keys l) : keys (assign k v l) = keys l := by
  induction l with
  | nil => simp at h
  | cons e l ih =>
    by_cases he : e.1 = k
    · obtain ⟨a, w⟩ := e
      obtain rfl : a = k := he
      rw [assign_cons_self]
      rfl
    · have hk : k ∈ keys l := by
        simpa [Ne.symm he] using h
      rw [assign_cons_of_ne he]
      simp [ih hk]

theorem mem_of_mem_assign {e : K × V} (h : e ∈ assign k v l) : e = (k, v) ∨ e ∈ l := by
  induction l with
  | nil => simpa using h
  | cons e' l ih =>
    by_cases he : e'.1 = k
    · obtain ⟨a, w⟩ := e'
      obtain rfl : a = k := he
      rw [assign_cons_self] at h
      exact (List.mem_cons.1 h).imp_right (List.mem_cons_of_mem _)
    · rw [assign_cons_of_ne he] at h
      rcases List.mem_cons.1 h with rfl | hmem
      · exact Or.inr List.mem_cons_self
      · exact (ih hmem).imp_right (List.mem_cons_of_mem _)

theorem length_le_assign : l.length ≤ (assign k v l).length := by
  by_cases h : k ∈ keys l
  · have := congrArg List.length (keys_assign_of_mem (v := v) h)
    simp only [List.length_map] at this
    omega
  · rw [assign_of_notMem h]
    simp

theorem length_le_foldl_assign (as l : List (K × V)) :
    l.length ≤ (as.foldl (fun m e => assign e.1 e.2 m) l).length := by
  induction as generalizing l with
  | nil => simp
  | cons e as ih => exact Nat.le_trans length_le_assign (ih _)

theorem nodup_keys_assign (h : (keys l).Nodup) : (keys (assign k v l)).Nodup := by
  by_cases hk : k ∈ keys l
  · rwa [keys_assign_of_mem hk]
  · have hne : ∀ a ∈ keys l, a ≠ k := fun a ha e => hk (e ▸ ha)
    rw [assign_of_notMem hk, keys_append, List.nodup_append]
    exact ⟨h, by simp, fun a ha b hb => by simpa [List.mem_singleton.1 hb] using hne a ha⟩

end Assign

section Lookup

variable [BEq K] [LawfulBEq K] {l l₁ l₂ : List (K × V)} {k k' : K} {v w : V}

theorem lookup_eq_none_iff_notMem : l.lookup k = none ↔ k ∉ keys l := by
  simp only [List.lookup_eq_none_iff, List.mem_map, not_exists, not_and, bne_iff_ne]
  exact forall₂_congr fun e _ => ne_comm

theorem lookup_append_of_notMem (h : k ∉ keys l₁) : (l₁ ++ l₂).lookup k = l₂.lookup k := by
  rw [List.lookup_append, lookup_eq_none_iff_notMem.2 h, Option.none_or]

theorem lookup_append_of_ne (h : k' ≠ k) : (l ++ [(k, v)]).lookup k' = l.lookup k' := by
  have : (k' == k) = false := by simpa using h
  rw [List.lookup_append, List.lookup_cons, this, List.lookup_nil]
  exact Option.or_none

variable [DecidableEq K]

theorem lookup_assign_self : (assign k v l).lookup k = some v := by
  induction l with
  | nil => simp
  | cons e l ih =>
    by_cases he : e.1 = k
    · obtain ⟨a, w⟩ := e
      obtain rfl : a = k := he
      rw [assign_cons_self, List.lookup_cons_self]
    · have : (k == e.1) = false := by simpa using Ne.symm he
      rw [assign_cons_of_ne he, List.lookup_cons, this, ih]

theorem lookup_assign_of_ne (h : k' ≠ k) : (assign k v l).lookup k' = l.lookup k' := by
  induction l with
  | nil => simp [h]
  | cons e l ih =>
    by_cases he : e.1 = k
    · obtain ⟨a, w⟩ := e
      obtain rfl : a = k := he
      have : (k' == a) = false := by simpa using h
      rw [assign_cons_self, List.lookup_cons, List.lookup_cons, this]
    · rw [assign_cons_of_ne he, List.lookup_cons, List.lookup_cons, ih]

end Lookup

section Rebuild

variable [DecidableEq K] {l : List (K × V)}

/-- The entries behind `p` are assigned in order, to a list whose other keys are the first of
theirs. -/
theorem foldl_assign_append {p q r : List (K × V)} (hn : (keys (p ++ q)).Nodup)
    (hr : keys r <+: keys q) :
    q.foldl (fun m e => assign e.1 e.2 m) (p ++ r) = p ++ q := by
  induction q generalizing p r with
  | nil =>
    have : r = [] := by simpa using hr
    rw [this, List.foldl_nil]
  | cons e q ih =>
    have hk : e.1 ∉ keys p := by
      intro hmem
      simp only [List.map_append, List.map_cons, List.nodup_append] at hn
      exact hn.2.2 e.1 hmem e.1 List.mem_cons_self rfl
    have hassoc : p ++ e :: q = p ++ [e] ++ q := by simp
    rw [List.foldl_cons, assign_append hk, hassoc]
    cases r with
    | nil =>
      have := ih (p := p ++ [e]) (r := []) (hassoc ▸ hn) (by simp)
      simpa using this
    | cons e' r =>
      simp only [List.map_cons, List.cons_prefix_cons] at hr
      obtain ⟨a, w⟩ := e'
      obtain rfl : a = e.1 := hr.1
      rw [assign_cons_self]
      have := ih (p := p ++ [e]) (r := r) (hassoc ▸ hn) hr.2
      simpa using this

/-- **Rebuilding a list** with different keys, on top of entries for some of its first keys. -/
theorem foldl_assign {r : List (K × V)} (hn : (keys l).Nodup) (hr : keys r <+: keys l) :
    l.foldl (fun m e => assign e.1 e.2 m) r = l := by
  simpa using foldl_assign_append (p := []) hn hr

end Rebuild

/-! ### Lists that differ in the values of one key -/

/-- The same keys in the same order, and the same values except at `k`. -/
def AgreeOff (k : K) : List (K × V) → List (K × V) → Prop :=
  List.Forall₂ fun e e' => e.1 = e'.1 ∧ (e.1 ≠ k → e.2 = e'.2)

namespace AgreeOff

variable {l l' r r' : List (K × V)} {k k' : K} {v w : V}

theorem refl (k : K) (l : List (K × V)) : AgreeOff k l l :=
  List.forall₂_same.2 fun _ _ => ⟨rfl, fun _ => rfl⟩

theorem append (h : AgreeOff k l l') (h' : AgreeOff k r r') : AgreeOff k (l ++ r) (l' ++ r') :=
  List.rel_append h h'

theorem keys_eq (h : AgreeOff k l l') : keys l = keys l' := by
  induction h with
  | nil => rfl
  | cons he _ ih => simp [he.1, ih]

theorem length_eq (h : AgreeOff k l l') : l.length = l'.length := List.Forall₂.length_eq h

theorem lookup_eq [BEq K] [LawfulBEq K] (h : AgreeOff k l l') (hne : k' ≠ k) : l.lookup k' = l'.lookup k' := by
  induction h with
  | nil => rfl
  | @cons e e' l l' he _ ih =>
    rw [List.lookup_cons, List.lookup_cons, he.1, ih]
    by_cases hk : k' = e'.1
    · have : e.1 ≠ k := by rwa [he.1, ← hk]
      rw [he.2 this]
    · have : (k' == e'.1) = false := by simpa using hk
      rw [this]

/-- Assigning to `k` two values, or to another key the same value. -/
theorem assign [DecidableEq K] (h : AgreeOff k l l') (hv : k' ≠ k → v = w) :
    AgreeOff k (Lib.assign k' v l) (Lib.assign k' w l') := by
  induction h with
  | nil => exact List.Forall₂.cons ⟨rfl, hv⟩ List.Forall₂.nil
  | @cons e e' l l' he hl ih =>
    by_cases hk : e.1 = k'
    · obtain ⟨a, x⟩ := e
      obtain ⟨a', x'⟩ := e'
      obtain rfl : a = a' := he.1
      obtain rfl : a = k' := hk
      rw [assign_cons_self, assign_cons_self]
      exact List.Forall₂.cons ⟨rfl, hv⟩ hl
    · rw [assign_cons_of_ne hk, assign_cons_of_ne (he.1 ▸ hk)]
      exact List.Forall₂.cons he ih

end AgreeOff

end AuraOS.Lib
