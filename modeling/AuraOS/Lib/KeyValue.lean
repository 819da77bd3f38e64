import Mathlib.Data.List.Basic
import Mathlib.Data.List.TakeDrop
import Mathlib.Data.List.TakeWhile
import Mathlib.Tactic.Common

/-!
# Texts of key-value lines

A text is a list of symbols with two delimiters: `nl` ends a line, and the first `eq` of a line separates
a key from a value.  `render` writes an association list, `assignments` reads a text back.  Entries
without delimiters are read back as they are (`assignments_render`).  A line end inside a value starts a
further line, which may be an assignment of its own (`assignments_entry`).  Of a text that is cut off the entries of
its first part are read (`assignments_takeD_render`).
-/

namespace AuraOS.Lib

variable {α : Type*}

/-- The line of an entry. -/
def entryLine (eq nl : α) (e : List α × List α) : List α := e.1 ++ eq :: (e.2 ++ [nl])

/-- The text of an association list. -/
def render (eq nl : α) (l : List (List α × List α)) : List α := l.flatMap (entryLine eq nl)

section Render

variable {eq nl : α} {e : List α × List α} {l r : List (List α × List α)}

theorem entryLine_append (e : List α × List α) (r : List α) :
    entryLine eq nl e ++ r = (e.1 ++ eq :: e.2) ++ nl :: r := by
  simp [entryLine]

@[simp] theorem render_nil : render eq nl [] = [] := rfl

@[simp] theorem render_cons : render eq nl (e :: l) = entryLine eq nl e ++ render eq nl l := rfl

@[simp] theorem render_append : render eq nl (l ++ r) = render eq nl l ++ render eq nl r :=
  List.flatMap_append

end Render

/-! ### The first part of a text -/

/-- The entries in the first `n` symbols of a text; the value of the last one may be cut short. -/
def cutEntries : ℕ → List (List α × List α) → List (List α × List α)
  | _, [] => []
  | n, (k, v) :: l =>
    if n ≤ k.length then []
    else if n ≤ k.length + 1 + v.length then [(k, v.take (n - (k.length + 1)))]
    else (k, v) :: cutEntries (n - (k.length + 1 + v.length + 1)) l

/-- Its keys are keys of the list, and its values are beginnings of theirs. -/
theorem mem_cutEntries {l : List (List α × List α)} {n : ℕ} {e : List α × List α} (h : e ∈ cutEntries n l) :
    ∃ e' ∈ l, e.1 = e'.1 ∧ e.2 <+: e'.2 := by
  induction l generalizing n with
  | nil => cases h
  | cons p l ih =>
    obtain ⟨k, v⟩ := p
    unfold cutEntries at h
    split at h
    next => cases h
    split at h
    next =>
      rw [List.mem_singleton.1 h]
      exact ⟨(k, v), List.mem_cons_self, rfl, List.take_prefix _ _⟩
    next =>
      rcases List.mem_cons.1 h with rfl | h
      · exact ⟨(k, v), List.mem_cons_self, rfl, List.prefix_refl _⟩
      · obtain ⟨e', hmem, he⟩ := ih h
        exact ⟨e', List.mem_cons_of_mem _ hmem, he⟩

theorem takeD_append {a : List α} {n : ℕ} (h : a.length ≤ n) (b : List α) (x : α) :
    (a ++ b).takeD n x = a ++ b.takeD (n - a.length) x := by
  induction a generalizing n with
  | nil => rfl
  | cons y a ih =>
    rw [List.length_cons] at h
    obtain ⟨m, rfl⟩ := Nat.exists_eq_add_of_le' (Nat.le_trans (Nat.le_add_left 1 a.length) h)
    rw [List.cons_append, List.takeD_succ, List.tail_cons, ih (by omega), List.length_cons,
      Nat.add_sub_add_right]
    rfl

theorem takeD_eq_map (n : ℕ) (l : List α) (a : α) :
    l.takeD n a = (List.range n).map fun i => l.getD i a := by
  induction n generalizing l with
  | zero => rfl
  | succ n ih =>
    rw [List.range_succ_eq_map, List.map_cons, List.map_map, List.takeD_succ, ih]
    cases l with
    | nil => rfl
    | cons x l => rfl

/-! ### Reading a text -/

variable [DecidableEq α]

/-- The key and the value of a line with a separator. -/
def keyValue (eq : α) (line : List α) : Option (List α × List α) :=
  if eq ∈ line then some (line.takeWhile (· ≠ eq), (line.dropWhile (· ≠ eq)).tail) else none

/-- The keys and values of all lines that have a separator. -/
def assignments (eq nl : α) (text : List α) : List (List α × List α) :=
  (text.splitOn nl).filterMap (keyValue eq)

/-- What a value assigns in the lines behind its first one. -/
def further (eq nl : α) (v : List α) : List (List α × List α) :=
  (v.splitOn nl).tail.filterMap (keyValue eq)

/-- Neither key nor value have a delimiter in the wrong place. -/
structure CleanEntry (eq nl : α) (e : List α × List α) : Prop where
  key_eq : eq ∉ e.1
  key_nl : nl ∉ e.1
  value_nl : nl ∉ e.2

section KeyValue

variable {eq nl : α} {k v a b : List α} {e : List α × List α} {l r : List (List α × List α)}

theorem all_ne_of_notMem (h : eq ∉ k) : ∀ c ∈ k, decide (c ≠ eq) = true := by
  intro c hc
  have : c ≠ eq := by
    rintro rfl
    exact h hc
  simpa using this

theorem takeWhile_ne_append (h : eq ∉ k) : (k ++ eq :: v).takeWhile (· ≠ eq) = k := by
  rw [List.takeWhile_append_of_pos (all_ne_of_notMem h), List.takeWhile_cons_of_neg (by simp),
    List.append_nil]

theorem takeWhile_ne_of_notMem (h : eq ∉ k) : k.takeWhile (· ≠ eq) = k := by
  have : (k ++ []).takeWhile (· ≠ eq) = k ++ [].takeWhile (· ≠ eq) :=
    List.takeWhile_append_of_pos (all_ne_of_notMem h)
  simpa using this

theorem dropWhile_ne_append (h : eq ∉ k) : (k ++ eq :: v).dropWhile (· ≠ eq) = eq :: v := by
  rw [List.dropWhile_append_of_pos (all_ne_of_notMem h), List.dropWhile_cons_of_neg (by simp)]

theorem keyValue_append (h : eq ∉ k) : keyValue eq (k ++ eq :: v) = some (k, v) := by
  unfold keyValue
  rw [if_pos (by simp), takeWhile_ne_append h, dropWhile_ne_append h, List.tail_cons]

theorem keyValue_of_notMem (h : eq ∉ k) : keyValue eq k = none := if_neg h

@[simp] theorem assignments_nil : assignments eq nl [] = [] := rfl

/-- **A line end separates** what is assigned before it and behind it. -/
theorem assignments_append (a b : List α) :
    assignments eq nl (a ++ nl :: b) = assignments eq nl a ++ assignments eq nl b := by
  unfold assignments
  rw [List.splitOn_append_cons_self, List.filterMap_append]

/-- A single line. -/
theorem assignments_of_notMem (h : nl ∉ a) :
    assignments eq nl a = (keyValue eq a).toList := by
  unfold assignments
  rw [List.splitOn_eq_singleton h]
  cases hkv : keyValue eq a <;> simp [hkv]

/-- **An entry whose key is clean**: its value up to the first line end goes to the key, and the further
lines assign what they like. -/
theorem assignments_entry (hk : eq ∉ k) (hnl : nl ∉ k) (hne : eq ≠ nl) (v : List α) :
    assignments eq nl (k ++ eq :: v) = (k, v.takeWhile (· ≠ nl)) :: further eq nl v := by
  by_cases h : nl ∈ v
  · obtain ⟨v₁, v₂, rfl, hv₁⟩ := List.eq_append_cons_of_mem h
    have hline : nl ∉ k ++ eq :: v₁ := by simp [hnl, hv₁, Ne.symm hne]
    rw [show k ++ eq :: (v₁ ++ nl :: v₂) = (k ++ eq :: v₁) ++ nl :: v₂ by simp, assignments_append,
      assignments_of_notMem hline, keyValue_append hk, takeWhile_ne_append hv₁]
    unfold further
    rw [List.splitOn_append_cons_self_of_not_mem hv₁]
    rfl
  · have hline : nl ∉ k ++ eq :: v := by simp [hnl, h, Ne.symm hne]
    rw [assignments_of_notMem hline, keyValue_append hk, takeWhile_ne_of_notMem h]
    unfold further
    rw [List.splitOn_eq_singleton h]
    rfl

theorem further_of_notMem (h : nl ∉ v) : further eq nl v = [] := by
  unfold further
  rw [List.splitOn_eq_singleton h]
  rfl

/-- The further lines of a value are the text behind its first line end. -/
theorem further_eq (v : List α) : further eq nl v = assignments eq nl ((v.dropWhile (· ≠ nl)).drop 1) := by
  by_cases h : nl ∈ v
  · obtain ⟨v₁, v₂, rfl, hv₁⟩ := List.eq_append_cons_of_mem h
    unfold further
    rw [dropWhile_ne_append hv₁, List.splitOn_append_cons_self_of_not_mem hv₁]
    rfl
  · have hdrop : v.dropWhile (· ≠ nl) = [] := by
      rw [List.dropWhile_eq_nil_iff]
      exact all_ne_of_notMem h
    rw [further_of_notMem h, hdrop]
    rfl

/-- **A text that starts with an assignment.** -/
theorem assignments_assign (hk : eq ∉ k) (hnl : nl ∉ k) (hne : eq ≠ nl) (r : List α) :
    assignments eq nl (k ++ eq :: r) =
      (k, r.takeWhile (· ≠ nl)) :: assignments eq nl ((r.dropWhile (· ≠ nl)).drop 1) := by
  rw [assignments_entry hk hnl hne, further_eq]

/-- A text whose first line assigns nothing. -/
theorem assignments_skip (hk : eq ∉ k) (hnl : nl ∉ k) (r : List α) :
    assignments eq nl (k ++ nl :: r) = assignments eq nl r := by
  rw [assignments_append, assignments_of_notMem hnl, keyValue_of_notMem hk]
  rfl

/-- A text without delimiters. -/
theorem assignments_rest (hk : eq ∉ k) (hnl : nl ∉ k) : assignments eq nl k = [] := by
  rw [assignments_of_notMem hnl, keyValue_of_notMem hk]
  rfl

/-- **A text is cut** at its first delimiter, if it has one. -/
theorem cut_cases (eq nl : α) (text : List α) :
    (eq ∉ text ∧ nl ∉ text) ∨
      ∃ k c r, text = k ++ c :: r ∧ eq ∉ k ∧ nl ∉ k ∧ (c = eq ∨ c = nl) := by
  induction text with
  | nil => exact Or.inl ⟨List.not_mem_nil, List.not_mem_nil⟩
  | cons a text ih =>
    by_cases ha : a = eq ∨ a = nl
    · exact Or.inr ⟨[], a, text, rfl, List.not_mem_nil, List.not_mem_nil, ha⟩
    · have hcons : ∀ {k : List α}, eq ∉ k → nl ∉ k → eq ∉ a :: k ∧ nl ∉ a :: k := by
        intro k h1 h2
        constructor
        · simpa [h1] using fun h : eq = a => ha (Or.inl h.symm)
        · simpa [h2] using fun h : nl = a => ha (Or.inr h.symm)
      rcases ih with ⟨h1, h2⟩ | ⟨k, c, r, rfl, h1, h2, hc⟩
      · exact Or.inl (hcons h1 h2)
      · exact Or.inr ⟨a :: k, c, r, rfl, (hcons h1 h2).1, (hcons h1 h2).2, hc⟩

theorem assignments_entryLine_append (r : List α) :
    assignments eq nl (entryLine eq nl e ++ r) =
      assignments eq nl (e.1 ++ eq :: e.2) ++ assignments eq nl r := by
  rw [entryLine_append, assignments_append]

theorem assignments_of_clean (h : CleanEntry eq nl e) (hne : eq ≠ nl) :
    assignments eq nl (e.1 ++ eq :: e.2) = [e] := by
  rw [assignments_entry h.key_eq h.key_nl hne, takeWhile_ne_of_notMem h.value_nl,
    further_of_notMem h.value_nl]

/-- What a rendered list assigns, entry by entry. -/
theorem assignments_render_eq (l : List (List α × List α)) :
    assignments eq nl (render eq nl l) = l.flatMap fun e => assignments eq nl (e.1 ++ eq :: e.2) := by
  induction l with
  | nil => rfl
  | cons e l ih => rw [render_cons, assignments_entryLine_append, ih, List.flatMap_cons]

/-- **Clean entries are read back** as they were written. -/
theorem assignments_render (h : ∀ e ∈ l, CleanEntry eq nl e) (hne : eq ≠ nl) :
    assignments eq nl (render eq nl l) = l := by
  induction l with
  | nil => rfl
  | cons e l ih =>
    rw [render_cons, assignments_entryLine_append, assignments_of_clean (h e List.mem_cons_self) hne,
      ih fun e' he' => h e' (List.mem_cons_of_mem e he')]
    rfl

end KeyValue

/-! ### Reading the first part of a text -/

section Cut

variable {eq nl pad : α} {l : List (List α × List α)}

/-- **Clean entries in a text that is cut off**, or filled up with other symbols. -/
theorem assignments_takeD_render (h : ∀ e ∈ l, CleanEntry eq nl e) (hne : eq ≠ nl) (hpe : eq ≠ pad) (hpn : nl ≠ pad)
    (n : ℕ) : assignments eq nl ((render eq nl l).takeD n pad) = cutEntries n l := by
  induction l generalizing n with
  | nil =>
    rw [render_nil, List.takeD_nil]
    refine assignments_rest (fun hmem => ?_) fun hmem => ?_
    · exact hpe (List.eq_of_mem_replicate hmem)
    · exact hpn (List.eq_of_mem_replicate hmem)
  | cons e l ih =>
    obtain ⟨k, v⟩ := e
    obtain ⟨hk, hkn, hv⟩ := h (k, v) List.mem_cons_self
    have htext : render eq nl ((k, v) :: l) = (k ++ eq :: v) ++ nl :: render eq nl l := by
      rw [render_cons, entryLine_append]
    have hlen : (k ++ eq :: v).length = k.length + 1 + v.length := by
      rw [List.length_append, List.length_cons]
      omega
    rw [htext]
    unfold cutEntries
    split
    next hn =>
      -- not even the separator
      rw [List.takeD_eq_take _ (by rw [List.length_append]; omega), List.append_assoc,
        List.take_append_of_le_length hn]
      exact assignments_rest (fun hmem => hk (List.mem_of_mem_take hmem)) fun hmem => hkn (List.mem_of_mem_take hmem)
    split
    next hn hn' =>
      have hval : nl ∉ v.take (n - (k.length + 1)) := fun hmem => hv (List.mem_of_mem_take hmem)
      have htake : (k ++ eq :: v).take n = k ++ eq :: v.take (n - (k.length + 1)) := by
        rw [List.take_append, List.take_of_length_le (by omega),
          show n - k.length = n - (k.length + 1) + 1 by omega, List.take_succ_cons]
      rw [List.takeD_eq_take _ (by rw [List.length_append]; omega),
        List.take_append_of_le_length (by omega), htake, assignments_entry hk hkn hne,
        takeWhile_ne_of_notMem hval, further_of_notMem hval]
    next hn hn' =>
      rw [takeD_append (by omega), hlen,
        show n - (k.length + 1 + v.length) = n - (k.length + 1 + v.length + 1) + 1 by omega, List.takeD_succ,
        List.tail_cons]
      refine (assignments_append _ _).trans ?_
      rw [assignments_of_clean (h (k, v) List.mem_cons_self) hne,
        ih fun e he => h e (List.mem_cons_of_mem _ he)]
      rfl

end Cut

end AuraOS.Lib
