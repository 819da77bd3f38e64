import AuraOS.Env.Fat12.Directory

/-!
# The directory scans of the driver

`scanLoop_spec`: phase 1 of a write either meets a failing sector read, and then the call gives up, or
computes `scanPure`, a function of the disk contents.  `scanPure_target` reads off its result: the
slot and the cluster of `target`.  `readFile_of_ok` gives the result of a read on a working disk.
-/

namespace AuraOS.Env.Fat12

open AuraOS.Lib AuraOS.Kernel

/-! ### Phase 1 without the disk -/

/-- The locals of phase 1 after the entry `k` was found to match. -/
def Scan.hit (r : Scan) (k : ℕ) (de : Dirent) : Scan :=
  { r with foundEntrySector := entrySector k, foundEntryOff := entryOff k,
           foundCluster := de.cluster.toNat, found := true }

/-- Phase 1 on the disk contents `c`, over the `m` entries from `k` on. -/
def scanPure (c : ℕ → Sector) (n : Name83) : ℕ → ℕ → Scan → Scan
  | 0, _, r => r
  | m + 1, k, r =>
    if (rootEntry c k).isEnd then r.free k
    else if (rootEntry c k).hits n then r.hit k (rootEntry c k)
    else if (rootEntry c k).isFree then scanPure c n m (k + 1) (r.free k)
    else scanPure c n m (k + 1) r

section Steps

variable {n : Name83} {m k : ℕ} {r : Scan} {s s' : Driver}

/-- One turn of the loop of phase 1, once the sector has been read. -/
theorem scanLoop_succ_of_read (h : readSector (entrySector k) s = (true, s'))
    (hb : s'.sSectorBuf = s.dev.cell (entrySector k)) :
    scanLoop n (m + 1) k r s =
      if (rootEntry s.dev.cell k).isEnd then (some (r.free k), s')
      else if (rootEntry s.dev.cell k).hits n then (some (r.hit k (rootEntry s.dev.cell k)), s')
      else if (rootEntry s.dev.cell k).isFree then scanLoop n m (k + 1) (r.free k) s'
      else scanLoop n m (k + 1) r s' := by
  have hde : direntAt s'.sSectorBuf (entryOff k) = rootEntry s.dev.cell k := by rw [hb]; rfl
  conv_lhs => unfold scanLoop
  rw [h]
  simp only [hde]
  generalize rootEntry s.dev.cell k = de
  by_cases h0 : de.name.rd 0 = 0x00
  · simp [Dirent.isEnd, h0]
  by_cases hE : de.name.rd 0 = 0xE5
  · simp [Dirent.isEnd, Dirent.isFree, Dirent.hits, hE]
  by_cases hs : skipAttr de.attr = true
  · simp [Dirent.isEnd, Dirent.isFree, Dirent.hits, h0, hE, hs]
  by_cases hn : de.name = n
  · subst hn
    simp [Dirent.isEnd, Dirent.isFree, Dirent.hits, Scan.hit, h0, hE, hs]
  · simp [Dirent.isEnd, Dirent.isFree, Dirent.hits, h0, hE, hs, hn]

theorem scanLoop_succ_of_fault (h : readSector (entrySector k) s = (false, s')) :
    scanLoop n (m + 1) k r s = (none, s') := by
  unfold scanLoop
  rw [h]

theorem scanPure_of_stops (c : ℕ → Sector) (h : stopsAt c n k = true) :
    scanPure c n (m + 1) k r =
      if (rootEntry c k).isEnd then r.free k else r.hit k (rootEntry c k) := by
  unfold scanPure
  by_cases he : (rootEntry c k).isEnd = true
  · rw [if_pos he, if_pos he]
  · have hh : (rootEntry c k).hits n = true := by
      unfold stopsAt at h
      simpa [he] using h
    rw [if_neg he, if_neg he, if_pos hh]

theorem scanPure_of_not_stops (c : ℕ → Sector) (h : stopsAt c n k = false) :
    scanPure c n (m + 1) k r =
      scanPure c n m (k + 1) (if (rootEntry c k).isFree then r.free k else r) := by
  have he : (rootEntry c k).isEnd = false ∧ (rootEntry c k).hits n = false := by
    simpa [stopsAt] using h
  conv_lhs => unfold scanPure
  rw [he.1, he.2]
  cases (rootEntry c k).isFree <;> rfl

end Steps

/-- A scan of `reads` sector reads from the state `s` ends as `out`: with the locals `v` when none of
the reads fails, with `-1` otherwise, and having written nothing either way. -/
structure Scanned (s : Driver) (reads : ℕ) (v : Scan) (out : Option Scan × Driver) : Prop where
  ok : streak s.dev.fault s.dev.ops reads = reads → out.1 = some v ∧ Did s [] reads out.2
  failed : streak s.dev.fault s.dev.ops reads ≠ reads → out.1 = none ∧ ∃ j, Did s [] j out.2

/-- One more successful read in front. -/
theorem Scanned.cons {s s' : Driver} {reads : ℕ} {v : Scan} {out : Option Scan × Driver}
    (hf : s.dev.fault s.dev.ops = false) (h : Did s [] 1 s') (hs : Scanned s' reads v out) :
    Scanned s (reads + 1) v out := by
  have hstreak : streak s.dev.fault s.dev.ops (reads + 1) =
      streak s'.dev.fault s'.dev.ops reads + 1 := by
    rw [h.dev.fault, h.dev.ops]
    simp [streak, hf]
  constructor
  · intro e
    rw [hstreak] at e
    obtain ⟨a, b⟩ := hs.ok (Nat.succ.inj e)
    refine ⟨a, ?_⟩
    rw [Nat.add_comm reads 1]
    exact h.trans b
  · intro e
    rw [hstreak] at e
    obtain ⟨a, j, b⟩ := hs.failed fun e' => e (by rw [e'])
    exact ⟨a, 1 + j, h.trans b⟩

/-- **Phase 1.**  With no failing read among its `scanReads` sector reads the scan computes
`scanPure`. -/
theorem scanLoop_spec (n : Name83) : ∀ (m k : ℕ) (r : Scan) (s : Driver),
    Scanned s (scanReads s.dev.cell n m k) (scanPure s.dev.cell n m k r) (scanLoop n m k r s) := by
  intro m
  induction m with
  | zero => exact fun k r s => ⟨fun _ => ⟨rfl, Did.refl s⟩, fun h => absurd rfl h⟩
  | succ m ih =>
    intro k r s
    have hreads : scanReads s.dev.cell n (m + 1) k =
        (if stopsAt s.dev.cell n k then 0 else scanReads s.dev.cell n m (k + 1)) + 1 := by
      conv_lhs => unfold scanReads
      split <;> rfl
    rw [hreads]
    cases hf : s.dev.fault s.dev.ops with
    | true =>
      -- the first read fails
      obtain ⟨s', h1, h2⟩ := readSector_of_fault hf (entrySector k)
      rw [scanLoop_succ_of_fault h1]
      refine ⟨fun h => ?_, fun _ => ⟨rfl, 1, h2⟩⟩
      simp [streak, hf] at h
    | false =>
      obtain ⟨s', h1, hb, h2⟩ := readSector_of_ok hf (entrySector k)
      refine Scanned.cons hf h2 ?_
      rw [scanLoop_succ_of_read h1 hb]
      cases hstop : stopsAt s.dev.cell n k with
      | true =>
        rw [scanPure_of_stops s.dev.cell hstop]
        refine ⟨fun _ => ?_, fun h => absurd rfl h⟩
        by_cases he : (rootEntry s.dev.cell k).isEnd = true
        · rw [if_pos he, if_pos he]
          exact ⟨rfl, Did.refl s'⟩
        · have hh : (rootEntry s.dev.cell k).hits n = true := by
            unfold stopsAt at hstop
            simpa [he] using hstop
          rw [if_neg he, if_neg he, if_pos hh]
          exact ⟨rfl, Did.refl s'⟩
      | false =>
        obtain ⟨he, hh⟩ : (rootEntry s.dev.cell k).isEnd = false ∧
            (rootEntry s.dev.cell k).hits n = false := by
          simpa [stopsAt] using hstop
        rw [scanPure_of_not_stops s.dev.cell hstop, he, hh, if_neg Bool.false_ne_true,
          if_neg Bool.false_ne_true, if_neg Bool.false_ne_true, ← h2.cell]
        cases (rootEntry s'.dev.cell k).isFree with
        | true => exact ih (k + 1) (r.free k) s'
        | false => exact ih (k + 1) r s'

/-! ### The result of phase 1 -/

/-- **The slot and the cluster a write uses**: those of the existing file, else the first free slot
and the first free cluster; `none` when the directory or the disk is full. -/
def target (c : ℕ → Sector) (fat : FatBuf) (n : Name83) : Option (ℕ × ℕ) :=
  match lookup c n with
  | some i => some (i, (rootEntry c i).cluster.toNat)
  | none =>
    match freeSlot c with
    | none => none
    | some i => if fat12AllocCluster fat = 0 then none else some (i, fat12AllocCluster fat)

/-- What phase 1 has found on the `m` entries from `k` on. -/
theorem scanPure_spec (c : ℕ → Sector) (n : Name83) : ∀ (m k : ℕ) (r : Scan),
    (∀ i, lookupFrom c n m k = some i →
      (scanPure c n m k r).found = true ∧ (scanPure c n m k r).foundEntrySector = entrySector i ∧
      (scanPure c n m k r).foundEntryOff = entryOff i ∧
      (scanPure c n m k r).foundCluster = (rootEntry c i).cluster.toNat) ∧
    (lookupFrom c n m k = none →
      (scanPure c n m k r).found = r.found ∧
      (r.freeFound = true → (scanPure c n m k r).freeFound = true ∧
        (scanPure c n m k r).freeEntrySector = r.freeEntrySector ∧
        (scanPure c n m k r).freeEntryOff = r.freeEntryOff) ∧
      (r.freeFound = false →
        (first (fun i => (rootEntry c i).isFree) m k = none → (scanPure c n m k r).freeFound = false) ∧
        ∀ i, first (fun i => (rootEntry c i).isFree) m k = some i →
          (scanPure c n m k r).freeFound = true ∧
          (scanPure c n m k r).freeEntrySector = entrySector i ∧
          (scanPure c n m k r).freeEntryOff = entryOff i)) := by
  intro m
  induction m with
  | zero =>
    intro k r
    refine ⟨nofun, fun _ => ⟨rfl, fun h => ⟨h, rfl, rfl⟩, fun h => ⟨fun _ => h, nofun⟩⟩⟩
  | succ m ih =>
    intro k r
    cases hstop : stopsAt c n k with
    | true =>
      rw [scanPure_of_stops c hstop]
      have hfirst : first (stopsAt c n) (m + 1) k = some k := by rw [first_succ, if_pos hstop]
      cases he : (rootEntry c k).isEnd with
      | true =>
        -- the end marker: it is free, and no entry matches
        have hfree : (rootEntry c k).isFree = true := Dirent.isFree_of_isEnd he
        have hnone : lookupFrom c n (m + 1) k = none := by
          unfold lookupFrom
          rw [hfirst]
          simp [Option.filter, Dirent.hits_eq_false_of_isFree hfree]
        have hslot : first (fun i => (rootEntry c i).isFree) (m + 1) k = some k := by
          rw [first_succ, if_pos hfree]
        rw [hnone, hslot, if_pos rfl]
        refine ⟨nofun, fun _ => ⟨?_, fun h => ?_, fun h => ⟨nofun, fun i hi => ?_⟩⟩⟩
        · unfold Scan.free
          split <;> rfl
        · simp [Scan.free, h]
        · obtain rfl := Option.some.inj hi
          simp [Scan.free, h]
      | false =>
        have hh : (rootEntry c k).hits n = true := by
          unfold stopsAt at hstop
          simpa [he] using hstop
        have hsome : lookupFrom c n (m + 1) k = some k := by
          unfold lookupFrom
          rw [hfirst]
          simp [Option.filter, hh]
        rw [hsome]
        refine ⟨fun i hi => ?_, nofun⟩
        obtain rfl := Option.some.inj hi
        exact ⟨rfl, rfl, rfl, rfl⟩
    | false =>
      rw [scanPure_of_not_stops c hstop]
      have hlook : lookupFrom c n (m + 1) k = lookupFrom c n m (k + 1) := by
        unfold lookupFrom
        rw [first_succ, hstop, if_neg Bool.false_ne_true]
      obtain ⟨ih1, ih2⟩ := ih (k + 1) (if (rootEntry c k).isFree then r.free k else r)
      rw [hlook]
      refine ⟨ih1, fun h => ?_⟩
      obtain ⟨a, b, d⟩ := ih2 h
      rw [first_succ]
      cases hfree : (rootEntry c k).isFree with
      | false =>
        rw [hfree] at a b d
        exact ⟨a, b, d⟩
      | true =>
        -- this slot is the free one, unless there was one before
        rw [hfree] at a b
        simp only [if_true] at a b ⊢
        cases hr : r.freeFound with
        | true =>
          have hfk : r.free k = r := by simp [Scan.free, hr]
          rw [hfk] at a b ⊢
          exact ⟨a, fun _ => b hr, nofun⟩
        | false =>
          have hfk : (r.free k).freeFound = true ∧ (r.free k).freeEntrySector = entrySector k ∧
              (r.free k).freeEntryOff = entryOff k ∧ (r.free k).found = r.found := by
            simp [Scan.free, hr]
          obtain ⟨b1, b2, b3⟩ := b hfk.1
          refine ⟨a.trans hfk.2.2.2, nofun, fun _ => ⟨nofun, fun i hi => ?_⟩⟩
          obtain rfl := Option.some.inj hi
          exact ⟨b1, b2.trans hfk.2.1, b3.trans hfk.2.2.1⟩

/-- **Phases 1 and 2 arrive at `target`.** -/
theorem scanPure_target (c : ℕ → Sector) (fat : FatBuf) (n : Name83) :
    let r := scanPure c n rootEntryCount 0 {}
    chooseCluster r fat = (target c fat n).map Prod.snd ∧
      ∀ t cl, target c fat n = some (t, cl) →
        (if r.found then r.foundEntrySector else r.freeEntrySector) = entrySector t ∧
        (if r.found then r.foundEntryOff else r.freeEntryOff) = entryOff t := by
  obtain ⟨h1, h2⟩ := scanPure_spec c n rootEntryCount 0 {}
  simp only
  cases hl : lookup c n with
  | some i =>
    obtain ⟨a, b, d, e⟩ := h1 i hl
    have ht : target c fat n = some (i, (rootEntry c i).cluster.toNat) := by simp [target, hl]
    rw [ht]
    refine ⟨by simp [chooseCluster, a, e], fun t cl htc => ?_⟩
    obtain ⟨rfl, rfl⟩ := Prod.mk.inj (Option.some.inj htc)
    rw [a]
    exact ⟨b, d⟩
  | none =>
    obtain ⟨a, -, d⟩ := h2 hl
    obtain ⟨d1, d2⟩ := d rfl
    replace a : (scanPure c n rootEntryCount 0 {}).found = false := a
    cases hs : freeSlot c with
    | none =>
      have ht : target c fat n = none := by simp [target, hl, hs]
      rw [ht]
      exact ⟨by simp [chooseCluster, a, d1 hs], nofun⟩
    | some i =>
      obtain ⟨f1, f2, f3⟩ := d2 i hs
      by_cases h0 : fat12AllocCluster fat = 0
      · have ht : target c fat n = none := by simp [target, hl, hs, h0]
        rw [ht]
        exact ⟨by simp [chooseCluster, a, f1, h0], nofun⟩
      · have ht : target c fat n = some (i, fat12AllocCluster fat) := by simp [target, hl, hs, h0]
        rw [ht]
        refine ⟨by simp [chooseCluster, a, f1, h0], fun t cl htc => ?_⟩
        obtain ⟨rfl, rfl⟩ := Prod.mk.inj (Option.some.inj htc)
        rw [a]
        exact ⟨f2, f3⟩

/-! ### Reading a file -/

/-- The directory walk of `readLoop`, up to the entry it takes. -/
def readPick (fat83 : Name83) : ℕ → ℕ → Driver → Option ℕ × Driver
  | 0, _, s => (none, s)
  | n + 1, entry, s =>
    match readSector (entrySector entry) s with
    | (false, s) => (none, s)
    | (true, s) =>
      let de := direntAt s.sSectorBuf (entryOff entry)
      if de.name.rd 0 = 0x00 then (none, s)
      else if de.name.rd 0 = 0xE5 then readPick fat83 n (entry + 1) s
      else if skipAttr de.attr then readPick fat83 n (entry + 1) s
      else if de.name ≠ fat83 then readPick fat83 n (entry + 1) s
      else (some entry, s)

/-- What `readLoop` does with the entry it takes. -/
def readEntry (len entry : ℕ) (s : Driver) : Option (List UInt8) × Driver :=
  let de := direntAt s.sSectorBuf (entryOff entry)
  let toRead := if de.size.toNat < len then de.size.toNat else len
  match readSector (clusterToLba de.cluster.toNat) s with
  | (false, s) => (none, s)
  | (true, s) =>
    let copy := if toRead < bytesPerSector then toRead else bytesPerSector
    (some ((List.range copy).map s.sSectorBuf.rd), s)

/-- **The two parts of `readLoop`**: the walk, and the read of the entry. -/
theorem readLoop_eq (n : Name83) (len : ℕ) : ∀ (m k : ℕ) (s : Driver),
    readLoop n len m k s =
      match readPick n m k s with
      | (some i, s') => readEntry len i s'
      | (none, s') => (none, s') := by
  intro m
  induction m with
  | zero => intro k s; rfl
  | succ m ih =>
    intro k s
    unfold readLoop readPick
    rcases readSector (entrySector k) s with ⟨_ | _, s'⟩
    · rfl
    · dsimp only
      by_cases h0 : (direntAt s'.sSectorBuf (entryOff k)).name.rd 0 = 0x00
      · simp [h0]
      by_cases hE : (direntAt s'.sSectorBuf (entryOff k)).name.rd 0 = 0xE5
      · simp [hE, ih]
      by_cases hs : skipAttr (direntAt s'.sSectorBuf (entryOff k)).attr = true
      · simp [h0, hE, hs, ih]
      by_cases hn : (direntAt s'.sSectorBuf (entryOff k)).name = n
      · subst hn
        simp only [h0, hE, hs, ne_eq, not_true_eq_false, if_false]
        rfl
      · simp [h0, hE, hs, hn, ih]

section Pick

variable {n : Name83} {m k : ℕ} {s s' : Driver}

/-- One turn of the walk, once the sector has been read. -/
theorem readPick_succ_of_read (h : readSector (entrySector k) s = (true, s'))
    (hb : s'.sSectorBuf = s.dev.cell (entrySector k)) :
    readPick n (m + 1) k s =
      if (rootEntry s.dev.cell k).isEnd then (none, s')
      else if (rootEntry s.dev.cell k).hits n then (some k, s')
      else readPick n m (k + 1) s' := by
  have hde : direntAt s'.sSectorBuf (entryOff k) = rootEntry s.dev.cell k := by rw [hb]; rfl
  conv_lhs => unfold readPick
  rw [h]
  simp only [hde]
  generalize rootEntry s.dev.cell k = de
  by_cases h0 : de.name.rd 0 = 0x00
  · simp [Dirent.isEnd, h0]
  by_cases hE : de.name.rd 0 = 0xE5
  · simp [Dirent.isEnd, Dirent.isFree, Dirent.hits, hE]
  by_cases hs : skipAttr de.attr = true
  · simp [Dirent.isEnd, Dirent.isFree, Dirent.hits, h0, hE, hs]
  by_cases hn : de.name = n
  · subst hn
    simp [Dirent.isEnd, Dirent.isFree, Dirent.hits, h0, hE, hs]
  · simp [Dirent.isEnd, Dirent.isFree, Dirent.hits, h0, hE, hs, hn]

theorem readPick_succ_of_fault (h : readSector (entrySector k) s = (false, s')) :
    readPick n (m + 1) k s = (none, s') := by
  unfold readPick
  rw [h]

end Pick

/-- The walk of a read from the state `s` ends as `out`: with the entry `v`, which is then in the sector buffer,
or without an entry because a sector read has failed; it has written nothing. -/
structure Picked (s : Driver) (v : Option ℕ) (out : Option ℕ × Driver) : Prop where
  effect : ∃ j, Did s [] j out.2
  result : out.1 = v ∨ out.1 = none ∧ ∃ t, s.dev.fault t = true
  loaded : ∀ i, out.1 = some i → direntAt out.2.sSectorBuf (entryOff i) = rootEntry s.dev.cell i

/-- **The walk** arrives at `lookupFrom`. -/
theorem readPick_spec (n : Name83) : ∀ (m k : ℕ) (s : Driver),
    Picked s (lookupFrom s.dev.cell n m k) (readPick n m k s) := by
  intro m
  induction m with
  | zero =>
    intro k s
    exact ⟨⟨0, Did.refl s⟩, Or.inl rfl, nofun⟩
  | succ m ih =>
    intro k s
    cases hf : s.dev.fault s.dev.ops with
    | true =>
      obtain ⟨s', h1, h2⟩ := readSector_of_fault hf (entrySector k)
      rw [readPick_succ_of_fault h1]
      exact ⟨⟨1, h2⟩, Or.inr ⟨rfl, _, hf⟩, nofun⟩
    | false =>
      obtain ⟨s', h1, hb, h2⟩ := readSector_of_ok hf (entrySector k)
      rw [readPick_succ_of_read h1 hb]
      unfold lookupFrom
      rw [first_succ]
      by_cases he : (rootEntry s.dev.cell k).isEnd = true
      · have hh := Dirent.hits_eq_false_of_isFree (Dirent.isFree_of_isEnd he) n
        simp only [stopsAt, he, if_true, Bool.true_or]
        exact ⟨⟨1, h2⟩, Or.inl (by simp [Option.filter, hh]), nofun⟩
      by_cases hh : (rootEntry s.dev.cell k).hits n = true
      · simp only [stopsAt, he, hh, if_true, if_false, Bool.or_true, Bool.false_eq_true]
        refine ⟨⟨1, h2⟩, Or.inl (by simp [Option.filter, hh]), ?_⟩
        intro i hi
        obtain rfl := Option.some.inj hi
        rw [hb]
        rfl
      · obtain ⟨⟨j, hd⟩, hres, hload⟩ := ih (k + 1) s'
        rw [h2.cell] at hres hload
        rw [h2.dev.fault] at hres
        have hstop : stopsAt s.dev.cell n k = false := by simp [stopsAt, he, hh]
        rw [hstop, if_neg he, if_neg hh, if_neg Bool.false_ne_true]
        exact ⟨⟨1 + j, h2.trans hd⟩, hres, hload⟩

/-- The bytes a read of `n` with a buffer of `len` bytes yields on the disk contents `c`. -/
def fileBytes (c : ℕ → Sector) (n : Name83) (len : ℕ) : Option (List UInt8) :=
  (lookup c n).map fun i =>
    (List.range (min (min (rootEntry c i).size.toNat len) 512)).map
      (c (clusterToLba (rootEntry c i).cluster.toNat)).rd

/-- The walk of a read on a working disk. -/
theorem readLoop_of_ok (n : Name83) (len : ℕ) (m k : ℕ) (s : Driver) (hok : ∀ t, s.dev.fault t = false) :
    (readLoop n len m k s).1 = (lookupFrom s.dev.cell n m k).map (fun i =>
      (List.range (min (min (rootEntry s.dev.cell i).size.toNat len) 512)).map
        (s.dev.cell (clusterToLba (rootEntry s.dev.cell i).cluster.toNat)).rd) := by
  obtain ⟨⟨j, hd⟩, hres, hload⟩ := readPick_spec n m k s
  have hres' : (readPick n m k s).1 = lookupFrom s.dev.cell n m k := by
    rcases hres with h | ⟨-, t, ht⟩
    · exact h
    · rw [hok] at ht
      cases ht
  rw [readLoop_eq, ← hres']
  rcases hp : readPick n m k s with ⟨_ | i, s'⟩
  · rfl
  · -- the cluster of the entry is read into the shared buffer
    rw [hp] at hd hload
    have hde := hload i rfl
    dsimp only at hd hde ⊢
    unfold readEntry
    rw [hde]
    obtain ⟨s'', h1, hb, -⟩ := readSector_of_ok (s := s') (by rw [hd.dev.fault, hok])
      (clusterToLba (rootEntry s.dev.cell i).cluster.toNat)
    have hmin : ∀ a b : ℕ, (if a < b then a else b) = min a b := by
      intro a b
      split <;> omega
    simp only [h1, hb, hd.cell, Option.map_some, hmin]

/-- **A read on a working disk.** -/
theorem fat12ReadFile_of_ok {s : Driver} (hm : s.sFatLoaded = true) (hok : ∀ t, s.dev.fault t = false)
    (name : CStr) {len : ℕ} (hlen : 0 < len) :
    (fat12ReadFile (some name) true len s).1 = fileBytes s.dev.cell (nameToFat83 name) len := by
  have hne : decide (len = 0) = false := by
    rw [decide_eq_false_iff_not]
    omega
  unfold fat12ReadFile
  rw [hm, hne]
  exact readLoop_of_ok _ len rootEntryCount 0 s hok

/-- No read returns more than it was asked for. -/
theorem length_readEntry {len entry : ℕ} {s s' : Driver} {bytes : List UInt8}
    (h : readEntry len entry s = (some bytes, s')) : bytes.length ≤ len := by
  unfold readEntry at h
  dsimp only at h
  rcases hread : readSector _ s with ⟨_ | _, s''⟩
  · rw [hread] at h
    cases h
  · rw [hread] at h
    cases h
    rw [List.length_map, List.length_range]
    split <;> split <;> omega

theorem length_fat12ReadFile {name : Option CStr} {buf : Bool} {len : ℕ} {s s' : Driver} {bytes : List UInt8}
    (h : fat12ReadFile name buf len s = (some bytes, s')) : bytes.length ≤ len := by
  unfold fat12ReadFile at h
  cases name with
  | none => cases h
  | some name =>
    dsimp only at h
    split at h
    · cases h
    · rw [readLoop_eq] at h
      rcases hpick : readPick (nameToFat83 name) rootEntryCount 0 s with ⟨_ | i, s''⟩
      · rw [hpick] at h
        cases h
      · rw [hpick] at h
        exact length_readEntry h

end AuraOS.Env.Fat12
