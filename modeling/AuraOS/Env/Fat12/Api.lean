import AuraOS.Env.Fat12.Frame
import AuraOS.Env.Fat12.Store

/-!
# Calls of the file system and power cycles

A run is any sequence of calls, with power cycles between them, which clear the static variables and leave the
disk.  The FAT in the cache is the first FAT of the disk between two calls (`Coherent`), so mounting the volume once
more changes nothing (`remount_invisible`), and the files outlive a power cycle: on a formatted volume the results of
every run are those of a map of at most 224 names to what was last written (`Reflects.run`).
-/

namespace AuraOS.Env.Fat12

open AuraOS.Lib AuraOS.Kernel

/-! ### Runs -/

/-- A call of the file system, or a power cycle. -/
inductive ApiCall where
  | reset
  | init
  | write (name : Option CStr) (buf : Option (ℕ → UInt8)) (len : ℕ)
  | read (name : Option CStr) (buf : Bool) (len : ℕ)

/-- Its result. -/
inductive ApiResult where
  | reset
  | init (r : AuraStatus)
  | write (r : Option ℕ)
  | read (r : Option (List UInt8))
  deriving DecidableEq

/-- The driver at start-up, with the disk as it is. -/
def Driver.reset (s : Driver) : Driver :=
  { s with sSectorBuf := .tab 512 fun _ => 0, sFatBuf := .tab 4608 fun _ => 0, sFatLoaded := false }

/-- Make the call. -/
def ApiCall.onDriver : ApiCall → Driver → ApiResult × Driver
  | reset, s => (.reset, s.reset)
  | init, s => (.init (fat12Init s).1, (fat12Init s).2)
  | write name buf len, s => (.write (fat12WriteFile name buf len s).1, (fat12WriteFile name buf len s).2)
  | read name buf len, s => (.read (fat12ReadFile name buf len s).1, (fat12ReadFile name buf len s).2)

/-- Make the calls one after the other. -/
def runApi : List ApiCall → Driver → List ApiResult × Driver
  | [], s => ([], s)
  | c :: cs, s =>
    let r := c.onDriver s
    let rest := runApi cs r.2
    (r.1 :: rest.1, rest.2)

/-! ### The cache and the disk -/

/-- The disk works, and a volume that is mounted has its first FAT in the cache. -/
structure Coherent (s : Driver) : Prop where
  works : ∀ t, s.dev.fault t = false
  fat : s.sFatLoaded = true → s.sFatBuf = diskFat s.dev.cell

section Coherent

variable {s s' : Driver}

theorem Coherent.reset (h : Coherent s) : Coherent s.reset := ⟨h.works, nofun⟩

/-- Mounting the volume. -/
theorem Coherent.init (h : Coherent s) : (fat12Init s).1 = .ok ∧ (fat12Init s).2.sFatLoaded = true ∧
    (fat12Init s).2.dev.cell = s.dev.cell ∧ Coherent (fat12Init s).2 := by
  have hok : (fat12Init s).1 = .ok := fat12Init_eq_ok_iff.2 (streak_of_never h.works _ _)
  obtain ⟨h1, h2, h3⟩ := fat12Init_spec (Prod.ext hok rfl : fat12Init s = (.ok, (fat12Init s).2))
  have hcell : (fat12Init s).2.dev.cell = s.dev.cell := h3.cell
  exact ⟨hok, h1, hcell, fun t => by rw [h3.fault, h.works], fun _ => by rw [h2, hcell]⟩

/-- Reading a file. -/
theorem Coherent.read (h : Coherent s) (name : Option CStr) (buf : Bool) (len : ℕ) :
    let s' := (fat12ReadFile name buf len s).2
    s'.sFatLoaded = s.sFatLoaded ∧ s'.sFatBuf = s.sFatBuf ∧ s'.dev.cell = s.dev.cell ∧ Coherent s' := by
  obtain ⟨j, hd⟩ := fat12ReadFile_did name buf len s
  have hcell : (fat12ReadFile name buf len s).2.dev.cell = s.dev.cell := hd.cell
  refine ⟨hd.loaded, hd.fat, hcell, fun t => by rw [hd.dev.fault, h.works], fun hl => ?_⟩
  rw [hd.fat, hcell]
  exact h.fat (hd.loaded ▸ hl)

/-- Writing a file. -/
theorem Coherent.write (h : Coherent s) (hm : s.sFatLoaded = true) (name : CStr) (buf : ℕ → UInt8) (len : ℕ) :
    let s' := (fat12WriteFile (some name) (some buf) len s).2
    s'.sFatLoaded = true ∧ Coherent s' := by
  obtain ⟨h1, h2, h3⟩ := fat12WriteFile_of_ok hm h.works name buf len
  refine ⟨h1, h2, fun _ => ?_⟩
  rcases htg : target s.dev.cell s.sFatBuf (nameToFat83 name) with _ | ⟨t, cl⟩
  · rw [htg] at h3
    rw [h3.2.2, h3.2.1]
    exact h.fat hm
  · rw [htg] at h3
    rw [h3.2.1, h3.2.2, diskFat_after_all]

theorem fat12WriteFile_null {name : Option CStr} {buf : Option (ℕ → UInt8)}
    (h : name = none ∨ buf = none ∨ s.sFatLoaded = false) (len : ℕ) :
    fat12WriteFile name buf len s = (none, s) := by
  unfold fat12WriteFile
  rcases name with _ | name
  · rfl
  rcases buf with _ | buf
  · rfl
  have hl : s.sFatLoaded = false := by simpa using h
  dsimp only
  rw [hl]
  rfl

theorem fat12ReadFile_null {name : Option CStr} {buf : Bool} {len : ℕ}
    (h : name = none ∨ buf = false ∨ len = 0 ∨ s.sFatLoaded = false) :
    fat12ReadFile name buf len s = (none, s) := by
  unfold fat12ReadFile
  rcases name with _ | name
  · rfl
  have hc : (!s.sFatLoaded || !buf || decide (len = 0)) = true := by
    rcases h with h | rfl | rfl | h
    · cases h
    · simp
    · simp
    · simp [h]
  dsimp only
  rw [hc]
  rfl

end Coherent

/-! ### Mounting once more -/

/-- The calls `cs` are the calls of files `cs'`, with mounts and power cycles between them. -/
inductive Remounts : List ApiCall → List ApiCall → Prop
  | nil : Remounts [] []
  | write {cs cs' : List ApiCall} (name : Option CStr) (buf : Option (ℕ → UInt8)) (len : ℕ) :
      Remounts cs cs' → Remounts (.write name buf len :: cs) (.write name buf len :: cs')
  | read {cs cs' : List ApiCall} (name : Option CStr) (buf : Bool) (len : ℕ) :
      Remounts cs cs' → Remounts (.read name buf len :: cs) (.read name buf len :: cs')
  | init {cs cs' : List ApiCall} : Remounts cs cs' → Remounts (.init :: cs) cs'
  | cycle {cs cs' : List ApiCall} : Remounts cs cs' → Remounts (.reset :: .init :: cs) cs'

/-- The result of a call of a file. -/
def ApiResult.isFile : ApiResult → Bool
  | write _ => true
  | read _ => true
  | _ => false

/-- Both volumes are mounted, with the same disk. -/
structure Alike (s s' : Driver) : Prop where
  left : Coherent s
  right : Coherent s'
  loaded : s.sFatLoaded = true
  loaded' : s'.sFatLoaded = true
  cell : s.dev.cell = s'.dev.cell

section Alike

variable {s s' : Driver}

theorem Alike.fat (h : Alike s s') : s.sFatBuf = s'.sFatBuf := by
  rw [h.left.fat h.loaded, h.right.fat h.loaded', h.cell]

/-- Mounting one of them. -/
theorem Alike.init (h : Alike s s') : Alike (fat12Init s).2 s' := by
  obtain ⟨-, h2, h3, h4⟩ := h.left.init
  exact ⟨h4, h.right, h2, h.loaded', h3.trans h.cell⟩

/-- A power cycle of one of them, and the mount behind it. -/
theorem Alike.cycle (h : Alike s s') : Alike (fat12Init s.reset).2 s' := by
  obtain ⟨-, h2, h3, h4⟩ := h.left.reset.init
  exact ⟨h4, h.right, h2, h.loaded', h3.trans h.cell⟩

theorem Alike.read (h : Alike s s') (name : Option CStr) (buf : Bool) (len : ℕ) :
    (fat12ReadFile name buf len s).1 = (fat12ReadFile name buf len s').1 ∧
      Alike (fat12ReadFile name buf len s).2 (fat12ReadFile name buf len s').2 := by
  obtain ⟨a1, -, a3, a4⟩ := h.left.read name buf len
  obtain ⟨b1, -, b3, b4⟩ := h.right.read name buf len
  refine ⟨?_, a4, b4, a1.trans h.loaded, b1.trans h.loaded', ?_⟩
  · by_cases hnull : name = none ∨ buf = false ∨ len = 0
    · rw [fat12ReadFile_null (hnull.imp_right fun h => h.imp_right Or.inl),
        fat12ReadFile_null (hnull.imp_right fun h => h.imp_right Or.inl)]
    · rw [not_or, not_or] at hnull
      obtain ⟨hname, hbuf, hlen⟩ := hnull
      obtain ⟨name, rfl⟩ := Option.ne_none_iff_exists'.1 hname
      obtain rfl : buf = true := by simpa using hbuf
      rw [fat12ReadFile_of_ok h.loaded h.left.works name (Nat.pos_of_ne_zero hlen),
        fat12ReadFile_of_ok h.loaded' h.right.works name (Nat.pos_of_ne_zero hlen), h.cell]
  · exact a3.trans (h.cell.trans b3.symm)

theorem Alike.write (h : Alike s s') (name : Option CStr) (buf : Option (ℕ → UInt8)) (len : ℕ) :
    (fat12WriteFile name buf len s).1 = (fat12WriteFile name buf len s').1 ∧
      Alike (fat12WriteFile name buf len s).2 (fat12WriteFile name buf len s').2 := by
  by_cases hnull : name = none ∨ buf = none
  · rw [fat12WriteFile_null (hnull.imp_right Or.inl), fat12WriteFile_null (hnull.imp_right Or.inl)]
    exact ⟨rfl, h⟩
  · rw [not_or] at hnull
    obtain ⟨name, rfl⟩ := Option.ne_none_iff_exists'.1 hnull.1
    obtain ⟨buf, rfl⟩ := Option.ne_none_iff_exists'.1 hnull.2
    obtain ⟨a1, a2⟩ := h.left.write h.loaded name buf len
    obtain ⟨b1, b2⟩ := h.right.write h.loaded' name buf len
    obtain ⟨-, -, a3⟩ := fat12WriteFile_of_ok h.loaded h.left.works name buf len
    obtain ⟨-, -, b3⟩ := fat12WriteFile_of_ok h.loaded' h.right.works name buf len
    rw [← h.cell, ← h.fat] at b3
    rcases htg : target s.dev.cell s.sFatBuf (nameToFat83 name) with _ | ⟨t, cl⟩
    · rw [htg] at a3 b3
      exact ⟨a3.1.trans b3.1.symm, a2, b2, a1, b1, a3.2.1.trans b3.2.1.symm⟩
    · rw [htg] at a3 b3
      exact ⟨a3.1.trans b3.1.symm, a2, b2, a1, b1, a3.2.2.trans b3.2.2.symm⟩

theorem Alike.runs {cs cs' : List ApiCall} (hcs : Remounts cs cs') (h : Alike s s') :
    (runApi cs s).1.filter ApiResult.isFile = (runApi cs' s').1 ∧ Alike (runApi cs s).2 (runApi cs' s').2 := by
  induction hcs generalizing s s' with
  | nil => exact ⟨rfl, h⟩
  | write name buf len _ ih =>
    obtain ⟨hres, hnext⟩ := h.write name buf len
    obtain ⟨ih1, ih2⟩ := ih hnext
    refine ⟨?_, ih2⟩
    unfold runApi
    dsimp only [ApiCall.onDriver]
    rw [List.filter_cons_of_pos rfl, ih1, hres]
  | read name buf len _ ih =>
    obtain ⟨hres, hnext⟩ := h.read name buf len
    obtain ⟨ih1, ih2⟩ := ih hnext
    refine ⟨?_, ih2⟩
    unfold runApi
    dsimp only [ApiCall.onDriver]
    rw [List.filter_cons_of_pos rfl, ih1, hres]
  | init _ ih => exact ih h.init
  | cycle _ ih => exact ih h.cycle

end Alike

/-- **Mounting once more is invisible**: on every disk that works, mounts and power cycles between the calls change
neither the results of the calls, nor the disk, nor the FAT in the cache. -/
theorem remount_invisible {s s' : Driver} (hok : ∀ t, s.dev.fault t = false) (hinit : fat12Init s = (.ok, s'))
    {cs cs' : List ApiCall} (hcs : Remounts cs cs') :
    (runApi cs s').1.filter ApiResult.isFile = (runApi cs' s').1 ∧
      (runApi cs s').2.dev.cell = (runApi cs' s').2.dev.cell ∧
      (runApi cs s').2.sFatBuf = (runApi cs' s').2.sFatBuf := by
  obtain ⟨h1, h2, h3⟩ := fat12Init_spec hinit
  have hcell : s'.dev.cell = s.dev.cell := h3.cell
  have hsync : Coherent s' := ⟨fun t => by rw [h3.fault, hok], fun _ => by rw [h2, hcell]⟩
  obtain ⟨hres, halike⟩ := Alike.runs hcs ⟨hsync, hsync, h1, h1, rfl⟩
  exact ⟨hres, halike.cell, halike.fat⟩

/-- A power cycle between a write and a read, on a blank volume. -/
theorem remount_invisible_blank :
    let w : ApiCall := .write (some [97]) (some fun _ => 7) 3
    let r : ApiCall := .read (some [65]) true 2
    (runApi [w, .reset, .init, r] (.mounted blankDisk fun _ => false)).1.filter ApiResult.isFile =
      (runApi [w, r] (.mounted blankDisk fun _ => false)).1 :=
  (remount_invisible (s := .boot blankDisk fun _ => false) (fun _ => rfl) (fat12Init_boot _ fun _ _ => rfl)
    (.write _ _ _ (.cycle (.read _ _ _ .nil)))).1

/-! ### The files outlive a power cycle -/

/-- A map of names to what was last written under them, and the number of its names. -/
structure Store where
  mounted : Bool
  last : Name83 → Option WriteCall
  count : ℕ

/-- Before the first mount. -/
def Store.blank : Store := ⟨false, fun _ => none, 0⟩

/-- The file that a read asks for. -/
def Store.find (m : Store) (name : Option CStr) (buf : Bool) (len : ℕ) : Option (List UInt8) :=
  match name with
  | none => none
  | some name =>
    if m.mounted && buf && len ≠ 0 then
      (m.last (nameToFat83 name)).map fun w => (List.range (min (min len 512) w.len)).map w.data
    else none

/-- A write: it fails only if nothing is mounted, a pointer is null, or the name is a new one and there are as many as
the root directory has slots. -/
def Store.put (m : Store) (name : Option CStr) (buf : Option (ℕ → UInt8)) (len : ℕ) : Option ℕ × Store :=
  match name, buf with
  | some name, some data =>
    let n := nameToFat83 name
    let old := (m.last n).isSome
    if m.mounted && (old || m.count < rootEntryCount) then
      (some (min len 512),
        { m with
          last := Function.update m.last n (some ⟨name, data, len⟩)
          count := if old then m.count else m.count + 1 })
    else (none, m)
  | _, _ => (none, m)

/-- Make the call. -/
def ApiCall.onStore : ApiCall → Store → ApiResult × Store
  | reset, m => (.reset, { m with mounted := false })
  | init, m => (.init .ok, { m with mounted := true })
  | write name buf len, m => (.write (m.put name buf len).1, (m.put name buf len).2)
  | read name buf len, m => (.read (m.find name buf len), m)

/-- The results of the calls, made one after the other. -/
def Store.run : Store → List ApiCall → List ApiResult
  | _, [] => []
  | m, c :: cs => (c.onStore m).1 :: (c.onStore m).2.run cs

/-- The names of the calls are printable. -/
def ApiCall.Printable : ApiCall → Prop
  | write (some name) _ _ => Fat12.Printable name
  | _ => True

instance : DecidablePred ApiCall.Printable
  | .write (some name) _ _ => inferInstanceAs (Decidable (Fat12.Printable name))
  | .write none _ _ | .reset | .init | .read _ _ _ => inferInstanceAs (Decidable True)

/-- What the map holds is what the driver and the disk hold. -/
structure Reflects (m : Store) (s : Driver) : Prop where
  synced : Coherent s
  mounted : s.sFatLoaded = m.mounted
  tidy : Tidy s.dev.cell (diskFat s.dev.cell) m.count
  owned : Owned s.dev.cell (diskFat s.dev.cell) m.count
  files : ∀ n, files s.dev.cell n = (m.last n).map fun w => stored w.data w.len

section Reflects

variable {m : Store} {s : Driver}

/-- A call that leaves the disk. -/
theorem Reflects.of_cell (h : Reflects m s) {m' : Store} {s' : Driver} (hsync : Coherent s')
    (hcell : s'.dev.cell = s.dev.cell) (hlast : m'.last = m.last) (hcount : m'.count = m.count)
    (hm : s'.sFatLoaded = m'.mounted) : Reflects m' s' := by
  refine ⟨hsync, hm, ?_, ?_, ?_⟩
  · rw [hcell, hcount]
    exact h.tidy
  · rw [hcell, hcount]
    exact h.owned
  · rw [hcell, hlast]
    exact h.files

theorem Reflects.read (h : Reflects m s) (name : Option CStr) (buf : Bool) (len : ℕ) :
    (fat12ReadFile name buf len s).1 = m.find name buf len ∧ Reflects m (fat12ReadFile name buf len s).2 := by
  obtain ⟨h1, -, h3, h4⟩ := h.synced.read name buf len
  refine ⟨?_, h.of_cell h4 h3 rfl rfl (h1.trans h.mounted)⟩
  unfold Store.find
  rcases name with _ | name
  · rfl
  dsimp only
  rw [← h.mounted]
  split
  next hc =>
    simp only [Bool.and_eq_true, decide_eq_true_eq] at hc
    obtain ⟨⟨hm, rfl⟩, hlen⟩ := hc
    rw [fat12ReadFile_of_ok hm h.synced.works name (Nat.pos_of_ne_zero hlen), fileBytes_eq, h.files, Option.map_map]
    exact congrArg (fun f => Option.map f _) (funext fun w => take_stored w.data w.len len)
  next hc =>
    simp only [Bool.and_eq_true, decide_eq_true_eq, not_and, not_not] at hc
    rw [fat12ReadFile_null]
    by_cases hm : s.sFatLoaded = true
    · cases hbuf : buf with
      | true => exact Or.inr (Or.inr (Or.inl (hc ⟨hm, hbuf⟩)))
      | false => exact Or.inr (Or.inl rfl)
    · exact Or.inr (Or.inr (Or.inr (by simpa using hm)))

/-- The names of the map are those of the root directory. -/
theorem Reflects.isSome_last (h : Reflects m s) (n : Name83) : (m.last n).isSome = (lookup s.dev.cell n).isSome := by
  have hfile := congrArg Option.isSome (h.files n)
  rw [Option.isSome_map] at hfile
  unfold Fat12.files fileBytes at hfile
  rw [← hfile, Option.isSome_map]

/-- A write to the slot and the cluster that fit. -/
theorem Reflects.stores (h : Reflects m s) (hm : s.sFatLoaded = true) {name : CStr} (hname : Printable name)
    (buf : ℕ → UInt8) (len : ℕ) {t cl : ℕ}
    (htg : target s.dev.cell s.sFatBuf (nameToFat83 name) = some (t, cl))
    (hsame : t < m.count → (rootEntry s.dev.cell t).cluster.toNat = cl) :
    (fat12WriteFile (some name) (some buf) len s).1 = some (min len 512) ∧
      Reflects ⟨true, Function.update m.last (nameToFat83 name) (some ⟨name, buf, len⟩), max m.count (t + 1)⟩
        (fat12WriteFile (some name) (some buf) len s).2 := by
  have h0 := nameToFat83_ne_zero name (show 0 < 11 by omega)
  have hE := nameToFat83_ne_E5 hname (show 0 < 11 by omega)
  obtain ⟨hl, hsync⟩ := h.synced.write hm name buf len
  obtain ⟨-, -, hout⟩ := fat12WriteFile_of_ok hm h.synced.works name buf len
  rw [htg] at hout
  obtain ⟨hres, -, hcell⟩ := hout
  have hfat : s.sFatBuf = diskFat s.dev.cell := h.synced.fat hm
  rw [hfat] at hcell htg
  have hfits := h.tidy.fits htg
  refine ⟨hres.trans (by rw [capLen_eq]), hsync, hl, ?_, ?_, fun n => ?_⟩
  · rw [hcell, diskFat_after_all]
    exact h.tidy.after hfits h0 hE buf (capLen len)
  · rw [hcell, diskFat_after_all]
    exact h.owned.after h.tidy.slots hfits hsame buf (capLen len)
  · rw [hcell, files_after h.tidy hfits h0 hE]
    dsimp only
    by_cases hn : n = nameToFat83 name
    · rw [hn, Function.update_self, Function.update_self]
      rfl
    · rw [Function.update_of_ne hn, Function.update_of_ne hn]
      exact h.files n

/-- A write to the volume that is mounted. -/
theorem Reflects.write (h : Reflects m s) (hm : s.sFatLoaded = true) {name : CStr} (hname : Printable name)
    (buf : ℕ → UInt8) (len : ℕ) :
    (fat12WriteFile (some name) (some buf) len s).1 = (m.put (some name) (some buf) len).1 ∧
      Reflects (m.put (some name) (some buf) len).2 (fat12WriteFile (some name) (some buf) len s).2 := by
  have hmounted : m.mounted = true := h.mounted ▸ hm
  have hsome := h.isSome_last (nameToFat83 name)
  have htarget := h.tidy.target_eq h.owned (nameToFat83 name)
  rw [← h.synced.fat hm] at htarget
  unfold Store.put
  dsimp only
  cases hl : lookup s.dev.cell (nameToFat83 name) with
  | some i =>
    rw [hl] at hsome htarget
    have hi := (h.tidy.lookup_eq_some_iff.1 hl).1
    have hmax : max m.count (i + 1) = m.count := by omega
    have hstores := h.stores hm hname buf len htarget fun _ => rfl
    rw [hmax, ← hmounted] at hstores
    rw [hsome, if_pos (by simp [hmounted])]
    exact hstores
  | none =>
    rw [hl] at hsome htarget
    by_cases hlt : m.count < 224
    · dsimp only at htarget
      rw [if_pos hlt] at htarget
      have hmax : max m.count (m.count + 1) = m.count + 1 := by omega
      have hstores := h.stores hm hname buf len htarget fun h' => absurd h' (Nat.lt_irrefl _)
      rw [hmax, ← hmounted] at hstores
      rw [hsome, if_pos (by simp [hmounted, hlt])]
      exact hstores
    · dsimp only at htarget
      rw [if_neg hlt] at htarget
      obtain ⟨hl', hsync⟩ := h.synced.write hm name buf len
      obtain ⟨-, -, hout⟩ := fat12WriteFile_of_ok hm h.synced.works name buf len
      rw [htarget] at hout
      rw [hsome, if_neg (by simp [hlt])]
      exact ⟨hout.1, h.of_cell hsync hout.2.1 rfl rfl (hl'.trans hmounted.symm)⟩

/-- A write that finds nothing mounted, or a null pointer. -/
theorem put_null {name : Option CStr} {buf : Option (ℕ → UInt8)} (h : name = none ∨ buf = none ∨ m.mounted = false)
    (len : ℕ) : m.put name buf len = (none, m) := by
  unfold Store.put
  rcases name with _ | name
  · rfl
  rcases buf with _ | buf
  · rfl
  have hm : m.mounted = false := by simpa using h
  dsimp only
  rw [hm]
  rfl

/-- **A call** has the result of the map, and leaves what the map holds then. -/
theorem Reflects.step (h : Reflects m s) {c : ApiCall} (hc : c.Printable) :
    (c.onDriver s).1 = (c.onStore m).1 ∧ Reflects (c.onStore m).2 (c.onDriver s).2 := by
  cases c with
  | reset => exact ⟨rfl, h.of_cell h.synced.reset rfl rfl rfl rfl⟩
  | init =>
    obtain ⟨h1, h2, h3, h4⟩ := h.synced.init
    exact ⟨congrArg ApiResult.init h1, h.of_cell h4 h3 rfl rfl h2⟩
  | read name buf len =>
    obtain ⟨h1, h2⟩ := h.read name buf len
    exact ⟨congrArg ApiResult.read h1, h2⟩
  | write name buf len =>
    dsimp only [ApiCall.onDriver, ApiCall.onStore]
    by_cases hnull : name = none ∨ buf = none ∨ s.sFatLoaded = false
    · rw [fat12WriteFile_null hnull, put_null (h.mounted ▸ hnull)]
      exact ⟨rfl, h⟩
    · rw [not_or, not_or] at hnull
      obtain ⟨name, rfl⟩ := Option.ne_none_iff_exists'.1 hnull.1
      obtain ⟨buf, rfl⟩ := Option.ne_none_iff_exists'.1 hnull.2.1
      obtain ⟨h1, h2⟩ := h.write (by simpa using hnull.2.2) hc buf len
      exact ⟨congrArg ApiResult.write h1, h2⟩

/-- **A run** has the results of the map. -/
theorem Reflects.run {cs : List ApiCall} (hcs : ∀ c ∈ cs, c.Printable) (h : Reflects m s) :
    (runApi cs s).1 = m.run cs := by
  induction cs generalizing m s with
  | nil => rfl
  | cons c cs ih =>
    obtain ⟨hres, hnext⟩ := h.step (hcs c List.mem_cons_self)
    unfold runApi Store.run
    dsimp only
    rw [hres, ih (fun c hc => hcs c (List.mem_cons_of_mem _ hc)) hnext]

/-- A formatted volume. -/
theorem Formatted.reflects {s : Driver} (hfmt : Formatted s.dev.cell) (hok : ∀ t, s.dev.fault t = false)
    (hl : s.sFatLoaded = false) : Reflects .blank s := by
  have htidy := hfmt.tidy (diskFat s.dev.cell)
  refine ⟨⟨hok, fun h => ?_⟩, hl, htidy, hfmt.owned, fun n => ?_⟩
  · rw [hl] at h
    cases h
  · have hnone : lookup s.dev.cell n = none := by
      cases hlook : lookup s.dev.cell n with
      | none => rfl
      | some i => exact absurd (htidy.lookup_eq_some_iff.1 hlook).1 (Nat.not_lt_zero i)
    unfold Fat12.files fileBytes
    rw [hnone]
    rfl

end Reflects

end AuraOS.Env.Fat12
