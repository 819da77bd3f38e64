import AuraOS.Lib.Buffer
import AuraOS.Lib.Device
import AuraOS.Kernel.Core

/-!
# The FAT12 driver

The driver of `env/fat12.c`, function by function.  The disk is a `Device` of 512-byte sectors: one
call of `ata_read_sectors` or `ata_write_sectors` with count 1 is one operation of the device, and
may fail.  The static buffers of the file are fields of the driver state, so that a phase that
overwrites the shared sector buffer is seen to do so.

`uint16_t` and `uint32_t` values computed by the driver are naturals, with the reduction written out
where it can matter (`clusterToLba`); the fields of a directory entry keep their machine types.  A
result of `-1` is `none`.
-/

namespace AuraOS.Env.Fat12

open AuraOS.Lib AuraOS.Kernel

/-! ### Volume layout -/

abbrev bytesPerSector : ℕ := 512
abbrev sectorsPerCluster : ℕ := 1
abbrev reservedSectors : ℕ := 1
abbrev numFats : ℕ := 2
abbrev rootEntryCount : ℕ := 224
abbrev fatSizeSectors : ℕ := 9
abbrev rootDirSectors : ℕ := (rootEntryCount * 32 + bytesPerSector - 1) / bytesPerSector

abbrev fat1Lba : ℕ := reservedSectors
abbrev fat2Lba : ℕ := fat1Lba + fatSizeSectors
abbrev rootLba : ℕ := fat2Lba + fatSizeSectors
abbrev dataLba : ℕ := rootLba + rootDirSectors

/-- One sector of the disk. -/
abbrev Sector := Buf 512

/-- `s_fat_buf`, the cached first FAT: 9 sectors. -/
abbrev FatBuf := Buf 4608

/-- A file name in directory form: 8 + 3 characters, padded with spaces. -/
abbrev Name83 := Buf 11

/-- The first sector of a cluster, in `uint32_t` arithmetic. -/
def clusterToLba (cluster : ℕ) : ℕ :=
  (dataLba + (cluster + 2 ^ 32 - 2) % 2 ^ 32 * sectorsPerCluster) % 2 ^ 32

/-! ### Directory entries -/

def attrVolumeId : UInt8 := 0x08
def attrDir : UInt8 := 0x10
def attrLfn : UInt8 := 0x0F

/-- `fat12_dirent_t`. -/
structure Dirent where
  name : Name83
  attr : UInt8
  reserved : Buf 10
  time : UInt16
  date : UInt16
  cluster : UInt16
  size : UInt32

/-- The entry that the packed structure at `s_sector_buf + off` holds. -/
def direntAt (sec : Sector) (off : ℕ) : Dirent where
  name := .tab 11 fun i => sec.rd (off + i)
  attr := sec.rd (off + 11)
  reserved := .tab 10 fun i => sec.rd (off + 12 + i)
  time := le16 (sec.rd (off + 22)) (sec.rd (off + 23))
  date := le16 (sec.rd (off + 24)) (sec.rd (off + 25))
  cluster := le16 (sec.rd (off + 26)) (sec.rd (off + 27))
  size := le32 (sec.rd (off + 28)) (sec.rd (off + 29)) (sec.rd (off + 30)) (sec.rd (off + 31))

/-- Byte `i` of an entry in memory. -/
def Dirent.bytes (de : Dirent) (i : ℕ) : UInt8 :=
  if i < 11 then de.name.rd i
  else if i = 11 then de.attr
  else if i < 22 then de.reserved.rd (i - 12)
  else if i < 24 then byte de.time.toNat (i - 22)
  else if i < 26 then byte de.date.toNat (i - 24)
  else if i < 28 then byte de.cluster.toNat (i - 26)
  else byte de.size.toNat (i - 28)

/-- Store every field of the entry at `s_sector_buf + off`. -/
def putDirent (sec : Sector) (off : ℕ) (de : Dirent) : Sector := sec.blit off 32 de.bytes

/-- The sector that holds directory entry `entry`. -/
def entrySector (entry : ℕ) : ℕ := rootLba + entry * 32 / bytesPerSector

/-- Its offset in that sector. -/
def entryOff (entry : ℕ) : ℕ := entry * 32 % bytesPerSector

/-! ### The packed FAT -/

/-- The FAT entry of `cluster`; `0xFFF` outside the cached table. -/
def fat12NextCluster (fat : FatBuf) (cluster : ℕ) : ℕ :=
  let offset := cluster + cluster / 2
  if offset + 1 ≥ 4608 then 0xFFF
  else
    let entry := (fat.rd offset).toNat ||| (fat.rd (offset + 1)).toNat <<< 8
    if cluster &&& 1 ≠ 0 then entry >>> 4 else entry &&& 0x0FFF

/-- Set the FAT entry of `cluster` in the cache. -/
def fat12SetCluster (fat : FatBuf) (cluster value : ℕ) : FatBuf :=
  let offset := cluster + cluster / 2
  if offset + 1 ≥ 4608 then fat
  else if cluster &&& 1 ≠ 0 then
    (fat.wr offset (UInt8.ofNat ((fat.rd offset).toNat &&& 0x0F ||| value <<< 4 &&& 0xF0))).wr
      (offset + 1) (UInt8.ofNat (value >>> 4))
  else
    (fat.wr offset (UInt8.ofNat (value &&& 0xFF))).wr (offset + 1)
      (UInt8.ofNat ((fat.rd (offset + 1)).toNat &&& 0xF0 ||| value >>> 8 &&& 0x0F))

/-- The search of `fat12AllocCluster`, at cluster `c` with `n` clusters to go. -/
def allocLoop (fat : FatBuf) : ℕ → ℕ → ℕ
  | 0, _ => 0
  | n + 1, c => if fat12NextCluster fat c = 0 then c else allocLoop fat n (c + 1)

/-- The first free cluster of `2 … 2847`, or `0`. -/
def fat12AllocCluster (fat : FatBuf) : ℕ := allocLoop fat (2848 - 2) 2

/-! ### File names -/

/-- Upper case of an ASCII letter. -/
def toUpper (c : UInt8) : UInt8 := if 97 ≤ c ∧ c ≤ 122 then c - 97 + 65 else c

/-- The loop of `nameToFat83`, writing at `dst[di]`; `46` is the dot. -/
def nameLoop : CStr → ℕ → Name83 → Name83
  | [], _, dst => dst
  | c :: src, di, dst =>
    if c ≠ 0 ∧ di < 11 then
      if c = 46 then nameLoop src 8 dst else nameLoop src (di + 1) (dst.wr di (toUpper c))
    else dst

/-- `name_to_fat83`: the 8.3 form of a name, on a field of spaces. -/
def nameToFat83 (src : CStr) : Name83 := nameLoop src 0 (.tab 11 fun _ => 32)

/-! ### The driver state -/

/-- The disk and the static variables of `fat12.c`. -/
structure Driver where
  dev : Device Sector
  sSectorBuf : Sector
  sFatBuf : FatBuf
  sFatLoaded : Bool

/-- `ata_read_sectors(lba, 1, s_sector_buf)`. -/
def readSector (lba : ℕ) (s : Driver) : Bool × Driver :=
  match s.dev.read lba with
  | (some v, d) => (true, { s with dev := d, sSectorBuf := v })
  | (none, d) => (false, { s with dev := d })

/-- `ata_write_sectors(lba, 1, data)`. -/
def writeSector (lba : ℕ) (data : Sector) (s : Driver) : Bool × Driver :=
  match s.dev.write lba data with
  | (b, d) => (b, { s with dev := d })

/-- Sector `i` of a FAT. -/
def fatSector (fat : FatBuf) (i : ℕ) : Sector := .tab 512 fun j => fat.rd (i * bytesPerSector + j)

/-- The inner loop of `fat12FlushFat`: `n` more sectors of the copy at `baseLba`, from sector `i`. -/
def flushLoop (baseLba : ℕ) : ℕ → ℕ → Driver → Bool × Driver
  | 0, _, s => (true, s)
  | n + 1, i, s =>
    match writeSector (baseLba + i) (fatSector s.sFatBuf i) s with
    | (true, s) => flushLoop baseLba n (i + 1) s
    | (false, s) => (false, s)

/-- Flush the cached FAT to both copies on the disk. -/
def fat12FlushFat (s : Driver) : Bool × Driver :=
  match flushLoop fat1Lba fatSizeSectors 0 s with
  | (true, s) => flushLoop fat2Lba fatSizeSectors 0 s
  | (false, s) => (false, s)

/-- The loop of `fat12Init`: `n` more sectors of the first FAT, from sector `i`. -/
def initLoop : ℕ → ℕ → Driver → Bool × Driver
  | 0, _, s => (true, s)
  | n + 1, i, s =>
    match s.dev.read (fat1Lba + i) with
    | (some v, d) =>
      initLoop n (i + 1) { s with dev := d, sFatBuf := s.sFatBuf.blit (i * bytesPerSector) 512 v.rd }
    | (none, d) => (false, { s with dev := d })

/-- `fat12_init`. -/
def fat12Init (s : Driver) : AuraStatus × Driver :=
  match initLoop fatSizeSectors 0 s with
  | (true, s) => (.ok, { s with sFatLoaded := true })
  | (false, s) => (.err, s)

/-! ### Reading a file -/

/-- The attribute test of both directory scans. -/
def skipAttr (attr : UInt8) : Bool := attr = attrVolumeId || attr = attrDir || attr = attrLfn

/-- The directory walk of `fat12ReadFile`, at `entry` with `n` entries to go. -/
def readLoop (fat83 : Name83) (len : ℕ) : ℕ → ℕ → Driver → Option (List UInt8) × Driver
  | 0, _, s => (none, s)
  | n + 1, entry, s =>
    match readSector (entrySector entry) s with
    | (false, s) => (none, s)
    | (true, s) =>
      let de := direntAt s.sSectorBuf (entryOff entry)
      if de.name.rd 0 = 0x00 then (none, s)
      else if de.name.rd 0 = 0xE5 then readLoop fat83 len n (entry + 1) s
      else if skipAttr de.attr then readLoop fat83 len n (entry + 1) s
      else if de.name ≠ fat83 then readLoop fat83 len n (entry + 1) s
      else
        let toRead := if de.size.toNat < len then de.size.toNat else len
        match readSector (clusterToLba de.cluster.toNat) s with
        | (false, s) => (none, s)
        | (true, s) =>
          let copy := if toRead < bytesPerSector then toRead else bytesPerSector
          (some ((List.range copy).map s.sSectorBuf.rd), s)

/-- `fat12_read_file(name, buf, len)`: the bytes copied to `buf` (as many as the result counts), or
`none` for `-1`; `buf` says whether the pointer is non-null. -/
def fat12ReadFile (name : Option CStr) (buf : Bool) (len : ℕ) (s : Driver) :
    Option (List UInt8) × Driver :=
  match name with
  | none => (none, s)
  | some name =>
    if !s.sFatLoaded || !buf || len = 0 then (none, s)
    else readLoop (nameToFat83 name) len rootEntryCount 0 s

/-! ### Writing a file -/

/-- The local variables of phase 1 of `fat12WriteFile`. -/
structure Scan where
  foundEntrySector : ℕ := 0
  foundEntryOff : ℕ := 0
  foundCluster : ℕ := 0
  found : Bool := false
  freeEntrySector : ℕ := 0
  freeEntryOff : ℕ := 0
  freeFound : Bool := false

/-- Remember `entry` as the free one, unless there is one already. -/
def Scan.free (r : Scan) (entry : ℕ) : Scan :=
  if r.freeFound then r
  else { r with freeEntrySector := entrySector entry, freeEntryOff := entryOff entry, freeFound := true }

/-- Phase 1, the directory scan, at `entry` with `n` entries to go. -/
def scanLoop (fat83 : Name83) : ℕ → ℕ → Scan → Driver → Option Scan × Driver
  | 0, _, r, s => (some r, s)
  | n + 1, entry, r, s =>
    match readSector (entrySector entry) s with
    | (false, s) => (none, s)
    | (true, s) =>
      let de := direntAt s.sSectorBuf (entryOff entry)
      if de.name.rd 0 = 0x00 then (some (r.free entry), s)
      else if de.name.rd 0 = 0xE5 then scanLoop fat83 n (entry + 1) (r.free entry) s
      else if skipAttr de.attr then scanLoop fat83 n (entry + 1) r s
      else if de.name ≠ fat83 then scanLoop fat83 n (entry + 1) r s
      else
        (some { r with foundEntrySector := entrySector entry, foundEntryOff := entryOff entry,
                       foundCluster := de.cluster.toNat, found := true }, s)

/-- Phase 2: the cluster to write, that of the existing entry or a new one. -/
def chooseCluster (r : Scan) (fat : FatBuf) : Option ℕ :=
  if r.found then some r.foundCluster
  else if !r.freeFound then none
  else
    let cluster := fat12AllocCluster fat
    if cluster = 0 then none else some cluster

/-- The zero-padded data sector of phase 3. -/
def dataSector (buf : ℕ → UInt8) (len : ℕ) : Sector := .tab 512 fun i => if i < len then buf i else 0

/-- The directory entry of phase 4. -/
def newDirent (fat83 : Name83) (cluster len : ℕ) : Dirent where
  name := fat83
  attr := 0x20
  reserved := .tab 10 fun _ => 0
  time := 0
  date := 0
  cluster := UInt16.ofNat cluster
  size := UInt32.ofNat len

/-- Phases 3 to 5: the data sector, the directory entry and the FAT. -/
def commit (fat83 : Name83) (buf : ℕ → UInt8) (len cluster targetSector targetOff : ℕ) (s : Driver) :
    Option ℕ × Driver :=
  let s := { s with sSectorBuf := dataSector buf len }
  match writeSector (clusterToLba cluster) s.sSectorBuf s with
  | (false, s) => (none, s)
  | (true, s) =>
    match readSector targetSector s with
    | (false, s) => (none, s)
    | (true, s) =>
      let s := { s with sSectorBuf := putDirent s.sSectorBuf targetOff (newDirent fat83 cluster len) }
      match writeSector targetSector s.sSectorBuf s with
      | (false, s) => (none, s)
      | (true, s) =>
        match fat12FlushFat s with
        | (false, s) => (none, s)
        | (true, s) => (some len, s)

/-- `fat12_write_file(name, buf, len)`; `none` for a null pointer, and for the result `-1`. -/
def fat12WriteFile (name : Option CStr) (buf : Option (ℕ → UInt8)) (len : ℕ) (s : Driver) :
    Option ℕ × Driver :=
  match name, buf with
  | some name, some buf =>
    if !s.sFatLoaded then (none, s)
    else
      let len := if len > bytesPerSector then bytesPerSector else len
      let fat83 := nameToFat83 name
      match scanLoop fat83 rootEntryCount 0 {} s with
      | (none, s) => (none, s)
      | (some r, s) =>
        match chooseCluster r s.sFatBuf with
        | none => (none, s)
        | some cluster =>
          let s := { s with sFatBuf := fat12SetCluster s.sFatBuf cluster 0xFFF }
          let targetSector := if r.found then r.foundEntrySector else r.freeEntrySector
          let targetOff := if r.found then r.foundEntryOff else r.freeEntryOff
          commit fat83 buf len cluster targetSector targetOff s
  | _, _ => (none, s)

end AuraOS.Env.Fat12
