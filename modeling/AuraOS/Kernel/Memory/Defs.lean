import AuraOS.Lib.Memory

/-!
# The kernel heap

The allocator of `kernel/memory.c`, with the i386 layout: pointers and `size_t` have 32 bits, and a
block header takes 20 bytes.  Headers are read and written in byte memory, at the offsets of the fields
of `block_hdr_t`; three bytes of padding follow the flag.

The two loops over the block list run on `heapFuel` turns, more than there is room for headers in the
heap; they return `none` only when these run out (`Inv.kmalloc_isSome`).
-/

namespace AuraOS.Kernel.Memory

open AuraOS.Lib

abbrev heapStart : ℕ := 0x200000
abbrev heapSize : ℕ := 0x80000
abbrev heapEnd : ℕ := heapStart + heapSize

abbrev memFree : ℕ := 0
abbrev memUsed : ℕ := 1

abbrev blockMagic : ℕ := 0xA3A30000

/-- `sizeof(block_hdr_t)`. -/
abbrev hdrSize : ℕ := 20

/-- The memory, and the static variable `heap_head`. -/
structure Heap where
  mem : Mem
  heapHead : ℕ

/-! ### The fields of a header -/

section Fields

variable (m : Mem) (p : ℕ)

def magic : ℕ := m.load32 p
def size : ℕ := m.load32 (p + 4)
def used : ℕ := m.load8 (p + 8)
def next : ℕ := m.load32 (p + 12)
def prev : ℕ := m.load32 (p + 16)

def setMagic (v : ℕ) : Mem := m.store32 p v
def setSize (v : ℕ) : Mem := m.store32 (p + 4) v
def setUsed (v : ℕ) : Mem := m.store8 (p + 8) v
def setNext (v : ℕ) : Mem := m.store32 (p + 12) v
def setPrev (v : ℕ) : Mem := m.store32 (p + 16) v

end Fields

/-- The difference of two words. -/
def sub32 (a b : ℕ) : ℕ := (a + 2 ^ 32 - b) % 2 ^ 32

/-- `memory_init`: one free block. -/
def memoryInit (h : Heap) : Heap :=
  let head := heapStart
  let m := setMagic h.mem head blockMagic
  let m := setSize m head (heapSize - hdrSize)
  let m := setUsed m head memFree
  let m := setNext m head 0
  let m := setPrev m head 0
  { mem := m.memsetK (head + hdrSize) 0 (size m head), heapHead := head }

/-! ### Allocation -/

/-- `if (q) q->prev = p`. -/
def relink (m : Mem) (q p : ℕ) : Mem := if q ≠ 0 then setPrev m q p else m

/-- Split `cur` behind `sz` bytes of payload: the rest becomes a free block. -/
def splitBlock (m : Mem) (cur sz : ℕ) : Mem :=
  let nextBlk := (cur + hdrSize + sz) % 2 ^ 32
  let m := setMagic m nextBlk blockMagic
  let m := setSize m nextBlk (sub32 (sub32 (size m cur) sz) hdrSize)
  let m := setUsed m nextBlk memFree
  let m := setNext m nextBlk (next m cur)
  let m := setPrev m nextBlk cur
  let m := relink m (next m cur) nextBlk
  let m := setNext m cur nextBlk
  setSize m cur sz

/-- The first-fit search of `kmalloc` from `cur` on, for `sz` bytes: the result and the memory. -/
def mallocLoop (sz : ℕ) : ℕ → ℕ → Mem → Option (ℕ × Mem)
  | 0, _, _ => none
  | fuel + 1, cur, m =>
    if cur = 0 then some (0, m)
    else if used m cur = 0 ∧ sz ≤ size m cur then
      let m := if (sz + hdrSize + 8) % 2 ^ 32 ≤ size m cur then splitBlock m cur sz else m
      some ((cur + hdrSize) % 2 ^ 32, setUsed m cur memUsed)
    else mallocLoop sz fuel (next m cur) m

def heapFuel : ℕ := heapSize / hdrSize + 1

/-- The size rounded up to a multiple of 8, in 32 bit arithmetic. -/
def align8 (sz : UInt32) : UInt32 := (sz + 7) &&& ~~~7

/-- `kmalloc`: the pointer, `0` for `NULL`. -/
def kmalloc (sz : UInt32) (h : Heap) : Option (ℕ × Heap) :=
  if sz = 0 then some (0, h)
  else (mallocLoop (align8 sz).toNat heapFuel h.heapHead h.mem).map fun (p, m) => (p, { h with mem := m })

/-! ### Release -/

/-- Coalesce `blk` with the next block. -/
def mergeNext (m : Mem) (blk : ℕ) : Mem :=
  if next m blk ≠ 0 ∧ used m (next m blk) = 0 then
    let m := setSize m blk (size m blk + (hdrSize + size m (next m blk)))
    let m := setNext m blk (next m (next m blk))
    relink m (next m blk) blk
  else m

/-- Coalesce `blk` with the previous block. -/
def mergePrev (m : Mem) (blk : ℕ) : Mem :=
  if prev m blk ≠ 0 ∧ used m (prev m blk) = 0 then
    let m := setSize m (prev m blk) (size m (prev m blk) + (hdrSize + size m blk))
    let m := setNext m (prev m blk) (next m blk)
    relink m (next m blk) (prev m blk)
  else m

/-- `kfree`. -/
def kfree (ptr : ℕ) (h : Heap) : Heap :=
  if ptr = 0 then h
  else
    let blk := sub32 ptr hdrSize
    if magic h.mem blk ≠ blockMagic then h
    else
      let m := setUsed h.mem blk memFree
      { h with mem := mergePrev (mergeNext m blk) blk }

/-! ### Statistics -/

/-- The loop of `memoryStats` from `cur` on: the bytes in used and in free blocks. -/
def statsLoop (m : Mem) : ℕ → ℕ → ℕ → ℕ → Option (ℕ × ℕ)
  | 0, _, _, _ => none
  | fuel + 1, cur, usd, fre =>
    if cur = 0 then some (usd, fre)
    else if used m cur ≠ 0 then statsLoop m fuel (next m cur) ((usd + size m cur) % 2 ^ 32) fre
    else statsLoop m fuel (next m cur) usd ((fre + size m cur) % 2 ^ 32)

/-- `memory_stats`. -/
def memoryStats (h : Heap) : Option (ℕ × ℕ) := statsLoop h.mem heapFuel h.heapHead 0 0

end AuraOS.Kernel.Memory
