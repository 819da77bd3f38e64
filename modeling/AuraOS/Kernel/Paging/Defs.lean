import AuraOS.Kernel.Memory.Defs
import AuraOS.Lib.Loop

/-!
# Paging

`paging_init` of `kernel/paging.c` on the memory and the control registers, and the walk with which a 386
translates an address by the tables that it finds there.
-/

namespace AuraOS.Kernel.Paging

open AuraOS.Lib AuraOS.Kernel.Memory

abbrev pageSize : ℕ := 4096

/-- `PTE_PRESENT`. -/
abbrev ptePresent : ℕ := 1

/-- `PTE_WRITABLE`. -/
abbrev pteWritable : ℕ := 2

abbrev pdirAddr : ℕ := 0x280000
abbrev ptabAddr : ℕ := 0x281000

/-- `PAGES_4M`. -/
abbrev pages4m : ℕ := 1024

/-- The page just below the heap. -/
abbrev heapGuardLo : ℕ := heapStart - pageSize

/-- The page just above the heap. -/
abbrev heapGuardHi : ℕ := heapEnd

/-- The memory and the control registers. -/
structure Machine where
  mem : Mem
  cr0 : ℕ
  cr3 : ℕ
  cr4 : ℕ

/-- Turn `i` of the loop that fills the page table. -/
def fillEntry (i : ℕ) (m : Mem) : Mem :=
  let phys := i * pageSize
  if phys = heapGuardLo then m.store32 (ptabAddr + 4 * i) phys
  else if phys = heapGuardHi then m.store32 (ptabAddr + 4 * i) phys
  else m.store32 (ptabAddr + 4 * i) (phys ||| ptePresent ||| pteWritable)

/-- `paging_init`, without the line that it prints. -/
def pagingInit (s : Machine) : Machine :=
  let m := s.mem.memsetK pdirAddr 0 (1024 * 4)
  let m := m.memsetK ptabAddr 0 (1024 * 4)
  let m := upTo pages4m fillEntry m
  let m := m.store32 pdirAddr (ptabAddr ||| ptePresent ||| pteWritable)
  { mem := m, cr3 := pdirAddr, cr4 := s.cr4 ||| 1 <<< 4, cr0 := s.cr0 ||| 1 <<< 31 }

/-! ### The processor -/

/-- Bit `i` of a word. -/
def bit (w i : ℕ) : Bool := w.testBit i

/-- The translation of the address `v`: the physical address and whether it is writable, or `none` for a
page fault.  A directory entry with bit 7 (`PTE_PS`) maps 4 MB if `CR4.PSE` is set. -/
def translate (s : Machine) (v : ℕ) : Option (ℕ × Bool) :=
  if bit s.cr0 31 then
    let pde := s.mem.load32 (s.cr3 / 4096 * 4096 + 4 * (v / 2 ^ 22))
    if bit pde 0 then
      if bit pde 7 && bit s.cr4 4 then some (pde / 2 ^ 22 * 2 ^ 22 + v % 2 ^ 22, bit pde 1)
      else
        let pte := s.mem.load32 (pde / 4096 * 4096 + 4 * (v / 4096 % 1024))
        if bit pte 0 then some (pte / 4096 * 4096 + v % 4096, bit pde 1 && bit pte 1) else none
    else none
  else some (v, true)

end AuraOS.Kernel.Paging
