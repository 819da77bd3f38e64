import AuraOS.Lib.Buffer

/-!
# Result codes and C strings

The status codes of `kernel.h`, and the string helpers of `kstring.c`.  A C string is the list of
its bytes, read with `chr`: the byte after the last one is the terminating NUL, and a NUL inside the
list ends the string there, as it does in C.
-/

namespace AuraOS.Kernel

open AuraOS.Lib

/-- `aura_status_t`. -/
inductive AuraStatus where
  | ok | err | nomem | noslot | notfound | busy
  deriving DecidableEq, Repr

/-- The bytes a `const char *` points to. -/
abbrev CStr := List UInt8

/-- Character `i` of a string. -/
def CStr.chr (s : CStr) (i : ℕ) : UInt8 := s.getD i 0

/-- The loop of `strlenK`, at `b[n]` with `k` bytes to go. -/
def strlenLoop {m : ℕ} (b : Buf m) : ℕ → ℕ → ℕ
  | 0, n => n
  | k + 1, n => if b.rd n ≠ 0 then strlenLoop b k (n + 1) else n

/-- `strlen_k` of the string in a buffer. -/
def strlenK {m : ℕ} (b : Buf m) : ℕ := strlenLoop b m 0

/-- The copying loop of `strncpyK`, at `dst[i]`. -/
def strncpyLoop {m : ℕ} (n : ℕ) : CStr → ℕ → Buf m → Buf m
  | [], i, dst => dst.wr i 0
  | c :: src, i, dst =>
    if i + 1 < n ∧ c ≠ 0 then strncpyLoop n src (i + 1) (dst.wr i c) else dst.wr i 0

/-- `strncpy_k(dst, src, n)`: at most `n - 1` characters and a NUL; the bytes of `dst` behind the NUL
stay as they are. -/
def strncpyK {m : ℕ} (dst : Buf m) (src : CStr) (n : ℕ) : Buf m := strncpyLoop n src 0 dst

/-- The comparing loop of `strncmpK`, from index `i` on, with `n` characters to go. -/
def strncmpLoop (a b : ℕ → UInt8) : ℕ → ℕ → Int
  | _, 0 => 0
  | i, n + 1 =>
    if a i ≠ b i then ((a i).toNat : Int) - (b i).toNat
    else if a i = 0 then 0
    else strncmpLoop a b (i + 1) n

/-- `strncmp_k(a, b, n)` on the character functions of the two strings. -/
def strncmpK (a b : ℕ → UInt8) (n : ℕ) : Int := strncmpLoop a b 0 n

end AuraOS.Kernel
