import AuraOS.Env.Fat12.Defs
import AuraOS.Kernel.Strings
import AuraOS.Lib.Search
import Mathlib.Logic.Function.Basic

/-!
# The environment registry

The table of `env/env.c` and the file `AIOS.ENV` it is saved in.  The table is a function of the slot;
a result of type `Int` is the `0` or `-1` of the source.

`env_save` writes the buffer that `saveLoop` has filled, here the list of the bytes up to `pos`.
`env_load` walks over the bytes it has read; the position is given by the bytes that are left, and the
NULs it writes end the strings that it passes to `env_set`, so they are not written back into the list.
-/

namespace AuraOS.Env

open AuraOS.Lib AuraOS.Kernel AuraOS.Env.Fat12

abbrev envMaxVars : ℕ := 16
abbrev envKeyLen : ℕ := 16
abbrev envValLen : ℕ := 32

/-- `env_var_t`. -/
structure EnvVar where
  key : Buf envKeyLen
  value : Buf envValLen
  set : Bool

/-- `env_table`. -/
abbrev EnvTable := ℕ → EnvVar

/-- `"OS_NAME"`. -/
def envKeyOsName : CStr := [79, 83, 95, 78, 65, 77, 69]

/-- `"OS_VERSION"`. -/
def envKeyOsVersion : CStr := [79, 83, 95, 86, 69, 82, 83, 73, 79, 78]

/-- `"AI Aura OS"`. -/
def osName : CStr := [65, 73, 32, 65, 117, 114, 97, 32, 79, 83]

/-- `"1.0.0"`. -/
def osVersion : CStr := [49, 46, 48, 46, 48]

/-- `"AIOS.ENV"`. -/
def aiosEnv : CStr := [65, 73, 79, 83, 46, 69, 78, 86]

/-! ### Setting and getting -/

/-- The first entry whose key is `key`. -/
def findVar (key : CStr) (t : EnvTable) : Option ℕ :=
  first (fun i => (t i).set ∧ strncmpK (t i).key.rd key.chr envKeyLen = 0) envMaxVars 0

/-- The first free entry. -/
def freeVar (t : EnvTable) : Option ℕ := first (fun i => !(t i).set) envMaxVars 0

/-- `env_set`. -/
def envSet (key value : Option CStr) (t : EnvTable) : Int × EnvTable :=
  match key, value with
  | some key, some value =>
    match findVar key t with
    | some i =>
      (0, Function.update t i { t i with value := strncpyK (t i).value value envValLen })
    | none =>
      match freeVar t with
      | some i =>
        let v : EnvVar :=
          { key := strncpyK (t i).key key envKeyLen
            value := strncpyK (t i).value value envValLen
            set := true }
        (0, Function.update t i v)
      | none => (-1, t)
  | _, _ => (-1, t)

/-- `env_get`; the result is the string that the pointer points to. -/
def envGet (key : Option CStr) (t : EnvTable) : Option CStr :=
  match key with
  | some key => (findVar key t).map fun i => str (t i).value
  | none => none

/-- `env_init`. -/
def envInit (t : EnvTable) : EnvTable :=
  let t : EnvTable := fun i => { t i with set := false }
  let t := (envSet (some envKeyOsName) (some osName) t).2
  (envSet (some envKeyOsVersion) (some osVersion) t).2

/-! ### Saving -/

/-- The bytes `"KEY=VALUE\n"` that the loop writes for an entry; `61` is `'='` and `10` is `'\n'`. -/
def EnvVar.line (v : EnvVar) : List UInt8 :=
  (List.range (strlenK v.key)).map v.key.rd ++ [61] ++
    (List.range (strlenK v.value)).map v.value.rd ++ [10]

/-- The loop of `envSave`, at entry `i` with `n` entries to go; `out` are the bytes written so far. -/
def saveLoop (t : EnvTable) : ℕ → ℕ → List UInt8 → List UInt8
  | 0, _, out => out
  | n + 1, i, out =>
    if out.length < 511 then
      if !(t i).set then saveLoop t n (i + 1) out
      else if out.length + strlenK (t i).key + 1 + strlenK (t i).value + 1 ≥ 512 then out
      else saveLoop t n (i + 1) (out ++ (t i).line)
    else out

/-- The bytes that `envSave` hands to `fat12_write_file`. -/
def saveBytes (t : EnvTable) : List UInt8 := saveLoop t envMaxVars 0 []

/-- `env_save`; `none` is the result `-1`. -/
def envSave (t : EnvTable) (s : Driver) : Option ℕ × Driver :=
  fat12WriteFile (some aiosEnv) (some fun i => (saveBytes t).getD i 0) (saveBytes t).length s

/-! ### Loading -/

/-- The loop of `envLoad` on the bytes that are left, with at most `n` lines to go. -/
def loadLoop : ℕ → List UInt8 → EnvTable → EnvTable
  | 0, _, t => t
  | n + 1, rest, t =>
    let key := rest.takeWhile fun c => c ≠ 61 ∧ c ≠ 10
    match rest.dropWhile fun c => c ≠ 61 ∧ c ≠ 10 with
    | [] => t
    | c :: after =>
      if c = 61 then
        let value := after.takeWhile (· ≠ 10)
        loadLoop n ((after.dropWhile (· ≠ 10)).drop 1) (envSet (some key) (some value) t).2
      else loadLoop n after t

/-- `env_load`; every line takes at least one byte. -/
def envLoad (t : EnvTable) (s : Driver) : Int × EnvTable × Driver :=
  match fat12ReadFile (some aiosEnv) true 511 s with
  | (some (c :: bytes), s) => (0, loadLoop (c :: bytes).length (c :: bytes) t, s)
  | (_, s) => (-1, t, s)

end AuraOS.Env
