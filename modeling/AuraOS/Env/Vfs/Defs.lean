import AuraOS.Kernel.Strings
import AuraOS.Lib.Search
import AuraOS.Lib.Steps
import Mathlib.Logic.Function.Basic

/-!
# The virtual filesystem

The table of `env/fs.c`, as a function of the slot.  Pointers into the table are slots, and a result of
type `Int` is the one of the source.  `fs_read` returns the number of the bytes that it stores in the
caller's buffer; here it returns these bytes, and `none` for `-1`.
-/

namespace AuraOS.Env.Vfs

open AuraOS.Lib AuraOS.Kernel

abbrev fsMaxFiles : ℕ := 32
abbrev fsNameLen : ℕ := 24
abbrev fsDataSize : ℕ := 512

/-- `fs_node_type_t`. -/
inductive FsNodeType where
  | file | dir
  deriving DecidableEq, Repr

/-- `fs_node_t`. -/
structure FsNode where
  name : Buf fsNameLen
  type : FsNodeType
  size : UInt32
  data : Buf fsDataSize
  valid : Bool

/-- `fs_table`. -/
abbrev FsTable := ℕ → FsNode

/-- `"/"`. -/
def rootName : CStr := [47]

/-- `fs_find`. -/
def fsFind (name : CStr) (t : FsTable) : Option ℕ :=
  first (fun i => (t i).valid ∧ strncmpK (t i).name.rd name.chr fsNameLen = 0) fsMaxFiles 0

/-- The first node that is not valid. -/
def freeNode (t : FsTable) : Option ℕ := first (fun i => !(t i).valid) fsMaxFiles 0

/-- What `fs_create` makes of the node that it fills. -/
def newNode (name : CStr) (type : FsNodeType) (node : FsNode) : FsNode :=
  { node with name := strncpyK node.name name fsNameLen, type := type, size := 0, valid := true }

/-- `fs_create`. -/
def fsCreate (name : Option CStr) (type : FsNodeType) (t : FsTable) : Int × FsTable :=
  match name with
  | none => (-1, t)
  | some name =>
    if (fsFind name t).isSome then (-1, t)
    else
      match freeNode t with
      | some i => (0, Function.update t i (newNode name type (t i)))
      | none => (-1, t)

/-- `fs_init`. -/
def fsInit (t : FsTable) : FsTable :=
  (fsCreate (some rootName) .dir fun i => { t i with valid := false, size := 0 }).2

/-- The length that `fs_write` stores. -/
def clip (len : UInt32) : UInt32 := if UInt32.ofNat fsDataSize < len then UInt32.ofNat fsDataSize else len

/-- `fs_write`; `data` are the bytes that the pointer points to. -/
def fsWrite (name : CStr) (data : ℕ → UInt8) (len : UInt32) (t : FsTable) : Int × FsTable :=
  match fsFind name t with
  | none => (-1, t)
  | some i =>
    if (t i).type ≠ .file then (-1, t)
    else
      ((clip len).toNat, Function.update t i
        { t i with data := (t i).data.blit 0 (clip len).toNat data, size := clip len })

/-- `fs_read`. -/
def fsRead (name : CStr) (len : UInt32) (t : FsTable) : Option (List UInt8) :=
  match fsFind name t with
  | none => none
  | some i =>
    if (t i).type ≠ .file then none
    else
      let len := if (t i).size < len then (t i).size else len
      some ((List.range len.toNat).map (t i).data.rd)

/-- `fs_delete`. -/
def fsDelete (name : CStr) (t : FsTable) : Int × FsTable :=
  match fsFind name t with
  | none => (-1, t)
  | some i => (0, Function.update t i { t i with valid := false, size := 0 })

/-! ### Runs -/

/-- The calls, with their arguments and results. -/
inductive Act where
  | create (name : Option CStr) (type : FsNodeType) (res : Int)
  | write (name : CStr) (data : ℕ → UInt8) (len : UInt32) (res : Int)
  | read (name : CStr) (len : UInt32) (res : Option (List UInt8))
  | delete (name : CStr) (res : Int)

inductive Step : FsTable → Act → FsTable → Prop
  | create {t t' : FsTable} {name : Option CStr} {type : FsNodeType} {res : Int} :
      fsCreate name type t = (res, t') → Step t (.create name type res) t'
  | write {t t' : FsTable} {name : CStr} {data : ℕ → UInt8} {len : UInt32} {res : Int} :
      fsWrite name data len t = (res, t') → Step t (.write name data len res) t'
  | read {t : FsTable} {name : CStr} {len : UInt32} :
      Step t (.read name len (fsRead name len t)) t
  | delete {t t' : FsTable} {name : CStr} {res : Int} :
      fsDelete name t = (res, t') → Step t (.delete name res) t'

end AuraOS.Env.Vfs
