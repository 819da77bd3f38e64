import AuraOS.Kernel.Core
import AuraOS.Lib.Loop
import Mathlib.Logic.Function.Basic

/-!
# The VGA text driver

The functions of `kernel/vga.c`.  `VGA_BUFFER` is a function on all indices, so that an access behind the
2000 cells of the screen is an access like any other; every access to it, to the ports of the cursor and
to the serial hook is an `Effect`, and the effects are kept in their order.

A `char` is a byte.  The formatting functions return `none` where the behaviour of C is not defined: a
local buffer overflows, or an argument is missing or of the wrong type.
-/

namespace AuraOS.Kernel.Vga

open AuraOS.Lib

abbrev vgaWidth : ℕ := 80
abbrev vgaHeight : ℕ := 25

/-- `VGA_COLOR_BLACK`. -/
abbrev vgaColorBlack : UInt32 := 0

/-- `VGA_COLOR_LIGHT_GREEN`. -/
abbrev vgaColorLightGreen : UInt32 := 10

/-- What a function does outside its variables. -/
inductive Effect where
  | read (i : ℕ)
  | write (i : ℕ) (v : UInt16)
  | outb (port : UInt16) (value : UInt8)
  | hook (c : UInt8)
  deriving DecidableEq, Repr

/-- `VGA_BUFFER`, the static variables (`gSerialHook` says whether the pointer is set), and the effects so
far. -/
structure Screen where
  buffer : ℕ → UInt16
  vgaRow : UInt8
  vgaCol : UInt8
  vgaColor : UInt8
  gSerialHook : Bool
  effects : List Effect

/-- The effects `es` follow. -/
def Screen.add (es : List Effect) (s : Screen) : Screen := { s with effects := s.effects ++ es }

/-- `VGA_BUFFER[i] = v`. -/
def Screen.store (i : ℕ) (v : UInt16) (s : Screen) : Screen :=
  { s with buffer := Function.update s.buffer i v, effects := s.effects ++ [.write i v] }

/-- `VGA_BUFFER[i] = VGA_BUFFER[j]`. -/
def Screen.copy (i j : ℕ) (s : Screen) : Screen := (s.add [.read j]).store i (s.buffer j)

/-- The index of the cell under the cursor. -/
def Screen.pos (s : Screen) : ℕ := s.vgaRow.toNat * vgaWidth + s.vgaCol.toNat

/-- `vga_make_color`; the colours are those of an `enum`, which has 32 bits. -/
def vgaMakeColor (fg bg : UInt32) : UInt8 := ((bg <<< 4) ||| (fg &&& 0x0F)).toUInt8

/-- `vga_make_entry`. -/
def vgaMakeEntry (c color : UInt8) : UInt16 := c.toUInt16 ||| (color.toUInt16 <<< 8)

/-- `vga_update_cursor`. -/
def vgaUpdateCursor (s : Screen) : Screen :=
  let pos := UInt16.ofNat s.pos
  s.add [.outb 0x3D4 0x0F, .outb 0x3D5 (pos &&& 0xFF).toUInt8, .outb 0x3D4 0x0E,
    .outb 0x3D5 ((pos >>> 8) &&& 0xFF).toUInt8]

/-- `vga_scroll`. -/
def vgaScroll (s : Screen) : Screen :=
  let s := upTo (vgaHeight - 1) (fun row => upTo vgaWidth fun col =>
    Screen.copy (row * vgaWidth + col) ((row + 1) * vgaWidth + col)) s
  let s := upTo vgaWidth (fun col s =>
    s.store ((vgaHeight - 1) * vgaWidth + col) (vgaMakeEntry 32 s.vgaColor)) s
  if s.vgaRow > 0 then { s with vgaRow := UInt8.ofNat (vgaHeight - 1) } else s

/-! ### The public functions -/

/-- `vga_clear`. -/
def vgaClear (s : Screen) : Screen :=
  let s := upTo vgaHeight (fun row => upTo vgaWidth fun col s =>
    s.store (row * vgaWidth + col) (vgaMakeEntry 32 s.vgaColor)) s
  vgaUpdateCursor { s with vgaRow := 0, vgaCol := 0 }

/-- `vga_init`. -/
def vgaInit (s : Screen) : Screen :=
  vgaClear { s with vgaRow := 0, vgaCol := 0, vgaColor := vgaMakeColor vgaColorLightGreen vgaColorBlack }

/-- `vga_set_color`. -/
def vgaSetColor (fg bg : UInt32) (s : Screen) : Screen := { s with vgaColor := vgaMakeColor fg bg }

/-- `vga_set_cursor`. -/
def vgaSetCursor (row col : UInt8) (s : Screen) : Screen := vgaUpdateCursor { s with vgaRow := row, vgaCol := col }

/-- `vga_set_serial_hook`. -/
def vgaSetSerialHook (set : Bool) (s : Screen) : Screen := { s with gSerialHook := set }

/-- `if (vga_col >= VGA_WIDTH) { vga_col = 0; vga_row++; }`. -/
def wrapLine (s : Screen) : Screen :=
  if s.vgaCol.toNat ≥ vgaWidth then { s with vgaCol := 0, vgaRow := s.vgaRow + 1 } else s

/-- The branches of `vgaPutchar`: newline, carriage return, tab, backspace, and all other characters. -/
def place (c : UInt8) (s : Screen) : Screen :=
  if c = 10 then { s with vgaCol := 0, vgaRow := s.vgaRow + 1 }
  else if c = 13 then { s with vgaCol := 0 }
  else if c = 9 then wrapLine { s with vgaCol := (s.vgaCol + 8) &&& ~~~7 }
  else if c = 8 then
    if s.vgaCol > 0 then
      let s := { s with vgaCol := s.vgaCol - 1 }
      s.store s.pos (vgaMakeEntry 32 s.vgaColor)
    else s
  else
    let s := s.store s.pos (vgaMakeEntry c s.vgaColor)
    wrapLine { s with vgaCol := s.vgaCol + 1 }

/-- `vga_putchar`. -/
def vgaPutchar (c : UInt8) (s : Screen) : Screen :=
  let s := place c s
  let s := if s.vgaRow.toNat ≥ vgaHeight then vgaScroll s else s
  let s := if s.gSerialHook then s.add [.hook c] else s
  vgaUpdateCursor s

/-- The loop of `vgaPrint`. -/
def printLoop : CStr → Screen → Screen
  | [], s => s
  | c :: str, s => if c = 0 then s else printLoop str (vgaPutchar c s)

/-- `vga_print`, and its alias `vga_puts`. -/
def vgaPrint (str : Option CStr) (s : Screen) : Screen :=
  match str with
  | none => s
  | some str => printLoop str s

/-- `vga_println`. -/
def vgaPrintln (str : Option CStr) (s : Screen) : Screen := vgaPutchar 10 (vgaPrint str s)

/-! ### Numbers -/

/-- `"0123456789ABCDEF"`. -/
def hex : CStr := [48, 49, 50, 51, 52, 53, 54, 55, 56, 57, 65, 66, 67, 68, 69, 70]

/-- The loop of `vgaPrintHex`, with `n` digits to go. -/
def hexLoop (val : UInt32) : ℕ → Screen → Screen
  | 0, s => s
  | n + 1, s => hexLoop val n (vgaPutchar (hex.chr ((val >>> UInt32.ofNat (4 * n)) &&& 0xF).toNat) s)

/-- `vga_print_hex`. -/
def vgaPrintHex (val : UInt32) (s : Screen) : Screen := hexLoop val 8 (vgaPrint (some [48, 120]) s)

/-- `char buf[12]`. -/
abbrev decBuf : ℕ := 12

/-- The filling loop of `vgaPrintDec`, with room for `n` more digits: the next index and the buffer, or
`none` if the buffer is too small. -/
def decFill : ℕ → UInt32 → Buf decBuf → Option (ℕ × Buf decBuf)
  | n, val, buf =>
    if val > 0 then
      match n with
      | 0 => none
      | n + 1 => decFill n (val / 10) (buf.wr (decBuf - (n + 1)) (48 + (val % 10).toUInt8))
    else some (decBuf - n, buf)

/-- The loop of `vgaPrintDec` that puts `buf[i - 1]`, …, `buf[0]`. -/
def decPut (buf : Buf decBuf) : ℕ → Screen → Screen
  | 0, s => s
  | i + 1, s => decPut buf i (vgaPutchar (buf.rd i) s)

/-- `vga_print_dec`, with the contents `buf` of the local array before it is written. -/
def vgaPrintDec (buf : Buf decBuf) (val : UInt32) (s : Screen) : Option Screen :=
  if val = 0 then some (vgaPutchar 48 s)
  else (decFill decBuf val buf).map fun (i, buf) => decPut buf i s

/-! ### Formatted output -/

/-- An argument of `vgaPrintf`. -/
inductive Arg where
  | int (v : Int32)
  | str (v : Option CStr)
  | uint (v : UInt32)

/-- The `switch` of `vgaPrintf` on the character `spec`: the arguments that are left, and the screen.  The
negation of an `int` wraps around. -/
def convert (buf : Buf decBuf) (spec : UInt8) (args : List Arg) (s : Screen) : Option (List Arg × Screen) :=
  if spec = 99 then
    match args with
    | .int v :: args => some (args, vgaPutchar v.toUInt32.toUInt8 s)
    | _ => none
  else if spec = 115 then
    match args with
    | .str v :: args => some (args, vgaPrint (some (v.getD [40, 110, 117, 108, 108, 41])) s)
    | _ => none
  else if spec = 100 then
    match args with
    | .int v :: args =>
      if v < 0 then (vgaPrintDec buf (-v).toUInt32 (vgaPutchar 45 s)).map (args, ·)
      else (vgaPrintDec buf v.toUInt32 s).map (args, ·)
    | _ => none
  else if spec = 117 then
    match args with
    | .uint v :: args => (vgaPrintDec buf v s).map (args, ·)
    | _ => none
  else if spec = 120 ∨ spec = 88 then
    match args with
    | .uint v :: args => some (args, vgaPrintHex v s)
    | _ => none
  else if spec = 37 then some (args, vgaPutchar 37 s)
  else some (args, vgaPutchar spec (vgaPutchar 37 s))

/-- The loop of `vgaPrintf` on the bytes from `fmt` on, at index `i`, after the reads at the indices
`reads`. -/
def printfLoop (buf : Buf decBuf) (fmt : ℕ → UInt8) :
    ℕ → ℕ → List Arg → List ℕ → Screen → Option (List ℕ × Screen)
  | 0, _, _, _, _ => none
  | fuel + 1, i, args, reads, s =>
    if fmt i = 0 then some (reads ++ [i], s)
    else if fmt i ≠ 37 then printfLoop buf fmt fuel (i + 1) args (reads ++ [i]) (vgaPutchar (fmt i) s)
    else
      match convert buf (fmt (i + 1)) args s with
      | none => none
      | some (args, s) => printfLoop buf fmt fuel (i + 2) args (reads ++ [i, i + 1]) s

/-- `vga_printf`, within `fuel` turns of its loop: the indices that it reads of the format, and the screen. -/
def vgaPrintf (buf : Buf decBuf) (fmt : Option (ℕ → UInt8)) (fuel : ℕ) (args : List Arg) (s : Screen) :
    Option (List ℕ × Screen) :=
  match fmt with
  | none => some ([], s)
  | some fmt => printfLoop buf fmt fuel 0 args [] s

/-! ### Calls -/

/-- A call of a public function. -/
inductive Call where
  | putchar (c : UInt8)
  | print (str : Option CStr)
  | clear
  | setColor (fg bg : UInt32)
  | setCursor (row col : UInt8)
  | setSerialHook (set : Bool)

def Call.apply : Call → Screen → Screen
  | putchar c => vgaPutchar c
  | print str => vgaPrint str
  | clear => vgaClear
  | setColor fg bg => vgaSetColor fg bg
  | setCursor row col => vgaSetCursor row col
  | setSerialHook set => vgaSetSerialHook set

/-- The calls one after the other. -/
def runCalls (calls : List Call) (s : Screen) : Screen := calls.foldl (fun s c => c.apply s) s

/-- The state after `vga_init`, with the effects counted from there. -/
def start (s : Screen) : Screen := vgaInit { s with effects := [] }

/-- The driver before `vga_init`, on an empty buffer. -/
def zeroVga : Screen := ⟨fun _ => 0, 0, 0, 0, false, []⟩

end AuraOS.Kernel.Vga
