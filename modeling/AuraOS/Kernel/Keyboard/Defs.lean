import AuraOS.Kernel.Core
import Mathlib.Logic.Function.Basic

/-!
# The keyboard driver

The functions of `kernel/keyboard.c`: the decoder of scancodes, with the state of the modifier keys, and the
ring buffer of characters.  Both operations of the ring are written as the sequence of their statements,
which an interrupt may separate.  The scancodes that the controller has ready are an argument of
`keyboardPoll`.
-/

namespace AuraOS.Kernel.Keyboard

open AuraOS.Kernel

abbrev kbBufferSize : ℕ := 32

/-! ### The decoder -/

/-- Characters as the bytes of the tables. -/
def bytes (cs : List Char) : List UInt8 := cs.map Char.toUInt8

/-- `scancode_ascii`. -/
def scancodeAscii : List UInt8 := bytes
  ['\x00', '\x00', '1', '2', '3', '4', '5', '6', '7', '8',
   '9', '0', '-', '=', '\x08', '\t', 'q', 'w', 'e', 'r',
   't', 'y', 'u', 'i', 'o', 'p', '[', ']', '\n', '\x00',
   'a', 's', 'd', 'f', 'g', 'h', 'j', 'k', 'l', ';',
   '\x27', '\x60', '\x00', '\x5c', 'z', 'x', 'c', 'v', 'b', 'n',
   'm', ',', '.', '/', '\x00', '*', '\x00', ' ']

/-- `scancode_ascii_shift`. -/
def scancodeAsciiShift : List UInt8 := bytes
  ['\x00', '\x00', '!', '@', '#', '$', '%', '^', '&', '*',
   '(', ')', '_', '+', '\x08', '\t', 'Q', 'W', 'E', 'R',
   'T', 'Y', 'U', 'I', 'O', 'P', '\x7b', '\x7d', '\n', '\x00',
   'A', 'S', 'D', 'F', 'G', 'H', 'J', 'K', 'L', ':',
   '\x22', '~', '\x00', '|', 'Z', 'X', 'C', 'V', 'B', 'N',
   'M', '<', '>', '?', '\x00', '*', '\x00', ' ']

/-- `SCANCODE_TABLE_SIZE`. -/
abbrev scancodeTableSize : ℕ := 58

theorem length_scancodeAscii : scancodeAscii.length = scancodeTableSize := rfl

theorem length_scancodeAsciiShift : scancodeAsciiShift.length = scancodeTableSize := rfl

abbrev scLshiftPress : UInt8 := 0x2A
abbrev scRshiftPress : UInt8 := 0x36
abbrev scLshiftRelease : UInt8 := 0xAA
abbrev scRshiftRelease : UInt8 := 0xB6
abbrev scCapslockPress : UInt8 := 0x3A

/-- `shift_held` and `caps_active`. -/
structure KeyState where
  shiftHeld : Bool
  capsActive : Bool
  deriving DecidableEq, Repr

/-- The body of the loop of `keyboard_poll` up to its `kb_push`: the modifier keys, and the character, which
is 0 where the body continues with the next scancode. -/
def scancode (sc : UInt8) (key : KeyState) : KeyState × UInt8 :=
  if sc = scLshiftPress ∨ sc = scRshiftPress then ({ key with shiftHeld := true }, 0)
  else if sc = scLshiftRelease ∨ sc = scRshiftRelease then ({ key with shiftHeld := false }, 0)
  else if sc = scCapslockPress then ({ key with capsActive := !key.capsActive }, 0)
  else if sc &&& 0x80 ≠ 0 then (key, 0)
  else if sc = 0xE0 then (key, 0)
  else if scancodeTableSize ≤ sc.toNat then (key, 0)
  else
    let useShift := key.shiftHeld ^^ key.capsActive
    (key, if useShift then scancodeAsciiShift.getD sc.toNat 0 else scancodeAscii.getD sc.toNat 0)

/-! ### The ring buffer -/

/-- `kb_buf`, `kb_head` (the position of the next write), `kb_tail` (that of the next read) and `kb_count`. -/
structure KbRing where
  buf : ℕ → UInt8
  head : ℕ
  tail : ℕ
  count : ℕ

namespace KbRing

variable (k : KbRing)

/-- `kb_buf[kb_head] = c`. -/
def store (c : UInt8) : KbRing := { k with buf := Function.update k.buf k.head c }

/-- `kb_head = (uint8_t)((kb_head + 1) % KB_BUFFER_SIZE)`. -/
def nextHead : KbRing := { k with head := (k.head + 1) % kbBufferSize }

/-- `kb_count++`. -/
def incCount : KbRing := { k with count := (k.count + 1) % 2 ^ 8 }

/-- `kb_tail = (uint8_t)((kb_tail + 1) % KB_BUFFER_SIZE)`. -/
def nextTail : KbRing := { k with tail := (k.tail + 1) % kbBufferSize }

/-- `kb_count--`. -/
def decCount : KbRing := { k with count := (k.count + 2 ^ 8 - 1) % 2 ^ 8 }

end KbRing

/-- `kb_push`. -/
def kbPush (c : UInt8) (k : KbRing) : KbRing :=
  if kbBufferSize ≤ k.count then k else (k.store c).nextHead.incCount

/-! ### The driver -/

structure State where
  key : KeyState
  ring : KbRing

/-- `keyboard_init`; the registration of the handler is left out. -/
def keyboardInit (s : State) : State :=
  ⟨⟨false, false⟩, { s.ring with head := 0, tail := 0, count := 0 }⟩

/-- `keyboard_poll` with the scancodes `scs` pending. -/
def keyboardPoll : List UInt8 → State → State
  | [], s => s
  | sc :: scs, s =>
    let (key, c) := scancode sc s.key
    keyboardPoll scs ⟨key, if c ≠ 0 then kbPush c s.ring else s.ring⟩

/-- `keyboard_getchar`. -/
def keyboardGetchar (s : State) : UInt8 × State :=
  if s.ring.count = 0 then (0, s)
  else (s.ring.buf s.ring.tail, { s with ring := s.ring.nextTail.decCount })

/-- `keyboard_push`. -/
def keyboardPush (c : UInt8) (s : State) : State := { s with ring := kbPush c s.ring }

/-- The static variables before `keyboardInit`. -/
def blank : State := ⟨⟨false, false⟩, ⟨fun _ => 0, 0, 0, 0⟩⟩

end AuraOS.Kernel.Keyboard
